import TransactionRelay.Proofs.Registration.Attempting
import TransactionRelay.Proofs.Registration.Handling
import TransactionRelay.Registration.Command

namespace TransactionRelay
namespace Effect

inductive Cycles (hubEvents : List EventRecord) (scanned current : UInt64) (force : Bool) :
    Effect Outcome
  | scanFailed {m failure added m'}
      (scan : Scans hubEvents scanned current m (.error failure) added m') :
      Cycles hubEvents scanned current force m (.error failure) added m'
  | releaseFailed {m hashes added middle failure more m'}
      (scan : Scans hubEvents scanned current m (.ok hashes) added middle)
      (release : Releases current middle (.error failure) more m') :
      Cycles hubEvents scanned current force m (.error failure) (added ++ more) m'
  | registerFailed {m hashes added middle others more m' failure last}
      (scan : Scans hubEvents scanned current m (.ok hashes) added middle)
      (release : Releases current middle (.ok others) more m')
      (register : Registers current force m' (.error failure) last m') :
      Cycles hubEvents scanned current force m (.error failure) (added ++ more ++ last) m'
  | done {m hashes added middle others more m' sent last}
      (scan : Scans hubEvents scanned current m (.ok hashes) added middle)
      (release : Releases current middle (.ok others) more m')
      (register : Registers current force m' (.ok sent) last m') :
      Cycles hubEvents scanned current force m
        (.ok { hashes := hashes ++ others ++ sent, notifications := m'.notifications })
        (added ++ more ++ last) { m' with notifications := [] }

inductive Initialises : Effect Unit
  | again {m} (ready : m.initialized = true) : Initialises m (.error .alreadyInitialized) [] m
  | unsettled {m fault} (fresh : m.initialized = false) (faulty : m.settings.validate = .error fault) :
      Initialises m (.error (.ofSettings fault)) [] m
  | unread {m} (fresh : m.initialized = false) (bare : m.workerEvidence = none)
      (failure : LedgerFailure) :
      Initialises m (.error (.ledger failure))
        [.asked (.hubEvents [.relayWorkersAdded] [Address.topic m.address] (.startingAt evidenceFrom))
          (.error failure)] m
  | found {m} (fresh : m.initialized = false) (sound : m.settings.validate = .ok ())
      (bare : m.workerEvidence = none) (events : List EventRecord) :
      Initialises m (.ok ())
        [.asked (.hubEvents [.relayWorkersAdded] [Address.topic m.address] (.startingAt evidenceFrom))
          (.ok events)]
        { m with workerEvidence := EventRecord.latest events, initialized := true }
  | known {m} (fresh : m.initialized = false) (sound : m.settings.validate = .ok ())
      (held : m.workerEvidence ≠ none) : Initialises m (.ok ()) [] { m with initialized := true }

inductive Takes : Effect (List Notification)
  | taken {m} : Takes m (.ok m.notifications) [] { m with notifications := [] }

inductive Explains : Effect Unit
  | explained {m} : Explains m (.ok ()) m.explain m

end Effect

open Effect

def Command.effect : Command → Effect Reply
  | .initialise => Maps (fun _ => .done) Initialises
  | .handle hubEvents scanned current force => Maps .outcome (Cycles hubEvents scanned current force)
  | .attempt block => Maps .hashes (Attempts block)
  | .withdraw block managerFunds => Maps .hashes (Sweeps .demand managerFunds block)
  | .refreshBalance => Maps (fun _ => .done) ReadsBalance
  | .refreshStake => Maps (fun _ => .done) ReadsStake
  | .takeNotifications => Maps .notifications Takes
  | .explain => Maps (fun _ => .done) Explains

-- What a whole run of commands can do: a failure ends its command, and the run goes on.
inductive Works : List Command → Manager → List Entry → Manager → Prop
  | nil {m} : Works [] m [] m
  | cons {command rest m r added middle more m'} : command.effect m r added middle →
      Works rest middle more m' → Works (command :: rest) m (added ++ more) m'

namespace Action

variable {ω : Type} (c : Collaborators ω)

theorem takeNotifications_follows : (takeNotifications : Action ω (List Notification)).Follows Takes := by
  intro m
  exact ends_manager (ends_change (ends_pure .taken))

theorem handlePastEvents_follows (hubEvents : List EventRecord) (scanned current : UInt64)
    (force : Bool) : (handlePastEvents c hubEvents scanned current force).Follows
      (Cycles hubEvents scanned current force) := by
  intro m
  refine ends_bind (scan_follows c hubEvents scanned current m) ?_ ?_
  · exact fun failure added m' scan => .scanFailed scan
  intro hashes added middle scan
  refine ends_bind (releaseDue_follows c current middle) ?_ ?_
  · exact fun failure more m' release => .releaseFailed scan release
  intro others more m' release
  refine ends_bind (registerIfNeeded_follows c current force m') ?_ ?_
  · intro failure last m'' register
    cases register.memory
    rw [← List.append_assoc]
    exact .registerFailed scan release register
  intro sent last m'' register
  cases register.memory
  refine ends_bind (takeNotifications_follows m') ?_ ?_
  · intro failure none m'' take
    cases take
  intro notifications none m'' take
  cases take
  refine ends_pure ?_
  simpa using Cycles.done scan release register

theorem initialise_follows : (initialise c).Follows Initialises := by
  intro m
  refine ends_manager ?_
  cases ready : m.initialized with
  | true => exact ends_thrown (.again ready)
  | false =>
    cases valid : m.settings.validate with
    | error fault => exact ends_thrown (.unsettled ready valid)
    | ok _ =>
      cases bare : m.workerEvidence with
      | none =>
        refine ends_ask (fun failure => .unread ready bare failure) fun events => ends_change (change_ends ?_)
        exact .found ready valid bare events
      | some event =>
        exact change_ends (.known ready valid (by simp [bare]))

end Action

variable {ω : Type} (c : Collaborators ω)

theorem Command.action_follows (command : Command) : (command.action c).Follows command.effect := by
  cases command with
  | initialise => exact Action.maps_follows _ (Action.initialise_follows c)
  | handle hubEvents scanned current force =>
    exact Action.maps_follows _ (Action.handlePastEvents_follows c hubEvents scanned current force)
  | attempt block => exact Action.maps_follows _ (Action.attemptRegistration_follows c block)
  | withdraw block managerFunds => exact Action.maps_follows _ (Action.sweep_follows c _ managerFunds block)
  | refreshBalance => exact Action.maps_follows _ (Action.refreshBalance_follows c)
  | refreshStake => exact Action.maps_follows _ (Action.refreshStake_follows c)
  | takeNotifications => exact Action.maps_follows _ Action.takeNotifications_follows
  | explain =>
    intro m
    refine Action.ends_manager (Action.ends_note (Action.ends_pure ?_))
    rw [List.append_nil]
    exact .given Explains.explained

theorem adds_eq {before after : Session ω} {added : List Entry}
    (journal : after.journal = before.journal ++ added) : before.adds after = added := by
  rw [Session.adds, journal, List.drop_left]

theorem Action.Ends.adds {α : Type} {action : Action ω α} {s : Session ω} {ending : Ending α}
    (ends : action.Ends s.manager ending) :
    ending (action.runOn s).1 (s.adds (action.runOn s).2) (action.runOn s).2.manager := by
  obtain ⟨added, journal, reached⟩ := ends s _ _ rfl rfl
  have gained : s.adds (action.runOn s).2 = added := adds_eq journal
  rwa [gained]

theorem perform_effect (s : Session ω) (command : Command) :
    command.effect s.manager (s.perform c command).1 (s.adds (s.perform c command).2)
      (s.perform c command).2.manager :=
  (Command.action_follows c command s.manager).adds

theorem perform_journal (s : Session ω) (command : Command) :
    (s.perform c command).2.journal = s.journal ++ s.adds (s.perform c command).2 := by
  obtain ⟨added, journal, _⟩ := Command.action_follows c command s.manager s _ _ rfl rfl
  have gained : s.adds (s.perform c command).2 = added := adds_eq journal
  rw [gained]
  exact journal

theorem performAll_journal (s : Session ω) (commands : List Command) :
    ∃ added, (s.performAll c commands).2.journal = s.journal ++ added ∧
      Works commands s.manager added (s.performAll c commands).2.manager := by
  induction commands generalizing s with
  | nil => exact ⟨[], by simp [Session.performAll], .nil⟩
  | cons command rest ih =>
    obtain ⟨added, journal, effect⟩ := Command.action_follows c command s.manager s _ _ rfl rfl
    obtain ⟨more, later, work⟩ := ih (s.perform c command).2
    refine ⟨added ++ more, ?_, .cons effect work⟩
    rw [← List.append_assoc, ← journal]
    exact later

theorem performAll_works (s : Session ω) (commands : List Command) :
    Works commands s.manager (s.adds (s.performAll c commands).2)
      (s.performAll c commands).2.manager := by
  obtain ⟨added, journal, works⟩ := performAll_journal c s commands
  rw [adds_eq journal]
  exact works

end TransactionRelay
