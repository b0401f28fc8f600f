import TransactionRelay.Polling.Poller
import TransactionRelay.Proofs.Registration.Aside
import TransactionRelay.Proofs.Registration.Parts

namespace TransactionRelay
namespace Effect

inductive Readies : Effect Unit
  | known {m} (ready : m.initialized = true) : Readies m (.ok ()) [] m
  | first {m r added m'} (fresh : m.initialized = false) (run : Initialises m r added m') :
      Readies m r added m'

theorem Readies.aside {m r added m'} (run : Readies m r added m') : Aside m added m' := by
  cases run with
  | known ready => exact aside_still (by simp)
  | first fresh run => exact run.aside

end Effect

open Effect

-- The question for the hub's events of a range.
def Manager.hubQuery (m : Manager) (scanned current : UInt64) : Call :=
  .hubEvents EventKind.ofHub [Address.topic m.address] (.since scanned current)

namespace Poller

-- How a poll comes to the manager's own cycle. The block that it has read is a new one.
inductive Opens (scanned current : UInt64) (hubEvents : List EventRecord) :
    Manager → List Entry → Manager → Prop
  | opened {m added middle more m'} (ready : Readies m (.ok ()) added middle)
      (newer : scanned < current) (balance : ReadsBalance middle (.ok ()) more m') :
      Opens scanned current hubEvents m
        (added ++ .asked .blockNumber (.ok current) ::
          (more ++ [.asked (m'.hubQuery scanned current) (.ok hubEvents)])) m'

def submissionNotice (outcome : Outcome) (current : UInt64) : List Entry :=
  if outcome.hashes.isEmpty then [] else [.logged (.submitted outcome.hashes current)]

theorem submissionNotice_quiet (outcome : Outcome) (current : UInt64) :
    Manager.Quiet (submissionNotice outcome current) := by
  unfold submissionNotice
  split
  · exact Manager.quiet_nil
  · exact Manager.quiet_cons Manager.quiet_nil

-- Polls that do not come to the cycle.
inductive Stops (scanned : UInt64) :
    Manager → Except PollFailure (Outcome × UInt64) → List Entry → Manager → Prop
  | unready {m failure added m'} (ready : Readies m (.error failure) added m') :
      Stops scanned m (.error (.initialisation failure)) added m'
  | blockless {m added m'} (ready : Readies m (.ok ()) added m') (failure : LedgerFailure) :
      Stops scanned m (.error (.blockNumber failure))
        (added ++ [.asked .blockNumber (.error failure)]) m'
  | idle {m added m'} (ready : Readies m (.ok ()) added m') (current : UInt64)
      (old : current ≤ scanned) :
      Stops scanned m (.ok ({}, scanned))
        (added ++ [.asked .blockNumber (.ok current), .logged (.noNewBlock scanned)]) m'
  | unread {m added middle failure more m'} (ready : Readies m (.ok ()) added middle)
      (current : UInt64) (balance : ReadsBalance middle (.error failure) more m') :
      Stops scanned m (.error (.cycle failure)) (added ++ .asked .blockNumber (.ok current) :: more) m'
  | unheard {m added middle more m'} (ready : Readies m (.ok ()) added middle) (current : UInt64)
      (balance : ReadsBalance middle (.ok ()) more m') (failure : LedgerFailure) :
      Stops scanned m (.error (.hubEvents failure))
        (added ++ .asked .blockNumber (.ok current) ::
          (more ++ [.asked (m'.hubQuery scanned current) (.error failure)])) m'

inductive Polls (scanned : UInt64) :
    Manager → Except PollFailure (Outcome × UInt64) → List Entry → Manager → Prop
  | stopped {m r added m'} (stop : Stops scanned m r added m') : Polls scanned m r added m'
  | failed {m current hubEvents opening middle failure added m'}
      (opens : Opens scanned current hubEvents m opening middle)
      (cycle : Cycles hubEvents scanned current false middle (.error failure) added m') :
      Polls scanned m (.error (.cycle failure)) (opening ++ added) m'
  | done {m current hubEvents opening middle outcome added m'}
      (opens : Opens scanned current hubEvents m opening middle)
      (cycle : Cycles hubEvents scanned current false middle (.ok outcome) added m') :
      Polls scanned m (.ok (outcome, current))
        (opening ++ (added ++ submissionNotice outcome current)) m'

def scannedAfter (scanned : UInt64) : Except PollFailure (Outcome × UInt64) → UInt64
  | .ok (_, current) => current
  | .error _ => scanned

section

variable {ω : Type} {α β : Type}

def Ends (poll : Poll ω α) (s : Session ω)
    (ending : Except PollFailure α → List Entry → Manager → Prop) : Prop :=
  ∃ added, (poll.run.run s).2.journal = s.journal ++ added ∧
    ending (poll.run.run s).1 added (poll.run.run s).2.manager

variable {s : Session ω} {ending : Except PollFailure β → List Entry → Manager → Prop}

theorem ends_pure {b : β} (given : ending (.ok b) [] s.manager) :
    Ends (pure b : Poll ω β) s ending := ⟨[], (List.append_nil _).symm, given⟩

theorem ends_thrown {failure : PollFailure} {next : α → Poll ω β}
    (thrown : ending (.error failure) [] s.manager) :
    Ends (throw failure >>= next : Poll ω β) s ending := ⟨[], (List.append_nil _).symm, thrown⟩

theorem ends_note {entries : List Entry} {next : Unit → Poll ω β}
    (rest : Ends (next ()) (s.note entries) fun r more m' => ending r (entries ++ more) m') :
    Ends (modify (Session.note entries) >>= next) s ending := by
  obtain ⟨more, journal, ended⟩ := rest
  exact ⟨entries ++ more, by rw [← List.append_assoc]; exact journal, ended⟩

theorem ends_request {c : Collaborators ω} {call : Call}
    {next : Except call.Failure call.Answer → Poll ω β}
    (rest : ∀ reply s', s'.manager = s.manager →
      Ends (next reply) s' fun r more m' => ending r (.asked call reply :: more) m') :
    Ends (modifyGet (Session.request c call) >>= next) s ending := by
  obtain ⟨more, journal, ended⟩ := rest (s.request c call).1 (s.request c call).2 rfl
  refine ⟨.asked call (s.request c call).1 :: more, ?_, ended⟩
  rw [← List.singleton_append, ← List.append_assoc]
  exact journal

theorem run_ofAction (report : RegistrationFailure → PollFailure) (action : Action ω α)
    (next : α → Poll ω β) (s : Session ω) :
    (ofAction report action >>= next).run.run s =
      match action.runOn s with
      | (.ok a, s') => (next a).run.run s'
      | (.error failure, s') => (.error (report failure), s') := by
  change (ExceptT.bindCont next (Except.mapError report (action.runOn s).1)) (action.runOn s).2 = _
  cases action.runOn s with
  | mk r s' => cases r <;> rfl

theorem ends_action {action : Action ω α} {effect : Effect α} (follows : action.Follows effect)
    {report : RegistrationFailure → PollFailure} {next : α → Poll ω β}
    (failed : ∀ failure added m', effect s.manager (.error failure) added m' →
      ending (.error (report failure)) added m')
    (rest : ∀ a added s', effect s.manager (.ok a) added s'.manager →
      Ends (next a) s' fun r more m' => ending r (added ++ more) m') :
    Ends (ofAction report action >>= next) s ending := by
  unfold Ends
  rw [run_ofAction]
  cases ran : action.runOn s with
  | mk r s' =>
    obtain ⟨added, journal, effect⟩ := follows s.manager s r s' rfl ran
    cases r with
    | error failure => exact ⟨added, journal, failed failure added _ effect⟩
    | ok a =>
      obtain ⟨more, later, ended⟩ := rest a added s' effect
      exact ⟨added ++ more, by rw [later, journal, List.append_assoc], ended⟩

variable (c : Collaborators ω)

theorem ends_get {next : Session ω → Poll ω β} (rest : Ends (next s) s ending) :
    Ends (get >>= next) s ending := rest

theorem cycle_polls (scanned : UInt64) (s : Session ω) :
    Ends (cycle c scanned) s (Polls scanned s.manager) := by
  unfold cycle
  refine ends_get ?_
  extract_lets m jp after
  have opened : ∀ added s', Readies s.manager (.ok ()) added s'.manager →
      Ends (after ()) s' fun r more m' => Polls scanned s.manager r (added ++ more) m' := by
    intro added s' ready
    refine ends_request fun reply middle same => ?_
    rw [← same] at ready
    cases reply with
    | error failure => exact ends_thrown (.stopped (.blockless ready failure))
    | ok current =>
      change Ends (jp current) middle _
      dsimp only [jp]
      by_cases old : current ≤ scanned
      · rw [if_pos old]
        exact ends_note (ends_pure (.stopped (.idle ready current old)))
      rw [if_neg old]
      have newer : scanned < current := UInt64.not_le.mp old
      refine ends_action (Action.refreshBalance_follows c) ?_ fun _ more later balance => ends_get ?_
      · exact fun failure more m' balance => .stopped (.unread ready current balance)
      refine ends_request fun reply last same => ?_
      cases reply with
      | error failure =>
        refine ends_thrown ?_
        rw [same]
        exact .stopped (.unheard ready current balance failure)
      | ok hubEvents =>
        have opens : Opens scanned current hubEvents s.manager _ later.manager :=
          .opened ready newer balance
        refine ends_action (Action.handlePastEvents_follows c hubEvents scanned current false) ?_ ?_
        · intro failure cycled m' run
          rw [same] at run
          simpa [Manager.hubQuery] using Polls.failed opens run
        intro outcome cycled final run
        rw [same] at run
        have polled := Polls.done opens run
        unfold submissionNotice at polled
        cases idle : outcome.hashes.isEmpty with
        | true =>
          rw [if_neg (by decide)]
          refine ends_pure ?_
          simpa [Manager.hubQuery, idle] using polled
        | false =>
          rw [if_pos (by decide)]
          refine ends_note (ends_pure ?_)
          change Polls scanned s.manager _ _ final.manager
          simpa [Manager.hubQuery, idle] using polled
  cases known : s.manager.initialized with
  | true =>
    rw [if_neg (by decide)]
    exact opened [] s (.known known)
  | false =>
    rw [if_pos (by decide)]
    refine ends_action (Action.initialise_follows c) ?_ ?_
    · exact fun failure added m' run => .stopped (.unready (.first known run))
    · exact fun _ added s' run => opened added s' (.first known run)

theorem pollOnce_returns (p : Poller ω) :
    ∃ r added, (pollOnce c p).1 = r.map Prod.fst ∧
      (pollOnce c p).2.session.journal = p.session.journal ++ added ∧
      Polls p.scanned p.session.manager r added (pollOnce c p).2.session.manager ∧
      (pollOnce c p).2.scanned = scannedAfter p.scanned r := by
  obtain ⟨added, journal, polled⟩ := cycle_polls c p.scanned p.session
  refine ⟨((cycle c p.scanned).run.run p.session).1, added, ?_⟩
  unfold pollOnce
  cases ran : (cycle c p.scanned).run.run p.session with
  | mk r s' =>
    rw [ran] at journal polled
    cases r <;> exact ⟨rfl, journal, polled, rfl⟩

theorem pollOnce_polls (p : Poller ω) :
    ∃ r added, (pollOnce c p).2.session.journal = p.session.journal ++ added ∧
      Polls p.scanned p.session.manager r added (pollOnce c p).2.session.manager ∧
      (pollOnce c p).2.scanned = scannedAfter p.scanned r := by
  obtain ⟨r, added, _, polled⟩ := pollOnce_returns c p
  exact ⟨r, added, polled⟩

def polls : Nat → Poller ω → Poller ω
  | 0, p => p
  | n + 1, p => (pollOnce c (polls n p)).2

def fresh (settings : ServerSettings) (address worker : String) (world : ω) (pollMillis : Nat)
    (policy : RetryPolicy) (scanned : UInt64) : Poller ω :=
  { session := .fresh settings address worker world, pollMillis, policy, scanned }

end
end Poller

theorem Manager.aside_hubQuery (m : Manager) (scanned current : UInt64)
    (reply : Except LedgerFailure (List EventRecord)) :
    Aside m [.asked (m.hubQuery scanned current) reply] m :=
  aside_still (by simp [Entry.plain, hubQuery])

theorem Poller.Stops.parts {scanned m r added m'} (stop : Stops scanned m r added m') :
    scannedAfter scanned r = scanned ∧ (Aside m added m' ∨
      ∃ early middle reply late, added = early ++ .asked .blockNumber reply :: late ∧
        Aside m early middle ∧ Aside middle late m') := by
  have silent {m : Manager} : Aside m [] m := aside_still (by simp)
  cases stop with
  | unready ready => exact ⟨rfl, .inl ready.aside⟩
  | blockless ready failure => exact ⟨rfl, .inr ⟨_, _, _, _, rfl, ready.aside, silent⟩⟩
  | idle ready current old =>
    exact ⟨rfl, .inr ⟨_, _, _, _, rfl, ready.aside, aside_still (by simp [Entry.plain])⟩⟩
  | unread ready current balance => exact ⟨rfl, .inr ⟨_, _, _, _, rfl, ready.aside, balance.aside⟩⟩
  | unheard ready current balance failure =>
    have asked := balance.aside.trans (m'.aside_hubQuery scanned current (.error failure))
    exact ⟨rfl, .inr ⟨_, _, _, _, rfl, ready.aside, asked⟩⟩

theorem Poller.Opens.parts {scanned current hubEvents m added m'}
    (opens : Opens scanned current hubEvents m added m') : scanned < current ∧
      ∃ early middle late, added = early ++ .asked .blockNumber (.ok current) :: late ∧
        Aside m early middle ∧ Aside middle late m' := by
  cases opens with
  | opened ready newer balance =>
    have asked := balance.aside.trans (m'.aside_hubQuery scanned current (.ok hubEvents))
    exact ⟨newer, _, _, _, rfl, ready.aside, asked⟩

namespace Effect

theorem Readies.obeys {R : Relation} (trail : Trail R) {m r added m'} (run : Readies m r added m') :
    R m added m' := by
  cases run with
  | known ready => exact trail.refl m
  | first fresh run => exact run.obeys trail

end Effect

namespace Poller

section

-- A relation that every part of a manager's work keeps, and that reading the block keeps too.
variable {R : Relation} (course : Course R) (read : ∀ m block, R m [.asked .blockNumber (.ok block)] m)

include course read

theorem Opens.obeys {scanned current hubEvents m added m'}
    (opens : Opens scanned current hubEvents m added m') : R m added m' := by
  cases opens with
  | @opened _ middle _ _ ready newer balance =>
    have asked := course.trans (balance.obeys course.toTrail)
      (course.part (.listed (m'.hubQuery scanned current) hubEvents rfl))
    exact course.trans (ready.obeys course.toTrail) (course.trans (read middle current) asked)

theorem Stops.obeys {scanned m r added m'} (stop : Stops scanned m r added m') : R m added m' := by
  cases stop with
  | unready ready => exact ready.obeys course.toTrail
  | blockless ready failure =>
    exact course.trans (ready.obeys course.toTrail) (course.part (.unanswered .blockNumber failure rfl))
  | idle ready current old =>
    have noted : R m' [.logged (.noNewBlock scanned)] m' :=
      course.part (.noted (Manager.quiet_cons Manager.quiet_nil))
    exact course.trans (ready.obeys course.toTrail) (course.trans (read m' current) noted)
  | @unread _ middle _ _ _ ready current balance =>
    exact course.trans (ready.obeys course.toTrail)
      (course.trans (read middle current) (balance.obeys course.toTrail))
  | @unheard _ middle _ _ ready current balance failure =>
    have asked := course.trans (balance.obeys course.toTrail)
      (course.part (.unanswered (m'.hubQuery scanned current) failure rfl))
    exact course.trans (ready.obeys course.toTrail) (course.trans (read middle current) asked)

theorem Polls.obeys {scanned m r added m'} (forgot : ∀ m, R m [] (Manager.forgetHandled scanned m).1)
    (run : Polls scanned m r added m') : R m added m' := by
  cases run with
  | stopped stop => exact stop.obeys course read
  | failed opens cycle => exact course.trans (opens.obeys course read) (cycle_obeys course forgot cycle)
  | @done current _ _ _ outcome _ _ opens cycle =>
    have noted : R m' (submissionNotice outcome current) m' :=
      course.part (.noted (submissionNotice_quiet outcome current))
    have cycled := course.trans (cycle_obeys course forgot cycle) noted
    exact course.trans (opens.obeys course read) cycled

theorem polls_obey (forgot : ∀ scanned m, R m [] (Manager.forgetHandled scanned m).1) {ω : Type}
    (c : Collaborators ω) (p : Poller ω) (n : Nat) :
    ∃ added, (polls c n p).session.journal = p.session.journal ++ added ∧
      R p.session.manager added (polls c n p).session.manager := by
  induction n with
  | zero => exact ⟨[], (List.append_nil _).symm, course.refl _⟩
  | succ n ih =>
    obtain ⟨added, journal, before⟩ := ih
    obtain ⟨r, more, later, polled, _⟩ := pollOnce_polls c (polls c n p)
    refine ⟨added ++ more, ?_, course.trans before (polled.obeys course read (forgot _))⟩
    rw [← List.append_assoc, ← journal]
    exact later

theorem fresh_obey (forgot : ∀ scanned m, R m [] (Manager.forgetHandled scanned m).1) {ω : Type}
    (c : Collaborators ω) (settings : ServerSettings) (address worker : String) (world : ω)
    (pollMillis : Nat) (policy : RetryPolicy) (start : UInt64) (n : Nat) :
    let p := polls c n (.fresh settings address worker world pollMillis policy start)
    R (Manager.new settings address worker) p.session.journal p.session.manager := by
  intro p
  obtain ⟨added, journal, obeyed⟩ := polls_obey course read forgot c
    (.fresh settings address worker world pollMillis policy start) n
  have whole : p.session.journal = added := journal
  rw [whole]
  exact obeyed

end
end Poller

theorem BlockRange.since_holds {scanned current : UInt64} (newer : scanned < current) (block : UInt64) :
    (since scanned current).holds block = (decide (scanned < block) && decide (block ≤ current)) := by
  have first : scanned + 1 ≤ block ↔ scanned < block := by
    rw [UInt64.lt_iff_toNat_lt] at newer
    have bound := current.toNat_lt
    rw [UInt64.le_iff_toNat_le, UInt64.lt_iff_toNat_lt, UInt64.toNat_add, UInt64.toNat_one]
    omega
  simp [holds, since, first]

end TransactionRelay
