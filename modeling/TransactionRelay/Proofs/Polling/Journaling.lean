import TransactionRelay.Proofs.Polling.Polls
import TransactionRelay.Proofs.Registration.Composed

namespace TransactionRelay

variable {ω α β : Type} {c : Collaborators ω}

-- The journal is written and never read.
def Session.behind (past : List Entry) (s : Session ω) : Session ω :=
  { s with journal := past ++ s.journal }

theorem Session.request_behind (call : Call) (past : List Entry) (s : Session ω) :
    (s.behind past).request c call = ((s.request c call).1, (s.request c call).2.behind past) := by
  simp [request, behind]

theorem Session.note_behind (entries past : List Entry) (s : Session ω) :
    (s.behind past).note entries = (s.note entries).behind past := by
  simp [note, behind]

theorem Session.apply_behind (step : Manager.Step) (past : List Entry) (s : Session ω) :
    (s.behind past).apply step = (s.apply step).behind past := by
  simp [apply, behind]

-- However an operation is put together, nothing in it asks for the journal.
theorem Action.Composed.behind {action : Action ω α} (composed : Composed c action) (past : List Entry)
    (s : Session ω) :
    action.runOn (s.behind past) = ((action.runOn s).1, (action.runOn s).2.behind past) := by
  induction composed generalizing s with
  | given | thrown | looked => rfl
  | asked call =>
    rw [runOn_ask, runOn_ask, Session.request_behind]
    rfl
  | changed step => exact congrArg (Prod.mk _) (Session.apply_behind step past s)
  | noted entries => exact congrArg (Prod.mk _) (Session.note_behind entries past s)
  | @bound _ _ action next start rest ihStart ihRest =>
    rw [runOn_bind, runOn_bind, ihStart s]
    cases action.runOn s with
    | mk r middle =>
      cases r with
      | error failure => rfl
      | ok a => exact ihRest a middle

namespace Poller

def Blind (poll : Poll ω α) : Prop :=
  ∀ past s, poll.run.run (s.behind past) = ((poll.run.run s).1, (poll.run.run s).2.behind past)

theorem blind_pure (a : α) : Blind (pure a : Poll ω α) := fun _ _ => rfl

theorem blind_thrown (failure : PollFailure) (next : α → Poll ω β) :
    Blind (throw failure >>= next : Poll ω β) := fun _ _ => rfl

-- What is read of the session has to be the same behind any past.
theorem blind_get {next : Session ω → Poll ω α} (same : ∀ past s, next (s.behind past) = next s)
    (each : ∀ s, Blind (next s)) : Blind (get >>= next : Poll ω α) := by
  intro past s
  change (next (s.behind past)).run.run (s.behind past) = _
  rw [same past s]
  exact each s past s

theorem blind_note {entries : List Entry} {next : Unit → Poll ω α} (rest : Blind (next ())) :
    Blind (modify (Session.note entries) >>= next : Poll ω α) := by
  intro past s
  change (next ()).run.run ((s.behind past).note entries) = _
  rw [Session.note_behind]
  exact rest past (s.note entries)

theorem blind_request {call : Call} {next : Except call.Failure call.Answer → Poll ω α}
    (rest : ∀ reply, Blind (next reply)) :
    Blind (modifyGet (Session.request c call) >>= next : Poll ω α) := by
  intro past s
  change (next ((s.behind past).request c call).1).run.run ((s.behind past).request c call).2 = _
  rw [Session.request_behind]
  exact rest _ past (s.request c call).2

theorem blind_action {action : Action ω α} (composed : Action.Composed c action)
    {report : RegistrationFailure → PollFailure} {next : α → Poll ω β} (rest : ∀ a, Blind (next a)) :
    Blind (ofAction report action >>= next) := by
  intro past s
  rw [run_ofAction, run_ofAction, composed.behind]
  cases action.runOn s with
  | mk r middle =>
    cases r with
    | error failure => rfl
    | ok a => exact rest a past middle

theorem cycle_blind (c : Collaborators ω) (scanned : UInt64) : Blind (cycle c scanned) := by
  refine blind_get (fun _ _ => rfl) fun s => ?_
  extract_lets m decide poll
  have decided (current : UInt64) : Blind (decide current) := by
    dsimp only [decide]
    split
    · exact blind_note (blind_pure _)
    refine blind_action (.refreshBalance c) fun _ => blind_get (fun _ _ => rfl) fun s => ?_
    refine blind_request fun reply => ?_
    cases reply with
    | error failure => exact blind_thrown _ _
    | ok hubEvents =>
      refine blind_action (.handlePastEvents c hubEvents scanned current false) fun outcome => ?_
      split
      · exact blind_note (blind_pure _)
      · exact blind_pure _
  have polled : Blind (poll ()) := by
    refine blind_request fun reply => ?_
    cases reply with
    | error failure => exact blind_thrown _ _
    | ok current => exact decided current
  split
  · exact blind_action (.initialise c) fun _ => polled
  · exact polled

def upon (journal : List Entry) (p : Poller ω) : Poller ω :=
  { p with session := { p.session with journal } }

theorem pollOnce_upon (c : Collaborators ω) (journal : List Entry) (p : Poller ω) :
    pollOnce c (p.upon journal) =
      ((pollOnce c p).1, (pollOnce c p).2.upon (journal ++ p.session.adds (pollOnce c p).2.session)) := by
  have blank (journal : List Entry) :
      ({ p.session with journal } : Session ω) = { p.session with journal := [] }.behind journal := by
    simp [Session.behind]
  have before : p.session = { p.session with journal := [] }.behind p.session.journal := blank _
  have own := cycle_blind c p.scanned p.session.journal { p.session with journal := [] }
  have other := cycle_blind c p.scanned journal { p.session with journal := [] }
  rw [← before] at own
  rw [← blank] at other
  unfold pollOnce upon
  dsimp only
  rw [own, other]
  cases (cycle c p.scanned).run.run { p.session with journal := [] } with
  | mk r after => cases r <;> simp [Session.behind, Session.adds]

end Poller
end TransactionRelay
