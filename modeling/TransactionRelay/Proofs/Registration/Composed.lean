import TransactionRelay.Registration.Cycle
import TransactionRelay.Proofs.Registration.Memory
import TransactionRelay.Proofs.Registration.Running

namespace TransactionRelay

def Entry.asks : Entry → Bool
  | .asked .. => true
  | _ => false

namespace Action

variable {ω : Type} (c : Collaborators ω)

inductive Composed : {α : Type} → Action ω α → Prop
  | given {α : Type} (a : α) : Composed (pure a : Action ω α)
  | thrown {α : Type} (failure : RegistrationFailure) : Composed (throw failure : Action ω α)
  | asked (call : Call) : Composed (ask c call)
  | changed (step : Manager.Step) (silent : ∀ m, ∀ entry ∈ (step m).2, entry.asks = false) :
      Composed (change step)
  | noted (entries : List Entry) (silent : ∀ entry ∈ entries, entry.asks = false) :
      Composed (note entries)
  | looked : Composed manager
  | bound {α β : Type} {action : Action ω α} {next : α → Action ω β} (start : Composed action)
      (rest : ∀ a, Composed (next a)) : Composed (action >>= next)

namespace Composed

theorem logged (notice : Notice) : Composed c (log notice) := .noted _ (by simp [Entry.asks])

theorem observedStake (reading : StakeReading) : Composed c (change (Manager.observeStake reading)) :=
  .changed _ fun m => (Manager.observeStake_quiet m reading).all fun _ => rfl

theorem refreshStake : Composed c (refreshStake c) :=
  .bound .looked fun _ => .bound (.asked _) fun reading => observedStake c reading

theorem refreshBalance : Composed c (refreshBalance c) := by
  refine .bound .looked fun _ => .bound (.asked _) fun amount => .changed _ fun m => ?_
  exact (Manager.observeBalance_quiet m amount).all fun _ => rfl

theorem sendBalance (account owner : String) (price : GasPrice) (block : UInt64) :
    Composed c (sendBalance c account owner price block) := by
  refine .bound (.asked _) fun balance => ?_
  split
  · exact .bound (logged c _) fun _ => .given _
  · exact .bound (logged c _) fun _ => .bound (.asked _) fun _ => .given _

theorem withdrawAll (managerFunds : Bool) (block : UInt64) :
    Composed c (withdrawAll c managerFunds block) := by
  refine .bound .looked fun m => ?_
  have marked (hashes : List String) :
      Composed c (change Manager.markUnstaked >>= fun _ => pure hashes : Action ω (List String)) :=
    .bound (.changed _ (by simp [Manager.markUnstaked, Manager.emit, Entry.asks])) fun _ => .given _
  split
  next owner known =>
    refine .bound (.asked _) fun price => .bound (sendBalance c _ _ _ _) fun first => ?_
    split
    · exact .bound (sendBalance c _ _ _ _) fun others => .bound (.given _) fun hashes => marked hashes
    · exact .bound (.given _) fun others => .bound (.given _) fun hashes => marked hashes
  next unknown => exact .bound (logged c _) fun _ => .bound (.given _) fun hashes => marked hashes

theorem sweep (cause : SweepCause) (managerFunds : Bool) (block : UInt64) :
    Composed c (sweep c cause managerFunds block) := by
  have noted (entry : Entry) (silent : entry.asks = false) : Composed c (note [entry] : Action ω Unit) :=
    .noted _ (by simpa using silent)
  refine .bound (noted _ rfl) fun _ => .bound (withdrawAll c _ _) fun _ => ?_
  exact .bound (noted _ rfl) fun _ => .given _

theorem stakeEventEffects (block : UInt64) (event : EventRecord) :
    Composed c (stakeEventEffects c block event) := by
  unfold Action.stakeEventEffects
  split
  · exact .bound (refreshStake c) fun _ => .given _
  · refine .bound (refreshStake c) fun _ => .bound (.changed _ fun m => ?_) fun _ => .given _
    exact Manager.delay_all m (fun _ => rfl) _ _ fun _ => rfl
  · exact .bound (refreshStake c) fun _ => .bound (logged c _) fun _ => sweep c _ _ _
  · exact .bound (logged c _) fun _ => .given _

theorem handleStakeEvent (block : UInt64) (event : EventRecord) :
    Composed c (handleStakeEvent c block event) := by
  refine .bound .looked fun m => ?_
  split
  · exact .bound (logged c _) fun _ => .given _
  · refine .bound (stakeEventEffects c _ _) fun _ => .bound (.changed _ ?_) fun _ => .given _
    simp [Manager.settle, Entry.asks]

theorem inTurn {one : EventRecord → Action ω (List String)} {all : List EventRecord → Action ω (List String)}
    (none : all [] = pure [])
    (more : ∀ event rest, all (event :: rest) = do
      let first ← one event
      let others ← all rest
      return first ++ others)
    (each : ∀ event, Composed c (one event)) (events : List EventRecord) : Composed c (all events) := by
  induction events with
  | nil => rw [none]; exact .given _
  | cons event rest ih => rw [more]; exact .bound (each event) fun _ => .bound ih fun _ => .given _

theorem fetchRecord : Composed c (fetchRecord c) := by
  refine .bound .looked fun m => .bound (.asked _) fun records => ?_
  split
  · exact .given _
  · exact .thrown _

theorem scan (hubEvents : List EventRecord) (scanned current : UInt64) :
    Composed c (scan c hubEvents scanned current) := by
  refine .bound .looked fun m => ?_
  have fetched : Composed c (do
      let events ← ask c (.stakeEvents EventKind.ofStake [Address.topic m.address] (.since scanned current))
      note (scanNotices events (.since scanned current))
      change (Manager.forgetHandled scanned)
      let handled ← handleStakeEvents c current events
      let record ← Action.fetchRecord c
      change (Manager.observeRecord record)
      change (Manager.observeHubEvents hubEvents)
      return handled) := by
    refine .bound (.asked _) fun events => .bound (.noted _ ?_) fun _ => .bound (.changed _ ?_) fun _ => ?_
    · exact (Manager.scanNotices_quiet events _).all fun _ => rfl
    · exact fun _ => List.forall_mem_nil _
    refine .bound (inTurn c rfl (fun _ _ => rfl) (handleStakeEvent c current) events) fun handled => ?_
    refine .bound (fetchRecord c) fun record => .bound (.changed _ fun m => ?_) fun _ => ?_
    · exact Manager.observeRecord_all m (fun _ => rfl) record rfl
    · exact .bound (.changed _ fun _ => List.forall_mem_nil _) fun _ => .given _
  dsimp only
  split
  · exact .bound (.thrown _) fun _ => fetched
  · exact fetched

theorem sweepFor (block : UInt64) (event : EventRecord) : Composed c (sweepFor c block event) := by
  unfold Action.sweepFor
  split
  · exact .bound (logged c _) fun _ => sweep c _ _ _
  · exact .given _

theorem releaseDue (block : UInt64) : Composed c (releaseDue c block) := by
  refine .bound .looked fun m => .bound (.changed _ (by simp [Manager.dropDue])) fun _ => ?_
  exact inTurn c rfl (fun _ _ => rfl) (sweepFor c block) _

theorem callHub (label : String) (action : ServerAction) (method : MethodCall) (block : UInt64) :
    Composed c (callHub c label action method block) :=
  .bound .looked fun _ => .bound (.asked _) fun _ => .bound (.asked _) fun _ => .given _

theorem attemptRegistration (block : UInt64) : Composed c (attemptRegistration c block) := by
  have registered : Composed c (registerServer c block) :=
    .bound .looked fun _ => .bound (.asked _) fun _ => .bound (callHub c _ _ _ _) fun _ =>
      .bound (logged c _) fun _ => .given _
  have added : Composed c (addWorker c block) :=
    .bound .looked fun _ => .bound (.asked _) fun _ => callHub c _ _ _ _
  refine .bound .looked fun m => ?_
  split
  · exact .bound (logged c _) fun _ => .given _
  · refine .bound (.asked _) fun adding => ?_
    dsimp only
    split
    · exact .bound (.given _) fun _ => .bound registered fun _ => .given _
    · exact .bound added fun _ => .bound (.given _) fun _ => .bound registered fun _ => .given _

theorem registerIfNeeded (block : UInt64) (force : Bool) :
    Composed c (registerIfNeeded c block force) := by
  refine .bound .looked fun m => .bound (.asked _) fun pending => ?_
  split
  · exact attemptRegistration c block
  · exact .given _

theorem handlePastEvents (hubEvents : List EventRecord) (scanned current : UInt64) (force : Bool) :
    Composed c (handlePastEvents c hubEvents scanned current force) := by
  refine .bound (scan c _ _ _) fun handled => .bound (releaseDue c _) fun released => ?_
  refine .bound (registerIfNeeded c _ _) fun registered => .bound ?_ fun _ => .given _
  exact .bound .looked fun _ => .bound (.changed _ (by simp)) fun _ => .given _

theorem initialise : Composed c (initialise c) := by
  refine .bound .looked fun m => ?_
  have readied : Composed c (change (fun m => ({ m with initialized := true }, [])) : Action ω Unit) :=
    .changed _ (by simp)
  extract_lets _ search test
  have sought : Composed c (search ()) := by
    dsimp only [search]
    split
    · exact .bound (.asked _) fun events => .bound (.changed _ (by simp)) fun _ => readied
    · exact readied
  have tested : Composed c (test ()) := by
    dsimp only [test]
    split
    · exact .bound (.thrown _) fun _ => sought
    · exact sought
  split
  · exact .bound (.thrown _) fun _ => tested
  · exact tested

end Composed

theorem runOn_ask (call : Call) (s : Session ω) :
    (ask c call).runOn s = ((c.answer call s.world).1.mapError call.report, (s.request c call).2) := by
  have requested : (modifyGet (Session.request c call) : Action ω _).runOn s =
      (.ok (c.answer call s.world).1, (s.request c call).2) := rfl
  unfold ask
  rw [runOn_bind, requested]
  cases (c.answer call s.world).1 <;> rfl

variable {α : Type} {c}

-- What holds of each reply of the collaborators holds of each reply in the journal.
theorem Composed.replies {P : (call : Call) → Except call.Failure call.Answer → Prop}
    (each : ∀ call world, P call (c.answer call world).1) {action : Action ω α}
    (composed : Composed c action) (s : Session ω) :
    ∃ added, (action.runOn s).2.journal = s.journal ++ added ∧
      ∀ call reply, .asked call reply ∈ added → P call reply := by
  have silent {entries : List Entry} (quiet : ∀ entry ∈ entries, entry.asks = false) :
      ∀ call reply, .asked call reply ∈ entries → P call reply := by
    intro call reply member
    cases quiet _ member
  induction composed generalizing s with
  | given | thrown | looked => exact ⟨[], (List.append_nil _).symm, by simp⟩
  | asked call =>
    rw [runOn_ask]
    refine ⟨_, rfl, fun other reply member => ?_⟩
    cases List.mem_singleton.mp member
    exact each call s.world
  | changed step quiet => exact ⟨_, rfl, silent (quiet s.manager)⟩
  | noted entries quiet => exact ⟨_, rfl, silent quiet⟩
  | @bound _ _ action next start rest ihStart ihRest =>
    rw [runOn_bind]
    obtain ⟨added, journal, told⟩ := ihStart s
    cases ran : action.runOn s with
    | mk r middle =>
      rw [ran] at journal
      cases r with
      | error failure => exact ⟨added, journal, told⟩
      | ok a =>
        obtain ⟨more, later, toldLater⟩ := ihRest a middle
        refine ⟨added ++ more, by rw [later, journal, List.append_assoc], fun call reply member => ?_⟩
        rcases List.mem_append.mp member with early | late
        · exact told call reply early
        · exact toldLater call reply late

end Action

variable {ω α : Type}

-- The same collaborators with a failure after so many calls, if there are to be any more.
def Collaborators.interrupted (c : Collaborators ω) (failure : (call : Call) → call.Failure) :
    Collaborators (ω × Option Nat) where
  answer call
    | (world, some 0) => (.error (failure call), (world, none))
    | (world, some (n + 1)) => ((c.answer call world).1, ((c.answer call world).2, some n))
    | (world, none) => ((c.answer call world).1, ((c.answer call world).2, none))

theorem Action.Composed.fails_interrupted {c : Collaborators ω} {failure : (call : Call) → call.Failure}
    {action : Action (ω × Option Nat) α} (composed : Composed (c.interrupted failure) action)
    (s : Session (ω × Option Nat)) (counting : s.world.2 ≠ none)
    (struck : (action.runOn s).2.world.2 = none) : ∃ failed, (action.runOn s).1 = .error failed := by
  induction composed generalizing s with
  | given | looked | changed | noted => exact absurd struck counting
  | thrown failed => exact ⟨failed, rfl⟩
  | asked call =>
    rw [runOn_ask] at struck ⊢
    obtain ⟨manager, ⟨world, left⟩, journal⟩ := s
    cases left with
    | none => exact absurd rfl counting
    | some n =>
      cases n with
      | zero => exact ⟨_, rfl⟩
      | succ n => cases struck
  | @bound _ _ action next start rest ihStart ihRest =>
    rw [runOn_bind] at struck ⊢
    cases ran : action.runOn s with
    | mk r middle =>
      rw [ran] at struck
      cases r with
      | error failed => exact ⟨failed, rfl⟩
      | ok a =>
        refine ihRest a middle (fun early => ?_) struck
        obtain ⟨failed, wrong⟩ := ihStart s counting (by rw [ran]; exact early)
        rw [ran] at wrong
        cases wrong

end TransactionRelay
