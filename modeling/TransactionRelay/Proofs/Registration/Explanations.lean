import TransactionRelay.Proofs.Registration.Composed
import TransactionRelay.Proofs.Registration.SweepLog

namespace TransactionRelay

def Entry.explains : Entry → Bool
  | .logged (.notRegistered _) => true
  | _ => false

def Entry.explanations (entries : List Entry) : Nat := entries.countP explains

namespace Manager

variable (m : Manager)

def owes (changed : Bool) : Nat := if m.registrationCorrect then 0 else changed.toNat

theorem owes_false : m.owes false = 0 := by
  rw [owes, Bool.toNat_false, ite_self]

theorem explain_explanations : Entry.explanations m.explain = m.owes true := by
  unfold explain owes
  split <;> rfl

theorem setLocked_explanations (locked : Bool) :
    Entry.explanations (setLocked locked m).2 = m.owes (m.stakeLocked != locked) := by
  unfold setLocked
  split
  next same => rw [bne, same, Bool.not_true, owes_false, Entry.explanations, List.countP_nil]
  next other =>
    rw [bne, Bool.eq_false_iff.mpr other]
    exact explain_explanations { m with stakeLocked := locked }

theorem noteOwner_explanations (owner : String) :
    Entry.explanations (noteOwner owner m).2 = m.owes m.owner.isNone := by
  unfold noteOwner
  split
  next known => rw [Option.isNone_eq_false_iff.mpr known, owes_false, Entry.explanations, List.countP_nil]
  next unknown =>
    rw [Option.not_isSome_iff_eq_none.mp unknown]
    exact explain_explanations { m with owner := some owner }

-- A flip is logged without an explanation. The report that comes after it explains it.
theorem flip_explanations (flips : Bool) (r : Requirement) :
    Entry.explanations (if flips then [.logged (.flipped r)] else []) = 0 := by
  cases flips <;> rfl

theorem reportChange_explanations : Entry.explanations (reportChange m).2 = m.owes m.requirementChanged := by
  unfold reportChange
  cases m.requirementChanged with
  | false => exact m.owes_false.symm
  | true => exact m.explain_explanations

theorem andThen_explanations (first next : Step) : Entry.explanations (first.andThen next m).2 =
    Entry.explanations (first m).2 + Entry.explanations (next (first m).1).2 :=
  List.countP_append

theorem write_raises (r : Requirement) (amount : Wei) :
    (r.write raiseChanged amount false).2 = r.flips amount := by
  rw [Requirement.write]
  cases r.flips amount <;> rfl

variable {m} (lowered : m.requirementChanged = false)

include lowered

theorem storeBalance_raises (amount : Wei) :
    (storeBalance amount m).1.requirementChanged = m.balance.flips amount := by
  rw [← write_raises, ← lowered]
  rfl

theorem storeStake_raises (amount : Wei) : (storeStake amount m).1.requirementChanged = m.stake.flips amount := by
  rw [← write_raises, ← lowered]
  rfl

theorem observeBalance_explanations (amount : Wei) :
    Entry.explanations (observeBalance amount m).2 = m.owes (m.balance.flips amount) := by
  have stored : Entry.explanations (storeBalance amount m).2 = 0 := flip_explanations ..
  rw [observeBalance, andThen_explanations, stored, Nat.zero_add, reportChange_explanations,
    storeBalance_raises lowered]
  rfl

theorem observeStake_explanations (reading : StakeReading) :
    Entry.explanations (observeStake reading m).2 = if reading.isZero then 0 else
      m.owes (m.stakeLocked != reading.locked) + m.owes (m.stake.flips reading.stake) + m.owes m.owner.isNone := by
  unfold observeStake
  split
  next => rfl
  next =>
    have stored (m : Manager) : Entry.explanations (storeStake reading.stake m).2 = 0 := flip_explanations ..
    have raised : (storeStake reading.stake { m with stakeLocked := reading.locked }).1.requirementChanged =
        m.stake.flips reading.stake := storeStake_raises lowered reading.stake
    rw [andThen_explanations, andThen_explanations, andThen_explanations, setLocked_explanations, stored,
      reportChange_explanations, noteOwner_explanations, Nat.add_zero]
    simp only [Step.andThen, setLocked_memory]
    rw [raised]
    rfl

end Manager

open Effect

-- A flag that is lowered stays so.
def StaysLowered (m : Manager) (_ : List Entry) (m' : Manager) : Prop :=
  m.requirementChanged = false → m'.requirementChanged = false

theorem lowered_trail : Trail StaysLowered where
  refl _ lowered := lowered
  trans first second lowered := second (first lowered)
  part := by
    intro m added m' part lowered
    cases part with
    | stakeRead reading =>
      rw [Manager.observeStake_memory]
      split
      · exact lowered
      · rfl
    | balanceRead amount => rfl
    | _ => exact lowered

theorem Effect.Sweeps.lowered {cause managerFunds block m r added m'}
    (run : Sweeps cause managerFunds block m r added m') : StaysLowered m added m' := by
  intro lowered
  obtain ⟨record, _, swept⟩ := run.swept
  rw [swept.memory]
  split <;> exact lowered

theorem lowered_course : Course StaysLowered where
  toTrail := lowered_trail
  handled run := run.obeys lowered_trail fun sweep => sweep.lowered
  released run := run.obeys lowered_trail (fun _ lowered => lowered) fun sweep => sweep.lowered
  pended _ _ lowered := lowered
  attempted run lowered := run.memory ▸ lowered
  demanded run := run.lowered

variable {ω : Type} (c : Collaborators ω)

theorem mapped_session {α : Type} (form : α → Reply) (action : Action ω α) (s : Session ω) :
    ((do return form (← action) : Action ω Reply).runOn s).2 = (action.runOn s).2 := by
  rw [Action.runOn_bind]
  rcases action.runOn s with ⟨_ | _, _⟩ <;> rfl

theorem ask_change_adds (call : Call) (step : call.Answer → Manager.Step) (s : Session ω) :
    s.adds ((Action.ask c call >>= fun answer => Action.change (step answer)).runOn s).2 =
      .asked call (c.answer call s.world).1 :: match (c.answer call s.world).1 with
        | .ok answer => (step answer s.manager).2
        | .error _ => [] := by
  have asked : (s.request c call).2.journal = s.journal ++ [.asked call (c.answer call s.world).1] := rfl
  rw [Action.runOn_bind, Action.runOn_ask]
  generalize (c.answer call s.world).1 = reply at asked ⊢
  cases reply with
  | error failure => exact adds_eq asked
  | ok answer =>
    have changed : ((s.request c call).2.apply (step answer)).journal =
        s.journal ++ ([.asked call (.ok answer)] ++ (step answer s.manager).2) := by
      rw [← List.append_assoc, ← asked]
      rfl
    exact adds_eq changed

-- After every operation the flag is lowered, however it ended, so a reading explains what it changed itself. A cycle
-- that breaks off at a reading leaves what it found there, so the readings within cycles are covered too.
theorem changes_explained_once (settings : ServerSettings) (address worker : String) (world : ω)
    (commands : List Command) :
    let s := ((Session.fresh settings address worker world).performAll c commands).2
    s.manager.requirementChanged = false ∧
    Entry.explanations (s.adds (s.perform c .refreshStake).2) =
      (match (c.answer (.stakeReading s.manager.address) s.world).1 with
      | .error _ => 0
      | .ok reading =>
        if reading.stake = 0 ∨ s.manager.registrationCorrect then 0
        else (s.manager.stakeLocked != reading.locked).toNat +
          (decide (s.manager.stake.minimum ≤ reading.stake) != s.manager.stake.satisfied).toNat +
          s.manager.owner.isNone.toNat) ∧
    Entry.explanations (s.adds (s.perform c .refreshBalance).2) =
      match (c.answer (.balance s.manager.address) s.world).1 with
      | .error _ => 0
      | .ok amount =>
        if s.manager.registrationCorrect then 0
        else (decide (s.manager.balance.minimum ≤ amount) != s.manager.balance.satisfied).toNat := by
  intro s
  have lowered : s.manager.requirementChanged = false :=
    works_obey lowered_course (fun _ _ _ _ _ lowered => lowered)
      (performAll_works c (Session.fresh settings address worker world) commands) rfl
  have stake : s.adds (s.perform c .refreshStake).2 = _ :=
    (congrArg s.adds (mapped_session (fun _ => .done) (Action.refreshStake c) s)).trans
      (ask_change_adds c (.stakeReading s.manager.address) Manager.observeStake s)
  have balance : s.adds (s.perform c .refreshBalance).2 = _ :=
    (congrArg s.adds (mapped_session (fun _ => .done) (Action.refreshBalance c) s)).trans
      (ask_change_adds c (.balance s.manager.address) Manager.observeBalance s)
  refine ⟨lowered, ?_, ?_⟩
  · rw [stake]
    generalize (c.answer (.stakeReading s.manager.address) s.world).1 = reply
    cases reply with
    | error failure => rfl
    | ok reading =>
      refine (Manager.observeStake_explanations lowered reading).trans ?_
      have zero : reading.isZero = true ↔ reading.stake = 0 := beq_iff_eq
      by_cases correct : s.manager.registrationCorrect = true
      · simp only [Manager.owes, correct, or_true, if_true, Nat.add_zero, ite_self]
      · simp only [Manager.owes, correct, Bool.false_eq_true, or_false, if_false, zero]
        rfl
  · rw [balance]
    generalize (c.answer (.balance s.manager.address) s.world).1 = reply
    cases reply with
    | error failure => rfl
    | ok amount => exact Manager.observeBalance_explanations lowered amount

example : Entry.explanations (Manager.observeStake { stake := 1000, owner := "0xowner" }
    (Manager.new { minStake := 1000 } "0xmanager" "0xworker")).2 = 3 := by
  decide

end TransactionRelay
