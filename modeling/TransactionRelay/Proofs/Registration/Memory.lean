import TransactionRelay.Registration.Cycle

namespace TransactionRelay.Manager

variable (m : Manager)

theorem setLocked_memory (locked : Bool) :
    (setLocked locked m).1 = { m with stakeLocked := locked } := by
  unfold setLocked
  split
  next same => rw [← eq_of_beq same]
  next => rfl

theorem noteOwner_memory (owner : String) :
    (noteOwner owner m).1 = { m with owner := some (m.owner.getD owner) } := by
  obtain ⟨⟩ := m
  unfold noteOwner
  split
  next known =>
    obtain ⟨first, rfl⟩ := Option.isSome_iff_exists.mp known
    rfl
  next unknown =>
    cases Option.not_isSome_iff_eq_none.mp unknown
    rfl

-- A reading of zero stake is the only one that changes nothing.
theorem observeStake_memory (reading : StakeReading) :
    (observeStake reading m).1 = if reading.isZero then m else
      { m with
        stakeLocked := reading.locked
        stake := m.stake.store reading.stake
        requirementChanged := false
        owner := some (m.owner.getD reading.owner) } := by
  unfold observeStake
  by_cases zero : reading.isZero
  · simp [zero]
  · simp [zero, Step.andThen, setLocked_memory, noteOwner_memory, storeStake, reportChange,
      Requirement.write]

@[simp] theorem observeStake_frame (reading : StakeReading) :
    (observeStake reading m).1.settings = m.settings ∧
      (observeStake reading m).1.address = m.address ∧ (observeStake reading m).1.worker = m.worker ∧
      (observeStake reading m).1.delayed = m.delayed ∧ (observeStake reading m).1.handled = m.handled ∧
      (observeStake reading m).1.unstaked = m.unstaked := by
  rw [observeStake_memory]
  split <;> exact ⟨rfl, rfl, rfl, rfl, rfl, rfl⟩

theorem settle_handled (event : EventRecord) (key : EventKey) :
    key ∈ (settle event m).1.handled ↔ key = event.key ∨ key ∈ m.handled := by
  unfold settle
  dsimp only
  split
  next known =>
    constructor
    · exact .inr
    · rintro (same | held)
      · rw [same]
        exact List.contains_iff_mem.mp known
      · exact held
  next fresh => simp [or_comm]

def Quiet (entries : List Entry) : Prop := ∀ entry ∈ entries, ∃ notice, entry = .logged notice

theorem quiet_nil : Quiet [] := by simp [Quiet]

theorem quiet_cons {notice : Notice} {entries : List Entry} (quiet : Quiet entries) :
    Quiet (.logged notice :: entries) := by
  intro entry member
  rcases List.mem_cons.mp member with rfl | later
  · exact ⟨notice, rfl⟩
  · exact quiet entry later

theorem quiet_append {first second : List Entry} (one : Quiet first) (two : Quiet second) :
    Quiet (first ++ second) := by
  intro entry member
  rcases List.mem_append.mp member with early | late
  · exact one entry early
  · exact two entry late

-- A view of the journal that passes over log lines sees nothing in them.
theorem Quiet.filterMap {α : Type} {entries : List Entry} (quiet : Quiet entries)
    (view : Entry → Option α) (deaf : ∀ notice, view (.logged notice) = none) :
    entries.filterMap view = [] := by
  refine List.filterMap_eq_nil_iff.mpr fun entry member => ?_
  obtain ⟨notice, rfl⟩ := quiet entry member
  exact deaf notice

theorem explain_quiet : Quiet m.explain := by
  unfold explain
  split
  · exact quiet_nil
  · exact quiet_cons quiet_nil

theorem setLocked_quiet (locked : Bool) : Quiet (setLocked locked m).2 := by
  unfold setLocked
  split
  · exact quiet_nil
  · exact quiet_cons (explain_quiet _)

theorem noteOwner_quiet (owner : String) : Quiet (noteOwner owner m).2 := by
  unfold noteOwner
  split
  · exact quiet_nil
  · exact quiet_cons (explain_quiet _)

theorem flip_quiet (flips : Bool) (requirement : Requirement) :
    Quiet (if flips then [.logged (.flipped requirement)] else []) := by
  split
  · exact quiet_cons quiet_nil
  · exact quiet_nil

theorem reportChange_quiet : Quiet (reportChange m).2 := by
  unfold reportChange
  split
  · exact explain_quiet m
  · exact quiet_nil

theorem observeStake_quiet (reading : StakeReading) : Quiet (observeStake reading m).2 := by
  unfold observeStake
  split
  · exact quiet_nil
  · exact quiet_append (quiet_append (quiet_append (setLocked_quiet _ _) (flip_quiet _ _))
      (reportChange_quiet _)) (noteOwner_quiet _ _)

theorem observeBalance_quiet (amount : Wei) : Quiet (observeBalance amount m).2 :=
  quiet_append (flip_quiet _ _) (reportChange_quiet _)

theorem scanNotices_quiet (events : List EventRecord) (range : BlockRange) :
    Quiet (scanNotices events range) := by
  unfold scanNotices
  split
  · exact quiet_nil
  · refine quiet_cons fun entry member => ?_
    obtain ⟨event, _, rfl⟩ := List.mem_map.mp member
    exact ⟨.found event, rfl⟩

section

variable {p : Entry → Prop} (logged : ∀ notice, p (.logged notice))

include logged

theorem Quiet.all {entries : List Entry} (quiet : Quiet entries) : ∀ entry ∈ entries, p entry := by
  intro entry member
  obtain ⟨notice, rfl⟩ := quiet entry member
  exact logged notice

theorem delay_all (due : UInt64) (event : EventRecord) (queued : ∀ accepted, p (.queued event accepted)) :
    ∀ entry ∈ (delay due event m).2, p entry := by
  unfold delay
  dsimp only
  split <;> simp [logged, queued]

theorem observeRecord_all (record : RelayRecord) (emitted : p (.emitted .removed)) :
    ∀ entry ∈ (observeRecord record m).2, p entry := by
  unfold observeRecord
  dsimp only
  split <;> simp [logged, emitted]

end

end TransactionRelay.Manager
