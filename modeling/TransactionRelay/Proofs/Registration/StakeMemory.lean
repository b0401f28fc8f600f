import TransactionRelay.Proofs.Registration.SweepLog

namespace TransactionRelay

-- A reading that found a stake. A reading of zero stake is not remembered.
def Entry.stake? : Entry → Option StakeReading
  | .asked (.stakeReading _) (.ok reading) => if reading.isZero then none else some reading
  | _ => none

def Entry.lastStake (entries : List Entry) : Option StakeReading :=
  (entries.filterMap stake?).getLast?

def StakeReading.memory (reading : StakeReading) : Bool × Wei := (reading.locked, reading.stake)

def Manager.stakeMemory (m : Manager) : Bool × Wei := (m.stakeLocked, m.stake.current)

structure Recalls (m : Manager) (added : List Entry) (m' : Manager) : Prop where
  settings : m'.settings = m.settings
  minimum : m'.stake.minimum = m.stake.minimum
  memory : m'.stakeMemory = ((Entry.lastStake added).map StakeReading.memory).getD m.stakeMemory

theorem recalls_nothing {m added m'} (none : ∀ entry ∈ added, entry.stake? = none)
    (settings : m'.settings = m.settings) (stake : m'.stake = m.stake)
    (locked : m'.stakeLocked = m.stakeLocked) : Recalls m added m' := by
  have unread : added.filterMap Entry.stake? = [] := List.filterMap_eq_nil_iff.mpr none
  refine ⟨settings, by rw [stake], ?_⟩
  simp [Entry.lastStake, unread, Manager.stakeMemory, stake, locked]

-- Work that reads no stake leaves what is known of it as it is.
structure Unread (m : Manager) (added : List Entry) (m' : Manager) : Prop where
  silent : ∀ entry ∈ added, entry.stake? = none
  settings : m'.settings = m.settings
  stake : m'.stake = m.stake
  locked : m'.stakeLocked = m.stakeLocked
  owner : m'.owner = m.owner

theorem Unread.recalls {m added m'} (unread : Unread m added m') : Recalls m added m' :=
  recalls_nothing unread.silent unread.settings unread.stake unread.locked

theorem unread_nil (m : Manager) : Unread m [] m := ⟨by simp, rfl, rfl, rfl, rfl⟩

theorem unread_pending (m : Manager) (reply : Except SubmissionFailure Bool) :
    Unread m [.asked (.isPending .registerServer) reply] m :=
  ⟨by simp [Entry.stake?], rfl, rfl, rfl, rfl⟩

theorem Part.read_or_unread {m added m'} (part : Part m added m') :
    (∃ reading, added =
        .asked (.stakeReading m.address) (.ok reading) :: (Manager.observeStake reading m).2 ∧
      m' = (Manager.observeStake reading m).1) ∨ Unread m added m' := by
  cases part with
  | stakeRead reading => exact .inl ⟨reading, rfl, rfl⟩
  | unanswered call failure idle =>
    exact .inr ⟨by cases call <;> simp [Entry.stake?], rfl, rfl, rfl, rfl⟩
  | listed call answer lists =>
    refine .inr ⟨?_, rfl, rfl, rfl, rfl⟩
    cases call with
    | stakeReading => cases lists
    | _ => simp [Entry.stake?]
  | noted quiet => exact .inr ⟨quiet.all fun _ => rfl, rfl, rfl, rfl, rfl⟩
  | balanceRead amount =>
    refine .inr ⟨List.forall_mem_cons.mpr ⟨rfl, ?_⟩, rfl, rfl, rfl, rfl⟩
    exact (Manager.observeBalance_quiet m amount).all fun _ => rfl
  | delayed data =>
    exact .inr ⟨Manager.delay_all m (fun _ => rfl) _ _ fun _ => rfl, rfl, rfl, rfl, rfl⟩
  | recorded record =>
    exact .inr ⟨Manager.observeRecord_all m (fun _ => rfl) record (by rfl), rfl, rfl, rfl, rfl⟩
  | settled => exact .inr ⟨by simp [Entry.stake?], rfl, rfl, rfl, rfl⟩
  | heard | proven | readied | taken => exact .inr ⟨by simp, rfl, rfl, rfl, rfl⟩

theorem Effect.Sweeps.unread {cause managerFunds block m r added m'}
    (run : Effect.Sweeps cause managerFunds block m r added m') : Unread m added m' := by
  obtain ⟨record, _, swept⟩ := run.swept
  have none : ∀ entry ∈ added, entry.stake? = none := by
    refine run.all (fun call reply sweeps => ?asked) (fun _ => rfl) ?_ ?_ ?_
    case asked =>
      cases call with
      | stakeReading => cases sweeps
      | _ => rfl
    all_goals rfl
  rw [swept.memory]
  split <;> exact ⟨none, rfl, rfl, rfl, rfl⟩

theorem Effect.Attempts.unread {block m r added m'} (run : Effect.Attempts block m r added m') :
    Unread m added m' := by
  cases run.memory
  refine ⟨run.all (fun call reply registers => ?_) fun _ => rfl, rfl, rfl, rfl, rfl⟩
  cases call with
  | stakeReading => cases registers
  | _ => rfl

theorem stakeRead_recalls (reading : StakeReading) (m : Manager) :
    Recalls m (.asked (.stakeReading m.address) (.ok reading) :: (Manager.observeStake reading m).2)
      (Manager.observeStake reading m).1 := by
  have quiet := (Manager.observeStake_quiet m reading).filterMap Entry.stake? fun _ => rfl
  rw [Manager.observeStake_memory]
  cases zero : reading.isZero with
  | true =>
    refine ⟨rfl, rfl, ?_⟩
    simp [Entry.lastStake, Entry.stake?, zero, quiet]
  | false =>
    refine ⟨rfl, rfl, ?_⟩
    simp [Entry.lastStake, Entry.stake?, zero, quiet, Manager.stakeMemory, StakeReading.memory]

theorem recalls_trail : Trail Recalls where
  refl m := (unread_nil m).recalls
  trans := by
    intro m added middle more m' first second
    refine ⟨second.settings.trans first.settings, second.minimum.trans first.minimum, ?_⟩
    rw [second.memory, first.memory]
    simp only [Entry.lastStake, List.filterMap_append, List.getLast?_append]
    cases (more.filterMap Entry.stake?).getLast? <;> rfl
  part := by
    intro m added m' part
    rcases part.read_or_unread with ⟨reading, rfl, rfl⟩ | unread
    · exact stakeRead_recalls reading m
    · exact unread.recalls

theorem recalls_course : Course Recalls where
  toTrail := recalls_trail
  handled run := run.obeys recalls_trail fun sweep => sweep.unread.recalls
  released run := run.obeys recalls_trail (fun _ => recalls_nothing (by simp) rfl rfl rfl)
    fun sweep => sweep.unread.recalls
  pended m reply := (unread_pending m reply).recalls
  attempted run := run.unread.recalls
  demanded run := run.unread.recalls

end TransactionRelay
