import TransactionRelay.Proofs.Registration.SweepLog
import TransactionRelay.Proofs.Registration.Yielding

namespace TransactionRelay

namespace EventRecord

theorem followedBy_iff (event other : EventRecord) : event.followedBy other = true ↔
    event.position.block.toNat < other.position.block.toNat ∨
      event.position.block.toNat = other.position.block.toNat ∧
        (event.position.transaction.toNat < other.position.transaction.toNat ∨
          event.position.transaction.toNat = other.position.transaction.toNat ∧
            event.position.log.toNat < other.position.log.toNat) := by
  simp only [followedBy, Position.before, Bool.or_eq_true, Bool.and_eq_true, decide_eq_true_eq,
    beq_iff_eq, UInt64.lt_iff_toNat_lt, ← UInt64.toNat_inj]

theorem followedBy_self (event : EventRecord) : ¬event.followedBy event := by
  rw [followedBy_iff]
  omega

theorem followedBy_asymm {event other : EventRecord} (follows : event.followedBy other) :
    ¬other.followedBy event := by
  rw [followedBy_iff] at *
  omega

theorem unfollowed_trans {last middle early : EventRecord} (first : ¬last.followedBy middle)
    (second : ¬middle.followedBy early) : ¬last.followedBy early := by
  rw [followedBy_iff] at *
  omega

theorem later_last (known : Option EventRecord) (event : EventRecord) :
    ∃ last, later known event = some last ∧ ¬last.followedBy event ∧
      ∀ earlier ∈ known, ¬last.followedBy earlier := by
  cases known with
  | none => exact ⟨event, rfl, followedBy_self event, by simp⟩
  | some earlier =>
    by_cases follows : earlier.followedBy event
    · exact ⟨event, if_pos follows, followedBy_self event, by simpa using followedBy_asymm follows⟩
    · exact ⟨earlier, if_neg follows, follows, by simpa using followedBy_self earlier⟩

theorem fold_later_last (events : List EventRecord) (known : EventRecord) :
    ∃ last, events.foldl later (some known) = some last ∧ ¬last.followedBy known ∧
      ∀ event ∈ events, ¬last.followedBy event := by
  induction events generalizing known with
  | nil => exact ⟨known, rfl, followedBy_self known, by simp⟩
  | cons event rest ih =>
    obtain ⟨middle, next, ahead, earlier⟩ := later_last (some known) event
    obtain ⟨last, kept, after, among⟩ := ih middle
    refine ⟨last, by rw [List.foldl_cons, next, kept], unfollowed_trans after (earlier known rfl), ?_⟩
    exact List.forall_mem_cons.mpr ⟨unfollowed_trans after ahead, among⟩

theorem fold_later_stays {events : List EventRecord} {last : EventRecord}
    (final : ∀ event ∈ events, ¬last.followedBy event) : events.foldl later (some last) = some last := by
  induction events with
  | nil => rfl
  | cons event rest ih =>
    have stays : later (some last) event = some last := if_neg (final event (by simp))
    rw [List.foldl_cons, stays]
    exact ih fun other member => final other (List.mem_cons_of_mem _ member)

theorem fold_later_again (events : List EventRecord) (known : Option EventRecord) :
    events.foldl later (events.foldl later known) = events.foldl later known := by
  cases events with
  | nil => rfl
  | cons event rest =>
    obtain ⟨middle, next, ahead, _⟩ := later_last known event
    obtain ⟨last, kept, after, among⟩ := fold_later_last rest middle
    have folded : (event :: rest).foldl later known = some last := by rw [List.foldl_cons, next, kept]
    rw [folded]
    exact fold_later_stays (List.forall_mem_cons.mpr ⟨unfollowed_trans after ahead, among⟩)

end EventRecord

namespace Manager

variable {m : Manager}

theorem forgetHandled_again {scanned : UInt64}
    (beyond : ∀ key ∈ m.handled, scanned < key.position.block) : (forgetHandled scanned m).1 = m := by
  have same : m.handled.filter (fun key => key.position.block > scanned) = m.handled :=
    List.filter_eq_self.mpr fun key member => decide_eq_true (beyond key member)
  rw [forgetHandled, same]

theorem observeRecord_again {record : RelayRecord} (known : m.hubRecord = some record) :
    (observeRecord record m).1 = m := by
  obtain ⟨⟩ := m
  cases known
  simp [observeRecord]

theorem observeHubEvents_again {events : List EventRecord} {before : Manager}
    (heard : m.workerEvidence = (observeHubEvents events before).1.workerEvidence) :
    (observeHubEvents events m).1 = m := by
  obtain ⟨⟩ := m
  cases heard
  simp only [observeHubEvents, EventRecord.fold_later_again]

-- Nothing is due when the due events have just left the queue.
theorem dropDue_again {block : UInt64} {queue : DelayedQueue}
    (dropped : m.delayed = queue.withoutDue block) :
    m.delayed.due block = [] ∧ (dropDue block m).1 = m := by
  obtain ⟨⟩ := m
  cases dropped
  constructor
  · simp [DelayedQueue.due]
  · simp only [dropDue, DelayedQueue.withoutDue, List.filter_filter, Bool.and_self]

end Manager

open TransactionRelay.Action Effect

variable {ω : Type} {c : Collaborators ω}

structure Settles (keys : List EventKey) (m m' : Manager) : Prop where
  address : m'.address = m.address
  initialized : m'.initialized = m.initialized
  kept : ∀ key ∈ m.handled, key ∈ m'.handled
  gained : ∀ key ∈ m'.handled, key ∈ m.handled ∨ key ∈ keys

namespace Settles

variable {keys : List EventKey} {m middle m' : Manager}

theorem refl (keys : List EventKey) (m : Manager) : Settles keys m m :=
  ⟨rfl, rfl, fun _ => id, fun _ => .inl⟩

theorem trans (first : Settles keys m middle) (second : Settles keys middle m') : Settles keys m m' where
  address := second.address.trans first.address
  initialized := second.initialized.trans first.initialized
  kept key held := second.kept key (first.kept key held)
  gained key held := by
    rcases second.gained key held with before | among
    · exact first.gained key before
    · exact .inr among

theorem same (address : m'.address = m.address) (initialized : m'.initialized = m.initialized)
    (handled : m'.handled = m.handled) : Settles keys m m' :=
  ⟨address, initialized, fun _ held => handled ▸ held, fun _ held => .inl (handled ▸ held)⟩

end Settles

theorem settle_settles (keys : List EventKey) (m : Manager) {event : EventRecord}
    (among : event.key ∈ keys) :
    Settles keys m (Manager.settle event m).1 := by
  refine ⟨rfl, rfl, fun key held => (m.settle_handled event key).mpr (.inr held), fun key held => ?_⟩
  rcases (m.settle_handled event key).mp held with rfl | before
  · exact .inr among
  · exact .inl before

namespace Effect

variable {block : UInt64} {event : EventRecord} {events : List EventRecord}

theorem ReadsStake.settles {keys m r added m'} (run : ReadsStake m r added m') : Settles keys m m' := by
  cases run with
  | unread failure => exact .refl keys m
  | read reading =>
    rw [Manager.observeStake_memory]
    split <;> exact .same rfl rfl rfl

theorem Sweeps.settles {keys cause managerFunds m r added m'}
    (run : Sweeps cause managerFunds block m r added m') : Settles keys m m' := by
  obtain ⟨record, _, swept⟩ := run.swept
  rw [swept.memory]
  split <;> exact .same rfl rfl rfl

theorem Handles.settles {keys m r added m'} (run : Handles block event m r added m')
    (among : event.key ∈ keys) : Settles keys m m' := by
  have reacts {r added m'} (run : Reacts block event m r added m') : Settles keys m m' := by
    cases run with
    | unread kind reading | added kind reading => exact reading.settles
    | unlocked data reading => exact reading.settles.trans (.same rfl rfl rfl)
    | withdrawn kind reading sweep => exact reading.settles.trans sweep.settles
    | ignored kind => exact .refl keys m
  cases run with
  | settled known => exact .refl keys m
  | failed fresh run => exact reacts run
  | @done _ _ _ middle fresh run => exact (reacts run).trans (settle_settles keys middle among)

theorem Handles.known {m hashes added m'} (run : Handles block event m (.ok hashes) added m') :
    event.key ∈ m'.handled := by
  cases run with
  | settled known => exact known
  | @done _ _ _ middle fresh run => exact (middle.settle_handled event event.key).mpr (.inl rfl)

theorem turns_settle {m r added m'} (run : InTurn (Handles block) events m r added m') :
    Settles (events.map EventRecord.key) m m' :=
  run.chained (R := fun m _ m' => Settles (events.map EventRecord.key) m m') (Settles.refl _)
    (fun first second => first.trans second)
    fun _ member _ _ _ _ run => run.settles (List.mem_map_of_mem member)

theorem turns_known {m r added m'} (run : InTurn (Handles block) events m r added m') {hashes : List String}
    (well : r = .ok hashes) : ∀ event ∈ events, event.key ∈ m'.handled := by
  induction run generalizing hashes with
  | done => simp
  | stopped | stoppedLater => cases well
  | passed first rest ih =>
    cases well
    exact List.forall_mem_cons.mpr ⟨(turns_settle rest).kept _ first.known, ih rfl⟩

-- A sweep changes what is announced and whether the manager counts as unstaked, and nothing else.
theorem Releases.memory {m r added m'} (run : Releases block m r added m') :
    ∃ unstaked notifications, m' = { m with
      delayed := m.delayed.withoutDue block, unstaked, notifications } := by
  cases run with
  | released sweeps =>
    obtain ⟨unstaked, notifications, rfl⟩ := sweeps.chained
      (R := fun m _ m' => ∃ unstaked notifications, m' = { m with unstaked, notifications })
      (fun m => ⟨_, _, rfl⟩) (by rintro _ _ _ _ _ ⟨_, _, rfl⟩ ⟨_, _, rfl⟩; exact ⟨_, _, rfl⟩)
      (by
        intro event _ m r added m' run
        cases run with
        | spared kind => exact ⟨_, _, rfl⟩
        | swept kind sweep =>
          obtain ⟨record, _, swept⟩ := sweep.swept
          rw [swept.memory]
          split <;> exact ⟨_, _, rfl⟩)
    exact ⟨_, _, rfl⟩

end Effect

theorem handle_again {block : UInt64} {event : EventRecord} {m : Manager} (known : event.key ∈ m.handled) :
    (handleStakeEvent c block event).Yields m [] m := by
  have genuine : Genuine c [.logged (.alreadyHandled event)] := by
    intro call answer member
    simp at member
  exact (Handles.settled known).yields genuine

theorem turns_again {block : UInt64} {events : List EventRecord} {m : Manager}
    (known : ∀ event ∈ events, event.key ∈ m.handled) :
    (handleStakeEvents c block events).Yields m [] m := by
  induction events with
  | nil => exact yields_pure
  | cons event rest ih =>
    have later := ih fun other member => known other (List.mem_cons_of_mem _ member)
    exact yields_bind (handle_again (known event (by simp))) (yields_bind later yields_pure)

theorem release_again {block : UInt64} {m : Manager} {queue : DelayedQueue}
    (dropped : m.delayed = queue.withoutDue block) : (releaseDue c block).Yields m [] m := by
  obtain ⟨none, same⟩ := Manager.dropDue_again dropped
  refine yields_manager (yields_change ?_)
  rw [none, same]
  exact yields_pure

theorem scan_again {hubEvents events : List EventRecord} {scanned current : UInt64} {m before : Manager}
    {record : RelayRecord} {others : List RelayRecord} (ready : m.initialized = true)
    (fetched : ∀ world, (c.answer (m.stakeQuery scanned current) world).1 = .ok events)
    (known : ∀ event ∈ events, event.key ∈ m.handled)
    (beyond : ∀ key ∈ m.handled, scanned < key.position.block)
    (found : ∀ world, (c.answer (.relayData [m.address]) world).1 = .ok (record :: others))
    (recorded : m.hubRecord = some record)
    (heard : m.workerEvidence = (Manager.observeHubEvents hubEvents before).1.workerEvidence) :
    (scan c hubEvents scanned current).Yields m [] m := by
  have handling : (handleStakeEvents c current events).Yields (Manager.forgetHandled scanned m).1 [] m := by
    rw [Manager.forgetHandled_again beyond]
    exact turns_again known
  have scanning : (scan c hubEvents scanned current).Yields m [] _ :=
    scan_yields ready fetched handling found
  rwa [Manager.observeRecord_again recorded, Manager.observeHubEvents_again heard] at scanning

end TransactionRelay
