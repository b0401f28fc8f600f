import TransactionRelay.Proofs.Registration.Working

namespace TransactionRelay

-- Entries that neither tell of the stake log, the hub's record or the current block, nor mark what
-- was done with an event, nor move funds.
def Entry.plain : Entry → Bool
  | .asked (.stakeEvents ..) _ | .asked (.relayData _) _ | .asked .blockNumber _ => false
  | .asked (.send tx) _ => tx.action != .valueTransfer
  | .asked .. | .logged _ | .slept _ => true
  | .emitted _ | .queued .. | .sweepBegan _ | .sweepEnded _ | .settled _ => false

structure Aside (m : Manager) (added : List Entry) (m' : Manager) : Prop where
  handled : m'.handled = m.handled
  delayed : m'.delayed = m.delayed
  record : m'.hubRecord = m.hubRecord
  notifications : m'.notifications = m.notifications
  unstaked : m'.unstaked = m.unstaked
  plain : ∀ entry ∈ added, entry.plain = true

-- A view of the journal that passes over plain entries sees nothing in such work.
theorem Aside.filterMap {α : Type} {m added m'} (aside : Aside m added m') (view : Entry → Option α)
    (deaf : ∀ entry : Entry, entry.plain = true → view entry = none) : added.filterMap view = [] :=
  List.filterMap_eq_nil_iff.mpr fun entry member => deaf entry (aside.plain entry member)

theorem Aside.trans {m added middle more m'} (first : Aside m added middle)
    (second : Aside middle more m') : Aside m (added ++ more) m' where
  handled := second.handled.trans first.handled
  delayed := second.delayed.trans first.delayed
  record := second.record.trans first.record
  notifications := second.notifications.trans first.notifications
  unstaked := second.unstaked.trans first.unstaked
  plain entry member := by
    rcases List.mem_append.mp member with early | late
    · exact first.plain entry early
    · exact second.plain entry late

theorem aside_still {m : Manager} {entries : List Entry}
    (plain : ∀ entry ∈ entries, entry.plain = true) : Aside m entries m :=
  ⟨rfl, rfl, rfl, rfl, rfl, plain⟩

namespace Effect

theorem ReadsStake.aside {m r added m'} (run : ReadsStake m r added m') : Aside m added m' := by
  cases run with
  | unread failure => exact aside_still (by simp [Entry.plain])
  | read reading =>
    have plain : ∀ entry ∈ .asked (.stakeReading m.address) (.ok reading) ::
        (Manager.observeStake reading m).2, entry.plain = true :=
      List.forall_mem_cons.mpr ⟨rfl, (Manager.observeStake_quiet m reading).all fun _ => rfl⟩
    rw [Manager.observeStake_memory]
    split <;> exact ⟨rfl, rfl, rfl, rfl, rfl, plain⟩

theorem ReadsBalance.aside {m r added m'} (run : ReadsBalance m r added m') : Aside m added m' := by
  cases run with
  | unread failure => exact aside_still (by simp [Entry.plain])
  | read amount =>
    refine ⟨rfl, rfl, rfl, rfl, rfl, List.forall_mem_cons.mpr ⟨rfl, ?_⟩⟩
    exact (Manager.observeBalance_quiet m amount).all fun _ => rfl

theorem Initialises.aside {m r added m'} (run : Initialises m r added m') : Aside m added m' := by
  cases run with
  | again | unsettled => exact aside_still (by simp)
  | unread => exact aside_still (by simp [Entry.plain])
  | found => exact ⟨rfl, rfl, rfl, rfl, rfl, by simp [Entry.plain]⟩
  | known => exact ⟨rfl, rfl, rfl, rfl, rfl, by simp⟩

theorem Attempts.aside {block m r added m'} (run : Attempts block m r added m') :
    Aside m added m' := by
  cases run.memory
  refine aside_still (run.all (fun call reply registers => ?_) fun _ => rfl)
  cases call with
  | send tx =>
    refine bne_iff_ne.mpr fun transfer => ?_
    rw [Call.registers, transfer] at registers
    cases registers
  | stakeEvents | relayData | blockNumber => cases registers
  | _ => rfl

theorem Registers.aside {block force m r added m'} (run : Registers block force m r added m') :
    Aside m added m' := by
  cases run with
  | unread | closed => exact aside_still (by simp [Entry.plain])
  | opened pending needed attempt =>
    have asked : Aside m [.asked (.isPending .registerServer) (.ok pending)] m :=
      aside_still (by simp [Entry.plain])
    exact asked.trans attempt.aside

end Effect
end TransactionRelay
