import TransactionRelay.Proofs.Polling.HandledOnce

namespace TransactionRelay

namespace Entry

def block? : Entry → Option UInt64
  | .asked .blockNumber (.ok block) => some block
  | _ => none

def fetched (entries : List Entry) : List EventRecord := (entries.filterMap stakeAnswer?).flatMap (·.2)

def unlockBegan? : Entry → Option EventRecord
  | .sweepBegan (.unlocked event) => some event
  | _ => none

def unlocksBegun (entries : List Entry) : List EventRecord := entries.filterMap unlockBegan?

end Entry

open Entry (sweeping fetched unlocksBegun)

theorem fetched_append (first second : List Entry) :
    fetched (first ++ second) = fetched first ++ fetched second := by simp [fetched]

theorem unlocksBegun_append (first second : List Entry) :
    unlocksBegun (first ++ second) = unlocksBegun first ++ unlocksBegun second := List.filterMap_append

-- No other block is read here, and each transfer of funds is for the block, on account of a cause among
-- these.
structure Moves (block : UInt64) (causes : SweepCause → Prop) (entries : List Entry) : Prop where
  blocks : entries.filterMap Entry.block? = []
  caused : ∀ before tx reply after, entries = before ++ .asked (.send tx) reply :: after →
    tx.action = .valueTransfer →
    tx.creationBlock = block ∧ ∃ cause, sweeping before = some cause ∧ causes cause

section

variable {block : UInt64} {causes : SweepCause → Prop}

theorem Moves.append {first second : List Entry} (early : Moves block causes first)
    (late : Moves block causes second) : Moves block causes (first ++ second) := by
  refine ⟨by rw [List.filterMap_append, early.blocks, late.blocks]; rfl, ?_⟩
  intro before tx reply after split transfer
  rcases List.append_eq_append_iff.mp split with ⟨middle, rfl, rest⟩ | ⟨middle, whole, rest⟩
  · obtain ⟨dated, cause, underWay, caused⟩ := late.caused middle tx reply after rest transfer
    exact ⟨dated, cause, Entry.sweeping_append underWay, caused⟩
  · cases middle with
    | nil =>
      obtain ⟨dated, cause, underWay, caused⟩ := late.caused [] tx reply after rest.symm transfer
      cases underWay
    | cons entry more =>
      obtain ⟨rfl, rfl⟩ := List.cons_eq_cons.mp rest
      exact early.caused before tx reply more whole transfer

theorem Moves.mono {wider : SweepCause → Prop} {entries : List Entry} (moves : Moves block causes entries)
    (wide : ∀ cause, causes cause → wider cause) : Moves block wider entries := by
  refine ⟨moves.blocks, ?_⟩
  intro before tx reply after split transfer
  obtain ⟨dated, cause, underWay, caused⟩ := moves.caused before tx reply after split transfer
  exact ⟨dated, cause, underWay, wide cause caused⟩

def Entry.unmoving : Entry → Bool
  | .asked (.send tx) _ => tx.action != .valueTransfer
  | _ => true

theorem moves_none {entries : List Entry}
    (none : ∀ entry ∈ entries, entry.unmoving = true ∧ entry.block? = none) :
    Moves block causes entries := by
  refine ⟨List.filterMap_eq_nil_iff.mpr fun entry member => (none entry member).2, ?_⟩
  rintro before tx reply after rfl transfer
  have other := (none (.asked (.send tx) reply) (by simp)).1
  simp [Entry.unmoving, transfer] at other

theorem Entry.plain_unmoving {entry : Entry} (plain : entry.plain = true) :
    entry.unmoving = true ∧ entry.block? = none := by
  cases entry with
  | asked call reply =>
    cases call with
    | send tx => exact ⟨plain, rfl⟩
    | blockNumber => cases plain
    | _ => exact ⟨rfl, rfl⟩
  | _ => exact ⟨rfl, rfl⟩

theorem Aside.moves {m added m'} (aside : Aside m added m') : Moves block causes added :=
  moves_none fun entry member => Entry.plain_unmoving (aside.plain entry member)

theorem Aside.unbegun {m added m'} (aside : Aside m added m') : unlocksBegun added = [] := by
  refine aside.filterMap _ fun entry plain => ?_
  cases entry with
  | sweepBegan => cases plain
  | _ => rfl

theorem Moves.behind {head rest before : List Entry} {tx reply after}
    (still : ∀ entry ∈ head, entry.unmoving = true) (moves : Moves block causes rest)
    (split : head ++ rest = before ++ .asked (.send tx) reply :: after)
    (transfer : tx.action = .valueTransfer) :
    ∃ later, before = head ++ later ∧ later <+: rest ∧ tx.creationBlock = block ∧
      ∃ cause, sweeping before = some cause ∧ causes cause := by
  rcases List.append_eq_append_iff.mp split with ⟨later, rfl, whole⟩ | ⟨middle, whole, shift⟩
  · obtain ⟨dated, cause, underWay, caused⟩ := moves.caused later tx reply after whole transfer
    exact ⟨later, rfl, ⟨_, whole.symm⟩, dated, cause, Entry.sweeping_append underWay, caused⟩
  · cases middle with
    | nil =>
      obtain ⟨_, cause, underWay, _⟩ := moves.caused [] tx reply after shift.symm transfer
      cases underWay
    | cons entry more =>
      obtain ⟨rfl, rfl⟩ := List.cons_eq_cons.mp shift
      have other := still (.asked (.send tx) reply) (by simp [whole])
      simp [Entry.unmoving, transfer] at other

end

namespace Entry

def inSweep (block : UInt64) : Entry → Bool
  | .sweepBegan _ | .sweepEnded _ | .asked .blockNumber _ => false
  | .asked (.send tx) _ => tx.creationBlock == block
  | _ => true

theorem inSweep_unmarked {block : UInt64} {entry : Entry} (inside : entry.inSweep block = true) :
    entry.unmarked = true ∧ entry.block? = none := by
  cases entry with
  | sweepBegan | sweepEnded => cases inside
  | asked call reply =>
    cases call with
    | blockNumber => cases inside
    | _ => exact ⟨rfl, rfl⟩
  | _ => exact ⟨rfl, rfl⟩

end Entry

namespace Effect

variable {block : UInt64} {causes : SweepCause → Prop}

theorem Transfers.inSweep {account owner price m r added m'}
    (run : Transfers account owner price block m r added m') :
    ∀ entry ∈ added, entry.inSweep block = true := by
  cases run <;> simp [Entry.inSweep, sweepTransfer, Transaction.valueTransfer]

theorem Withdraws.inSweep {managerFunds m r added m'} (run : Withdraws managerFunds block m r added m') :
    ∀ entry ∈ added, entry.inSweep block = true := by
  cases run with
  | ownerless | priceUnread => simp [Entry.inSweep]
  | workerFailed known worker =>
    have first := worker.inSweep
    simpa [Entry.inSweep] using first
  | workerOnly spared known worker =>
    have first := worker.inSweep
    simpa [Entry.inSweep, or_imp, forall_and] using first
  | managerFailed wanted known worker manager | both wanted known worker manager =>
    have first := worker.inSweep
    have second := manager.inSweep
    simpa [Entry.inSweep, or_imp, forall_and] using ⟨first, second⟩

theorem Sweeps.moves {cause managerFunds m r added m'}
    (run : Sweeps cause managerFunds block m r added m') (caused : causes cause) :
    Moves block causes added := by
  have begun {inner : List Entry} (inside : ∀ entry ∈ inner, entry.inSweep block = true) :
      Moves block causes (.sweepBegan cause :: inner) := by
    have blocks : inner.filterMap Entry.block? = [] :=
      List.filterMap_eq_nil_iff.mpr fun entry member => (Entry.inSweep_unmarked (inside entry member)).2
    refine ⟨blocks, ?_⟩
    intro before tx reply after split transfer
    cases before with
    | nil => cases split
    | cons first later =>
      obtain ⟨rfl, rfl⟩ := List.cons_eq_cons.mp split
      have dated := inside (.asked (.send tx) reply) (by simp)
      refine ⟨eq_of_beq dated, cause, ?_, caused⟩
      refine Entry.foldl_mark (fun entry member => ?_) (some cause)
      exact (Entry.inSweep_unmarked (inside entry (List.mem_append_left _ member))).1
  cases run with
  | failed run => exact begun run.inSweep
  | ended run =>
    rw [← List.cons_append]
    exact (begun run.inSweep).append (moves_none (by simp [Entry.unmoving, Entry.block?]))

theorem Handles.moves {event m r added m'} (run : Handles block event m r added m')
    (caused : event.kind = .stakeWithdrawn → causes (.withdrawn event)) : Moves block causes added := by
  have reacts {r added m'} (run : Reacts block event m r added m') : Moves block causes added := by
    cases run with
    | unread kind reading | added kind reading => exact reading.aside.moves
    | @unlocked _ _ _ due _ middle data reading =>
      exact reading.aside.moves.append
        (moves_none (Manager.delay_all middle (fun _ => ⟨rfl, rfl⟩) due event fun _ => ⟨rfl, rfl⟩))
    | withdrawn kind reading sweep =>
      have noted : Moves block causes [.logged (.handlingWithdrawn event.hash)] :=
        moves_none (by simp [Entry.unmoving, Entry.block?])
      exact reading.aside.moves.append (noted.append (sweep.moves (caused kind)))
    | ignored kind => exact moves_none (by simp [Entry.unmoving, Entry.block?])
  cases run with
  | settled known => exact moves_none (by simp [Entry.unmoving, Entry.block?])
  | failed fresh run => exact reacts run
  | done fresh run => exact (reacts run).append (moves_none (by simp [Entry.unmoving, Entry.block?]))

theorem FetchesRecord.moves {m r added m'} (run : FetchesRecord m r added m') : Moves block causes added := by
  cases run <;> exact moves_none (by simp [Entry.unmoving, Entry.block?])

theorem SweepsFor.moves {event m r added m'} (run : SweepsFor block event m r added m')
    (caused : causes (.unlocked event)) : Moves block causes added := by
  cases run with
  | spared kind => exact moves_none (by simp)
  | swept kind sweep =>
    have noted : Moves block causes [.logged (.handlingUnlocked event.hash)] :=
      moves_none (by simp [Entry.unmoving, Entry.block?])
    exact noted.append (sweep.moves caused)

theorem InTurn.moves {one : EventRecord → Effect (List String)} {events m r added m'}
    (each : ∀ event ∈ events, ∀ {m r added m'}, one event m r added m' → Moves block causes added)
    (run : InTurn one events m r added m') : Moves block causes added :=
  run.chained (fun _ => moves_none (by simp)) (fun first second => first.append second) each

-- No sweep for an unlock begins while stake events are handled.
theorem unbegun_trail : Trail fun _ added _ => unlocksBegun added = [] where
  refl _ := rfl
  trans first second := by
    unfold unlocksBegun at *
    rw [List.filterMap_append, first, second]
    rfl
  part part := List.filterMap_eq_nil_iff.mpr
    (part.all (p := fun entry => entry.unlockBegan? = none) (fun _ _ _ => rfl) (fun _ => rfl)
      (fun _ _ => rfl) rfl fun _ => rfl)

theorem Handles.unbegun {event m r added m'} (run : Handles block event m r added m') :
    unlocksBegun added = [] := by
  refine run.obeys unbegun_trail fun sweep => List.filterMap_eq_nil_iff.mpr ?_
  exact sweep.all (p := fun entry => entry.unlockBegan? = none) (fun _ _ _ => rfl) (fun _ => rfl)
    rfl rfl rfl

theorem Withdraws.unbegun {managerFunds m r added m'} (run : Withdraws managerFunds block m r added m') :
    unlocksBegun added = [] := by
  refine List.filterMap_eq_nil_iff.mpr ?_
  exact run.all (p := fun entry => entry.unlockBegan? = none) (fun _ _ _ => rfl) (fun _ => rfl) rfl

theorem SweepsFor.begun {event m r added m'} (run : SweepsFor block event m r added m') :
    (unlocksBegun added).Sublist [event] ∧ m'.delayed = m.delayed ∧ m'.handled = m.handled := by
  cases run with
  | spared kind => exact ⟨List.nil_sublist _, rfl, rfl⟩
  | @swept _ _ inner _ kind sweep =>
    obtain ⟨handled, delayed⟩ := sweep.kept
    have one : unlocksBegun inner = [event] := by
      cases sweep with
      | failed run => exact congrArg (event :: ·) run.unbegun
      | ended run =>
        have began : Entry.unlockBegan? (.sweepBegan (.unlocked event)) = some event := rfl
        have none := run.unbegun
        unfold unlocksBegun at none ⊢
        rw [List.filterMap_cons_some began, List.filterMap_append, none]
        rfl
    exact ⟨one ▸ List.Sublist.refl _, delayed, handled⟩

theorem turns_begun {events m r added m'} (run : InTurn (SweepsFor block) events m r added m') :
    (unlocksBegun added).Sublist events ∧ m'.delayed = m.delayed ∧ m'.handled = m.handled := by
  induction run with
  | done => exact ⟨List.Sublist.refl _, rfl, rfl⟩
  | stopped turn =>
    obtain ⟨begun, delayed, handled⟩ := turn.begun
    exact ⟨begun.trans (List.sublist_append_left [_] _), delayed, handled⟩
  | stoppedLater turn _ ih | passed turn _ ih =>
    obtain ⟨begun, delayed, handled⟩ := turn.begun
    obtain ⟨others, delayedLater, handledLater⟩ := ih
    refine ⟨?_, delayedLater.trans delayed, handledLater.trans handled⟩
    unfold unlocksBegun at *
    rw [List.filterMap_append]
    exact begun.append others

end Effect

-- What a manager owes to the unlocks that it has `seen`: those that wait are among them with the block
-- they are due at, and none waits that a sweep has `begun` for or that may be fetched again unhandled.
structure Custody (scanned : UInt64) (seen begun : List EventRecord) (m : Manager) : Prop where
  waiting : ∀ delayed ∈ m.delayed.waiting, delayed.event ∈ seen ∧
    ∃ manager owner, delayed.event.data = .stakeUnlocked manager owner delayed.due
  once : ∀ event, begun.count event + m.waits.count event ≤ 1
  kept : ∀ event, event ∈ begun ∨ event ∈ m.waits → event.block ≤ scanned ∨ event.key ∈ m.handled

namespace Custody

variable {scanned : UInt64} {seen begun : List EventRecord} {m m' : Manager}

theorem same (custody : Custody scanned seen begun m) (delayed : m'.delayed = m.delayed)
    (handled : m'.handled = m.handled) : Custody scanned seen begun m' where
  waiting := by rw [delayed]; exact custody.waiting
  once := by unfold Manager.waits; rw [delayed]; exact custody.once
  kept := by unfold Manager.waits; rw [delayed, handled]; exact custody.kept

theorem more (custody : Custody scanned seen begun m) {wider : List EventRecord}
    (wide : ∀ event ∈ seen, event ∈ wider) : Custody scanned wider begun m where
  waiting delayed member := (custody.waiting delayed member).imp_left (wide delayed.event)
  once := custody.once
  kept := custody.kept

theorem later (custody : Custody scanned seen begun m) {current : UInt64} (newer : scanned < current) :
    Custody current seen begun m where
  waiting := custody.waiting
  once := custody.once
  kept event owed :=
    (custody.kept event owed).imp_left fun old => UInt64.le_trans old (UInt64.le_of_lt newer)

theorem forget (custody : Custody scanned seen begun m) :
    Custody scanned seen begun (Manager.forgetHandled scanned m).1 where
  waiting := custody.waiting
  once := custody.once
  kept event owed := by
    by_cases old : event.block ≤ scanned
    · exact .inl old
    · have known := (custody.kept event owed).resolve_left old
      exact .inr (List.mem_filter.mpr ⟨known, decide_eq_true (UInt64.not_le.mp old)⟩)

-- An event that was handled just now. If it was let into the queue, no sweep was begun for it before.
theorem settle (custody : Custody scanned seen begun m) {event : EventRecord} (known : event ∈ seen)
    (beyond : scanned < event.block) (fresh : event.key ∉ m.handled) (joined : List DelayedEvent)
    (queue : m'.delayed.waiting = m.delayed.waiting ++ joined) (few : joined.length ≤ 1)
    (own : ∀ delayed ∈ joined, delayed.event = event ∧
      ∃ manager owner, event.data = .stakeUnlocked manager owner delayed.due)
    (handled : m'.handled = m.handled) : Custody scanned seen begun (Manager.settle event m').1 := by
  have owns : ∀ other ∈ joined.map (·.event), other = event := by
    intro other member
    obtain ⟨delayed, among, rfl⟩ := List.mem_map.mp member
    exact (own delayed among).1
  have waits : (Manager.settle event m').1.waits = m.waits ++ joined.map (·.event) := by
    change m'.delayed.waiting.map (·.event) = _
    rw [queue, List.map_append]
    rfl
  have unowed : event ∉ begun ∧ event ∉ m.waits := by
    rw [← not_or]
    intro owed
    rcases custody.kept event owed with old | held
    · exact UInt64.not_le.mpr beyond old
    · exact fresh held
  refine ⟨fun delayed member => ?_, fun other => ?_, fun other owed => ?_⟩
  · change delayed ∈ m'.delayed.waiting at member
    rw [queue] at member
    rcases List.mem_append.mp member with old | new
    · exact custody.waiting delayed old
    · obtain ⟨same, data⟩ := own delayed new
      rw [same]
      exact ⟨known, data⟩
  · rw [waits, List.count_append]
    by_cases same : other = event
    · have before : begun.count other = 0 ∧ m.waits.count other = 0 := by
        rw [same]
        exact ⟨List.count_eq_zero.mpr unowed.1, List.count_eq_zero.mpr unowed.2⟩
      have bound : (joined.map (·.event)).count other ≤ (joined.map (·.event)).length := List.count_le_length
      rw [List.length_map] at bound
      omega
    · have none : (joined.map (·.event)).count other = 0 :=
        List.count_eq_zero.mpr fun member => same (owns other member)
      have bound := custody.once other
      omega
  · rw [Manager.settle_handled, handled]
    rw [waits, List.mem_append] at owed
    rcases owed with old | waiting | new
    · exact (custody.kept other (.inl old)).imp_right .inr
    · exact (custody.kept other (.inr waiting)).imp_right .inr
    · rw [owns other new]
      exact .inr (.inl rfl)

theorem turn (custody : Custody scanned seen begun m) {block event r added} (known : event ∈ seen)
    (beyond : scanned < event.block) (run : Effect.Handles block event m r added m') :
    Custody scanned seen begun m' := by
  cases run with
  | settled held => exact custody
  | failed fresh run =>
    cases run with
    | unread kind reading => exact custody.same reading.aside.delayed reading.aside.handled
    | withdrawn kind reading sweep =>
      obtain ⟨handled, delayed⟩ := sweep.kept
      exact (custody.same reading.aside.delayed reading.aside.handled).same delayed handled
  | @done _ _ _ middle fresh run =>
    have still (delayed : middle.delayed = m.delayed) (handled : middle.handled = m.handled) :
        Custody scanned seen begun (Manager.settle event middle).1 := by
      refine custody.settle known beyond fresh [] ?_ (by simp) (by simp) handled
      rw [delayed, List.append_nil]
    cases run with
    | added kind reading => exact still reading.aside.delayed reading.aside.handled
    | ignored kind => exact still rfl rfl
    | withdrawn kind reading sweep =>
      obtain ⟨handled, delayed⟩ := sweep.kept
      exact still (delayed.trans reading.aside.delayed) (handled.trans reading.aside.handled)
    | @unlocked _ _ _ due _ before data reading =>
      have same := reading.aside.delayed
      have queue : (Manager.delay due event before).1.delayed = m.delayed.push due event := by
        rw [← same]
        rfl
      unfold DelayedQueue.push at queue
      cases held : m.delayed.holds event.key with
      | true =>
        rw [held, if_pos rfl] at queue
        exact still queue reading.aside.handled
      | false =>
        rw [held, if_neg (by decide)] at queue
        refine custody.settle known beyond fresh [⟨due, event⟩] ?_ (by simp) ?_ reading.aside.handled
        · rw [queue]
        · simp [data]

theorem release (custody : Custody scanned seen begun m) {block r added}
    (run : Effect.Releases block m r added m') :
    Custody scanned seen (begun ++ unlocksBegun added) m' ∧
      Moves block (fun cause => ∃ event ∈ seen, (∃ manager owner due,
        event.data = .stakeUnlocked manager owner due ∧ due ≤ block) ∧ cause = .unlocked event) added := by
  cases run with
  | released sweeps =>
    obtain ⟨begunNow, delayed, handled⟩ := Effect.turns_begun sweeps
    have apart := due_perm m block
    have waits : m'.waits = (Manager.dropDue block m).1.waits := by
      unfold Manager.waits
      rw [delayed]
    have counted (event : EventRecord) :
        (unlocksBegun added).count event + m'.waits.count event ≤ m.waits.count event := by
      have split := apart.count_eq event
      have few := begunNow.count_le event
      rw [List.count_append] at split
      rw [waits]
      omega
    constructor
    · refine ⟨fun waiting member => ?_, fun event => ?_, fun event owed => ?_⟩
      · rw [delayed] at member
        exact custody.waiting waiting (List.mem_of_mem_filter member)
      · have bound := custody.once event
        have fewer := counted event
        rw [List.count_append]
        omega
      · have before : event ∈ begun ∨ event ∈ m.waits := by
          rw [List.mem_append, waits] at owed
          rcases owed with (old | new) | left
          · exact .inl old
          · exact .inr (apart.mem_iff.mpr (List.mem_append_left _ (begunNow.subset new)))
          · exact .inr (apart.mem_iff.mpr (List.mem_append_right _ left))
        rw [handled]
        exact custody.kept event before
    · refine sweeps.moves fun event member _ _ _ _ run => run.moves ?_
      obtain ⟨waiting, among, rfl⟩ := List.mem_map.mp member
      obtain ⟨queued, due⟩ := List.mem_filter.mp among
      obtain ⟨known, manager, owner, data⟩ := custody.waiting waiting queued
      exact ⟨_, known, ⟨manager, owner, waiting.due, data, of_decide_eq_true due⟩, rfl⟩

end Custody

def Ranged (journal : List Entry) : Prop :=
  ∀ answer ∈ journal.filterMap Entry.stakeAnswer?, ∀ event ∈ answer.2, answer.1.holds event.block = true

theorem Serves.ranged {log : List EventRecord} {journal : List Entry} (serves : Serves log journal) :
    Ranged journal := by
  intro answer member event fetched
  rw [serves answer member] at fetched
  exact (List.mem_filter.mp fetched).2

theorem Ranged.part {journal whole : List Entry} (ranged : Ranged whole) (part : journal.Sublist whole) :
    Ranged journal := fun answer member => ranged answer ((part.filterMap _).subset member)

theorem Ranged.asked {journal : List Entry} (ranged : Ranged journal) {m : Manager}
    {scanned current : UInt64} (newer : scanned < current) {events : List EventRecord}
    (asked : .asked (m.stakeQuery scanned current) (.ok events) ∈ journal) :
    ∀ event ∈ events, scanned < event.block ∧ event.block ≤ current := by
  intro event member
  have holds := ranged (_, events) (List.mem_filterMap.mpr ⟨_, asked, rfl⟩) event member
  have range := BlockRange.since_holds newer event.block
  change (BlockRange.since scanned current).holds event.block = true at holds
  rw [range, Bool.and_eq_true_iff] at holds
  exact ⟨of_decide_eq_true holds.1, of_decide_eq_true holds.2⟩

-- What entitles a sweep to move funds at a block: a withdrawal fetched `now`, of the blocks after the
-- scanned ones, or an unlock that was `seen` and is due.
def SweepCause.Entitled (scanned block : UInt64) (seen now : List EventRecord) : SweepCause → Prop
  | .demand => False
  | .withdrawn event =>
    event ∈ now ∧ event.kind = .stakeWithdrawn ∧ scanned < event.block ∧ event.block ≤ block
  | .unlocked event => event ∈ seen ∧
    ∃ manager owner due, event.data = .stakeUnlocked manager owner due ∧ due ≤ block

theorem SweepCause.Entitled.mono {scanned block : UInt64} {seen now wider later : List EventRecord}
    {cause : SweepCause} (entitled : cause.Entitled scanned block seen now)
    (known : ∀ event ∈ seen, event ∈ wider) (fresh : ∀ event ∈ now, event ∈ later) :
    cause.Entitled scanned block wider later := by
  cases cause with
  | demand => exact entitled
  | withdrawn event => exact ⟨fresh event entitled.1, entitled.2⟩
  | unlocked event => exact ⟨known event entitled.1, entitled.2⟩

open Effect

section

variable {scanned current : UInt64} {seen begun : List EventRecord} {m m' : Manager}

theorem turns_custody {events r added} (run : InTurn (Handles current) events m r added m')
    (custody : Custody scanned seen begun m)
    (known : ∀ event ∈ events, event ∈ seen ∧ scanned < event.block) : Custody scanned seen begun m' := by
  have keeps := run.chained (R := fun m _ m' => Custody scanned seen begun m → Custody scanned seen begun m')
    (fun _ => id) (fun first second => second ∘ first) fun event member _ _ _ _ turn held =>
      held.turn (known event member).1 (known event member).2 turn
  exact keeps custody

theorem fetched_entries (m : Manager) (scanned current : UInt64) (events : List EventRecord) :
    fetched (fetchEntries m scanned current events) = events ∧
      ∀ entry ∈ fetchEntries m scanned current events, entry.unmoving = true ∧ entry.block? = none := by
  have quiet := Manager.scanNotices_quiet events (.since scanned current)
  have answer : (fetchEntries m scanned current events).filterMap Entry.stakeAnswer? =
      [(.since scanned current, events)] := congrArg (_ :: ·) (quiet.filterMap _ fun _ => rfl)
  constructor
  · rw [fetched, answer]
    exact List.append_nil _
  · exact List.forall_mem_cons.mpr ⟨⟨rfl, rfl⟩, quiet.all fun _ => ⟨rfl, rfl⟩⟩

-- Work of a cycle after `journal`: in its `head` stake events are fetched, and all funds it moves after
-- that are for its current block.
structure Guards (scanned current : UInt64) (journal head rest : List Entry) (m : Manager) : Prop where
  still : ∀ entry ∈ head, entry.unmoving = true ∧ entry.block? = none
  custody : Custody scanned (fetched (journal ++ head)) (unlocksBegun (journal ++ (head ++ rest))) m
  moves : Moves current (SweepCause.Entitled scanned current (fetched (journal ++ head)) (fetched head)) rest

namespace Guards

variable {journal head rest more : List Entry}

theorem aside (guards : Guards scanned current journal head rest m) (work : Aside m more m') :
    Guards scanned current journal head (rest ++ more) m' := by
  refine ⟨guards.still, ?_, guards.moves.append work.moves⟩
  have none := work.unbegun
  rw [← List.append_assoc, ← List.append_assoc, unlocksBegun_append _ more, none, List.append_nil,
    List.append_assoc]
  exact guards.custody.same work.delayed work.handled

theorem release {r} (guards : Guards scanned current journal head rest m)
    (run : Releases current m r more m') : Guards scanned current journal head (rest ++ more) m' := by
  obtain ⟨custody, moves⟩ := guards.custody.release run
  refine ⟨guards.still, ?_, guards.moves.append (moves.mono ?_)⟩
  · rw [← List.append_assoc, ← List.append_assoc, unlocksBegun_append _ more, List.append_assoc]
    exact custody
  · rintro _ ⟨event, known, due, rfl⟩
    exact ⟨known, due⟩

end Guards

theorem scan_guards {hubEvents r added journal} (run : Scans hubEvents scanned current m r added m')
    (newer : scanned < current) (custody : Custody scanned (fetched journal) (unlocksBegun journal) m)
    (ranged : Ranged added) :
    ∃ head rest, added = head ++ rest ∧ Guards scanned current journal head rest m' := by
  have none := run.obeys unbegun_trail (fun _ => rfl) fun turn => turn.unbegun
  have turned {answer r more m'} (asked : .asked (m.stakeQuery scanned current) (.ok answer) ∈ added)
      (handling : InTurn (Handles current) answer (Manager.forgetHandled scanned m).1 r more m') :
      Custody scanned (fetched journal ++ answer) (unlocksBegun journal) m' ∧
        Moves current (SweepCause.Entitled scanned current [] answer) more := by
    have inside := ranged.asked newer asked
    constructor
    · exact turns_custody handling (custody.forget.more fun _ => List.mem_append_left _) fun event member =>
        ⟨List.mem_append_right _ member, (inside event member).1⟩
    · exact handling.moves fun event member _ _ _ _ turn => turn.moves fun kind =>
        ⟨member, kind, inside event member⟩
  have silent (still : ∀ entry ∈ added, entry.unmoving = true ∧ entry.block? = Option.none) :
      Guards scanned current journal added [] m := by
    refine ⟨still, ?_, moves_none (by simp)⟩
    rw [List.append_nil, unlocksBegun_append, none, List.append_nil]
    exact custody.more (by simp +contextual [fetched_append])
  -- What is known of the answer is known of the entries that hold it.
  have guards {answer rest m'} (whole : added = fetchEntries m scanned current answer ++ rest)
      (kept : Custody scanned (fetched journal ++ answer) (unlocksBegun journal) m')
      (moves : Moves current (SweepCause.Entitled scanned current [] answer) rest) :
      Guards scanned current journal (fetchEntries m scanned current answer) rest m' := by
    obtain ⟨same, still⟩ := fetched_entries m scanned current answer
    refine ⟨still, ?_, moves.mono fun cause entitled => entitled.mono (by simp) (by simp [same])⟩
    rw [fetched_append, same, ← whole, unlocksBegun_append, none, List.append_nil]
    exact kept
  cases run with
  | idle fresh => exact ⟨[], [], rfl, silent (by simp)⟩
  | unread ready failure =>
    refine ⟨_, [], (List.append_nil _).symm, silent ?_⟩
    simp [Entry.unmoving, Entry.block?, Manager.stakeQuery]
  | @stopped _ answer _ _ _ ready handling =>
    obtain ⟨kept, moves⟩ := turned (by simp [fetchEntries]) handling
    exact ⟨_, _, rfl, guards rfl kept moves⟩
  | @recordless _ answer _ _ _ _ _ ready handling record =>
    obtain ⟨kept, moves⟩ := turned (by simp [fetchEntries]) handling
    cases record.memory
    rw [List.append_assoc] at guards ⊢
    exact ⟨_, _, rfl, guards rfl kept (moves.append record.moves)⟩
  | @done _ answer _ _ middle record _ ready handling found =>
    obtain ⟨kept, moves⟩ := turned (by simp [fetchEntries]) handling
    have observed : Moves current (SweepCause.Entitled scanned current [] answer) _ :=
      moves_none (Manager.observeRecord_all middle (fun _ => ⟨rfl, rfl⟩) record ⟨rfl, rfl⟩)
    rw [List.append_assoc, List.append_assoc] at guards ⊢
    exact ⟨_, _, rfl, guards rfl (kept.same rfl rfl) (moves.append (found.moves.append observed))⟩

theorem cycle_guards {hubEvents force r added journal}
    (run : Cycles hubEvents scanned current force m r added m') (newer : scanned < current)
    (custody : Custody scanned (fetched journal) (unlocksBegun journal) m) (ranged : Ranged added) :
    ∃ head rest, added = head ++ rest ∧ Guards scanned current journal head rest m' := by
  cases run with
  | scanFailed scan => exact scan_guards scan newer custody ranged
  | releaseFailed scan release =>
    obtain ⟨head, rest, rfl, guards⟩ :=
      scan_guards scan newer custody (ranged.part (List.sublist_append_left _ _))
    exact ⟨head, _, List.append_assoc _ _ _, guards.release release⟩
  | registerFailed scan release register =>
    rw [List.append_assoc] at ranged ⊢
    obtain ⟨head, rest, rfl, guards⟩ :=
      scan_guards scan newer custody (ranged.part (List.sublist_append_left _ _))
    refine ⟨head, _, List.append_assoc _ _ _, ?_⟩
    rw [← List.append_assoc]
    exact (guards.release release).aside register.aside
  | done scan release register =>
    rw [List.append_assoc] at ranged ⊢
    obtain ⟨head, rest, rfl, guards⟩ :=
      scan_guards scan newer custody (ranged.part (List.sublist_append_left _ _))
    refine ⟨head, _, List.append_assoc _ _ _, ?_⟩
    rw [← List.append_assoc]
    have after := (guards.release release).aside register.aside
    exact ⟨after.still, after.custody.same rfl rfl, after.moves⟩

def Transferring (scanned : UInt64) (journal added : List Entry) : Prop :=
  ∀ before tx reply after, added = before ++ .asked (.send tx) reply :: after →
    tx.action = .valueTransfer →
    ∃ current, before.filterMap Entry.block? = [current] ∧ tx.creationBlock = current ∧
      ∃ cause, sweeping before = some cause ∧
        cause.Entitled scanned current (fetched (journal ++ before)) (fetched before)

theorem transferring_none {journal added : List Entry} (still : ∀ entry ∈ added, entry.unmoving = true) :
    Transferring scanned journal added := by
  rintro before tx reply after rfl transfer
  have other := still (.asked (.send tx) reply) (by simp)
  simp [Entry.unmoving, transfer] at other

theorem opening_still {early middle late} (reply : Except LedgerFailure UInt64)
    (first : Aside m early middle) (second : Aside middle late m') :
    let opening := early ++ .asked .blockNumber reply :: late
    (∀ entry ∈ opening, entry.unmoving = true) ∧ unlocksBegun opening = [] ∧
      opening.filterMap Entry.block? = (Entry.block? (.asked .blockNumber reply)).toList := by
  intro opening
  have stillFirst := fun entry member => (Entry.plain_unmoving (first.plain entry member)).1
  have stillSecond := fun entry member => (Entry.plain_unmoving (second.plain entry member)).1
  refine ⟨?_, ?_, ?_⟩
  · exact List.forall_mem_append.mpr ⟨stillFirst, List.forall_mem_cons.mpr ⟨rfl, stillSecond⟩⟩
  · rw [unlocksBegun_append, first.unbegun]
    exact second.unbegun
  · have none := first.filterMap _ fun entry plain => (Entry.plain_unmoving plain).2
    have noneLater := second.filterMap _ fun entry plain => (Entry.plain_unmoving plain).2
    change List.filterMap _ (early ++ ([.asked .blockNumber reply] ++ late)) = _
    rw [List.filterMap_append, List.filterMap_append, none, noneLater, List.append_nil]
    cases reply <;> rfl

theorem Guards.transferring {journal opening head rest : List Entry}
    (guards : Guards scanned current (journal ++ opening) head rest m)
    (still : ∀ entry ∈ opening, entry.unmoving = true)
    (read : opening.filterMap Entry.block? = [current]) :
    Transferring scanned journal (opening ++ (head ++ rest)) := by
  intro before tx reply after split transfer
  have stillHead : ∀ entry ∈ opening ++ head, entry.unmoving = true :=
    List.forall_mem_append.mpr ⟨still, fun entry member => (guards.still entry member).1⟩
  rw [← List.append_assoc] at split
  obtain ⟨later, rfl, inside, dated, cause, underWay, entitled⟩ :=
    guards.moves.behind stillHead split transfer
  refine ⟨current, ?_, dated, cause, underWay, entitled.mono ?_ ?_⟩
  · have none : head.filterMap Entry.block? = [] :=
      List.filterMap_eq_nil_iff.mpr fun entry member => (guards.still entry member).2
    have noneLater : later.filterMap Entry.block? = [] := by
      refine List.prefix_nil.mp ?_
      rw [← guards.moves.blocks]
      exact inside.filterMap _
    rw [List.filterMap_append, List.filterMap_append, read, none, noneLater]
    rfl
  · simp +contextual [fetched_append, or_imp]
  · simp +contextual [fetched_append]

theorem Guards.whole {journal opening head rest : List Entry}
    (guards : Guards scanned current (journal ++ opening) head rest m) :
    Custody scanned (fetched (journal ++ (opening ++ (head ++ rest))))
      (unlocksBegun (journal ++ (opening ++ (head ++ rest)))) m := by
  have kept := guards.custody
  rw [List.append_assoc, List.append_assoc] at kept
  exact kept.more (by simp +contextual [fetched_append, or_imp])

theorem poll_custody {journal r added} (run : Poller.Polls scanned m r added m')
    (custody : Custody scanned (fetched journal) (unlocksBegun journal) m) (ranged : Ranged added) :
    Custody (Poller.scannedAfter scanned r) (fetched (journal ++ added)) (unlocksBegun (journal ++ added)) m' ∧
      Transferring scanned journal added := by
  have silent {entries} (none : unlocksBegun entries = []) {m'} (delayed : m'.delayed = m.delayed)
      (handled : m'.handled = m.handled) :
      Custody scanned (fetched (journal ++ entries)) (unlocksBegun (journal ++ entries)) m' := by
    rw [unlocksBegun_append, none, List.append_nil]
    exact (custody.same delayed handled).more (by simp +contextual [fetched_append])
  cases run with
  | stopped stop =>
    obtain ⟨same, aside | ⟨_, _, _, _, rfl, first, second⟩⟩ := stop.parts
    · rw [same]
      have still := fun entry member => (Entry.plain_unmoving (aside.plain entry member)).1
      exact ⟨silent aside.unbegun aside.delayed aside.handled, transferring_none still⟩
    · rw [same]
      obtain ⟨still, none, _⟩ := opening_still _ first second
      exact ⟨silent none (second.delayed.trans first.delayed) (second.handled.trans first.handled),
        transferring_none still⟩
  | @failed current _ _ _ _ _ _ opens cycle =>
    obtain ⟨newer, _, _, _, rfl, first, second⟩ := opens.parts
    obtain ⟨still, none, read⟩ := opening_still (.ok current) first second
    have opened := silent none (second.delayed.trans first.delayed) (second.handled.trans first.handled)
    obtain ⟨head, rest, rfl, guards⟩ :=
      cycle_guards cycle newer opened (ranged.part (List.sublist_append_right _ _))
    exact ⟨guards.whole, guards.transferring still read⟩
  | @done current _ _ _ outcome _ _ opens cycle =>
    obtain ⟨newer, _, _, _, rfl, first, second⟩ := opens.parts
    obtain ⟨still, none, read⟩ := opening_still (.ok current) first second
    have opened := silent none (second.delayed.trans first.delayed) (second.handled.trans first.handled)
    have inside := (ranged.part (List.sublist_append_right _ _)).part (List.sublist_append_left _ _)
    obtain ⟨head, rest, rfl, guards⟩ := cycle_guards cycle newer opened inside
    have noticed : Aside m' (Poller.submissionNotice outcome current) m' := by
      refine aside_still ?_
      unfold Poller.submissionNotice
      split <;> simp [Entry.plain]
    have after := guards.aside noticed
    rw [List.append_assoc head rest]
    exact ⟨after.whole.later newer, after.transferring still read⟩

end

section

variable {ω : Type} (c : Collaborators ω)

theorem polls_custody (settings : ServerSettings) (address worker : String) (world : ω)
    (pollMillis : Nat) (policy : RetryPolicy) (start : UInt64) (n : Nat) :
    let p := Poller.polls c n (.fresh settings address worker world pollMillis policy start)
    Ranged p.session.journal →
      Custody p.scanned (fetched p.session.journal) (unlocksBegun p.session.journal) p.session.manager := by
  induction n with
  | zero =>
    intro p _
    refine ⟨fun delayed member => ?_, fun event => Nat.zero_le 1, fun event owed => ?_⟩
    · cases member
    · rcases owed with begun | waiting
      · cases begun
      · cases waiting
  | succ n ih =>
    intro p ranged
    obtain ⟨r, added, journal, polled, scanned⟩ := Poller.pollOnce_polls c
      (Poller.polls c n (.fresh settings address worker world pollMillis policy start))
    change Ranged (Poller.pollOnce c _).2.session.journal at ranged
    rw [journal] at ranged
    have before := ih (ranged.part (List.sublist_append_left _ _))
    have after := (poll_custody polled before (ranged.part (List.sublist_append_right _ _))).1
    rw [← journal, ← scanned] at after
    exact after

-- Stake events are fetched for the blocks that were asked for, as they are from one log. The entitlement is by what
-- was fetched, not by what the ledger allows; an unlock has one sweep at most over a whole run.
theorem funds_move_when_entitled (settings : ServerSettings) (address worker : String) (world : ω)
    (pollMillis : Nat) (policy : RetryPolicy) (start : UInt64) (n : Nat)
    (ranged : Ranged
      (Poller.polls c (n + 1) (.fresh settings address worker world pollMillis policy start)).session.journal) :
    let p := Poller.polls c n (.fresh settings address worker world pollMillis policy start)
    let q := (p.pollOnce c).2
    Transferring p.scanned p.session.journal (p.session.adds q.session) ∧
      ∀ event, (unlocksBegun q.session.journal).count event ≤ 1 := by
  intro p q
  obtain ⟨r, added, journal, polled, scanned⟩ := Poller.pollOnce_polls c p
  change Ranged q.session.journal at ranged
  rw [journal] at ranged
  have before := polls_custody c settings address worker world pollMillis policy start n
    (ranged.part (List.sublist_append_left _ _))
  obtain ⟨after, moved⟩ := poll_custody polled before (ranged.part (List.sublist_append_right _ _))
  rw [adds_eq journal, journal]
  exact ⟨moved, fun event => Nat.le_trans (Nat.le_add_right _ _) (after.once event)⟩

end

namespace Rehearsal

def patient : Rehearsal :=
  { leaving [stakeUnlocked 10 50] with script := some [{ block := some 12 }, { block := some 60 }] }

theorem patient_unlock_swept_once :
    stakeUnlocked 10 50 ∈ unlocksBegun (polled patient 2).session.journal ∧
      (unlocksBegun (polled patient 2).session.journal).count (stakeUnlocked 10 50) ≤ 1 := by
  have begun : stakeUnlocked 10 50 ∈ unlocksBegun (polled patient 2).session.journal := by decide +kernel
  have serves : Serves [stakeUnlocked 10 50] (polled patient (1 + 1)).session.journal := by decide +kernel
  refine ⟨begun, ?_⟩
  unfold polled at serves ⊢
  rw [Poller.polls]
  obtain ⟨_, once⟩ := funds_move_when_entitled collaborators settings manager worker patient 10 {} 0 1
    serves.ranged
  exact once (stakeUnlocked 10 50)

end Rehearsal
end TransactionRelay
