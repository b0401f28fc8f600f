import TransactionRelay.Proofs.Polling.DueTransfers
import TransactionRelay.Proofs.Registration.StakeHistory

namespace TransactionRelay

open Effect
open Entry (fetched sweeping)

namespace Entry

def reading? : Entry → Option StakeReading
  | .asked (.stakeReading _) (.ok reading) => some reading
  | _ => none

def lastReading (entries : List Entry) : Option StakeReading := (entries.filterMap reading?).getLast?

theorem reading_asked {entry : Entry} {reading : StakeReading} (read : entry.reading? = some reading) :
    ∃ address, entry = .asked (.stakeReading address) (.ok reading) := by
  cases entry with
  | asked call reply =>
    cases call with
    | stakeReading address =>
      cases reply with
      | error failure => cases read
      | ok answer =>
        cases read
        exact ⟨address, rfl⟩
    | _ => cases read
  | _ => cases read

end Entry

def ReadSince (event : EventRecord) (entries : List Entry) : Prop :=
  ∃ early address reading late, entries = early ++ .asked (.stakeReading address) (.ok reading) :: late ∧
    event ∈ fetched early

theorem ReadSince.more {event : EventRecord} {entries : List Entry} (read : ReadSince event entries)
    (added : List Entry) : ReadSince event (entries ++ added) := by
  obtain ⟨early, address, reading, late, rfl, known⟩ := read
  exact ⟨early, address, reading, late ++ added, List.append_assoc _ _ _, known⟩

theorem ReadSince.last {event : EventRecord} {entries : List Entry} (read : ReadSince event entries) :
    ∃ early address reading late, entries = early ++ .asked (.stakeReading address) (.ok reading) :: late ∧
      event ∈ fetched early ∧ Entry.lastReading entries = some reading := by
  obtain ⟨early, address, reading, late, rfl, known⟩ := read
  have latest : Entry.lastReading (early ++ .asked (.stakeReading address) (.ok reading) :: late) =
      (Entry.lastReading late).or (some reading) := by
    simp [Entry.lastReading, Entry.reading?, List.getLast?_append, List.getLast?_cons]
  rcases List.eq_nil_or_concat' (late.filterMap Entry.reading?) with none | ⟨others, last, found⟩
  · exact ⟨early, address, reading, late, rfl, known, by rw [latest, Entry.lastReading, none]; rfl⟩
  · have final : Entry.lastReading late = some last := by rw [Entry.lastReading, found]; simp
    obtain ⟨before, after, rfl, _, tail⟩ := List.filterMap_eq_append_iff.mp found
    obtain ⟨silent, entry, rest, rfl, _, same, _⟩ := List.filterMap_eq_cons_iff.mp tail
    obtain ⟨own, rfl⟩ := Entry.reading_asked same
    refine ⟨early ++ .asked (.stakeReading address) (.ok reading) :: (before ++ silent), own, last, rest,
      by simp, ?_, by rw [latest, final]; rfl⟩
    rw [fetched_append]
    exact List.mem_append_left _ known

-- A cause that the stake was read for, since its event was fetched.
def SweepCause.Checked (entries : List Entry) : SweepCause → Prop
  | .demand => False
  | .withdrawn event => event.kind = .stakeWithdrawn ∧ ReadSince event entries
  | .unlocked event => event.kind = .stakeUnlocked ∧ ReadSince event entries

theorem SweepCause.Checked.more {entries : List Entry} {cause : SweepCause} (checked : cause.Checked entries)
    (added : List Entry) : cause.Checked (entries ++ added) := by
  cases cause with
  | demand => exact checked
  | withdrawn | unlocked => exact checked.imp_right fun read => read.more added

def Waits (past : List Entry) (m : Manager) : Prop :=
  ∀ event ∈ m.waits, event.kind = .stakeUnlocked ∧ ReadSince event past

-- Work after a past, with what it leaves in the queue. Each transfer is part of a sweep, and its cause is
-- a checked one at that moment.
structure Checks (past added : List Entry) (m' : Manager) : Prop where
  queue : Waits (past ++ added) m'
  funds : ∀ before tx reply after, added = before ++ .asked (.send tx) reply :: after →
    tx.action = .valueTransfer → ∃ cause, sweeping before = some cause ∧ cause.Checked (past ++ before)

theorem Waits.more {past : List Entry} {m m' : Manager} (waits : Waits past m) (added : List Entry)
    (delayed : m'.delayed = m.delayed) : Waits (past ++ added) m' := by
  intro event member
  rw [Manager.waits, delayed] at member
  exact (waits event member).imp_right fun read => read.more added

namespace Checks

variable {past first second added : List Entry} {m middle m' : Manager}

theorem trans (early : Checks past first middle) (late : Checks (past ++ first) second m') :
    Checks past (first ++ second) m' := by
  refine ⟨by rw [← List.append_assoc]; exact late.queue, ?_⟩
  intro before tx reply after split transfer
  rcases Entry.split_append split with ⟨more, whole⟩ | ⟨inner, rfl, whole⟩
  · exact early.funds before tx reply more whole transfer
  · obtain ⟨cause, underWay, checked⟩ := late.funds inner tx reply after whole transfer
    rw [List.append_assoc] at checked
    exact ⟨cause, Entry.sweeping_append underWay, checked⟩

-- Work that leaves the queue as it is and moves funds only for causes that were checked before it.
theorem moves {block : UInt64} (waits : Waits past m) (delayed : m'.delayed = m.delayed)
    (moved : Moves block (SweepCause.Checked past) added) : Checks past added m' where
  queue := waits.more added delayed
  funds before tx reply after split transfer := by
    obtain ⟨_, cause, underWay, checked⟩ := moved.caused before tx reply after split transfer
    exact ⟨cause, underWay, checked.more before⟩

theorem still (waits : Waits past m) (delayed : m'.delayed = m.delayed)
    (still : ∀ entry ∈ added, entry.unmoving = true) : Checks past added m' where
  queue := waits.more added delayed
  funds before tx reply after split transfer := by
    have other := still (.asked (.send tx) reply) (by simp [split])
    simp [Entry.unmoving, transfer] at other

theorem aside (waits : Waits past m) (work : Aside m added m') : Checks past added m' :=
  still waits work.delayed fun entry member => (Entry.plain_unmoving (work.plain entry member)).1

end Checks

section

variable {block : UInt64} {past added : List Entry} {m m' : Manager}

theorem read_since (run : ReadsStake m (.ok ()) added m') {event : EventRecord}
    (known : event ∈ fetched past) : ReadSince event (past ++ added) := by
  cases run with
  | read reading => exact ⟨past, _, reading, _, rfl, known⟩

theorem reacts_check {event r} (run : Reacts block event m r added m') (known : event ∈ fetched past)
    (waits : Waits past m) : Checks past added m' := by
  cases run with
  | unread kind reading | added kind reading => exact .aside waits reading.aside
  | ignored kind => exact .still waits rfl (by simp [Entry.unmoving])
  | @withdrawn _ _ middle _ _ _ kind reading sweep =>
    have first : Checks past _ middle := .aside waits reading.aside
    have noted : Checks (past ++ _) [.logged (.handlingWithdrawn event.hash)] middle :=
      .still first.queue rfl (by simp [Entry.unmoving])
    have read := (read_since reading known).more [.logged (.handlingWithdrawn event.hash)]
    exact first.trans (noted.trans (.moves noted.queue sweep.kept.2 (sweep.moves ⟨kind, read⟩)))
  | @unlocked _ _ _ due read middle data reading =>
    have first : Checks past _ middle := .aside waits reading.aside
    have kind : event.kind = .stakeUnlocked := congrArg EventData.kind data
    refine first.trans ⟨fun other member => ?_, ?_⟩
    · have joined : other ∈ middle.waits ∨ other = event := by
        simp only [Manager.waits, Manager.delay, DelayedQueue.push] at member
        split at member
        · exact .inl member
        · simpa [Manager.waits] using member
      rcases joined with before | rfl
      · exact (first.queue other before).imp_right fun read => read.more _
      · exact ⟨kind, (read_since reading known).more _⟩
    · have still : Checks (past ++ read) (Manager.delay due event middle).2 middle :=
        .still first.queue rfl (Manager.delay_all middle (fun _ => rfl) due event fun _ => rfl)
      exact still.funds

theorem handles_check {event r} (run : Handles block event m r added m') (known : event ∈ fetched past)
    (waits : Waits past m) : Checks past added m' := by
  cases run with
  | settled held => exact .still waits rfl (by simp [Entry.unmoving])
  | failed fresh run => exact reacts_check run known waits
  | done fresh run =>
    have first := reacts_check run known waits
    exact first.trans (.still first.queue rfl (by simp [Entry.unmoving]))

-- One turn after the other: what is fetched before the first is fetched before all of them.
theorem turns_check {events r} (run : InTurn (Handles block) events m r added m')
    (known : ∀ event ∈ events, event ∈ fetched past) (waits : Waits past m) : Checks past added m' := by
  induction run generalizing past with
  | done => exact .still waits rfl (by simp)
  | stopped turn => exact handles_check turn (known _ List.mem_cons_self) waits
  | stoppedLater turn _ ih | passed turn _ ih =>
    have first := handles_check turn (known _ List.mem_cons_self) waits
    refine first.trans (ih (fun event member => ?_) first.queue)
    rw [fetched_append]
    exact List.mem_append_left _ (known event (List.mem_cons_of_mem _ member))

theorem releases_check {r} (run : Releases block m r added m') (waits : Waits past m) :
    Checks past added m' := by
  cases run with
  | released sweeps =>
    obtain ⟨_, delayed, _⟩ := turns_begun sweeps
    have apart := due_perm m block
    have left : Waits past (Manager.dropDue block m).1 := fun event member =>
      waits event (apart.mem_iff.mpr (List.mem_append_right _ member))
    refine .moves left delayed (sweeps.moves fun event member _ _ _ _ turn => turn.moves ?_)
    exact waits event (apart.mem_iff.mpr (List.mem_append_left _ member))

theorem scans_check {hubEvents scanned current r} (run : Scans hubEvents scanned current m r added m')
    (waits : Waits past m) : Checks past added m' := by
  have turned {events r more m'}
      (handling : InTurn (Handles current) events (Manager.forgetHandled scanned m).1 r more m') :
      Checks past (fetchEntries m scanned current events ++ more) m' := by
    obtain ⟨answer, still⟩ := fetched_entries m scanned current events
    have asked : Checks past (fetchEntries m scanned current events) (Manager.forgetHandled scanned m).1 :=
      .still waits rfl fun entry member => (still entry member).1
    refine asked.trans (turns_check handling (fun event member => ?_) asked.queue)
    rw [fetched_append, answer]
    exact List.mem_append_right _ member
  cases run with
  | idle fresh => exact .still waits rfl (by simp)
  | unread ready failure => exact .still waits rfl (by simp [Entry.unmoving, Manager.stakeQuery])
  | stopped ready handling => exact turned handling
  | recordless ready handling record =>
    have first := turned handling
    cases record.memory
    exact first.trans (.moves first.queue rfl (record.moves : Moves current _ _))
  | @done _ _ _ _ middle record _ ready handling found =>
    have first := turned handling
    have fetch := first.trans (.moves first.queue rfl (found.moves : Moves current _ _))
    exact fetch.trans (.still fetch.queue rfl
      (Manager.observeRecord_all middle (fun _ => rfl) record rfl))

theorem cycle_checks {hubEvents scanned current force r}
    (run : Cycles hubEvents scanned current force m r added m') (waits : Waits past m) :
    Checks past added m' := by
  cases run with
  | scanFailed scan => exact scans_check scan waits
  | releaseFailed scan release =>
    have first := scans_check scan waits
    exact first.trans (releases_check release first.queue)
  | registerFailed scan release register | done scan release register =>
    have first := scans_check scan waits
    have second := first.trans (releases_check release first.queue)
    have third := second.trans (.aside second.queue register.aside)
    exact ⟨third.queue, third.funds⟩

theorem polls_check {scanned r} (run : Poller.Polls scanned m r added m') (waits : Waits past m) :
    Checks past added m' := by
  -- The question for the block is no part of a manager's work, but it moves no funds either.
  have opening {early middle late m'} (reply : Except LedgerFailure UInt64) (first : Aside m early middle)
      (second : Aside middle late m') : Checks past (early ++ .asked .blockNumber reply :: late) m' :=
    .still waits (second.delayed.trans first.delayed) (opening_still reply first second).1
  cases run with
  | stopped stop =>
    obtain ⟨_, aside | ⟨_, _, reply, _, rfl, first, second⟩⟩ := stop.parts
    · exact .aside waits aside
    · exact opening reply first second
  | @failed current _ _ _ _ _ _ opens cycle =>
    obtain ⟨_, _, _, _, rfl, first, second⟩ := opens.parts
    have opened := opening (.ok current) first second
    exact opened.trans (cycle_checks cycle opened.queue)
  | @done current _ _ _ outcome _ _ opens cycle =>
    obtain ⟨_, _, _, _, rfl, first, second⟩ := opens.parts
    have opened := opening (.ok current) first second
    have cycled := cycle_checks cycle opened.queue
    have notice := (Poller.submissionNotice_quiet outcome current).all
      (p := fun entry => entry.unmoving = true) fun _ => rfl
    exact opened.trans (cycled.trans (.still cycled.queue rfl notice))

end

-- The readings are of the ledger that the log is of: when one is given, the log so far has all that was
-- fetched before it, and if the stake is there and locked, the last of its stake events is a staking.
def Agrees (log : List EventRecord) (entries : List Entry) : Prop :=
  ∀ early address reading late, entries = early ++ .asked (.stakeReading address) (.ok reading) :: late →
    ∃ known, known <+: log ∧ (∀ event ∈ fetched early, event ∈ known) ∧
      (reading.isZero = false → reading.locked = true →
        ∃ staking, (known.filter (·.kind ∈ EventKind.ofStake)).getLast? = some staking ∧
          staking.kind = .stakeAdded)

theorem staked_after {known : List EventRecord} {event staking : EventRecord} (among : event ∈ known)
    (kind : event.kind = .stakeWithdrawn ∨ event.kind = .stakeUnlocked)
    (last : (known.filter (·.kind ∈ EventKind.ofStake)).getLast? = some staking)
    (staked : staking.kind = .stakeAdded) : [event, staking].Sublist known := by
  obtain ⟨others, whole⟩ := List.getLast?_eq_some_iff.mp last
  have inside : event ∈ known.filter (·.kind ∈ EventKind.ofStake) := by
    refine List.mem_filter.mpr ⟨among, ?_⟩
    rcases kind with kind | kind <;> simp [kind, EventKind.ofStake]
  have other : event ≠ staking := by
    rintro rfl
    rcases kind with kind | kind <;> cases kind.symm.trans staked
  rw [whole] at inside
  have before : event ∈ others := by simpa [other] using inside
  have ordered : [event, staking].Sublist (others ++ [staking]) :=
    (List.singleton_sublist.mpr before).append (List.Sublist.refl [staking])
  rw [← whole] at ordered
  exact ordered.trans List.filter_sublist

section

variable {ω : Type} (c : Collaborators ω)

theorem polls_checked (settings : ServerSettings) (address worker : String) (world : ω) (pollMillis : Nat)
    (policy : RetryPolicy) (start : UInt64) (n : Nat) :
    let p := Poller.polls c n (.fresh settings address worker world pollMillis policy start)
    Checks [] p.session.journal p.session.manager := by
  induction n with
  | zero =>
    have none : Waits [] (Manager.new settings address worker) := by simp [Waits, Manager.waits, Manager.new]
    exact .still none rfl (by simp [Poller.polls, Poller.fresh, Session.fresh])
  | succ n ih =>
    obtain ⟨r, added, journal, polled, _⟩ := Poller.pollOnce_polls c
      (Poller.polls c n (.fresh settings address worker world pollMillis policy start))
    have before : Waits _ _ := ih.queue
    have after := ih.trans (polls_check polled before)
    rw [← journal] at after
    exact after

-- A sweep answers to an event, not to a reading: it is made whatever the reading says. Where readings and events are
-- of one ledger, a locked stake at a transfer means that the relay was staked again after the event.
theorem funds_move_after_reading (settings : ServerSettings) (address worker : String) (world : ω)
    (pollMillis : Nat) (policy : RetryPolicy) (start : UInt64) (n : Nat) :
    let p := Poller.polls c n (.fresh settings address worker world pollMillis policy start)
    ∀ before tx reply after, p.session.journal = before ++ .asked (.send tx) reply :: after →
      tx.action = .valueTransfer →
      ∃ event,
        (sweeping before = some (.withdrawn event) ∧ event.kind = .stakeWithdrawn ∨
          sweeping before = some (.unlocked event) ∧ event.kind = .stakeUnlocked) ∧
        (∃ early address reading late,
          before = early ++ .asked (.stakeReading address) (.ok reading) :: late ∧
            event ∈ fetched early ∧ Entry.lastReading before = some reading) ∧
        ∀ log reading, Agrees log before → Entry.lastReading before = some reading →
          reading.isZero = false → reading.locked = true →
          ∃ staking, staking.kind = .stakeAdded ∧ [event, staking].Sublist log := by
  intro p before tx reply after split transfer
  obtain ⟨cause, underWay, checked⟩ := (polls_checked c settings address worker world pollMillis policy
    start n).funds before tx reply after split transfer
  have since (event : EventRecord) (kind : event.kind = .stakeWithdrawn ∨ event.kind = .stakeUnlocked)
      (read : ReadSince event before) (log : List EventRecord) (reading : StakeReading)
      (agrees : Agrees log before) (last : Entry.lastReading before = some reading)
      (there : reading.isZero = false) (locked : reading.locked = true) :
      ∃ staking, staking.kind = .stakeAdded ∧ [event, staking].Sublist log := by
    obtain ⟨early, own, same, late, whole, known, latest⟩ := read.last
    cases latest.symm.trans last
    obtain ⟨upto, within, holds, tells⟩ := agrees early own reading late whole
    obtain ⟨staking, final, staked⟩ := tells there locked
    exact ⟨staking, staked, (staked_after (holds event known) kind final staked).trans within.sublist⟩
  cases cause with
  | demand => cases checked
  | withdrawn event =>
    obtain ⟨kind, read⟩ := checked
    exact ⟨event, .inl ⟨underWay, kind⟩, read.last, since event (.inl kind) read⟩
  | unlocked event =>
    obtain ⟨kind, read⟩ := checked
    exact ⟨event, .inr ⟨underWay, kind⟩, read.last, since event (.inr kind) read⟩

end

namespace Rehearsal

def restaking : List EventRecord := [stakeAdded 5, stakeWithdrawn 30, stakeAdded 35]

def restaked : Rehearsal :=
  { leaving restaking with block := 100, stake := { stake := 1000, unstakeDelay := 100, owner } }

theorem agrees_staked {log : List EventRecord} {entries : List Entry} {staking : EventRecord}
    (among : ∀ event ∈ fetched entries, event ∈ log)
    (last : (log.filter (·.kind ∈ EventKind.ofStake)).getLast? = some staking)
    (staked : staking.kind = .stakeAdded) : Agrees log entries := by
  rintro early address reading late rfl
  refine ⟨log, List.prefix_rfl, fun event known => among event ?_, fun _ _ => ⟨staking, last, staked⟩⟩
  rw [fetched_append]
  exact List.mem_append_left _ known

theorem transfer_at {journal : List Entry} {place : Nat}
    (moves : journal[place]?.any (!·.unmoving) = true) :
    ∃ tx reply after, journal = journal.take place ++ .asked (.send tx) reply :: after ∧
      tx.action = .valueTransfer := by
  obtain ⟨entry, found, moving⟩ := (Option.any_eq_true _ _).mp moves
  obtain ⟨inside, rfl⟩ := List.getElem?_eq_some_iff.mp found
  have split := (List.take_append_drop place journal).symm
  rw [List.drop_eq_getElem_cons inside] at split
  generalize journal[place] = entry at split moving
  cases entry with
  | asked call reply =>
    cases call with
    | send tx => exact ⟨tx, reply, _, split, by simpa [Entry.unmoving] using moving⟩
    | _ => cases moving
  | _ => cases moving

theorem restaked_relay_was_staked_after :
    ∃ before tx reply after event staking,
      (polled restaked 1).session.journal = before ++ .asked (.send tx) reply :: after ∧
        tx.action = .valueTransfer ∧ Entry.lastReading before = some restaked.stake ∧
        (sweeping before = some (.withdrawn event) ∨ sweeping before = some (.unlocked event)) ∧
        staking.kind = .stakeAdded ∧ [event, staking].Sublist restaking := by
  have moves : (polled restaked 1).session.journal[25]?.any (!·.unmoving) = true := by decide +kernel
  have among : ∀ event ∈ fetched ((polled restaked 1).session.journal.take 25), event ∈ restaking := by
    decide +kernel
  have last : Entry.lastReading ((polled restaked 1).session.journal.take 25) = some restaked.stake := by
    decide +kernel
  have staked : (restaking.filter (·.kind ∈ EventKind.ofStake)).getLast? = some (stakeAdded 35) := by
    decide
  obtain ⟨tx, reply, after, split, transfer⟩ := transfer_at moves
  -- From here on the journal before the transfer is not evaluated any more.
  generalize (polled restaked 1).session.journal.take 25 = before at among last split
  have agrees := agrees_staked among staked rfl
  obtain ⟨event, cause, _, since⟩ := funds_move_after_reading collaborators settings manager worker restaked
    10 {} 0 1 before tx reply after (by rw [polled] at split; exact split) transfer
  obtain ⟨staking, kind, ordered⟩ := since restaking restaked.stake agrees last (by decide) rfl
  exact ⟨before, tx, reply, after, event, staking, split, transfer, last, cause.imp And.left And.left,
    kind, ordered⟩

theorem restaked_relay_swept_while_locked :
    ∃ before tx reply after,
      (polled restaked 1).session.journal = before ++ .asked (.send tx) reply :: after ∧
        tx.action = .valueTransfer ∧
        (Entry.lastReading before).any (fun reading => !reading.isZero && reading.locked) = true := by
  have moves : (polled restaked 1).session.journal[25]?.any (!·.unmoving) = true := by decide +kernel
  have locked : (Entry.lastReading ((polled restaked 1).session.journal.take 25)).any
      (fun reading => !reading.isZero && reading.locked) = true := by decide +kernel
  obtain ⟨tx, reply, after, split, transfer⟩ := transfer_at moves
  exact ⟨_, tx, reply, after, split, transfer, locked⟩

end Rehearsal
end TransactionRelay
