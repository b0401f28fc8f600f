import TransactionRelay.Proofs.Registration.Questions
import TransactionRelay.Proofs.Registration.Repeating

namespace TransactionRelay

structure Standing where
  owner : Option String
  stakeLocked : Bool
  stake : Requirement
  balance : Requirement
  workerEvidence : Option EventRecord
  delayed : DelayedQueue
  hubRecord : Option RelayRecord
  unstaked : Bool
  deriving DecidableEq, Repr

def Manager.standing (m : Manager) : Standing where
  owner := m.owner
  stakeLocked := m.stakeLocked
  stake := m.stake
  balance := m.balance
  workerEvidence := m.workerEvidence
  delayed := m.delayed
  hubRecord := m.hubRecord
  unstaked := m.unstaked

namespace EventRecord

def waiting? (event : EventRecord) : Option DelayedEvent :=
  match event.data with
  | .stakeUnlocked _ _ due => some ⟨due, event⟩
  | _ => none

def unlocks (event : EventRecord) : Bool := event.kind = .stakeUnlocked

def withdraws (event : EventRecord) : Bool := event.kind = .stakeWithdrawn

end EventRecord

namespace Standing

def observe (reading : StakeReading) (s : Standing) : Standing :=
  if reading.isZero then s else
    { s with
      stakeLocked := reading.locked
      stake := s.stake.store reading.stake
      owner := some (s.owner.getD reading.owner) }

-- After the stake events of a range that were not handled before. Each reading of the stake is the same.
def handle (reading : StakeReading) (events : List EventRecord) (s : Standing) : Standing :=
  { (if events.any (·.kind ∈ EventKind.ofStake) then s.observe reading else s) with
    delayed := ⟨s.delayed.waiting ++ events.filterMap EventRecord.waiting?⟩
    unstaked := s.unstaked || events.any (·.withdraws) }

def conclude (record : RelayRecord) (hubEvents : List EventRecord) (block : UInt64) (s : Standing) :
    Standing :=
  { s with
    hubRecord := some record
    workerEvidence :=
      (hubEvents.filter (·.kind == .relayWorkersAdded)).foldl EventRecord.later s.workerEvidence
    delayed := s.delayed.withoutDue block
    unstaked := s.unstaked || (s.delayed.due block).any (·.unlocks) }

variable {reading : StakeReading} {record : RelayRecord}

theorem handle_append (first second : List EventRecord) (s : Standing) :
    s.handle reading (first ++ second) = (s.handle reading first).handle reading second := by
  -- The readings do not differ, and the first owner stays: one more of them changes nothing.
  unfold handle observe
  rw [List.any_append, List.any_append, List.filterMap_append]
  cases reading.isZero <;> cases first.any (·.kind ∈ EventKind.ofStake) <;>
    cases second.any (·.kind ∈ EventKind.ofStake) <;> simp [Requirement.store, Bool.or_assoc]

end Standing

section

variable {early late : UInt64} (queue : DelayedQueue) (more : List DelayedEvent) (p : EventRecord → Bool)

theorem due_countP (block : UInt64) : (queue.due block).countP p =
    queue.waiting.countP fun delayed => decide (delayed.due ≤ block) && p delayed.event := by
  rw [DelayedQueue.due, List.countP_map, List.countP_filter]
  refine List.countP_congr fun delayed _ => ?_
  simp [and_comm]

-- What is due at an earlier block and what is due later among the rest is what is due at the later block.
theorem due_split (ordered : early ≤ late) :
    (queue.due early).countP p +
        ((⟨(queue.withoutDue early).waiting ++ more⟩ : DelayedQueue).due late).countP p =
      ((⟨queue.waiting ++ more⟩ : DelayedQueue).due late).countP p := by
  simp only [due_countP, DelayedQueue.withoutDue, List.countP_append]
  rw [← Nat.add_assoc, Nat.add_right_cancel_iff]
  induction queue.waiting with
  | nil => rfl
  | cons delayed rest ih =>
    by_cases due : delayed.due ≤ early
    · have later := UInt64.le_trans due ordered
      simp only [List.filter_cons, due, later, List.countP_cons, decide_true, Bool.true_and, Bool.not_true,
        Bool.false_eq_true, if_false]
      omega
    · simp only [List.filter_cons, due, List.countP_cons, decide_false, Bool.false_and, Bool.not_false,
        if_true, Bool.false_eq_true, if_false]
      omega

theorem due_any (ordered : early ≤ late) :
    ((queue.due early).any p ||
      ((⟨(queue.withoutDue early).waiting ++ more⟩ : DelayedQueue).due late).any p) =
      ((⟨queue.waiting ++ more⟩ : DelayedQueue).due late).any p := by
  have counted (events : List EventRecord) : events.any p = true ↔ 0 < events.countP p :=
    List.any_eq_true.trans List.countP_pos_iff.symm
  have split := due_split queue more p ordered
  rw [Bool.eq_iff_iff, Bool.or_eq_true, counted, counted, counted]
  omega

theorem due_none (ordered : early ≤ late) :
    (⟨(queue.withoutDue early).waiting ++ more⟩ : DelayedQueue).withoutDue late =
      (⟨queue.waiting ++ more⟩ : DelayedQueue).withoutDue late := by
  have kept : ((queue.withoutDue early).waiting).filter (fun delayed => !decide (delayed.due ≤ late)) =
      queue.waiting.filter fun delayed => !decide (delayed.due ≤ late) := by
    rw [DelayedQueue.withoutDue, List.filter_filter]
    refine List.filter_congr fun delayed _ => ?_
    by_cases due : delayed.due ≤ early
    · simp [due, UInt64.le_trans due ordered]
    · simp [due]
  simp only [DelayedQueue.withoutDue, List.filter_append] at kept ⊢
  rw [kept]

end

namespace Standing

variable {reading : StakeReading} {record : RelayRecord} {early late : UInt64}

-- To fetch the hub's record and to release what is due once more in between makes no difference.
theorem conclude_handle (ordered : early ≤ late) (events first second : List EventRecord) (s : Standing) :
    ((s.conclude record first early).handle reading events).conclude record second late =
      (s.handle reading events).conclude record (first ++ second) late := by
  have heard : (second.filter (·.kind == .relayWorkersAdded)).foldl EventRecord.later
      ((first.filter (·.kind == .relayWorkersAdded)).foldl EventRecord.later s.workerEvidence) =
        ((first ++ second).filter (·.kind == .relayWorkersAdded)).foldl EventRecord.later
          s.workerEvidence := by
    rw [List.filter_append, List.foldl_append]
  have waits := due_none s.delayed (events.filterMap EventRecord.waiting?) ordered
  have swept := due_any s.delayed (events.filterMap EventRecord.waiting?) EventRecord.unlocks ordered
  have leaves : (s.unstaked || (s.delayed.due early).any (·.unlocks) || events.any (·.withdraws) ||
      ((⟨(s.delayed.withoutDue early).waiting ++ events.filterMap EventRecord.waiting?⟩ :
        DelayedQueue).due late).any (·.unlocks)) =
      (s.unstaked || events.any (·.withdraws) ||
        ((⟨s.delayed.waiting ++ events.filterMap EventRecord.waiting?⟩ : DelayedQueue).due late).any
          (·.unlocks)) := by
    rw [← swept]
    cases s.unstaked <;> cases (s.delayed.due early).any (·.unlocks) <;>
      cases events.any (·.withdraws) <;> rfl
  unfold conclude handle observe
  cases reading.isZero <;> cases events.any (·.kind ∈ EventKind.ofStake) <;>
    exact Standing.mk.injEq .. |>.mpr ⟨rfl, rfl, rfl, rfl, heard, waits, rfl, leaves⟩

end Standing

theorem EventRecord.waiting?_none {event : EventRecord} (other : event.kind ≠ .stakeUnlocked) :
    event.waiting? = none := by
  unfold waiting?
  cases data : event.data with
  | stakeUnlocked => exact absurd (congrArg EventData.kind data) other
  | _ => rfl

namespace Standing

variable {reading : StakeReading} {event : EventRecord} {s : Standing}

@[simp] theorem observe_delayed : (s.observe reading).delayed = s.delayed := by
  unfold observe
  split <;> rfl

@[simp] theorem observe_evidence : (s.observe reading).workerEvidence = s.workerEvidence := by
  unfold observe
  split <;> rfl

@[simp] theorem observe_unstaked : (s.observe reading).unstaked = s.unstaked := by
  unfold observe
  split <;> rfl

theorem handle_evidence (events : List EventRecord) :
    (s.handle reading events).workerEvidence = s.workerEvidence := by
  unfold handle
  split
  · exact observe_evidence
  · rfl

theorem handle_told (kind : event.kind ∈ EventKind.ofStake) : s.handle reading [event] =
    { s.observe reading with
      delayed := ⟨s.delayed.waiting ++ event.waiting?.toList⟩
      unstaked := s.unstaked || event.withdraws } := by
  unfold handle
  cases waits : event.waiting? <;> simp [kind, waits]

theorem handle_read (kind : event.kind ∈ EventKind.ofStake) (other : event.waiting? = none)
    (stays : event.withdraws = false) : s.handle reading [event] = s.observe reading := by
  rw [handle_told kind, other, stays]
  unfold observe
  split <;> simp

theorem handle_ignored (kind : event.kind ∉ EventKind.ofStake) : s.handle reading [event] = s := by
  have other : event.waiting? = none :=
    EventRecord.waiting?_none fun same => kind (by rw [same]; decide)
  have stays : event.withdraws = false :=
    decide_eq_false fun same => kind (by rw [same]; decide)
  simp [handle, kind, other, stays]

end Standing

def Hears (reading : StakeReading) (account : String) (entries : List Entry) : Prop :=
  ∀ answer, .asked (.stakeReading account) (.ok answer) ∈ entries → answer = reading

namespace Hears

variable {reading : StakeReading} {account : String} {first second : List Entry}

theorem left (hears : Hears reading account (first ++ second)) : Hears reading account first :=
  fun answer member => hears answer (List.mem_append_left _ member)

theorem right (hears : Hears reading account (first ++ second)) : Hears reading account second :=
  fun answer member => hears answer (List.mem_append_right _ member)

end Hears

theorem endless_all {entries : List Entry} (none : ∀ entry ∈ entries, entry.endsSweep = false) :
    entries.countP Entry.endsSweep = 0 :=
  List.countP_eq_zero.mpr fun entry member => Bool.eq_false_iff.mp (none entry member)

theorem endless_quiet {entries : List Entry} (quiet : Manager.Quiet entries) :
    entries.countP Entry.endsSweep = 0 := endless_all (quiet.all fun _ => rfl)

namespace Manager

variable (m : Manager)

theorem standing_observeStake (reading : StakeReading) :
    (observeStake reading m).1.standing = m.standing.observe reading := by
  rw [observeStake_memory, Standing.observe]
  split <;> rfl

theorem standing_delay {due : UInt64} {event : EventRecord} (unheld : m.delayed.holds event.key = false) :
    (delay due event m).1.standing =
      { m.standing with delayed := ⟨m.delayed.waiting ++ [⟨due, event⟩]⟩ } := by
  have pushed : m.delayed.push due event = ⟨m.delayed.waiting ++ [⟨due, event⟩]⟩ := by
    rw [DelayedQueue.push, unheld]
    rfl
  simp [delay, standing, pushed]

end Manager

namespace Effect

variable {block : UInt64} {event : EventRecord} {reading : StakeReading}

theorem Sweeps.ends {cause managerFunds m hashes added m'}
    (run : Sweeps cause managerFunds block m (.ok hashes) added m') :
    m' = (Manager.markUnstaked m).1 ∧ added.countP Entry.endsSweep = 1 := by
  obtain ⟨record, ended, swept⟩ := run.swept
  constructor
  · rw [swept.memory, ended]
    rfl
  · cases run with
    | @ended _ _ inner _ run =>
      have none : inner.countP Entry.endsSweep = 0 :=
        endless_all (run.all (p := fun entry => entry.endsSweep = false) (fun _ _ _ => rfl) (fun _ => rfl)
          rfl)
      simp [List.countP_cons, none, Entry.endsSweep]

theorem ReadsStake.stands {m added m'} (run : ReadsStake m (.ok ()) added m')
    (hears : Hears reading m.address added) : m'.standing = m.standing.observe reading ∧
      m'.delayed = m.delayed ∧ added.countP Entry.endsSweep = 0 := by
  cases run with
  | read answer =>
    cases hears answer List.mem_cons_self
    refine ⟨m.standing_observeStake reading, by simp, ?_⟩
    rw [List.countP_cons_of_neg (by simp [Entry.endsSweep])]
    exact endless_quiet (m.observeStake_quiet reading)

theorem Reacts.stands {m hashes added m'} (run : Reacts block event m (.ok hashes) added m')
    (unheld : m.delayed.holds event.key = false) (hears : Hears reading m.address added) :
    m'.standing = m.standing.handle reading [event] ∧
      added.countP Entry.endsSweep = [event].countP EventRecord.withdraws := by
  rw [List.countP_singleton]
  cases run with
  | added kind read =>
    obtain ⟨stands, _, endless⟩ := read.stands hears
    have other : event.waiting? = none := EventRecord.waiting?_none (by rw [kind]; decide)
    have stays : event.withdraws = false := by simp [EventRecord.withdraws, kind]
    rw [stands, endless, Standing.handle_read (by rw [kind]; decide) other stays, stays]
    exact ⟨rfl, rfl⟩
  | @unlocked _ _ _ due early middle data read =>
    obtain ⟨stands, delayed, endless⟩ := read.stands hears.left
    have kind : event.kind = .stakeUnlocked := by rw [EventRecord.kind, data]; rfl
    have waits : event.waiting? = some ⟨due, event⟩ := by rw [EventRecord.waiting?, data]
    have stays : event.withdraws = false := by simp [EventRecord.withdraws, kind]
    have quiet : (Manager.delay due event middle).2.countP Entry.endsSweep = 0 :=
      endless_all (Manager.delay_all middle (p := fun entry => entry.endsSweep = false) (fun _ => rfl) due
        event fun _ => rfl)
    rw [middle.standing_delay (by rw [delayed]; exact unheld), stands, delayed, List.countP_append, endless,
      quiet, Standing.handle_told (by rw [kind]; decide), waits, stays]
    exact ⟨by simp [Manager.standing], rfl⟩
  | @withdrawn _ early middle _ more _ kind read sweep =>
    obtain ⟨stands, _, endless⟩ := read.stands hears.left
    obtain ⟨left, ended⟩ := sweep.ends
    have other : event.waiting? = none := EventRecord.waiting?_none (by rw [kind]; decide)
    have leaves : event.withdraws = true := by simp [EventRecord.withdraws, kind]
    have marked : (Manager.markUnstaked middle).1.standing = { middle.standing with unstaked := true } := rfl
    rw [left, marked, stands, List.countP_append, endless,
      List.countP_cons_of_neg (by simp [Entry.endsSweep]), ended,
      Standing.handle_told (by rw [kind]; decide), other, leaves]
    exact ⟨by simp, rfl⟩
  | ignored kind =>
    have stays : event.withdraws = false := decide_eq_false fun same => kind (by rw [same]; decide)
    rw [Standing.handle_ignored kind, stays]
    exact ⟨rfl, rfl⟩

theorem Handles.stands {m hashes added m'} (run : Handles block event m (.ok hashes) added m')
    (fresh : event.key ∉ m.handled) (unheld : m.delayed.holds event.key = false)
    (hears : Hears reading m.address added) :
    m'.standing = m.standing.handle reading [event] ∧
      added.countP Entry.endsSweep = [event].countP EventRecord.withdraws := by
  cases run with
  | settled known => exact absurd known fresh
  | @done _ _ inner middle _ run =>
    obtain ⟨stands, ended⟩ := run.stands unheld hears.left
    have settled : (Manager.settle event middle).1.standing = middle.standing := rfl
    have endless : [Entry.settled event].countP Entry.endsSweep = 0 := rfl
    rw [settled, List.countP_append, endless]
    exact ⟨stands, ended⟩

end Effect

structure Novel (events : List EventRecord) (m : Manager) : Prop where
  distinct : (events.map EventRecord.key).Nodup
  fresh : ∀ event ∈ events, event.key ∉ m.handled
  unheld : ∀ event ∈ events, m.delayed.holds event.key = false

structure Told (events : List EventRecord) (record : RelayRecord) (scanned current : UInt64) (m : Manager)
    (added : List Entry) : Prop where
  events : ∀ answer, .asked (m.stakeQuery scanned current) (.ok answer) ∈ added → answer = events
  record : ∀ answer, .asked (.relayData [m.address]) (.ok answer) ∈ added → answer.head? = some record

theorem Told.earlier {events record scanned current m first second}
    (told : Told events record scanned current m (first ++ second)) :
    Told events record scanned current m first where
  events answer member := told.events answer (List.mem_append_left _ member)
  record answer member := told.record answer (List.mem_append_left _ member)

theorem DelayedQueue.holds_append {queue : DelayedQueue} {more : List DelayedEvent} {key : EventKey} :
    (⟨queue.waiting ++ more⟩ : DelayedQueue).holds key =
      (queue.holds key || more.any fun delayed => delayed.event.key == key) :=
  List.any_append

theorem EventRecord.waiting?_event {event : EventRecord} {delayed : DelayedEvent}
    (waits : event.waiting? = some delayed) : delayed.event = event := by
  unfold waiting? at waits
  split at waits
  · cases waits
    rfl
  · cases waits

namespace Effect

variable {block : UInt64} {event : EventRecord} {events rest : List EventRecord} {reading : StakeReading}

-- The events behind one that was handled are as new as they were.
theorem Handles.novel {m hashes added m'} (novel : Novel (event :: rest) m)
    (run : Handles block event m (.ok hashes) added m')
    (stands : m'.standing = m.standing.handle reading [event]) : Novel rest m' := by
  obtain ⟨apart, distinct⟩ := List.nodup_cons.mp novel.distinct
  have other : ∀ later ∈ rest, later.key ≠ event.key :=
    fun later member same => apart (List.mem_map.mpr ⟨later, member, same⟩)
  refine ⟨distinct, fun later member held => ?_, fun later member => ?_⟩
  · rcases (run.settles (List.mem_singleton.mpr rfl)).gained later.key held with before | own
    · exact novel.fresh later (List.mem_cons_of_mem _ member) before
    · exact other later member (List.mem_singleton.mp own)
  · have delayed : m'.delayed = ⟨m.delayed.waiting ++ [event].filterMap EventRecord.waiting?⟩ :=
      congrArg Standing.delayed stands
    rw [delayed, DelayedQueue.holds_append, novel.unheld later (List.mem_cons_of_mem _ member), Bool.false_or]
    refine List.any_eq_false.mpr fun own among => ?_
    obtain ⟨source, member', waits⟩ := List.mem_filterMap.mp among
    rw [EventRecord.waiting?_event waits, List.mem_singleton.mp member', beq_iff_eq]
    exact (other later member).symm

theorem turns_stand {m r added m'} (run : InTurn (Handles block) events m r added m') {hashes}
    (well : r = .ok hashes) (novel : Novel events m) (hears : Hears reading m.address added) :
    m'.standing = m.standing.handle reading events ∧
      added.countP Entry.endsSweep = events.countP EventRecord.withdraws := by
  induction run generalizing hashes with
  | done => exact ⟨by simp [Standing.handle], rfl⟩
  | stopped | stoppedLater => cases well
  | @passed m event rest _ _ _ middle _ _ first later ih =>
    have address : middle.address = m.address := (first.settles (List.mem_singleton.mpr rfl)).address
    obtain ⟨stands, ended⟩ := first.stands (novel.fresh event List.mem_cons_self)
      (novel.unheld event List.mem_cons_self) hears.left
    obtain ⟨after, others⟩ := ih rfl (first.novel novel stands) (by rw [address]; exact hears.right)
    refine ⟨?_, ?_⟩
    · rw [after, stands, ← Standing.handle_append]
      rfl
    · rw [List.countP_append, ended, others, ← List.countP_append]
      rfl

theorem SweepsFor.stands {m hashes added m'} (run : SweepsFor block event m (.ok hashes) added m') :
    m'.standing = { m.standing with unstaked := m.unstaked || event.unlocks } ∧
      added.countP Entry.endsSweep = [event].countP EventRecord.unlocks := by
  cases run with
  | swept kind sweep =>
    obtain ⟨left, ended⟩ := sweep.ends
    have unlocks : event.unlocks = true := decide_eq_true kind
    rw [left, List.countP_cons_of_neg (by simp [Entry.endsSweep]), ended, List.countP_singleton, unlocks,
      Bool.or_true]
    exact ⟨rfl, rfl⟩
  | spared kind =>
    have stays : event.unlocks = false := decide_eq_false kind
    rw [List.countP_singleton, stays, Bool.or_false]
    exact ⟨rfl, rfl⟩

theorem released_stand {m r added m'} (run : InTurn (SweepsFor block) events m r added m') {hashes}
    (well : r = .ok hashes) :
    m'.standing = { m.standing with unstaked := m.unstaked || events.any EventRecord.unlocks } ∧
      added.countP Entry.endsSweep = events.countP EventRecord.unlocks := by
  induction run generalizing hashes with
  | @done m => exact ⟨by simp [Manager.standing], rfl⟩
  | stopped | stoppedLater => cases well
  | @passed m event rest _ _ _ middle _ _ first later ih =>
    obtain ⟨stands, ended⟩ := first.stands
    obtain ⟨after, others⟩ := ih rfl
    have left : middle.unstaked = (m.unstaked || event.unlocks) := congrArg Standing.unstaked stands
    refine ⟨?_, ?_⟩
    · rw [after, stands, left, List.any_cons, Bool.or_assoc]
    · rw [List.countP_append, ended, others, ← List.countP_append]
      rfl

theorem Releases.stands {m hashes added m'} (run : Releases block m (.ok hashes) added m') :
    m'.standing = { m.standing with
        delayed := m.delayed.withoutDue block
        unstaked := m.unstaked || (m.delayed.due block).any EventRecord.unlocks } ∧
      added.countP Entry.endsSweep = (m.delayed.due block).countP EventRecord.unlocks := by
  cases run with
  | released sweeps => exact released_stand sweeps rfl

theorem Registers.endless {block force m r added m'} (run : Registers block force m r added m') :
    added.countP Entry.endsSweep = 0 := by
  have attempts {r added} (run : Attempts block m r added m') : added.countP Entry.endsSweep = 0 :=
    endless_all (run.all (p := fun entry => entry.endsSweep = false) (fun _ _ _ => rfl) fun _ => rfl)
  cases run with
  | unread | closed => rfl
  | opened pending needed attempt =>
    rw [List.countP_cons_of_neg (by simp [Entry.endsSweep])]
    exact attempts attempt

theorem Scans.settles {hubEvents scanned current m hashes added m' record}
    (run : Scans hubEvents scanned current m (.ok hashes) added m')
    (told : Told events record scanned current m added) :
    Settles (events.map EventRecord.key) (Manager.forgetHandled scanned m).1 m' := by
  cases run with
  | @done _ asked _ _ _ _ _ ready handling fetch =>
    cases told.events asked (by simp [fetchEntries])
    exact (turns_settle handling).trans (.same rfl rfl rfl)

theorem Scans.stands {hubEvents scanned current m hashes added m' record}
    (run : Scans hubEvents scanned current m (.ok hashes) added m')
    (told : Told events record scanned current m added)
    (novel : Novel events (Manager.forgetHandled scanned m).1) (hears : Hears reading m.address added) :
    m'.standing = { m.standing.handle reading events with
        hubRecord := some record
        workerEvidence :=
          (hubEvents.filter (·.kind == .relayWorkersAdded)).foldl EventRecord.later m.workerEvidence } ∧
      added.countP Entry.endsSweep = events.countP EventRecord.withdraws ∧
      added.filterMap Entry.record? = [record] := by
  obtain ⟨own, read, recorded⟩ := run.fetched
  cases run with
  | @done _ asked _ turns middle _ answer ready handling fetch =>
    cases told.events asked (by simp [fetchEntries])
    cases Option.some.inj recorded
    have address : middle.address = m.address := (turns_settle handling).address
    have same : own = record := by
      cases fetch with
      | found _ rest =>
        have first := told.record (own :: rest) (by simp [address])
        exact Option.some.inj first
    obtain ⟨stands, ended⟩ := turns_stand handling rfl novel hears.left.left.right
    have observed : (Manager.observeHubEvents hubEvents (Manager.observeRecord own middle).1).1.standing =
        { middle.standing with
          hubRecord := some own
          workerEvidence := (hubEvents.filter (·.kind == .relayWorkersAdded)).foldl EventRecord.later
            middle.standing.workerEvidence } := rfl
    have query : (fetchEntries m scanned current events).countP Entry.endsSweep = 0 := by
      rw [fetchEntries, List.countP_cons_of_neg (by simp [Entry.endsSweep])]
      exact endless_quiet (Manager.scanNotices_quiet _ _)
    have unswept : answer.countP Entry.endsSweep = 0 := by
      cases fetch
      rfl
    have removed : (Manager.observeRecord own middle).2.countP Entry.endsSweep = 0 :=
      endless_all (Manager.observeRecord_all middle (p := fun entry => entry.endsSweep = false) (fun _ => rfl)
        own rfl)
    refine ⟨?_, ?_, by rw [read, same]⟩
    · rw [observed, stands, Standing.handle_evidence, same]
      rfl
    · rw [List.countP_append, List.countP_append, List.countP_append, query, ended, unswept, removed]
      omega

theorem Cycles.settles {hubEvents scanned current force m outcome added m' record}
    (run : Cycles hubEvents scanned current force m (.ok outcome) added m')
    (told : Told events record scanned current m added) :
    Settles (events.map EventRecord.key) (Manager.forgetHandled scanned m).1 m' := by
  cases run with
  | done scan release register =>
    obtain ⟨_, _, memory⟩ := release.memory
    rw [memory]
    exact (scan.settles told.earlier.earlier).trans (.same rfl rfl rfl)

theorem Cycles.stands {hubEvents scanned current force m outcome added m' record}
    (run : Cycles hubEvents scanned current force m (.ok outcome) added m')
    (told : Told events record scanned current m added)
    (novel : Novel events (Manager.forgetHandled scanned m).1) (hears : Hears reading m.address added) :
    m'.standing = (m.standing.handle reading events).conclude record hubEvents current ∧
      added.countP Entry.endsSweep = events.countP EventRecord.withdraws +
        ((m.standing.handle reading events).delayed.due current).countP EventRecord.unlocks ∧
      added.filterMap Entry.record? = [record] := by
  cases run with
  | @done _ _ early middle _ more m' _ last scan release register =>
    obtain ⟨stands, swept, read⟩ := scan.stands told.earlier.earlier novel hears.left.left
    obtain ⟨released, unlocked⟩ := release.stands
    have delayed : middle.delayed = (m.standing.handle reading events).delayed :=
      congrArg Standing.delayed stands
    have unstaked : middle.unstaked = (m.standing.handle reading events).unstaked :=
      congrArg Standing.unstaked stands
    have taken : ({ m' with notifications := [] } : Manager).standing = m'.standing := rfl
    refine ⟨?_, ?_, ?_⟩
    · rw [taken, released, stands, delayed, unstaked, Standing.conclude, Standing.handle_evidence]
      rfl
    · rw [List.countP_append, List.countP_append, swept, unlocked, register.endless, delayed, Nat.add_zero]
    · rw [List.filterMap_append, List.filterMap_append, read, release.asks.recordless fun _ => rfl,
        register.asks.recordless fun _ => rfl]
      rfl

end Effect
end TransactionRelay
