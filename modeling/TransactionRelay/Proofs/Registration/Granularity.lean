import TransactionRelay.Proofs.Polling.HandledOnce
import TransactionRelay.Proofs.Registration.Interrupted
import TransactionRelay.Proofs.Registration.Standing

namespace TransactionRelay

open Entry (announcements)
open EventRecord (within)

structure Ledger where
  address : String
  stakeLog : List EventRecord
  reading : StakeReading
  record : RelayRecord

-- The answers that such a ledger gives about the manager. Whatever else is asked may have any answer.
def Ledger.gives (ledger : Ledger) : (call : Call) → call.Answer → Prop
  | .stakeEvents kinds topics range, events =>
    kinds = EventKind.ofStake → topics = [Address.topic ledger.address] →
      events = ledger.stakeLog.filter (range.holds ·.block)
  | .stakeReading account, reading => account = ledger.address → reading = ledger.reading
  | .relayData managers, records => managers = [ledger.address] → records.head? = some ledger.record
  | _, _ => True

def Collaborators.ReadFrom {ω : Type} (c : Collaborators ω) (ledger : Ledger) : Prop :=
  ∀ call world, ∃ answer, (c.answer call world).1 = .ok answer ∧ ledger.gives call answer

-- The events that a manager remembers are of no block after this one.
structure Manager.Past (m : Manager) (block : UInt64) : Prop where
  handled : ∀ key ∈ m.handled, key.position.block ≤ block
  waits : ∀ event ∈ m.waits, event.block ≤ block

theorem Manager.Past.novel {m : Manager} {start stop : UInt64} {log : List EventRecord} (past : m.Past start)
    (distinct : (log.map EventRecord.key).Nodup) :
    Novel (within start stop log) (Manager.forgetHandled start m).1 := by
  have later : ∀ event ∈ within start stop log, start < event.block := by
    intro event member
    have inside := (List.mem_filter.mp member).2
    rw [Bool.and_eq_true_iff] at inside
    exact of_decide_eq_true inside.1
  refine ⟨(List.filter_sublist.map _).nodup distinct, fun event member held => ?_, fun event member => ?_⟩
  · have before := past.handled event.key (List.mem_filter.mp held).1
    exact absurd (later event member) (UInt64.not_lt.mpr before)
  · refine List.any_eq_false.mpr fun delayed waiting same => ?_
    have before := past.waits delayed.event (List.mem_map_of_mem waiting)
    have own : delayed.event.block = event.block :=
      congrArg (fun key : EventKey => key.position.block) (beq_iff_eq.mp same)
    exact absurd (later event member) (UInt64.not_lt.mpr (own ▸ before))

namespace Ledger

def Gave (ledger : Ledger) (entries : List Entry) : Prop :=
  ∀ call reply, .asked call reply ∈ entries → ∃ answer, reply = .ok answer ∧ ledger.gives call answer

-- What a cycle over the blocks after `start`, up to and including `stop`, leaves.
structure Leaves (ledger : Ledger) (hubEvents : List EventRecord) (start stop : UInt64) (m : Manager)
    (added : List Entry) (m' : Manager) : Prop where
  standing : m'.standing =
    (m.standing.handle ledger.reading (within start stop ledger.stakeLog)).conclude ledger.record hubEvents stop
  swept : added.countP Entry.endsSweep = (within start stop ledger.stakeLog).countP EventRecord.withdraws +
    ((m.standing.handle ledger.reading (within start stop ledger.stakeLog)).delayed.due stop).countP
      EventRecord.unlocks
  unstaked : (added.filterMap Entry.emitted?).count .unstaked = added.countP Entry.endsSweep
  removed : (added.filterMap Entry.emitted?).count .removed =
    (m.hubRecord.any (·.listed) && !ledger.record.listed).toNat
  past : m'.Past stop
  address : m'.address = m.address
  initialized : m'.initialized = m.initialized

variable {ledger : Ledger} {hubEvents : List EventRecord} {start stop : UInt64} {m m' : Manager}
  {added : List Entry}

namespace Gave

theorem told (gave : ledger.Gave added) (owned : m.address = ledger.address) (newer : start < stop) :
    Told (within start stop ledger.stakeLog) ledger.record start stop m added where
  events answer member := by
    obtain ⟨given, same, gives⟩ := gave _ _ member
    cases same
    have told := gives rfl (by rw [owned])
    exact told.trans (List.filter_congr fun event _ => BlockRange.since_holds newer event.block)
  record answer member := by
    obtain ⟨given, same, gives⟩ := gave _ _ member
    cases same
    exact gives (by rw [owned])

theorem hears (gave : ledger.Gave added) (owned : m.address = ledger.address) :
    Hears ledger.reading m.address added := by
  intro answer member
  obtain ⟨given, same, gives⟩ := gave _ _ member
  cases same
  exact gives owned

theorem succeeds (gave : ledger.Gave added) (owned : m.address = ledger.address)
    (ready : m.initialized = true) {force r} (run : Effect.Cycles hubEvents start stop force m r added m') :
    ∃ outcome, r = .ok outcome := by
  cases r with
  | ok outcome => exact ⟨outcome, rfl⟩
  | error failure =>
    rcases run.blames ready with ⟨call, cause, member, _⟩ | ⟨early, _, rfl, _⟩
    · obtain ⟨answer, wrong, _⟩ := gave _ _ member
      cases wrong
    · obtain ⟨answer, same, gives⟩ := gave (.relayData [m.address]) (.ok []) (by simp)
      cases same
      cases gives (by rw [owned])

theorem leaves (gave : ledger.Gave added) (owned : m.address = ledger.address) (newer : start < stop)
    (past : m.Past start) (distinct : (ledger.stakeLog.map EventRecord.key).Nodup) {force outcome}
    (run : Effect.Cycles hubEvents start stop force m (.ok outcome) added m') :
    ledger.Leaves hubEvents start stop m added m' := by
  have told := gave.told owned newer
  have settles := run.settles told
  obtain ⟨standing, swept, read⟩ := run.stands told (past.novel distinct) (gave.hears owned)
  have inside : ∀ event ∈ within start stop ledger.stakeLog, event.block ≤ stop := by
    intro event member
    have inside := (List.mem_filter.mp member).2
    rw [Bool.and_eq_true_iff] at inside
    exact of_decide_eq_true inside.2
  refine ⟨standing, swept, ?_, ?_, ⟨fun key held => ?_, fun event waits => ?_⟩, settles.address,
    settles.initialized⟩
  · rw [(cycle_hands run).emitted, Entry.announcements_unstaked]
  · rw [(cycle_hands run).emitted, Entry.announcements_removed _ read]
  · rcases settles.gained key held with before | among
    · exact UInt64.le_trans (past.handled key (List.mem_filter.mp before).1) (UInt64.le_of_lt newer)
    · obtain ⟨event, member, rfl⟩ := List.mem_map.mp among
      exact inside event member
  · have queue : m'.delayed = (⟨m.delayed.waiting ++
        (within start stop ledger.stakeLog).filterMap EventRecord.waiting?⟩ : DelayedQueue).withoutDue stop :=
      congrArg Standing.delayed standing
    rw [Manager.waits, queue] at waits
    obtain ⟨delayed, member, rfl⟩ := List.mem_map.mp waits
    rcases List.mem_append.mp (List.mem_filter.mp member).1 with before | among
    · exact UInt64.le_trans (past.waits _ (List.mem_map_of_mem before)) (UInt64.le_of_lt newer)
    · obtain ⟨source, member, waiting⟩ := List.mem_filterMap.mp among
      rw [EventRecord.waiting?_event waiting]
      exact inside source member

end Gave

section

variable {middle : UInt64} {earlier later : List EventRecord} {between last : Manager} {more all : List Entry}

-- Two cycles in a row leave what one cycle leaves: what the first one has released is not due again, and
-- the record that it has read is listed again if it is listed.
theorem Leaves.split (one : ledger.Leaves earlier start middle m added between)
    (two : ledger.Leaves later middle stop between more last)
    (whole : ledger.Leaves hubEvents start stop m all m') (heard : hubEvents = earlier ++ later)
    (sorted : ledger.stakeLog.Pairwise fun event other => event.block ≤ other.block)
    (first : start ≤ middle) (second : middle ≤ stop) :
    last.standing = m'.standing ∧ (added ++ more).countP Entry.endsSweep = all.countP Entry.endsSweep ∧
      ((added ++ more).filterMap Entry.emitted?).Perm (all.filterMap Entry.emitted?) := by
  have split := within_split sorted first second
  have standing : last.standing = m'.standing := by
    rw [two.standing, one.standing, whole.standing, heard, split, Standing.handle_append]
    exact Standing.conclude_handle second _ _ _ _
  have swept : (added ++ more).countP Entry.endsSweep = all.countP Entry.endsSweep := by
    have released := due_split
      (m.standing.handle ledger.reading (within start middle ledger.stakeLog)).delayed
      ((within middle stop ledger.stakeLog).filterMap EventRecord.waiting?) EventRecord.unlocks second
    rw [List.countP_append, one.swept, two.swept, whole.swept, split, Standing.handle_append, one.standing,
      List.countP_append]
    simp only [Standing.handle, Standing.conclude] at released ⊢
    omega
  refine ⟨standing, swept, List.perm_iff_count.mpr fun notification => ?_⟩
  rw [List.filterMap_append, List.count_append]
  cases notification with
  | unstaked => rw [one.unstaked, two.unstaked, whole.unstaked, ← List.countP_append, swept]
  | removed =>
    have known : between.hubRecord = some ledger.record := congrArg Standing.hubRecord one.standing
    rw [one.removed, two.removed, whole.removed, known]
    simp

end

end Ledger

section

variable {ω : Type} {c : Collaborators ω} {ledger : Ledger} {start stop : UInt64}

theorem cycle_leaves (reads : c.ReadFrom ledger) (s : Session ω) (hubEvents : List EventRecord) (force : Bool)
    (owned : s.manager.address = ledger.address) (ready : s.manager.initialized = true)
    (newer : start < stop) (past : s.manager.Past start)
    (distinct : (ledger.stakeLog.map EventRecord.key).Nodup) :
    let ran := s.perform c (.handle hubEvents start stop force)
    ran.1.isOk = true ∧ ledger.Leaves hubEvents start stop s.manager (s.adds ran.2) ran.2.manager := by
  intro ran
  obtain ⟨added, journal, gave⟩ := (handle_composed c hubEvents start stop force).replies
    (P := fun call reply => ∃ answer, reply = .ok answer ∧ ledger.gives call answer) reads s
  have gained : s.adds ran.2 = added := adds_eq journal
  have gave : ledger.Gave (s.adds ran.2) := gained ▸ gave
  have run := perform_effect c s (.handle hubEvents start stop force)
  change Effect.Maps _ _ _ ran.1 (s.adds ran.2) ran.2.manager at run
  cases result : ran.1 with
  | error failure =>
    rw [result] at run
    cases run with
    | failed run =>
      obtain ⟨_, wrong⟩ := gave.succeeds owned ready run
      cases wrong
  | ok reply =>
    rw [result] at run
    cases run with
    | given run => exact ⟨rfl, gave.leaves owned newer past distinct run⟩

theorem perform_adds (s : Session ω) (first second : Command) :
    s.adds ((s.perform c first).2.perform c second).2 =
      s.adds (s.perform c first).2 ++
        (s.perform c first).2.adds ((s.perform c first).2.perform c second).2 := by
  refine adds_eq ?_
  rw [← List.append_assoc, ← perform_journal, ← perform_journal]

-- For ordered logs with distinct events, from any manager that remembers none of them. The announcements are the same
-- ones, though perhaps in another order: an unlock of the first range is released before the second one is read.
theorem two_scans_leave_what_one_leaves (c : Collaborators ω) (ledger : Ledger) (hubLog : List EventRecord)
    (s : Session ω) (start middle stop : UInt64) (atOnce first second : Bool) (reads : c.ReadFrom ledger)
    (owned : s.manager.address = ledger.address) (ready : s.manager.initialized = true)
    (past : s.manager.Past start) (early : start < middle) (late : middle < stop)
    (distinct : (ledger.stakeLog.map EventRecord.key).Nodup)
    (sorted : ledger.stakeLog.Pairwise fun event other => event.block ≤ other.block)
    (heard : hubLog.Pairwise fun event other => event.block ≤ other.block) :
    let whole := s.perform c (.handle (within start stop hubLog) start stop atOnce)
    let one := s.perform c (.handle (within start middle hubLog) start middle first)
    let two := one.2.perform c (.handle (within middle stop hubLog) middle stop second)
    whole.1.isOk = true ∧ one.1.isOk = true ∧ two.1.isOk = true ∧
      two.2.manager.standing = whole.2.manager.standing ∧
      (s.adds two.2).countP Entry.endsSweep = (s.adds whole.2).countP Entry.endsSweep ∧
      ((s.adds two.2).filterMap Entry.emitted?).Perm ((s.adds whole.2).filterMap Entry.emitted?) := by
  intro whole one two
  have split : within start stop hubLog = within start middle hubLog ++ within middle stop hubLog :=
    within_split heard (UInt64.le_of_lt early) (UInt64.le_of_lt late)
  obtain ⟨done, leaves⟩ := cycle_leaves reads s (within start stop hubLog) atOnce owned ready
    (UInt64.lt_trans early late) past distinct
  obtain ⟨doneFirst, leavesFirst⟩ := cycle_leaves reads s (within start middle hubLog) first owned ready early
    past distinct
  obtain ⟨doneSecond, leavesSecond⟩ := cycle_leaves reads one.2 (within middle stop hubLog) second
    (leavesFirst.address.trans owned) (leavesFirst.initialized.trans ready) late leavesFirst.past distinct
  have gained : s.adds two.2 = s.adds one.2 ++ one.2.adds two.2 := perform_adds s _ _
  refine ⟨done, doneFirst, doneSecond, ?_⟩
  rw [gained]
  exact leavesFirst.split leavesSecond leaves split sorted (UInt64.le_of_lt early) (UInt64.le_of_lt late)

end

namespace Rehearsal

def exitLog : List EventRecord := [stakeAdded 25, stakeUnlocked 30 35, stakeWithdrawn 50]

def departing : Ledger where
  address := manager
  stakeLog := exitLog
  reading := (leaving exitLog).stake
  record := { url := "http://other.example.com" }

theorem departing_read : (frozen (leaving exitLog)).ReadFrom departing := by
  intro call world
  cases call with
  | stakeEvents kinds topics range =>
    refine ⟨_, rfl, fun same _ => ?_⟩
    refine List.filter_congr fun event member => ?_
    cases same
    have kind : event.kind ∈ EventKind.ofStake := by
      revert event
      decide
    simp [leaving, kind]
  | stakeReading | relayData => exact ⟨_, rfl, fun _ => rfl⟩
  | _ => exact ⟨_, rfl, trivial⟩

def workersAdded (block : UInt64) : EventRecord :=
  ⟨⟨block, 0, 0⟩, "0xe3", .relayWorkersAdded manager [worker] 1⟩

def arrivals : List EventRecord := [workersAdded 30, workersAdded 50]

theorem paused_departure_announces_the_same :
    let whole := delisted.perform (frozen (leaving exitLog)) (.handle (within 20 60 arrivals) 20 60 false)
    let one := delisted.perform (frozen (leaving exitLog)) (.handle (within 20 40 arrivals) 20 40 false)
    let two := one.2.perform (frozen (leaving exitLog)) (.handle (within 40 60 arrivals) 40 60 true)
    (delisted.adds whole.2).filterMap Entry.emitted? = [.unstaked, .removed, .unstaked] ∧
      ((delisted.adds two.2).filterMap Entry.emitted?).Perm [.unstaked, .removed, .unstaked] ∧
      two.2.manager.standing = whole.2.manager.standing := by
  have emitted : (delisted.adds (delisted.perform (frozen (leaving exitLog))
      (.handle (within 20 60 arrivals) 20 60 false)).2).filterMap Entry.emitted? =
        [.unstaked, .removed, .unstaked] := by decide +kernel
  obtain ⟨_, _, _, standing, _, announced⟩ := two_scans_leave_what_one_leaves (frozen (leaving exitLog))
    departing arrivals delisted 20 40 60 false false true departing_read rfl rfl ⟨by decide, by decide⟩
    (by decide) (by decide) (by decide) (by decide) (by decide)
  rw [emitted] at announced
  exact ⟨emitted, announced, standing⟩

end Rehearsal
end TransactionRelay
