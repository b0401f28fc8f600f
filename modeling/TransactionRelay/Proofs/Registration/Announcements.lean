import TransactionRelay.Proofs.Registration.Aside
import TransactionRelay.Proofs.Registration.SweepLog
import TransactionRelay.Rehearsal.Ledger

namespace TransactionRelay

namespace Entry

def record? : Entry → Option RelayRecord
  | .asked (.relayData _) (.ok records) => records.head?
  | _ => none

def emitted? : Entry → Option Notification
  | .emitted notification => some notification
  | _ => none

-- What an entry gives cause to announce, after the hub's record that is known before it.
def announces (known : Option RelayRecord) : Entry → List Notification
  | .sweepEnded _ => [.unstaked]
  | entry =>
    match entry.record? with
    | some record => if known.any (·.listed) && !record.listed then [.removed] else []
    | none => []

def announcements (known : Option RelayRecord) : List Entry → List Notification
  | [] => []
  | entry :: rest => entry.announces known ++ announcements (entry.record?.or known) rest

def lastRecord (known : Option RelayRecord) (entries : List Entry) : Option RelayRecord :=
  entries.foldl (fun known entry => entry.record?.or known) known

theorem announcements_append (known : Option RelayRecord) (first second : List Entry) :
    announcements known (first ++ second) =
      announcements known first ++ announcements (lastRecord known first) second := by
  induction first generalizing known with
  | nil => rfl
  | cons entry rest ih =>
    rw [List.cons_append, announcements, announcements, ih, List.append_assoc]
    rfl

theorem announces_asked (known : Option RelayRecord) (call : Call) (reply : Except call.Failure call.Answer) :
    (Entry.asked call reply).announces known =
      match (Entry.asked call reply).record? with
      | some record => if known.any (·.listed) && !record.listed then [.removed] else []
      | none => [] := rfl

theorem announces_removed (known : Option RelayRecord) (entry : Entry) :
    (entry.announces known).count .removed =
      (entry.record?.any fun record => known.any (·.listed) && !record.listed).toNat := by
  cases entry with
  | asked call reply =>
    rw [announces_asked]
    cases (Entry.asked call reply).record? with
    | none => rfl
    | some record =>
      dsimp only [Option.any_some]
      cases known.any (·.listed) && !record.listed <;> rfl
  | _ => rfl

theorem announcements_unremoved (known : Option RelayRecord) {entries : List Entry}
    (unread : entries.filterMap record? = []) : (announcements known entries).count .removed = 0 := by
  induction entries generalizing known with
  | nil => rfl
  | cons entry rest ih =>
    obtain ⟨own, later⟩ := List.forall_mem_cons.mp (List.filterMap_eq_nil_iff.mp unread)
    rw [announcements, List.count_append, announces_removed, own, ih _ (List.filterMap_eq_nil_iff.mpr later)]
    rfl

-- Where the hub's record is read once, a removal is announced if a listed relay is listed no longer.
theorem announcements_removed (known : Option RelayRecord) {entries : List Entry} {record : RelayRecord}
    (read : entries.filterMap record? = [record]) : (announcements known entries).count .removed =
      (known.any (·.listed) && !record.listed).toNat := by
  induction entries with
  | nil => cases read
  | cons entry rest ih =>
    rw [announcements, List.count_append, announces_removed]
    cases own : entry.record? with
    | none =>
      rw [List.filterMap_cons_none own] at read
      rw [Option.none_or, ih read]
      exact Nat.zero_add _
    | some first =>
      rw [List.filterMap_cons_some own] at read
      obtain ⟨rfl, unread⟩ := List.cons.inj read
      rw [announcements_unremoved _ unread]
      rfl

def endsSweep : Entry → Bool
  | .sweepEnded _ => true
  | _ => false

theorem announces_unstaked (known : Option RelayRecord) (entry : Entry) :
    (entry.announces known).count .unstaked = [entry].countP endsSweep := by
  cases entry with
  | asked call reply =>
    have silent : [Entry.asked call reply].countP endsSweep = 0 := rfl
    rw [silent, announces_asked]
    split
    · split <;> rfl
    · rfl
  | _ => rfl

theorem announcements_unstaked (known : Option RelayRecord) (entries : List Entry) :
    (announcements known entries).count .unstaked = entries.countP endsSweep := by
  induction entries generalizing known with
  | nil => rfl
  | cons entry rest ih =>
    rw [announcements, List.count_append, announces_unstaked, ih, ← List.countP_append]
    rfl

def Mute (entries : List Entry) : Prop :=
  ∀ entry ∈ entries, entry.record? = none ∧ ∀ known, entry.announces known = []

theorem Mute.announcements {entries : List Entry} (mute : Mute entries) (known : Option RelayRecord) :
    announcements known entries = [] ∧ lastRecord known entries = known := by
  induction entries with
  | nil => exact ⟨rfl, rfl⟩
  | cons entry rest ih =>
    obtain ⟨unread, silent⟩ := mute entry (by simp)
    obtain ⟨none, same⟩ := ih fun other member => mute other (List.mem_cons_of_mem _ member)
    have passed : entry.record?.or known = known := by rw [unread]; rfl
    constructor
    · rw [Entry.announcements, silent, passed, none]
      rfl
    · rw [lastRecord, List.foldl_cons, passed]
      exact same

theorem mute_quiet {entries : List Entry} (quiet : Manager.Quiet entries) : Mute entries :=
  quiet.all fun _ => ⟨rfl, fun _ => rfl⟩

theorem mute_plain {entry : Entry} (plain : entry.plain = true) :
    entry.emitted? = none ∧ entry.record? = none ∧ ∀ known, entry.announces known = [] := by
  cases entry with
  | asked call reply =>
    cases call with
    | relayData => cases plain
    | _ => exact ⟨rfl, rfl, fun _ => rfl⟩
  | logged | slept => exact ⟨rfl, rfl, fun _ => rfl⟩
  | _ => cases plain

end Entry

open Entry (announcements lastRecord Mute)

-- Work that hands out some notifications. What it hands out and what is left are what was pending
-- before and what it announced.
structure Hands (taken : List Notification) (m : Manager) (added : List Entry) (m' : Manager) :
    Prop where
  record : m'.hubRecord = lastRecord m.hubRecord added
  pending : taken ++ m'.notifications = m.notifications ++ announcements m.hubRecord added
  emitted : added.filterMap Entry.emitted? = announcements m.hubRecord added
  unstaked : m'.unstaked = (m.unstaked || decide (.unstaked ∈ announcements m.hubRecord added))

theorem Hands.trans {early late : List Notification} {m added middle more m'}
    (first : Hands early m added middle) (second : Hands late middle more m') :
    Hands (early ++ late) m (added ++ more) m' := by
  have split := Entry.announcements_append m.hubRecord added more
  rw [← first.record] at split
  refine ⟨?_, ?_, ?_, ?_⟩
  · rw [second.record, first.record, lastRecord, lastRecord, lastRecord, List.foldl_append]
  · rw [split, List.append_assoc, second.pending, ← List.append_assoc, first.pending,
      List.append_assoc]
  · rw [split, List.filterMap_append, first.emitted, second.emitted]
  · rw [split, second.unstaked, first.unstaked, Bool.or_assoc]
    simp

theorem hands_mute {m added m'} (mute : Mute added) (unemitted : added.filterMap Entry.emitted? = [])
    (record : m'.hubRecord = m.hubRecord) (notifications : m'.notifications = m.notifications)
    (unstaked : m'.unstaked = m.unstaked) : Hands [] m added m' := by
  obtain ⟨none, same⟩ := mute.announcements m.hubRecord
  exact ⟨by rw [record, same], by simp [none, notifications], by rw [none, unemitted],
    by simp [none, unstaked]⟩

theorem hands_quiet {m m' : Manager} {entries : List Entry} (quiet : Manager.Quiet entries)
    (record : m'.hubRecord = m.hubRecord) (notifications : m'.notifications = m.notifications)
    (unstaked : m'.unstaked = m.unstaked) : Hands [] m entries m' :=
  hands_mute (Entry.mute_quiet quiet) (quiet.filterMap _ fun _ => rfl) record notifications unstaked

theorem Aside.hands {m added m'} (aside : Aside m added m') : Hands [] m added m' := by
  have mute : Mute added := fun entry member => (Entry.mute_plain (aside.plain entry member)).2
  have unemitted := aside.filterMap Entry.emitted? fun entry plain => (Entry.mute_plain plain).1
  exact hands_mute mute unemitted aside.record aside.notifications aside.unstaked

namespace Manager

variable {m : Manager} {record : RelayRecord}

theorem observeRecord_kept (kept : (m.hubRecord.any (·.listed) && !record.listed) = false) :
    observeRecord record m = ({ m with hubRecord := some record }, []) := by
  simp [observeRecord, kept]

theorem observeRecord_delisted (gone : (m.hubRecord.any (·.listed) && !record.listed) = true) :
    observeRecord record m =
      ({ m with hubRecord := some record, notifications := m.notifications ++ [.removed] },
        [.logged (.delisted m.address m.settings.hub record.penalized), .emitted .removed]) := by
  simp [observeRecord, gone]

end Manager

namespace Effect

theorem Transfers.mute {account owner price block m r added m'}
    (run : Transfers account owner price block m r added m') :
    Mute added ∧ added.filterMap Entry.emitted? = [] := by
  constructor
  · refine run.all (fun call reply sweeps => ?_) fun _ => ⟨rfl, fun _ => rfl⟩
    cases call with
    | relayData => cases sweeps
    | _ => exact ⟨rfl, fun _ => rfl⟩
  · exact List.filterMap_eq_nil_iff.mpr (run.all (fun _ _ _ => rfl) fun _ => rfl)

-- A withdrawal marks the manager in the same step that emits the notification.
theorem Withdraws.emits {managerFunds block m r added m'}
    (run : Withdraws managerFunds block m r added m') :
    Mute added ∧ added.filterMap Entry.emitted? = if r.isOk then [.unstaked] else [] := by
  have mute : Mute added := by
    refine run.all (fun call reply sweeps => ?_) (fun _ => ⟨rfl, fun _ => rfl⟩) ⟨rfl, fun _ => rfl⟩
    cases call with
    | relayData => cases sweeps
    | _ => exact ⟨rfl, fun _ => rfl⟩
  refine ⟨mute, ?_⟩
  cases run with
  | ownerless | priceUnread => rfl
  | workerFailed known worker =>
    rw [List.filterMap_cons_none rfl, worker.mute.2]
    rfl
  | managerFailed asked known worker manager =>
    rw [List.filterMap_cons_none rfl, List.filterMap_append, worker.mute.2, manager.mute.2]
    rfl
  | workerOnly spared known worker =>
    rw [List.filterMap_cons_none rfl, List.filterMap_append, worker.mute.2]
    rfl
  | both asked known worker manager =>
    rw [List.filterMap_cons_none rfl, List.filterMap_append, List.filterMap_append, worker.mute.2,
      manager.mute.2]
    rfl

theorem Sweeps.hands {cause managerFunds block m r added m'}
    (run : Sweeps cause managerFunds block m r added m') : Hands [] m added m' := by
  cases run with
  | @failed _ failure inner _ run =>
    obtain ⟨_, _, _, _, _, _, memory⟩ := run.given
    obtain ⟨mute, emitted⟩ := run.emits
    have began : Mute (.sweepBegan cause :: inner) :=
      List.forall_mem_cons.mpr ⟨⟨rfl, fun _ => rfl⟩, mute⟩
    cases memory
    exact hands_mute began emitted rfl rfl rfl
  | @ended _ hashes inner _ run =>
    obtain ⟨_, _, _, _, _, _, memory⟩ := run.given
    obtain ⟨mute, emitted⟩ := run.emits
    have began : Mute (.sweepBegan cause :: inner) :=
      List.forall_mem_cons.mpr ⟨⟨rfl, fun _ => rfl⟩, mute⟩
    obtain ⟨none, same⟩ := began.announcements m.hubRecord
    have told : announcements m.hubRecord (.sweepBegan cause :: (inner ++ [.sweepEnded cause])) =
        [.unstaked] := by
      rw [← List.cons_append, Entry.announcements_append, none]
      rfl
    cases memory
    refine ⟨?_, by rw [told]; rfl, ?_, ?_⟩
    · rw [← List.cons_append, lastRecord, List.foldl_append]
      exact same.symm
    · rw [told, List.filterMap_cons_none rfl, List.filterMap_append, emitted]
      rfl
    · rw [told]
      exact (Bool.or_true _).symm

theorem Reacts.hands {block event m r added m'} (run : Reacts block event m r added m') :
    Hands [] m added m' := by
  cases run with
  | unread kind reading => exact reading.aside.hands
  | added kind reading => exact reading.aside.hands
  | @unlocked _ _ _ due _ middle data reading =>
    have delayed : Hands [] middle (Manager.delay due event middle).2
        (Manager.delay due event middle).1 := by
      have mute : Mute (Manager.delay due event middle).2 :=
        Manager.delay_all middle (fun _ => ⟨rfl, fun _ => rfl⟩) _ _ fun _ => ⟨rfl, fun _ => rfl⟩
      have unemitted := List.filterMap_eq_nil_iff.mpr
        (Manager.delay_all middle (p := fun entry => entry.emitted? = none) (fun _ => rfl) due event
          fun _ => rfl)
      exact hands_mute mute unemitted rfl rfl rfl
    exact reading.aside.hands.trans delayed
  | @withdrawn _ _ middle _ _ _ kind reading sweep =>
    have noted : Hands [] middle [.logged (.handlingWithdrawn event.hash)] middle :=
      hands_quiet (Manager.quiet_cons Manager.quiet_nil) rfl rfl rfl
    exact reading.aside.hands.trans (noted.trans sweep.hands)
  | ignored kind => exact hands_quiet (Manager.quiet_cons Manager.quiet_nil) rfl rfl rfl

theorem Handles.hands {block event m r added m'} (run : Handles block event m r added m') :
    Hands [] m added m' := by
  cases run with
  | settled known => exact hands_quiet (Manager.quiet_cons Manager.quiet_nil) rfl rfl rfl
  | failed fresh run => exact run.hands
  | @done _ _ _ middle fresh run =>
    have settled : Hands [] middle [.settled event] (Manager.settle event middle).1 :=
      hands_mute (by simp [Mute, Entry.record?, Entry.announces]) rfl rfl rfl rfl
    exact run.hands.trans settled

theorem hands_inTurn {one : EventRecord → Effect (List String)} {events m r added m'}
    (each : ∀ event ∈ events, ∀ {m r added m'}, one event m r added m' → Hands [] m added m')
    (run : InTurn one events m r added m') : Hands [] m added m' := by
  refine run.chained (fun m => ?_) (fun first second => first.trans second) each
  exact hands_quiet Manager.quiet_nil rfl rfl rfl

-- The record is compared with the one before it as soon as it is read.
theorem FetchesRecord.hands {m record added} (run : FetchesRecord m (.ok record) added m) :
    Hands [] m (added ++ (Manager.observeRecord record m).2) (Manager.observeRecord record m).1 := by
  cases run with
  | found _ rest =>
    cases gone : m.hubRecord.any (·.listed) && !record.listed with
    | true =>
      have told : announcements m.hubRecord [.asked (.relayData [m.address]) (.ok (record :: rest)),
          .logged (.delisted m.address m.settings.hub record.penalized), .emitted .removed] =
            [.removed] := by
        simp [announcements, Entry.announces, Entry.record?, gone]
      rw [Manager.observeRecord_delisted gone]
      exact ⟨rfl, congrArg (m.notifications ++ ·) told.symm, told.symm, by simp [told]⟩
    | false =>
      have told : announcements m.hubRecord [.asked (.relayData [m.address]) (.ok (record :: rest))] =
          [] := by
        simp [announcements, Entry.announces, Entry.record?, gone]
      rw [Manager.observeRecord_kept gone]
      refine ⟨rfl, ?_, told.symm, by simp [told]⟩
      exact ((congrArg (m.notifications ++ ·) told).trans (List.append_nil _)).symm

theorem FetchesRecord.hands_failed {m failure added m'}
    (run : FetchesRecord m (.error failure) added m') : Hands [] m added m' := by
  cases run with
  | unread | missing =>
    exact hands_mute (by simp [Mute, Entry.record?, Entry.announces]) rfl rfl rfl rfl

theorem Scans.hands {hubEvents scanned current m r added m'}
    (run : Scans hubEvents scanned current m r added m') : Hands [] m added m' := by
  have fetched (m : Manager) (events : List EventRecord) :
      Hands [] m (fetchEntries m scanned current events) (Manager.forgetHandled scanned m).1 := by
    have mute : Mute (fetchEntries m scanned current events) :=
      List.forall_mem_cons.mpr ⟨⟨rfl, fun _ => rfl⟩, Entry.mute_quiet (Manager.scanNotices_quiet _ _)⟩
    exact hands_mute mute ((Manager.scanNotices_quiet _ _).filterMap _ fun _ => rfl) rfl rfl rfl
  have turns {events m r added m'} (run : InTurn (Handles current) events m r added m') :
      Hands [] m added m' := hands_inTurn (fun _ _ _ _ _ _ run => run.hands) run
  cases run with
  | idle fresh => exact hands_quiet Manager.quiet_nil rfl rfl rfl
  | unread ready failure =>
    exact hands_mute (by simp [Mute, Entry.record?, Entry.announces, Manager.stakeQuery]) rfl rfl rfl rfl
  | stopped ready handling => exact (fetched m _).trans (turns handling)
  | recordless ready handling record =>
    exact ((fetched m _).trans (turns handling)).trans record.hands_failed
  | @done _ events _ _ _ _ _ ready handling found =>
    have recorded := ((fetched m events).trans (turns handling)).trans found.hands
    rw [← List.append_assoc] at recorded
    exact ⟨recorded.record, recorded.pending, recorded.emitted, recorded.unstaked⟩

theorem Releases.hands {block m r added m'} (run : Releases block m r added m') :
    Hands [] m added m' := by
  cases run with
  | released sweeps =>
    have swept := hands_inTurn (fun event _ {m r added m'} run => ?_) sweeps
    · exact ⟨swept.record, swept.pending, swept.emitted, swept.unstaked⟩
    cases run with
    | spared kind => exact hands_quiet Manager.quiet_nil rfl rfl rfl
    | swept kind sweep =>
      have noted : Hands [] m [.logged (.handlingUnlocked event.hash)] m :=
        hands_quiet (Manager.quiet_cons Manager.quiet_nil) rfl rfl rfl
      exact noted.trans sweep.hands

end Effect

def Reply.taken : Reply → List Notification
  | .outcome result => result.notifications
  | .notifications given => given
  | .done | .hashes .. => []

def takenFrom : Except RegistrationFailure Reply → List Notification
  | .ok reply => reply.taken
  | .error _ => []

theorem hands_taken (m : Manager) : Hands m.notifications m [] { m with notifications := [] } :=
  ⟨rfl, rfl, rfl, by simp [announcements]⟩

theorem cycle_hands {hubEvents scanned current force m r added m'}
    (run : Effect.Cycles hubEvents scanned current force m r added m') :
    Hands (takenFrom (r.map .outcome)) m added m' := by
  cases run with
  | scanFailed scan => exact scan.hands
  | releaseFailed scan release => exact scan.hands.trans release.hands
  | registerFailed scan release register =>
    exact (scan.hands.trans release.hands).trans register.aside.hands
  | @done _ _ _ _ _ _ m' _ _ scan release register =>
    have before := (scan.hands.trans release.hands).trans register.aside.hands
    have after := before.trans (hands_taken m')
    simp only [List.append_nil, List.nil_append] at after
    exact after

theorem command_hands {command : Command} {m r added m'} (run : command.effect m r added m') :
    Hands (takenFrom r) m added m' := by
  cases command with
  | initialise => cases run with | failed run | given run => exact run.aside.hands
  | handle => cases run with | failed run | given run => exact cycle_hands run
  | attempt => cases run with | failed run | given run => exact run.aside.hands
  | withdraw => cases run with | failed run | given run => exact run.hands
  | refreshBalance => cases run with | failed run | given run => exact run.aside.hands
  | refreshStake => cases run with | failed run | given run => exact run.aside.hands
  | takeNotifications =>
    cases run with
    | failed run => cases run
    | given run => cases run; exact hands_taken m
  | explain =>
    cases run with
    | failed run => cases run
    | given run => cases run; exact hands_quiet (Manager.explain_quiet m) rfl rfl rfl

def Command.handsOut : Command → Bool
  | .handle .. | .takeNotifications => true
  | _ => false

theorem cycle_empties {hubEvents scanned current force m outcome added m'}
    (run : Effect.Cycles hubEvents scanned current force m (.ok outcome) added m') : m'.notifications = [] := by
  cases run with
  | done scan release register => rfl

theorem command_empties {command : Command} {m reply added m'} (run : command.effect m (.ok reply) added m')
    (handing : command.handsOut = true) : m'.notifications = [] := by
  cases command with
  | handle => cases run with | given run => exact cycle_empties run
  | takeNotifications => cases run with | given run => cases run; rfl
  | _ => cases handing

theorem stage_unstaking_iff (m : Manager) : m.stage = .unstaking ↔ m.unstaked = true := by
  unfold Manager.stage
  by_cases left : m.unstaked = true
  · simp [left]
  · rw [if_neg left]
    refine ⟨fun unstaking => ?_, fun unstaked => absurd unstaked left⟩
    repeat' split at unstaking
    all_goals cases unstaking

section

variable {ω : Type} (c : Collaborators ω)

theorem performAll_hands (s : Session ω) (commands : List Command) :
    ∃ added, (s.performAll c commands).2.journal = s.journal ++ added ∧
      Hands ((s.performAll c commands).1.flatMap takenFrom) s.manager added
        (s.performAll c commands).2.manager := by
  induction commands generalizing s with
  | nil => exact ⟨[], by simp [Session.performAll], hands_quiet Manager.quiet_nil rfl rfl rfl⟩
  | cons command rest ih =>
    obtain ⟨added, journal, effect⟩ := Command.action_follows c command s.manager s _ _ rfl rfl
    obtain ⟨more, later, hands⟩ := ih (s.perform c command).2
    refine ⟨added ++ more, ?_, (command_hands effect).trans hands⟩
    rw [← List.append_assoc, ← journal]
    exact later

-- What was handed out, followed by what is still pending, is what was emitted, over failed commands too. Where a
-- cycle succeeds or someone takes the announcements, none is left pending.
theorem announcements_handed_out_or_pending (settings : ServerSettings) (address worker : String)
    (world : ω) (commands : List Command) :
    let run := (Session.fresh settings address worker world).performAll c commands
    run.1.flatMap takenFrom ++ run.2.manager.notifications = announcements none run.2.journal ∧
      run.2.journal.filterMap Entry.emitted? = announcements none run.2.journal ∧
      (run.2.manager.stage = .unstaking ↔ .unstaked ∈ announcements none run.2.journal) ∧
      (∀ later, run.2.manager.stage = .unstaking →
        (run.2.performAll c later).2.manager.stage = .unstaking) ∧
      (run.2.perform c .takeNotifications).1 = .ok (.notifications run.2.manager.notifications) ∧
      ∀ next, next.handsOut = true → (run.2.perform c next).1.isOk = true →
        (run.2.perform c next).2.manager.notifications = [] := by
  intro run
  obtain ⟨added, journal, hands⟩ := performAll_hands c (Session.fresh settings address worker world) commands
  have whole : run.2.journal = added := journal
  rw [whole]
  refine ⟨hands.pending, hands.emitted, ?leaving, fun later leaving => ?stays, rfl, fun next handing ok => ?empties⟩
  case leaving =>
    rw [stage_unstaking_iff, hands.unstaked]
    exact decide_eq_true_iff
  case stays =>
    obtain ⟨_, _, after⟩ := performAll_hands c run.2 later
    rw [stage_unstaking_iff] at leaving ⊢
    rw [after.unstaked, leaving, Bool.true_or]
  case empties =>
    have effect := perform_effect c run.2 next
    cases replied : (run.2.perform c next).1 with
    | error failure =>
      rw [replied] at ok
      cases ok
    | ok reply =>
      rw [replied] at effect
      exact command_empties effect handing

end

namespace Rehearsal

def withdrawal : List Command := [.initialise, .handle [] 20 40 false]

theorem swept_relay_stays_leaving :
    (run (leaving [stakeWithdrawn 30]) withdrawal).manager.stage = .unstaking ∧
      ((run (leaving [stakeWithdrawn 30]) withdrawal).performAll collaborators
        [.takeNotifications, .refreshStake]).2.manager.stage = .unstaking := by
  have left : (run (leaving [stakeWithdrawn 30]) withdrawal).manager.stage = .unstaking := by
    decide +kernel
  refine ⟨left, ?_⟩
  rw [run, start] at left ⊢
  exact (announcements_handed_out_or_pending collaborators settings manager worker
    (leaving [stakeWithdrawn 30]) withdrawal).2.2.2.1 _ left

end Rehearsal
end TransactionRelay
