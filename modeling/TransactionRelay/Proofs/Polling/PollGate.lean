import TransactionRelay.Proofs.Polling.ContiguousScans
import TransactionRelay.Proofs.Registration.Repeating

namespace TransactionRelay

def Call.early : Call → Bool
  | .isPending .. | .addWorkersMethod .. | .registerMethod .. | .estimateGas .. => false
  | .send tx => tx.action = .valueTransfer
  | _ => true

theorem Call.turns_early (call : Call) (turns : call.turns = true) : call.early = true := by
  cases call with
  | isPending | addWorkersMethod | registerMethod | estimateGas => cases turns
  | send tx => exact turns
  | _ => rfl

def Entry.balanceOf? (account : String) : Entry → Option Wei
  | .asked (.balance owner) (.ok amount) => if owner = account then some amount else none
  | _ => none

structure Keeps (m : Manager) (added : List Entry) (m' : Manager) : Prop where
  settings : m'.settings = m.settings
  address : m'.address = m.address
  worker : m'.worker = m.worker
  stake : m'.stake.minimum = m.stake.minimum
  balance : m'.balance.minimum = m.balance.minimum

theorem Keeps.trans {m added middle more m'} (first : Keeps m added middle)
    (second : Keeps middle more m') : Keeps m (added ++ more) m' where
  settings := second.settings.trans first.settings
  address := second.address.trans first.address
  worker := second.worker.trans first.worker
  stake := second.stake.trans first.stake
  balance := second.balance.trans first.balance

theorem keeps_refl (m : Manager) (added : List Entry) : Keeps m added m := ⟨rfl, rfl, rfl, rfl, rfl⟩

theorem sweep_keeps {cause managerFunds block m r added m'}
    (run : Effect.Sweeps cause managerFunds block m r added m') : Keeps m added m' := by
  obtain ⟨record, _, swept⟩ := run.swept
  rw [swept.memory]
  split <;> exact ⟨rfl, rfl, rfl, rfl, rfl⟩

theorem keeps_trail : Trail Keeps where
  refl m := keeps_refl m []
  trans := Keeps.trans
  part := by
    intro m added m' part
    cases part with
    | stakeRead reading =>
      rw [Manager.observeStake_memory]
      split <;> exact ⟨rfl, rfl, rfl, rfl, rfl⟩
    | _ => exact ⟨rfl, rfl, rfl, rfl, rfl⟩

theorem keeps_course : Course Keeps where
  toTrail := keeps_trail
  handled run := run.obeys keeps_trail sweep_keeps
  released run := run.obeys keeps_trail (fun _ => ⟨rfl, rfl, rfl, rfl, rfl⟩) sweep_keeps
  pended m reply := keeps_refl m _
  attempted run := by
    cases run.memory
    exact keeps_refl _ _
  demanded run := sweep_keeps run

namespace Effect

-- The balance is read once in a poll, before its cycle; what sweeps read of it is not remembered.
theorem Handles.balance {block event m r added m'} (run : Handles block event m r added m') :
    m'.balance = m.balance := by
  have reads {m r added m'} (run : ReadsStake m r added m') : m'.balance = m.balance := by
    cases run with
    | unread failure => rfl
    | read reading =>
      rw [Manager.observeStake_memory]
      split <;> rfl
  have reacts {r added m'} (run : Reacts block event m r added m') : m'.balance = m.balance := by
    cases run with
    | unread kind reading | added kind reading => exact reads reading
    | unlocked data reading =>
      have same := reads reading
      exact same
    | withdrawn kind reading sweep =>
      have same := reads reading
      obtain ⟨record, _, swept⟩ := sweep.swept
      rw [swept.memory]
      split <;> exact same
    | ignored kind => rfl
  cases run with
  | settled known => rfl
  | failed fresh run => exact reacts run
  | done fresh run =>
    have same := reacts run
    exact same

theorem turns_balance {block events m r added m'} (run : InTurn (Handles block) events m r added m') :
    m'.balance = m.balance :=
  run.chained (R := fun m _ m' => m'.balance = m.balance) (fun _ => rfl)
    (fun first second => second.trans first) fun _ _ _ _ _ _ run => run.balance

theorem Scans.balance {hubEvents scanned current m hashes added m'}
    (run : Scans hubEvents scanned current m (.ok hashes) added m') : m'.balance = m.balance := by
  cases run with
  | done ready handling found =>
    have same := turns_balance handling
    exact same

theorem Scans.early {hubEvents scanned current m r added m'}
    (run : Scans hubEvents scanned current m r added m') : Asks Call.early added := by
  have turns {events m r added m'} (run : InTurn (Handles current) events m r added m') :
      Asks Call.early added := (turns_ask run).mono Call.turns_early
  have fetched (m : Manager) (events : List EventRecord) :
      Asks Call.early (fetchEntries m scanned current events) :=
    asks_cons rfl (asks_quiet (Manager.scanNotices_quiet _ _))
  have found {m r added m'} (run : FetchesRecord m r added m') : Asks Call.early added := by
    cases run <;> exact asks_one rfl
  cases run with
  | idle fresh => exact asks_nil _
  | unread ready failure => exact asks_one rfl
  | stopped ready handling => exact (fetched m _).append (turns handling)
  | recordless ready handling record => exact ((fetched m _).append (turns handling)).append (found record)
  | @done _ events _ _ middle record _ ready handling read =>
    refine (((fetched m events).append (turns handling)).append (found read)).append ?_
    exact Manager.observeRecord_all middle (fun _ _ missing => by cases missing) record
      fun _ missing => by cases missing

end Effect

open Effect

-- A piece of work that has come to the gate: what was asked before it, what was asked from it on, and
-- the memory that the manager had there.
structure Gate (m : Manager) (current : UInt64) (result : Except RegistrationFailure (List String))
    (before last : List Entry) (record : RelayRecord) (middle m' : Manager) : Prop where
  early : Asks Call.early before
  fetched : before.filterMap Entry.record? = [record]
  recorded : middle.hubRecord = some record
  kept : Keeps m before middle
  register : Registers current false middle result last middle
  after : ∃ notifications, m' = { middle with notifications }

namespace Gate

variable {m middle m' : Manager} {current : UInt64} {result : Except RegistrationFailure (List String)}
  {before last tail : List Entry} {record : RelayRecord}

-- The only record of the whole poll is the one that was fetched before the gate.
theorem records (gate : Gate m current result before last record middle m') (quiet : Manager.Quiet tail) :
    (before ++ (last ++ tail)).filterMap Entry.record? = [record] := by
  have later := gate.register.asks.recordless fun _ => rfl
  have silent := quiet.filterMap Entry.record? fun _ => rfl
  rw [List.filterMap_append, List.filterMap_append, gate.fetched, later, silent]
  rfl

end Gate

theorem cycle_gate {hubEvents scanned current m r added m'}
    (run : Cycles hubEvents scanned current false m r added m') :
    Asks Call.early added ∧ r.isOk = false ∨
      ∃ result before last record middle, added = before ++ last ∧ r.isOk = result.isOk ∧
        middle.balance = m.balance ∧ Gate m current result before last record middle m' := by
  have arrives {hashes added middle others more late} (scan : Scans hubEvents scanned current m
      (.ok hashes) added middle) (release : Releases current middle (.ok others) more late) :
      ∃ record, (added ++ more).filterMap Entry.record? = [record] ∧ late.hubRecord = some record ∧
        late.balance = m.balance ∧ Asks Call.early (added ++ more) ∧ Keeps m (added ++ more) late := by
    obtain ⟨record, fetched, recorded⟩ := scan.fetched
    obtain ⟨_, _, memory⟩ := release.memory
    have released := release.asks.recordless fun _ => rfl
    have scans : Keeps m added middle :=
      scan.obeys keeps_trail (fun _ => ⟨rfl, rfl, rfl, rfl, rfl⟩) keeps_course.handled
    refine ⟨record, by rw [List.filterMap_append, fetched, released]; rfl, ?_, ?_, ?_, ?_⟩
    · rw [memory]
      exact recorded
    · rw [memory]
      exact scan.balance
    · exact scan.early.append (release.asks.mono Call.turns_early)
    · exact scans.trans (keeps_course.released release)
  cases run with
  | scanFailed scan => exact .inl ⟨scan.early, rfl⟩
  | releaseFailed scan release =>
    exact .inl ⟨scan.early.append (release.asks.mono Call.turns_early), rfl⟩
  | registerFailed scan release register =>
    obtain ⟨record, fetched, recorded, balance, early, kept⟩ := arrives scan release
    exact .inr ⟨_, _, _, record, _, rfl, rfl, balance, early, fetched, recorded, kept, register, _, rfl⟩
  | done scan release register =>
    obtain ⟨record, fetched, recorded, balance, early, kept⟩ := arrives scan release
    exact .inr ⟨_, _, _, record, _, rfl, rfl, balance, early, fetched, recorded, kept, register, _, rfl⟩

theorem Effect.Readies.early {m r added m'} (run : Readies m r added m') : Asks Call.early added := by
  cases run with
  | known ready => exact asks_nil _
  | first fresh run =>
    cases run with
    | again | unsettled | known => exact asks_nil _
    | unread | found => exact asks_one rfl

namespace Poller

theorem Opens.reads {scanned current hubEvents m added m'}
    (opens : Opens scanned current hubEvents m added m') :
    ∃ amount, added.filterMap (Entry.balanceOf? m'.address) = [amount] ∧ m'.balance.current = amount ∧
      Asks Call.early added ∧ added.filterMap Entry.record? = [] := by
  cases opens with
  | @opened early middle _ _ ready newer balance =>
    have unread : early.filterMap (Entry.balanceOf? m'.address) = [] ∧
        early.filterMap Entry.record? = [] := by
      cases ready with
      | known ready => exact ⟨rfl, rfl⟩
      | first fresh run => cases run <;> exact ⟨rfl, rfl⟩
    obtain ⟨none, recordless⟩ := unread
    cases balance with
    | read amount =>
      have quiet := Manager.observeBalance_quiet middle amount
      refine ⟨amount, ?_, rfl, ?_, ?_⟩
      · have own : (Manager.observeBalance amount middle).1.address = middle.address := rfl
        have silent := quiet.filterMap (Entry.balanceOf? middle.address) fun _ => rfl
        rw [own] at none ⊢
        have seen : Entry.balanceOf? middle.address (.asked (.balance middle.address) (.ok amount)) =
            some amount := if_pos rfl
        rw [List.filterMap_append, none, List.filterMap_cons_none rfl, List.cons_append,
          List.filterMap_cons_some seen, List.filterMap_append, silent]
        rfl
      · refine ready.early.append ?_
        have read : Asks Call.early (.asked (.balance middle.address) (.ok amount) ::
            (Manager.observeBalance amount middle).2) :=
          asks_cons rfl (asks_quiet quiet)
        refine asks_cons rfl (read.append ?_)
        exact asks_one rfl
      · have silent := quiet.filterMap Entry.record? fun _ => rfl
        rw [List.filterMap_append, recordless, List.filterMap_cons_none rfl, List.cons_append,
          List.filterMap_cons_none rfl, List.filterMap_append, silent]
        rfl

theorem Stops.early {scanned m r added m'} (stop : Stops scanned m r added m') :
    Asks Call.early added := by
  have block {rest : List Entry} (reply : Except LedgerFailure UInt64) (later : Asks Call.early rest) :
      Asks Call.early (.asked .blockNumber reply :: rest) :=
    asks_cons rfl later
  cases stop with
  | unready ready => exact ready.early
  | blockless ready failure => exact ready.early.append (block _ (asks_nil _))
  | idle ready current old =>
    exact ready.early.append (block _ (asks_quiet (Manager.quiet_cons Manager.quiet_nil)))
  | unread ready current balance =>
    exact ready.early.append (block _ (balance.asks.mono Call.turns_early))
  | unheard ready current balance failure =>
    have heard : Asks Call.early [.asked (m'.hubQuery scanned current) (.error failure)] :=
      asks_one rfl
    exact ready.early.append (block _ ((balance.asks.mono Call.turns_early).append heard))

theorem Polls.gate {scanned m r added m'} (run : Polls scanned m r added m') :
    Asks Call.early added ∨ ∃ current result before last tail record middle,
      added = before ++ (last ++ tail) ∧ Manager.Quiet tail ∧ r.isOk = result.isOk ∧
      added.filterMap Entry.block? = [current] ∧
      (before.filterMap (Entry.balanceOf? middle.address)).head? = some middle.balance.current ∧
      Gate m current result before last record middle m' := by
  have arrives {current hubEvents opening late result more last record middle}
      (opens : Opens scanned current hubEvents m opening late) (balance : middle.balance = late.balance)
      (gate : Gate late current result more last record middle m') :
      ((opening ++ more).filterMap (Entry.balanceOf? middle.address)).head? =
          some middle.balance.current ∧
        Gate m current result (opening ++ more) last record middle m' := by
    obtain ⟨amount, read, remembered, early, recordless⟩ := opens.reads
    have begun : Keeps m opening late := opens.obeys keeps_course fun m _ => keeps_refl m _
    refine ⟨?_, early.append gate.early, ?_, gate.recorded, begun.trans gate.kept, gate.register, gate.after⟩
    · rw [gate.kept.address, List.filterMap_append, read, balance, remembered]
      rfl
    · rw [List.filterMap_append, recordless, gate.fetched]
      rfl
  cases run with
  | stopped stop => exact .inl stop.early
  | failed opens cycle =>
    have blocks := (opens.ranges.append (cycle.ranges opens.initialized)).blocks
    rcases cycle_gate cycle with ⟨early, _⟩ | ⟨result, more, last, record, middle, rfl, same, balance, gate⟩
    · obtain ⟨_, _, _, opened, _⟩ := opens.reads
      exact .inl (opened.append early)
    · obtain ⟨read, whole⟩ := arrives opens balance gate
      refine .inr ⟨_, result, _, last, [], record, middle, ?_, Manager.quiet_nil, same, blocks, read, whole⟩
      rw [List.append_nil, List.append_assoc]
  | @done current _ _ _ outcome _ _ opens cycle =>
    have cycled := (cycle.ranges opens.initialized).append
      (rangeless_quiet (submissionNotice_quiet outcome current))
    have blocks := (opens.ranges.append cycled).blocks
    rcases cycle_gate cycle with ⟨_, failed⟩ | ⟨result, more, last, record, middle, rfl, same, balance, gate⟩
    · cases failed
    · obtain ⟨read, whole⟩ := arrives opens balance gate
      refine .inr ⟨_, result, _, last, _, record, middle, ?_, submissionNotice_quiet outcome current,
        same, blocks, read, whole⟩
      rw [List.append_assoc, List.append_assoc]

end Poller
end TransactionRelay
