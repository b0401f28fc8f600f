import TransactionRelay.Proofs.Registration.Memory
import TransactionRelay.Proofs.Registration.Sweeping
import TransactionRelay.Registration.Cycle

namespace TransactionRelay
namespace Effect

inductive ReadsStake : Effect Unit
  | unread {m} (failure : LedgerFailure) :
      ReadsStake m (.error (.ledger failure)) [.asked (.stakeReading m.address) (.error failure)] m
  | read {m} (reading : StakeReading) :
      ReadsStake m (.ok ())
        (.asked (.stakeReading m.address) (.ok reading) :: (Manager.observeStake reading m).2)
        (Manager.observeStake reading m).1

inductive ReadsBalance : Effect Unit
  | unread {m} (failure : LedgerFailure) :
      ReadsBalance m (.error (.ledger failure)) [.asked (.balance m.address) (.error failure)] m
  | read {m} (amount : Wei) :
      ReadsBalance m (.ok ())
        (.asked (.balance m.address) (.ok amount) :: (Manager.observeBalance amount m).2)
        (Manager.observeBalance amount m).1

inductive Reacts (block : UInt64) (event : EventRecord) : Effect (List String)
  | unread {m failure added m'} (kind : event.kind ∈ EventKind.ofStake)
      (reading : ReadsStake m (.error failure) added m') :
      Reacts block event m (.error failure) added m'
  | added {m added m'} (kind : event.kind = .stakeAdded) (reading : ReadsStake m (.ok ()) added m') :
      Reacts block event m (.ok []) added m'
  | unlocked {m manager owner due added middle}
      (data : event.data = .stakeUnlocked manager owner due)
      (reading : ReadsStake m (.ok ()) added middle) :
      Reacts block event m (.ok []) (added ++ (Manager.delay due event middle).2)
        (Manager.delay due event middle).1
  | withdrawn {m added middle r more m'} (kind : event.kind = .stakeWithdrawn)
      (reading : ReadsStake m (.ok ()) added middle)
      (sweep : Sweeps (.withdrawn event) true block middle r more m') :
      Reacts block event m r (added ++ .logged (.handlingWithdrawn event.hash) :: more) m'
  | ignored {m} (kind : event.kind ∉ EventKind.ofStake) :
      Reacts block event m (.ok []) [.logged (.ignoring event.kind)] m

-- An event is settled in the same step that finishes its effects.
inductive Handles (block : UInt64) (event : EventRecord) : Effect (List String)
  | settled {m} (known : event.key ∈ m.handled) :
      Handles block event m (.ok []) [.logged (.alreadyHandled event)] m
  | failed {m failure added m'} (fresh : event.key ∉ m.handled)
      (run : Reacts block event m (.error failure) added m') :
      Handles block event m (.error failure) added m'
  | done {m hashes added m'} (fresh : event.key ∉ m.handled)
      (run : Reacts block event m (.ok hashes) added m') :
      Handles block event m (.ok hashes) (added ++ [.settled event]) (Manager.settle event m').1

inductive FetchesRecord : Effect RelayRecord
  | unread {m} (failure : LedgerFailure) :
      FetchesRecord m (.error (.ledger failure)) [.asked (.relayData [m.address]) (.error failure)] m
  | missing {m} : FetchesRecord m (.error (.relayNotFound m.address))
      [.asked (.relayData [m.address]) (.ok [])] m
  | found {m} (record : RelayRecord) (rest : List RelayRecord) :
      FetchesRecord m (.ok record) [.asked (.relayData [m.address]) (.ok (record :: rest))] m

theorem FetchesRecord.memory {m r added m'} (run : FetchesRecord m r added m') : m' = m := by
  cases run <;> rfl

end Effect

def Manager.stakeQuery (m : Manager) (scanned current : UInt64) : Call :=
  .stakeEvents EventKind.ofStake [Address.topic m.address] (.since scanned current)

namespace Effect

def fetchEntries (m : Manager) (scanned current : UInt64) (events : List EventRecord) : List Entry :=
  .asked (m.stakeQuery scanned current) (.ok events) ::
    scanNotices events (.since scanned current)

inductive Scans (hubEvents : List EventRecord) (scanned current : UInt64) : Effect (List String)
  | idle {m} (fresh : m.initialized = false) :
      Scans hubEvents scanned current m (.error .notInitialized) [] m
  | unread {m} (ready : m.initialized = true) (failure : LedgerFailure) :
      Scans hubEvents scanned current m (.error (.ledger failure))
        [.asked (m.stakeQuery scanned current) (.error failure)] m
  | stopped {m events failure added m'} (ready : m.initialized = true)
      (handling : InTurn (Handles current) events (Manager.forgetHandled scanned m).1
        (.error failure) added m') :
      Scans hubEvents scanned current m (.error failure)
        (fetchEntries m scanned current events ++ added) m'
  | recordless {m events hashes added failure more m'} (ready : m.initialized = true)
      (handling : InTurn (Handles current) events (Manager.forgetHandled scanned m).1
        (.ok hashes) added m')
      (record : FetchesRecord m' (.error failure) more m') :
      Scans hubEvents scanned current m (.error failure)
        (fetchEntries m scanned current events ++ added ++ more) m'
  | done {m events hashes added middle record more} (ready : m.initialized = true)
      (handling : InTurn (Handles current) events (Manager.forgetHandled scanned m).1
        (.ok hashes) added middle)
      (found : FetchesRecord middle (.ok record) more middle) :
      Scans hubEvents scanned current m (.ok hashes)
        (fetchEntries m scanned current events ++ added ++ more ++
          (Manager.observeRecord record middle).2)
        (Manager.observeHubEvents hubEvents (Manager.observeRecord record middle).1).1

inductive SweepsFor (block : UInt64) (event : EventRecord) : Effect (List String)
  | swept {m r added m'} (kind : event.kind = .stakeUnlocked)
      (sweep : Sweeps (.unlocked event) true block m r added m') :
      SweepsFor block event m r (.logged (.handlingUnlocked event.hash) :: added) m'
  | spared {m} (kind : event.kind ≠ .stakeUnlocked) : SweepsFor block event m (.ok []) [] m

-- All due events have left the queue when the first of them is swept for.
inductive Releases (block : UInt64) : Effect (List String)
  | released {m r added m'}
      (sweeps : InTurn (SweepsFor block) (m.delayed.due block) (Manager.dropDue block m).1 r added m') :
      Releases block m r added m'

end Effect

namespace Action

open Effect

variable {ω : Type} (c : Collaborators ω)

theorem refreshStake_follows : (refreshStake c).Follows ReadsStake := by
  intro m
  exact ends_manager (ends_ask (fun failure => .unread failure) fun reading =>
    change_ends (.read reading))

theorem refreshBalance_follows : (refreshBalance c).Follows ReadsBalance := by
  intro m
  exact ends_manager (ends_ask (fun failure => .unread failure) fun amount =>
    change_ends (.read amount))

theorem stakeEventEffects_follows (block : UInt64) (event : EventRecord) :
    (stakeEventEffects c block event).Follows (Reacts block event) := by
  intro m
  unfold stakeEventEffects
  split
  next data =>
    have kind : event.kind = .stakeAdded := by rw [EventRecord.kind, data]; rfl
    refine ends_bind (refreshStake_follows c m) ?_ fun _ added middle reading => ends_pure ?_
    · exact fun failure added m' reading => .unread (by rw [kind]; decide) reading
    · rw [List.append_nil]
      exact .added kind reading
  next data =>
    have kind : event.kind = .stakeUnlocked := by rw [EventRecord.kind, data]; rfl
    refine ends_bind (refreshStake_follows c m) ?_ fun _ added middle reading =>
      ends_change (ends_pure ?_)
    · exact fun failure added m' reading => .unread (by rw [kind]; decide) reading
    · rw [List.append_nil]
      exact .unlocked data reading
  next data =>
    have kind : event.kind = .stakeWithdrawn := by rw [EventRecord.kind, data]; rfl
    refine ends_bind (refreshStake_follows c m) ?_ fun _ added middle reading =>
      ends_log ((sweep_follows c _ _ _ middle).mono fun r more m' sweep => ?_)
    · exact fun failure added m' reading => .unread (by rw [kind]; decide) reading
    · exact .withdrawn kind reading sweep
  next added unlocked withdrawn =>
    refine ends_log (ends_pure (.ignored ?_))
    unfold EventRecord.kind
    cases data : event.data with
    | stakeAdded => exact absurd data (added _ _ _ _)
    | stakeUnlocked => exact absurd data (unlocked _ _ _)
    | stakeWithdrawn => exact absurd data (withdrawn _ _ _)
    | _ => exact of_decide_eq_true rfl

theorem handleStakeEvent_follows (block : UInt64) (event : EventRecord) :
    (handleStakeEvent c block event).Follows (Handles block event) := by
  intro m
  refine ends_manager ?_
  by_cases known : event.key ∈ m.handled
  · rw [if_pos (List.contains_iff_mem.mpr known)]
    exact ends_log (ends_pure (.settled known))
  · rw [if_neg fun held => known (List.contains_iff_mem.mp held)]
    refine ends_bind (stakeEventEffects_follows c block event m) ?_ ?_
    · exact fun failure added m' run => .failed known run
    · exact fun hashes added middle run => ends_change (ends_pure (.done known run))

theorem handleStakeEvents_follows (block : UInt64) (events : List EventRecord) :
    (handleStakeEvents c block events).Follows (InTurn (Handles block) events) :=
  inTurn_follows rfl (fun _ _ => rfl) (handleStakeEvent_follows c block) events

theorem fetchRecord_follows : (fetchRecord c).Follows FetchesRecord := by
  intro m
  refine ends_manager (ends_ask (fun failure => .unread failure) fun records => ?_)
  cases records with
  | nil => exact ends_throw .missing
  | cons record rest => exact ends_pure (.found record rest)

theorem scan_follows (hubEvents : List EventRecord) (scanned current : UInt64) :
    (scan c hubEvents scanned current).Follows (Scans hubEvents scanned current) := by
  intro m
  have forgets : (Manager.forgetHandled scanned m).2 = [] := rfl
  have observes (middle : Manager) : (Manager.observeHubEvents hubEvents middle).2 = [] := rfl
  refine ends_manager ?_
  cases ready : m.initialized with
  | false => exact ends_thrown (.idle ready)
  | true =>
    refine ends_ask (fun failure => .unread ready failure) fun events => ends_note (ends_change ?_)
    refine ends_bind (handleStakeEvents_follows c current events _) ?_ ?_
    · exact fun failure added m' handling => .stopped ready handling
    intro hashes added middle handling
    refine ends_bind (fetchRecord_follows c middle) ?_ ?_
    · intro failure more m' record
      cases record.memory
      simpa [fetchEntries, Manager.stakeQuery, forgets] using Scans.recordless ready handling record
    intro record more middle found
    cases found.memory
    refine ends_change (ends_change (ends_pure ?_))
    have run : Scans hubEvents scanned current m _ _ _ := .done ready handling found
    simpa [fetchEntries, Manager.stakeQuery, forgets, observes] using run

theorem sweepFor_follows (block : UInt64) (event : EventRecord) :
    (sweepFor c block event).Follows (SweepsFor block event) := by
  intro m
  unfold sweepFor
  by_cases kind : event.kind = .stakeUnlocked
  · rw [if_pos (beq_iff_eq.mpr kind)]
    exact ends_log ((sweep_follows c _ _ _ m).mono fun r added m' run => .swept kind run)
  · rw [if_neg fun held => kind (beq_iff_eq.mp held)]
    exact ends_pure (.spared kind)

theorem sweepUnlocked_follows (block : UInt64) (events : List EventRecord) :
    (sweepUnlocked c block events).Follows (InTurn (SweepsFor block) events) :=
  inTurn_follows rfl (fun _ _ => rfl) (sweepFor_follows c block) events

theorem releaseDue_follows (block : UInt64) : (releaseDue c block).Follows (Releases block) := by
  intro m
  exact ends_manager (ends_change ((sweepUnlocked_follows c block _ _).mono fun r added m' run =>
    .released run))

end Action
end TransactionRelay
