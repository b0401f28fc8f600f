import TransactionRelay.Proofs.Registration.Announcements
import TransactionRelay.Proofs.Registration.Repeating

namespace TransactionRelay

namespace Entry

def call? : Entry → Option Call
  | .asked call _ => some call
  | _ => none

def failed : Entry → Bool
  | .asked _ (.error _) => true
  | _ => false

end Entry

def Call.turns : Call → Bool
  | .stakeReading .. => true
  | call => call.sweeps

def Call.gated : Call → Bool
  | .isPending .registerServer => true
  | call => call.registers

def Asks (among : Call → Bool) (entries : List Entry) : Prop :=
  ∀ entry ∈ entries, ∀ call ∈ entry.call?, among call = true

-- A question among these entries was not answered, for the reason that is reported.
def Blames (entries : List Entry) (failure : RegistrationFailure) : Prop :=
  ∃ call cause, .asked call (.error cause) ∈ entries ∧ call.report cause = failure

theorem asks_asked {among : Call → Bool} {call : Call} {reply : Except call.Failure call.Answer}
    (kind : among call = true) : ∀ other ∈ (Entry.asked call reply).call?, among other = true := by
  intro other same
  cases same
  exact kind

namespace Asks

variable {among : Call → Bool} {first second entries : List Entry}

theorem append (one : Asks among first) (two : Asks among second) : Asks among (first ++ second) := by
  intro entry member
  rcases List.mem_append.mp member with early | late
  · exact one entry early
  · exact two entry late

theorem mono {wider : Call → Bool} (asks : Asks among entries)
    (wide : ∀ call, among call = true → wider call = true) : Asks wider entries :=
  fun entry member call asked => wide call (asks entry member call asked)

-- A view that is blind to this class of questions, and to all that is no question, sees nothing.
theorem unseen {α : Type} (asks : Asks among entries) (view : Entry → Option α)
    (blind : ∀ entry : Entry, (∀ call ∈ entry.call?, among call = true) → view entry = none) :
    entries.filterMap view = [] :=
  List.filterMap_eq_nil_iff.mpr fun entry member => blind entry (asks entry member)

end Asks

theorem Asks.recordless {entries : List Entry} {among : Call → Bool} (asks : Asks among entries)
    (apart : ∀ managers, among (.relayData managers) = false) : entries.filterMap Entry.record? = [] := by
  refine asks.unseen Entry.record? fun entry asked => ?_
  cases entry with
  | asked call reply =>
    cases call with
    | relayData managers =>
      have kind := asked _ rfl
      rw [apart managers] at kind
      cases kind
    | _ => rfl
  | _ => rfl

theorem asks_nil (among : Call → Bool) : Asks among [] := by
  intro entry member
  cases member

theorem asks_cons {among : Call → Bool} {call : Call} {reply : Except call.Failure call.Answer}
    {rest : List Entry} (kind : among call = true) (later : Asks among rest) :
    Asks among (.asked call reply :: rest) := List.forall_mem_cons.mpr ⟨asks_asked kind, later⟩

theorem asks_one {among : Call → Bool} {call : Call} {reply : Except call.Failure call.Answer}
    (kind : among call = true) : Asks among [.asked call reply] := asks_cons kind (asks_nil among)

theorem asks_quiet {among : Call → Bool} {entries : List Entry} (quiet : Manager.Quiet entries) :
    Asks among entries := quiet.all fun _ _ missing => by cases missing

namespace Blames

variable {first second : List Entry} {failure : RegistrationFailure}

theorem right (blames : Blames second failure) : Blames (first ++ second) failure := by
  obtain ⟨call, cause, member, reported⟩ := blames
  exact ⟨call, cause, List.mem_append_right _ member, reported⟩

theorem cons {entry : Entry} (blames : Blames second failure) : Blames (entry :: second) failure := by
  obtain ⟨call, cause, member, reported⟩ := blames
  exact ⟨call, cause, List.mem_cons_of_mem _ member, reported⟩

theorem failed (blames : Blames first failure) : ∃ entry ∈ first, entry.failed = true := by
  obtain ⟨call, cause, member, _⟩ := blames
  exact ⟨_, member, rfl⟩

end Blames

theorem blames_first {call : Call} {cause : call.Failure} {rest : List Entry} :
    Blames (.asked call (.error cause) :: rest) (call.report cause) := ⟨call, cause, List.mem_cons_self, rfl⟩

namespace Effect

theorem ReadsStake.asks {m r added m'} (run : ReadsStake m r added m') : Asks Call.turns added := by
  cases run with
  | unread failure => exact asks_one rfl
  | read reading =>
    exact asks_cons rfl (asks_quiet (Manager.observeStake_quiet m reading))

theorem ReadsBalance.asks {m r added m'} (run : ReadsBalance m r added m') : Asks Call.turns added := by
  cases run with
  | unread failure => exact asks_one rfl
  | read amount =>
    exact asks_cons rfl (asks_quiet (Manager.observeBalance_quiet m amount))

theorem Sweeps.asks {cause managerFunds block m r added m'}
    (run : Sweeps cause managerFunds block m r added m') : Asks Call.turns added := by
  have silent {entry : Entry} (none : entry.call? = none) :
      ∀ call ∈ entry.call?, call.turns = true := by simp [none]
  refine run.all (fun call reply sweeps => asks_asked ?_) (fun _ => silent rfl) (silent rfl) (silent rfl)
    (silent rfl)
  cases call with
  | stakeReading => rfl
  | _ => exact sweeps

theorem Reacts.asks {block event m r added m'} (run : Reacts block event m r added m') :
    Asks Call.turns added := by
  cases run with
  | unread kind reading | added kind reading => exact reading.asks
  | @unlocked _ _ _ due _ middle data reading =>
    refine reading.asks.append (Manager.delay_all middle ?_ due event ?_)
    · exact fun _ _ missing => by cases missing
    · exact fun _ _ missing => by cases missing
  | withdrawn kind reading sweep =>
    exact reading.asks.append (Asks.append (asks_quiet (Manager.quiet_cons Manager.quiet_nil)) sweep.asks)
  | ignored kind => exact asks_quiet (Manager.quiet_cons Manager.quiet_nil)

theorem Handles.asks {block event m r added m'} (run : Handles block event m r added m') :
    Asks Call.turns added := by
  cases run with
  | settled known => exact asks_quiet (Manager.quiet_cons Manager.quiet_nil)
  | failed fresh run => exact run.asks
  | done fresh run => exact run.asks.append (by simp [Asks, Entry.call?])

theorem SweepsFor.asks {block event m r added m'} (run : SweepsFor block event m r added m') :
    Asks Call.turns added := by
  cases run with
  | swept kind sweep =>
    exact Asks.append (asks_quiet (Manager.quiet_cons Manager.quiet_nil)) sweep.asks
  | spared kind => exact asks_nil _

theorem asks_inTurn {among : Call → Bool} {one : EventRecord → Effect (List String)} {events m r added m'}
    (each : ∀ event ∈ events, ∀ {m r added m'}, one event m r added m' → Asks among added)
    (run : InTurn one events m r added m') : Asks among added :=
  run.chained (R := fun _ added _ => Asks among added) (fun _ => asks_nil _) Asks.append each

theorem turns_ask {block events m r added m'} (run : InTurn (Handles block) events m r added m') :
    Asks Call.turns added := asks_inTurn (fun _ _ _ _ _ _ run => run.asks) run

theorem Releases.asks {block m r added m'} (run : Releases block m r added m') :
    Asks Call.turns added := by
  cases run with
  | released sweeps => exact asks_inTurn (fun _ _ _ _ _ _ run => run.asks) sweeps

theorem Attempts.asks {block m r added m'} (run : Attempts block m r added m') :
    Asks Call.gated added := by
  refine run.all (fun call reply registers => asks_asked ?_) fun _ _ missing => by cases missing
  cases call with
  | isPending action =>
    cases action with
    | registerServer => rfl
    | _ => exact registers
  | _ => exact registers

theorem Registers.asks {block force m r added m'} (run : Registers block force m r added m') :
    Asks Call.gated added := by
  have gate : Call.gated (.isPending .registerServer) = true := rfl
  cases run with
  | unread | closed => exact asks_one gate
  | opened pending needed attempt => exact asks_cons gate attempt.asks

theorem ReadsStake.blames {m failure added m'} (run : ReadsStake m (.error failure) added m') :
    Blames added failure := by
  cases run with
  | unread failure => exact blames_first

theorem ReadsBalance.blames {m failure added m'} (run : ReadsBalance m (.error failure) added m') :
    Blames added failure := by
  cases run with
  | unread failure => exact blames_first

theorem Transfers.blames {account owner price block m failure added m'}
    (run : Transfers account owner price block m (.error failure) added m') : Blames added failure := by
  cases run with
  | unread failure => exact blames_first
  | refused balance enough failure => exact blames_first.cons.cons

theorem Withdraws.blames {managerFunds block m failure added m'}
    (run : Withdraws managerFunds block m (.error failure) added m') : Blames added failure := by
  cases run with
  | priceUnread failure => exact blames_first
  | workerFailed known worker => exact worker.blames.cons
  | managerFailed asked known worker manager => exact manager.blames.right.cons

theorem Sweeps.blames {cause managerFunds block m failure added m'}
    (run : Sweeps cause managerFunds block m (.error failure) added m') : Blames added failure := by
  cases run with
  | failed run => exact run.blames.cons

theorem Handles.blames {block event m failure added m'}
    (run : Handles block event m (.error failure) added m') : Blames added failure := by
  cases run with
  | failed fresh run =>
    cases run with
    | unread kind reading => exact reading.blames
    | withdrawn kind reading sweep => exact sweep.blames.cons.right

theorem SweepsFor.blames {block event m failure added m'}
    (run : SweepsFor block event m (.error failure) added m') : Blames added failure := by
  cases run with
  | swept kind sweep => exact sweep.blames.cons

theorem blames_inTurn {one : EventRecord → Effect (List String)}
    (each : ∀ event {m failure added m'}, one event m (.error failure) added m' → Blames added failure)
    {events m r added m'} (run : InTurn one events m r added m') {failure} (failed : r = .error failure) :
    Blames added failure := by
  induction run with
  | done | passed => cases failed
  | stopped run =>
    cases failed
    exact each _ run
  | stoppedLater run rest ih => exact (ih failed).right

theorem Releases.blames {block m failure added m'} (run : Releases block m (.error failure) added m') :
    Blames added failure := by
  cases run with
  | released sweeps => exact blames_inTurn (fun _ _ _ _ _ run => run.blames) sweeps rfl

theorem CallsHub.blames {label action method block m failure added m'}
    (run : CallsHub label action method block m (.error failure) added m') : Blames added failure := by
  cases run with
  | unestimated failure => exact blames_first
  | refused gas failure => exact blames_first.cons

theorem EnsuresWorker.blames {block m failure added m'}
    (run : EnsuresWorker block m (.error failure) added m') : Blames added failure := by
  cases run with
  | unread failure => exact blames_first
  | failed absent add =>
    cases add with
    | unencoded failure => exact blames_first.cons
    | called call => exact call.blames.cons.cons

theorem RegistersServer.blames {block m failure added m'}
    (run : RegistersServer block m (.error failure) added m') : Blames added failure := by
  cases run with
  | unencoded failure => exact blames_first
  | failed call => exact call.blames.cons

theorem Registers.blames {block force m failure added m'}
    (run : Registers block force m (.error failure) added m') : Blames added failure := by
  cases run with
  | unread failure => exact blames_first
  | opened pending needed attempt =>
    cases attempt with
    | stopped ready ensure => exact ensure.blames.cons
    | failed ready ensure register => exact register.blames.right.cons

-- Of what was fetched, a view that is deaf to log lines sees the question alone.
theorem fetchEntries_view {α : Type} (view : Entry → Option α) (deaf : ∀ notice, view (.logged notice) = none)
    (m : Manager) (scanned current : UInt64) (events : List EventRecord) :
    (fetchEntries m scanned current events).filterMap view =
      (view (.asked (m.stakeQuery scanned current) (.ok events))).toList := by
  have notices := (Manager.scanNotices_quiet events (.since scanned current)).filterMap view deaf
  rw [fetchEntries, List.filterMap_cons, notices]
  cases view (.asked (m.stakeQuery scanned current) (.ok events)) <;> rfl

theorem Scans.fetched {hubEvents scanned current m hashes added m'}
    (run : Scans hubEvents scanned current m (.ok hashes) added m') :
    ∃ record, added.filterMap Entry.record? = [record] ∧ m'.hubRecord = some record := by
  cases run with
  | @done _ events _ _ middle record _ ready handling found =>
    refine ⟨record, ?_, rfl⟩
    have turns := (turns_ask handling).recordless fun _ => rfl
    have none := List.filterMap_eq_nil_iff.mpr
      (Manager.observeRecord_all middle (p := fun entry => entry.record? = none) (fun _ => rfl) record rfl)
    cases found with
    | found _ rest =>
      rw [List.filterMap_append, List.filterMap_append, List.filterMap_append, turns, none,
        fetchEntries_view Entry.record? fun _ => rfl]
      rfl

-- A scan of an initialized manager fails at a question without an answer, or at a hub without a record.
theorem Scans.blames {hubEvents scanned current m failure added m'}
    (run : Scans hubEvents scanned current m (.error failure) added m') (ready : m.initialized = true) :
    Blames added failure ∨ ∃ early, failure = .relayNotFound m.address ∧
      added = early ++ [.asked (.relayData [m.address]) (.ok [])] ∧
        early.filterMap Entry.record? = [] := by
  cases run with
  | idle fresh =>
    rw [ready] at fresh
    cases fresh
  | unread ready failure => exact .inl blames_first
  | stopped ready handling =>
    exact .inl (blames_inTurn (fun _ _ _ _ _ run => run.blames) handling rfl).right
  | recordless ready handling record =>
    have address : m'.address = m.address := (turns_settle handling).address
    cases record with
    | unread failure => exact .inl blames_first.right
    | missing =>
      rw [address]
      refine .inr ⟨_, rfl, rfl, ?_⟩
      rw [List.filterMap_append, (turns_ask handling).recordless fun _ => rfl,
        fetchEntries_view Entry.record? fun _ => rfl]
      rfl

theorem Cycles.blames {hubEvents scanned current force m failure added m'}
    (run : Cycles hubEvents scanned current force m (.error failure) added m')
    (ready : m.initialized = true) :
    Blames added failure ∨ ∃ early, failure = .relayNotFound m.address ∧
      added = early ++ [.asked (.relayData [m.address]) (.ok [])] ∧
        early.filterMap Entry.record? = [] := by
  cases run with
  | scanFailed scan => exact scan.blames ready
  | releaseFailed scan release => exact .inl release.blames.right
  | registerFailed scan release register => exact .inl register.blames.right

end Effect

def RegistrationFailure.misuse : RegistrationFailure → Bool
  | .notInitialized | .alreadyInitialized => true
  | _ => false

theorem Blames.proper {entries : List Entry} {failure : RegistrationFailure}
    (blames : Blames entries failure) : failure.misuse = false := by
  obtain ⟨call, cause, _, rfl⟩ := blames
  cases call <;> rfl

end TransactionRelay
