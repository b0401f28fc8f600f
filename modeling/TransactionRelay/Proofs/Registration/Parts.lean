import TransactionRelay.Proofs.Registration.Working

namespace TransactionRelay

open Manager (Quiet)

abbrev Relation := Manager → List Entry → Manager → Prop

-- The questions whose failure, or whose answer, is taken note of in the journal alone.
def Call.idle : Call → Bool
  | .estimateGas .. | .isPending .. | .send .. => false
  | _ => true

def Call.lists : Call → Bool
  | .stakeEvents .. | .hubEvents .. | .relayData .. => true
  | _ => false

-- The parts without a sweep and without a registration. To forget settled events and to take events
-- out of the queue are left out too: a relation may depend on what comes with them.
inductive Part : Relation
  | unanswered {m} (call : Call) (failure : call.Failure) (idle : call.idle = true) :
      Part m [.asked call (.error failure)] m
  | listed {m} (call : Call) (answer : call.Answer) (lists : call.lists = true) :
      Part m [.asked call (.ok answer)] m
  | noted {m} {entries : List Entry} (quiet : Quiet entries) : Part m entries m
  | stakeRead {m} (reading : StakeReading) :
      Part m (.asked (.stakeReading m.address) (.ok reading) :: (Manager.observeStake reading m).2)
        (Manager.observeStake reading m).1
  | balanceRead {m} (amount : Wei) :
      Part m (.asked (.balance m.address) (.ok amount) :: (Manager.observeBalance amount m).2)
        (Manager.observeBalance amount m).1
  | delayed {m manager owner due event} (data : event.data = .stakeUnlocked manager owner due) :
      Part m (Manager.delay due event m).2 (Manager.delay due event m).1
  | settled {m} (event : EventRecord) : Part m [.settled event] (Manager.settle event m).1
  | recorded {m} (record : RelayRecord) :
      Part m (Manager.observeRecord record m).2 (Manager.observeRecord record m).1
  | heard {m} (events : List EventRecord) : Part m [] (Manager.observeHubEvents events m).1
  | proven {m} (bare : m.workerEvidence = none) (events : List EventRecord) :
      Part m [] { m with workerEvidence := EventRecord.latest events }
  | readied {m} (fresh : m.initialized = false) : Part m [] { m with initialized := true }
  | taken {m} : Part m [] { m with notifications := [] }

theorem Part.all {p : Entry → Prop} (asked : ∀ call reply, call.idle = true → p (.asked call reply))
    (logged : ∀ notice, p (.logged notice)) (queued : ∀ event accepted, p (.queued event accepted))
    (emitted : p (.emitted .removed)) (settled : ∀ event, p (.settled event)) {m added m'}
    (part : Part m added m') : ∀ entry ∈ added, p entry := by
  cases part with
  | unanswered call failure idle => simpa using asked call (.error failure) idle
  | listed call answer lists =>
    have idle : call.idle = true := by cases call <;> first | rfl | cases lists
    simpa using asked call (.ok answer) idle
  | noted quiet => exact quiet.all logged
  | stakeRead reading =>
    refine List.forall_mem_cons.mpr ⟨asked (.stakeReading m.address) _ rfl, ?_⟩
    exact (Manager.observeStake_quiet m reading).all logged
  | balanceRead amount =>
    refine List.forall_mem_cons.mpr ⟨asked (.balance m.address) _ rfl, ?_⟩
    exact (Manager.observeBalance_quiet m amount).all logged
  | delayed data => exact Manager.delay_all m logged _ _ (queued _)
  | recorded record => exact Manager.observeRecord_all m logged record emitted
  | settled event => simpa using settled event
  | heard | proven | readied | taken => simp

theorem Part.accounts {m added m'} (part : Part m added m') :
    m'.worker = m.worker ∧ m'.address = m.address := by
  cases part with
  | stakeRead reading => simp
  | _ => exact ⟨rfl, rfl⟩

structure Trail (R : Relation) : Prop where
  refl : ∀ m, R m [] m
  trans : ∀ {m added middle more m'}, R m added middle → R middle more m' → R m (added ++ more) m'
  part : ∀ {m added m'}, Part m added m' → R m added m'

namespace Effect

variable {R : Relation}

theorem ReadsStake.obeys (trail : Trail R) {m r added m'} (run : ReadsStake m r added m') :
    R m added m' := by
  cases run with
  | unread failure => exact trail.part (.unanswered (.stakeReading _) failure rfl)
  | read reading => exact trail.part (.stakeRead reading)

theorem ReadsBalance.obeys (trail : Trail R) {m r added m'} (run : ReadsBalance m r added m') :
    R m added m' := by
  cases run with
  | unread failure => exact trail.part (.unanswered (.balance _) failure rfl)
  | read amount => exact trail.part (.balanceRead amount)

theorem FetchesRecord.obeys (trail : Trail R) {m r added m'} (run : FetchesRecord m r added m') :
    R m added m' := by
  cases run with
  | unread failure => exact trail.part (.unanswered (.relayData _) failure rfl)
  | missing => exact trail.part (.listed (.relayData _) [] rfl)
  | found record rest => exact trail.part (.listed (.relayData _) (record :: rest) rfl)

theorem Initialises.obeys (trail : Trail R) {m r added m'} (run : Initialises m r added m') :
    R m added m' := by
  cases run with
  | again ready => exact trail.refl m
  | unsettled fresh faulty => exact trail.refl m
  | unread fresh bare failure => exact trail.part (.unanswered (.hubEvents _ _ _) failure rfl)
  | found fresh sound bare events =>
    have asked : R m [.asked (.hubEvents [.relayWorkersAdded] [Address.topic m.address]
        (.startingAt evidenceFrom)) (.ok events)] m :=
      trail.part (.listed (.hubEvents _ _ _) events rfl)
    have proven := trail.trans asked (trail.part (.proven bare events))
    simpa using trail.trans proven (trail.part (.readied fresh))
  | known fresh sound held => exact trail.part (.readied fresh)

theorem Reacts.obeys (trail : Trail R) {block event}
    (swept : ∀ {m r added m'}, Sweeps (.withdrawn event) true block m r added m' → R m added m')
    {m r added m'} (run : Reacts block event m r added m') : R m added m' := by
  cases run with
  | unread kind reading => exact reading.obeys trail
  | added kind reading => exact reading.obeys trail
  | unlocked data reading => exact trail.trans (reading.obeys trail) (trail.part (.delayed data))
  | withdrawn kind reading sweep =>
    refine trail.trans (reading.obeys trail) ?_
    exact trail.trans (trail.part (.noted (Manager.quiet_cons Manager.quiet_nil))) (swept sweep)
  | ignored kind => exact trail.part (.noted (Manager.quiet_cons Manager.quiet_nil))

theorem Handles.obeys (trail : Trail R) {block event}
    (swept : ∀ {m r added m'}, Sweeps (.withdrawn event) true block m r added m' → R m added m')
    {m r added m'} (run : Handles block event m r added m') : R m added m' := by
  cases run with
  | settled known => exact trail.part (.noted (Manager.quiet_cons Manager.quiet_nil))
  | failed fresh run => exact run.obeys trail swept
  | done fresh run => exact trail.trans (run.obeys trail swept) (trail.part (.settled event))

theorem InTurn.obeys (trail : Trail R) {one : EventRecord → Effect (List String)} {events m r added m'}
    (each : ∀ event ∈ events, ∀ m r added m', one event m r added m' → R m added m')
    (run : InTurn one events m r added m') : R m added m' :=
  run.chained trail.refl trail.trans fun event member _ _ _ _ => each event member _ _ _ _

theorem fetch_obeys (trail : Trail R) {scanned : UInt64}
    (forgot : ∀ m, R m [] (Manager.forgetHandled scanned m).1) (m : Manager) (current : UInt64)
    (events : List EventRecord) :
    R m (fetchEntries m scanned current events) (Manager.forgetHandled scanned m).1 := by
  have asked : R m [.asked (m.stakeQuery scanned current) (.ok events)] m :=
    trail.part (.listed (m.stakeQuery scanned current) events rfl)
  have noted : R m (scanNotices events (.since scanned current)) m :=
    trail.part (.noted (Manager.scanNotices_quiet _ _))
  simpa [fetchEntries] using trail.trans (trail.trans asked noted) (forgot m)

theorem Scans.obeys (trail : Trail R) {hubEvents scanned current}
    (forgot : ∀ m, R m [] (Manager.forgetHandled scanned m).1)
    (handled : ∀ {event m r added m'}, Handles current event m r added m' → R m added m')
    {m r added m'} (run : Scans hubEvents scanned current m r added m') : R m added m' := by
  have turns {events m r added m'} (run : InTurn (Handles current) events m r added m') :
      R m added m' := run.obeys trail fun event _ m r added m' run => handled run
  cases run with
  | idle fresh => exact trail.refl m
  | unread ready failure => exact trail.part (.unanswered (m.stakeQuery scanned current) failure rfl)
  | stopped ready handling => exact trail.trans (fetch_obeys trail forgot _ _ _) (turns handling)
  | recordless ready handling record =>
    exact trail.trans (trail.trans (fetch_obeys trail forgot _ _ _) (turns handling))
      (record.obeys trail)
  | @done _ events _ _ _ record _ ready handling found =>
    have before := trail.trans (fetch_obeys trail forgot m current events) (turns handling)
    have reported :=
      trail.trans (trail.trans before (found.obeys trail)) (trail.part (.recorded record))
    have after := trail.trans reported (trail.part (.heard hubEvents))
    rwa [List.append_nil] at after

theorem SweepsFor.obeys (trail : Trail R) {block event}
    (swept : ∀ {m r added m'}, Sweeps (.unlocked event) true block m r added m' → R m added m')
    {m r added m'} (run : SweepsFor block event m r added m') : R m added m' := by
  cases run with
  | swept kind sweep =>
    exact trail.trans (trail.part (.noted (Manager.quiet_cons Manager.quiet_nil))) (swept sweep)
  | spared kind => exact trail.refl m

theorem Releases.obeys (trail : Trail R) {block}
    (dropped : ∀ m, R m [] (Manager.dropDue block m).1)
    (swept : ∀ {event m r added m'}, Sweeps (.unlocked event) true block m r added m' → R m added m')
    {m r added m'} (run : Releases block m r added m') : R m added m' := by
  cases run with
  | released sweeps =>
    refine trail.trans (dropped m) ?_
    exact sweeps.obeys trail fun event _ m r added m' run => run.obeys trail swept

theorem Registers.obeys (trail : Trail R) {block force}
    (pended : ∀ m reply, R m [.asked (.isPending .registerServer) reply] m)
    (attempted : ∀ {m r added m'}, Attempts block m r added m' → R m added m')
    {m r added m'} (run : Registers block force m r added m') : R m added m' := by
  cases run with
  | unread failure => exact pended m (.error failure)
  | closed pending unneeded => exact pended m (.ok pending)
  | opened pending needed attempt => exact trail.trans (pended m (.ok pending)) (attempted attempt)

end Effect

open Effect

-- What a relation has to admit so that every run obeys it.
structure Course (R : Relation) : Prop extends Trail R where
  handled : ∀ {block event m r added m'}, Handles block event m r added m' → R m added m'
  released : ∀ {block m r added m'}, Releases block m r added m' → R m added m'
  pended : ∀ m reply, R m [.asked (.isPending .registerServer) reply] m
  attempted : ∀ {block m r added m'}, Attempts block m r added m' → R m added m'
  demanded : ∀ {managerFunds block m r added m'}, Sweeps .demand managerFunds block m r added m' →
    R m added m'

def Command.scanned? : Command → Option UInt64
  | .handle _ scanned _ _ => some scanned
  | _ => none

variable {R : Relation}

theorem cycle_obeys (course : Course R) {hubEvents scanned current force}
    (forgot : ∀ m, R m [] (Manager.forgetHandled scanned m).1) {m r added m'}
    (run : Cycles hubEvents scanned current force m r added m') : R m added m' := by
  have scans {m r added m'} (run : Scans hubEvents scanned current m r added m') : R m added m' :=
    run.obeys course.toTrail forgot course.handled
  have registers {m r added m'} (run : Registers current force m r added m') : R m added m' :=
    run.obeys course.toTrail course.pended course.attempted
  cases run with
  | scanFailed scan => exact scans scan
  | releaseFailed scan release => exact course.trans (scans scan) (course.released release)
  | registerFailed scan release register =>
    exact course.trans (course.trans (scans scan) (course.released release)) (registers register)
  | done scan release register =>
    have before := course.trans (scans scan) (course.released release)
    have after := course.trans (course.trans before (registers register)) (course.part .taken)
    rwa [List.append_nil] at after

theorem command_obeys (course : Course R) {command : Command}
    (forgot : ∀ scanned, command.scanned? = some scanned → ∀ m, R m [] (Manager.forgetHandled scanned m).1)
    {m r added m'} (run : command.effect m r added m') : R m added m' := by
  have mapped {α : Type} {form : α → Reply} {effect : Effect α}
      (each : ∀ {m r added m'}, effect m r added m' → R m added m') {m r added m'}
      (run : Maps form effect m r added m') : R m added m' := by
    cases run with
    | failed run | given run => exact each run
  cases command with
  | initialise => exact mapped (fun run => run.obeys course.toTrail) run
  | handle => exact mapped (cycle_obeys course (forgot _ rfl)) run
  | attempt => exact mapped course.attempted run
  | withdraw => exact mapped course.demanded run
  | refreshBalance => exact mapped (fun run => run.obeys course.toTrail) run
  | refreshStake => exact mapped (fun run => run.obeys course.toTrail) run
  | takeNotifications => exact mapped (fun run => by cases run; exact course.part .taken) run
  | explain =>
    exact mapped (fun run => by cases run; exact course.part (.noted (Manager.explain_quiet _))) run

theorem works_obey (course : Course R) {commands : List Command}
    (forgot : ∀ command ∈ commands, ∀ scanned, command.scanned? = some scanned →
      ∀ m, R m [] (Manager.forgetHandled scanned m).1)
    {m added m'} (run : Works commands m added m') : R m added m' := by
  induction run with
  | nil => exact course.refl _
  | cons run _ ih =>
    exact course.trans (command_obeys course (forgot _ (by simp)) run)
      (ih fun command member => forgot command (List.mem_cons_of_mem _ member))

end TransactionRelay
