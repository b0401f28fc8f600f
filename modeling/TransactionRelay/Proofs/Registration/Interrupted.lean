import TransactionRelay.Proofs.Registration.Composed
import TransactionRelay.Proofs.Registration.Repeating
import TransactionRelay.Rehearsal.Ledger

namespace TransactionRelay

open Entry (sweeping sweeping_append sweeping_late)

namespace Effect

-- A sweep that failed is under way for good.
theorem Sweeps.underWay {cause managerFunds block m failure added m'}
    (run : Sweeps cause managerFunds block m (.error failure) added m') : sweeping added = some cause := by
  cases run with
  | failed run =>
    refine Entry.foldl_mark ?_ (some cause)
    exact run.all (p := fun entry => entry.unmarked = true) (fun _ _ _ => rfl) (fun _ => rfl) rfl

theorem Handles.unchanged {block event m failure added m'}
    (run : Handles block event m (.error failure) added m') (outside : sweeping added = none) : m' = m := by
  cases run with
  | failed fresh run =>
    cases run with
    | unread kind reading => cases reading; rfl
    | @withdrawn _ _ middle _ more _ kind reading sweep =>
      have late : sweeping (.logged (.handlingWithdrawn event.hash) :: more) = none := sweeping_late outside
      have begun : sweeping more = none := late
      rw [sweep.underWay] at begun
      cases begun

theorem Releases.underWay {block m failure added m'}
    (run : Releases block m (.error failure) added m') : sweeping added ≠ none := by
  have broken {events m r added m'} (run : InTurn (SweepsFor block) events m r added m') {failure}
      (failed : r = .error failure) : sweeping added ≠ none := by
    induction run with
    | done | passed => cases failed
    | stopped run =>
      cases failed
      cases run with
      | @swept _ _ inner _ kind sweep =>
        intro outside
        have late : sweeping inner = none := outside
        rw [sweep.underWay] at late
        cases late
    | stoppedLater run rest ih => exact fun outside => ih failed (sweeping_late outside)
  cases run with
  | released sweeps => exact broken sweeps rfl

end Effect

open TransactionRelay.Action Effect

variable {ω : Type} {c : Collaborators ω} {hubEvents : List EventRecord} {scanned current : UInt64}

-- The events before the failure are settled, and the others have their turn again.
theorem turns_resume (world : ω) {events m r added m'}
    (broken : InTurn (Handles current) events m r added m') {failure} (failed : r = .error failure)
    (outside : sweeping added = none) (genuine : Genuine c added) {hashes whole last}
    (plain : InTurn (Handles current) events m (.ok hashes) whole last) (honest : Genuine c whole) :
    ∃ others, (handleStakeEvents c current events).Yields m' others last := by
  induction broken generalizing hashes whole with
  | done | passed => cases failed
  | stopped run =>
    cases failed
    cases run.unchanged outside
    exact ⟨hashes, handled_yields plain honest⟩
  | stoppedLater run rest ih =>
    obtain ⟨early, late⟩ := genuine_append.mp genuine
    cases plain with
    | passed run' rest' =>
      obtain ⟨honestEarly, honestLate⟩ := genuine_append.mp honest
      obtain ⟨_, rfl⟩ := (run.yields early).unique world (run'.yields honestEarly)
      obtain ⟨others, resumed⟩ := ih failed (sweeping_late outside) late rest' honestLate
      have known := (turns_settle rest).kept _ run.known
      exact ⟨_, yields_bind (handle_again known) (yields_bind resumed yields_pure)⟩

structure Scanned (c : Collaborators ω) (hubEvents : List EventRecord) (scanned current : UInt64)
    (m : Manager) (hashes : List String) (events : List EventRecord) (record : RelayRecord)
    (last m' : Manager) : Prop where
  ready : m.initialized = true
  fetched : ∀ world, (c.answer (m.stakeQuery scanned current) world).1 = .ok events
  handling : ∃ added, Genuine c added ∧
    InTurn (Handles current) events (Manager.forgetHandled scanned m).1 (.ok hashes) added last
  found : ∃ others, ∀ world, (c.answer (.relayData [last.address]) world).1 = .ok (record :: others)
  memory : m' = (Manager.observeHubEvents hubEvents (Manager.observeRecord record last).1).1

theorem Effect.Scans.found {m hashes added m'}
    (run : Scans hubEvents scanned current m (.ok hashes) added m') (genuine : Genuine c added) :
    ∃ events record last, Scanned c hubEvents scanned current m hashes events record last m' := by
  cases run with
  | @done _ events _ handled last record _ ready handling found =>
    obtain ⟨begun, _⟩ := genuine_append.mp genuine
    obtain ⟨read, fetch⟩ := genuine_append.mp begun
    obtain ⟨asked, own⟩ := genuine_append.mp read
    cases found with
    | found _ others =>
      exact ⟨events, record, last, ready, asked.first, ⟨handled, own, handling⟩, ⟨others, fetch.first⟩, rfl⟩

theorem fetched_again {m m' : Manager} {events : List EventRecord} (address : m'.address = m.address)
    (fetched : ∀ world, (c.answer (m.stakeQuery scanned current) world).1 = .ok events) :
    ∀ world, (c.answer (m'.stakeQuery scanned current) world).1 = .ok events := by
  unfold Manager.stakeQuery at *
  rwa [address]

namespace Scanned

variable {m last m' : Manager} {hashes : List String} {events : List EventRecord} {record : RelayRecord}

theorem yields (plain : Scanned c hubEvents scanned current m hashes events record last m') :
    (scan c hubEvents scanned current).Yields m hashes m' := by
  obtain ⟨added, genuine, handling⟩ := plain.handling
  obtain ⟨others, found⟩ := plain.found
  rw [plain.memory]
  exact scan_yields plain.ready plain.fetched (handled_yields handling genuine) found

theorem settles (plain : Scanned c hubEvents scanned current m hashes events record last m') :
    Settles (events.map EventRecord.key) (Manager.forgetHandled scanned m).1 last := by
  obtain ⟨added, _, handling⟩ := plain.handling
  exact turns_settle handling

end Scanned

-- Nothing of what is remembered after the handling of newer events is forgotten.
theorem forget_settled {m m' : Manager} {events : List EventRecord}
    (newer : ∀ event ∈ events, scanned < event.block)
    (settles : Settles (events.map EventRecord.key) (Manager.forgetHandled scanned m).1 m') :
    ∀ key ∈ m'.handled, scanned < key.position.block := by
  intro key held
  rcases settles.gained key held with before | among
  · exact of_decide_eq_true (List.mem_filter.mp before).2
  · obtain ⟨event, member, rfl⟩ := List.mem_map.mp among
    exact newer event member

theorem scan_resumes (world : ω) {m failure added m'}
    (broken : Scans hubEvents scanned current m (.error failure) added m')
    (outside : sweeping added = none) (genuine : Genuine c added) {hashes events record last later}
    (plain : Scanned c hubEvents scanned current m hashes events record last later)
    (newer : ∀ event ∈ events, scanned < event.block) :
    ∃ others, (scan c hubEvents scanned current).Yields m' others later := by
  obtain ⟨whole, honest, handling⟩ := plain.handling
  obtain ⟨records, found⟩ := plain.found
  have resumes {m' others}
      (settles : Settles (events.map EventRecord.key) (Manager.forgetHandled scanned m).1 m')
      (handling : (handleStakeEvents c current events).Yields m' others last) :
      (scan c hubEvents scanned current).Yields m' others later := by
    have again := Manager.forgetHandled_again (forget_settled newer settles)
    rw [plain.memory]
    exact scan_yields (settles.initialized.trans plain.ready) (fetched_again settles.address plain.fetched)
      (by rwa [again]) found
  cases broken with
  | idle fresh =>
    rw [plain.ready] at fresh
    cases fresh
  | unread ready failure => exact ⟨hashes, plain.yields⟩
  | stopped ready stopped =>
    obtain ⟨asked, own⟩ := genuine_append.mp genuine
    cases (asked.first world).symm.trans (plain.fetched world)
    obtain ⟨others, resumed⟩ :=
      turns_resume world stopped rfl (sweeping_late outside) own handling honest
    exact ⟨others, resumes (turns_settle stopped) resumed⟩
  | recordless ready handled unread =>
    obtain ⟨begun, _⟩ := genuine_append.mp genuine
    obtain ⟨asked, own⟩ := genuine_append.mp begun
    cases (asked.first world).symm.trans (plain.fetched world)
    obtain ⟨_, rfl⟩ := (handled_yields handled own).unique world (handled_yields handling honest)
    exact ⟨[], resumes plain.settles (turns_again (turns_known handling rfl))⟩

theorem scan_repeats {m released : Manager} {hashes events record last later}
    (plain : Scanned c hubEvents scanned current m hashes events record last later)
    (newer : ∀ event ∈ events, scanned < event.block) {unstaked notifications delayed}
    (after : released = { later with delayed, unstaked, notifications }) :
    (scan c hubEvents scanned current).Yields released [] released := by
  obtain ⟨whole, _, handling⟩ := plain.handling
  obtain ⟨records, found⟩ := plain.found
  have settles := plain.settles
  have known := turns_known handling rfl
  have beyond := forget_settled newer settles
  rw [plain.memory] at after
  subst after
  exact scan_again (settles.initialized.trans plain.ready) (fetched_again settles.address plain.fetched)
    known beyond found rfl rfl

theorem cycle_resumes (world : ω) {force m failure added m'}
    (broken : Cycles hubEvents scanned current force m (.error failure) added m')
    (outside : sweeping added = none) (genuine : Genuine c added) {outcome whole last}
    (plain : Cycles hubEvents scanned current force m (.ok outcome) whole last) (honest : Genuine c whole)
    (newer : ∀ events : List EventRecord,
      (∀ world, (c.answer (m.stakeQuery scanned current) world).1 = .ok events) →
        ∀ event ∈ events, scanned < event.block) :
    ∃ again, (handlePastEvents c hubEvents scanned current force).Yields m' again last ∧
      again.notifications = outcome.notifications := by
  cases plain with
  | @done _ hashes _ later others _ final sent _ scan release register =>
    obtain ⟨early, honestRegister⟩ := genuine_append.mp honest
    obtain ⟨honestScan, honestRelease⟩ := genuine_append.mp early
    obtain ⟨events, record, middle, plain⟩ := scan.found honestScan
    have recent := newer events plain.fetched
    have releases := release.yields honestRelease
    have registers := register.yields honestRegister
    cases broken with
    | scanFailed broken =>
      obtain ⟨resumed, scans⟩ := scan_resumes world broken outside genuine plain recent
      exact ⟨_, cycle_yields scans releases registers, rfl⟩
    | releaseFailed _ broken => exact absurd (sweeping_late outside) broken.underWay
    | registerFailed scan' release' _ =>
      obtain ⟨early, _⟩ := genuine_append.mp genuine
      obtain ⟨genuineScan, genuineRelease⟩ := genuine_append.mp early
      obtain ⟨_, _, _, scanned'⟩ := scan'.found genuineScan
      obtain ⟨_, rfl⟩ := plain.yields.unique world scanned'.yields
      obtain ⟨_, rfl⟩ := releases.unique world (release'.yields genuineRelease)
      obtain ⟨unstaked, notifications, memory⟩ := release.memory
      have delayed : final.delayed = later.delayed.withoutDue current := by rw [memory]
      exact ⟨_, cycle_yields (scan_repeats plain recent memory) (release_again delayed) registers, rfl⟩

def Collaborators.Constant (c : Collaborators ω) : Prop :=
  ∀ call world other, (c.answer call world).1 = (c.answer call other).1

def Session.counting (s : Session ω) (calls : Nat) : Session (ω × Option Nat) where
  manager := s.manager
  world := (s.world, some calls)
  journal := s.journal

def Session.resumed (s : Session (ω × Option Nat)) : Session ω where
  manager := s.manager
  world := s.world.1
  journal := s.journal

-- What `d` answers, if it answers, is what `c` always answers.
def Collaborators.Echoes {ω' : Type} (d : Collaborators ω') (c : Collaborators ω) : Prop :=
  ∀ call answer world, (d.answer call world).1 = .ok answer → ∀ other, (c.answer call other).1 = .ok answer

theorem Collaborators.Constant.echoes (constant : c.Constant) : c.Echoes c :=
  fun call _ world given other => (constant call other world).trans given

theorem Collaborators.Constant.interrupted_echoes (constant : c.Constant)
    (failure : (call : Call) → call.Failure) : (c.interrupted failure).Echoes c := by
  rintro call answer ⟨world, left⟩ given other
  rw [constant call other world]
  cases left with
  | none => exact given
  | some left =>
    cases left with
    | zero => cases given
    | succ => exact given

theorem handle_composed (c : Collaborators ω) (hubEvents : List EventRecord) (scanned current : UInt64)
    (force : Bool) : Action.Composed c ((Command.handle hubEvents scanned current force).action c) :=
  .bound (.handlePastEvents c hubEvents scanned current force) fun _ => .given _

theorem cycle_genuine {ω' : Type} {d : Collaborators ω'} (echoes : d.Echoes c)
    (hubEvents : List EventRecord) (scanned current : UInt64) (force : Bool) (s : Session ω') :
    Genuine c (s.adds (s.perform d (.handle hubEvents scanned current force)).2) := by
  obtain ⟨added, journal, told⟩ := (handle_composed d hubEvents scanned current force).replies
    (P := fun call reply => ∀ answer, reply = .ok answer → ∀ other, (c.answer call other).1 = .ok answer)
    (fun call world answer given => echoes call answer world given) s
  have gained : s.adds (s.perform d (.handle hubEvents scanned current force)).2 = added := adds_eq journal
  rw [gained]
  exact fun call answer member => told call _ member answer rfl

-- Outside of a sweep what a failed cycle has done stays done, and the next one takes up where it stopped. Within a
-- sweep that is not so: the accounts that gave already are read again.
theorem interrupted_cycle_resumes (constant : c.Constant) (failure : (call : Call) → call.Failure)
    (s : Session ω) (hubEvents : List EventRecord) (scanned current : UInt64) (force : Bool) (calls : Nat) :
    let command : Command := .handle hubEvents scanned current force
    let plain := s.perform c command
    let first := (s.counting calls).perform (c.interrupted failure) command
    let second := first.2.resumed.perform c command
    (∀ (events : List EventRecord) world,
      (c.answer (s.manager.stakeQuery scanned current) world).1 = .ok events →
        ∀ event ∈ events, scanned < event.block) →
    ∀ outcome, plain.1 = .ok (.outcome outcome) → first.2.world.2 = none →
      sweeping ((s.counting calls).adds first.2) = none →
      (∃ failed, first.1 = .error failed) ∧
        (∃ again, second.1 = .ok (.outcome again) ∧ again.notifications = outcome.notifications) ∧
        second.2.manager = plain.2.manager := by
  intro command plain first second newer outcome ran struck outside
  obtain ⟨failed, stopped⟩ : ∃ failed, first.1 = .error failed :=
    (handle_composed _ hubEvents scanned current force).fails_interrupted (s.counting calls)
      (by simp [Session.counting]) struck
  have honest : Genuine c (s.adds plain.2) := cycle_genuine constant.echoes _ _ _ _ s
  have genuine : Genuine c ((s.counting calls).adds first.2) :=
    cycle_genuine (constant.interrupted_echoes failure) _ _ _ _ (s.counting calls)
  have broken := perform_effect (c.interrupted failure) (s.counting calls) command
  have whole := perform_effect c s command
  change Maps _ _ _ first.1 _ _ at broken
  change Maps _ _ _ plain.1 _ _ at whole
  rw [stopped] at broken
  rw [ran] at whole
  cases broken with
  | failed broken =>
    cases whole with
    | given whole =>
      obtain ⟨again, resumes, notified⟩ := cycle_resumes s.world broken outside genuine whole honest
        fun events fetched => newer events s.world (fetched s.world)
      have run : (command.action c).Yields first.2.manager (.outcome again) plain.2.manager :=
        yields_bind resumes yields_pure
      obtain ⟨after, performed, memory⟩ := run first.2.resumed rfl
      have reached : second = (.ok (.outcome again), after) := performed
      rw [reached]
      exact ⟨⟨failed, stopped⟩, ⟨again, rfl, notified⟩, memory⟩

namespace Rehearsal

def frozen (r : Rehearsal) : Collaborators Unit := ⟨fun call _ => ((Rehearsal.answer call r).1, ())⟩

def delisted : Session Unit where
  manager := { Manager.new settings manager worker with
    hubRecord := some { registered := true }, initialized := true }
  world := ()

def unlocking : Collaborators Unit := frozen (leaving [stakeAdded 25, stakeUnlocked 30 40])

def timeout : (call : Call) → call.Failure
  | .estimateGas .. | .isPending .. | .send .. => SubmissionFailure.send "timeout"
  | .stakeReading .. | .balance .. | .blockNumber | .gasPrice | .stakeEvents .. | .hubEvents ..
  | .relayData .. | .addWorkersMethod .. | .registerMethod .. => LedgerFailure.rpc "timeout"

theorem answered {ε α : Type} {reply : Except ε α} {a : α} (given : reply = .ok a) :
    reply.toOption = some a := by rw [given]; rfl

theorem given_ok {ε α : Type} {reply : Except ε α} {a : α} (given : reply.toOption = some a) :
    reply = .ok a := by
  cases reply with
  | error failure => cases given
  | ok b => exact congrArg _ (Option.some.inj given)

def unlockedCycle : Command := .handle [] 20 40 false

-- Nine calls are answered, the last four of them in the sweep. Then nobody says whether a registration
-- is pending, and both announcements wait for the second cycle.
theorem delisted_relay_announced_once :
    let first := (delisted.counting 9).perform (unlocking.interrupted timeout) unlockedCycle
    let second := first.2.resumed.perform unlocking unlockedCycle
    (∃ failed, first.1 = .error failed) ∧
      (∃ again, second.1 = .ok (.outcome again) ∧ again.notifications = [.removed, .unstaked]) ∧
      second.2.manager = (delisted.perform unlocking unlockedCycle).2.manager := by
  have constant : unlocking.Constant := fun _ _ _ => rfl
  have newer : ∀ (events : List EventRecord) world,
      (unlocking.answer (delisted.manager.stakeQuery 20 40) world).1 = .ok events →
        ∀ event ∈ events, 20 < event.block := by
    intro events world fetched
    have given : (unlocking.answer (.stakeEvents EventKind.ofStake [Address.topic manager]
        (.since 20 40)) ()).1.toOption = some [stakeAdded 25, stakeUnlocked 30 40] := by
      decide +kernel
    cases (answered fetched).symm.trans given
    decide
  have ran : (delisted.perform unlocking unlockedCycle).1.toOption = some (.outcome
      ⟨["0xvalue_transfer-0", "0xvalue_transfer-0"], [.removed, .unstaked]⟩) := by decide +kernel
  have struck : ((delisted.counting 9).perform (unlocking.interrupted timeout) unlockedCycle).2.world.2 =
      none := by decide +kernel
  have outside : sweeping ((delisted.counting 9).adds
      ((delisted.counting 9).perform (unlocking.interrupted timeout) unlockedCycle).2) = none := by
    decide +kernel
  unfold unlockedCycle at *
  exact interrupted_cycle_resumes constant timeout delisted [] 20 40 false 9 newer _ (given_ok ran)
    struck outside

end Rehearsal
end TransactionRelay
