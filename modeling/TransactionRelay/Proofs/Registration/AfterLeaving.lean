import TransactionRelay.Proofs.Registration.StakeMemory
import TransactionRelay.Rehearsal.Ledger

namespace TransactionRelay

def Entry.registration? : Entry → Option Transaction
  | .asked (.send tx) _ => if tx.action.registers then some tx else none
  | _ => none

def Entry.registrations (entries : List Entry) : List Transaction := entries.filterMap registration?

def Entry.pending? : Entry → Option Bool
  | .asked (.isPending .registerServer) (.ok pending) => some pending
  | _ => none

structure Session.Admits {ω : Type} (before after : Session ω) : Prop where
  stake : ∃ reading, Entry.lastStake after.journal = some reading ∧ reading.locked = true ∧
    after.manager.settings.minStake ≤ reading.stake
  balance : after.manager.balance.satisfied = true
  record : after.manager.registrationCorrect = false
  free : false ∈ (before.adds after).filterMap Entry.pending?

def Leaves : Relation := fun m added m' =>
  ∃ sweeps, Tells added sweeps ∧ m'.unstaked = (m.unstaked || sweeps.any (·.ended))

theorem leaves_still {m added m'} (still : Still added) (same : m'.unstaked = m.unstaked) :
    Leaves m added m' := ⟨[], still.tells, by simp [same]⟩

theorem sweep_leaves {cause managerFunds block m r added m'}
    (run : Effect.Sweeps cause managerFunds block m r added m') : Leaves m added m' := by
  obtain ⟨record, _, swept⟩ := run.swept
  refine ⟨[record], swept.told, ?_⟩
  rw [swept.memory]
  cases ended : record.ended with
  | false => simp [ended]
  | true => simp [ended, Manager.markUnstaked, Manager.emit]

theorem leaves_trail : Trail Leaves where
  refl m := leaves_still (fun _ => rfl) rfl
  trans := by
    rintro m added middle more m' ⟨early, toldEarly, first⟩ ⟨late, toldLate, second⟩
    exact ⟨early ++ late, toldEarly.append toldLate, by rw [second, first, List.any_append, Bool.or_assoc]⟩
  part part := by
    refine leaves_still part.still ?_
    cases part with
    | stakeRead reading => simp
    | _ => rfl

theorem leaves_course : Course Leaves where
  toTrail := leaves_trail
  handled run := run.obeys leaves_trail sweep_leaves
  released run := run.obeys leaves_trail (fun _ => leaves_still (fun _ => rfl) rfl) sweep_leaves
  pended _ _ := leaves_still (fun _ => rfl) rfl
  attempted run := by
    cases run.memory
    exact leaves_still run.still rfl
  demanded run := sweep_leaves run

-- Up to the gate nothing is registered, and nobody asks whether a registration is on its way.
def Unregistering : Relation := fun _ added _ =>
  ∀ entry ∈ added, entry.registration? = none ∧ entry.pending? = none

theorem unregistering_nil (m m' : Manager) : Unregistering m [] m' := by
  intro entry member
  cases member

theorem unregistering_trail : Trail Unregistering where
  refl m := unregistering_nil m m
  trans := by
    intro m added middle more m' first second entry member
    rcases List.mem_append.mp member with before | after
    · exact first entry before
    · exact second entry after
  part := by
    intro m added m' part
    refine part.all (fun call reply idle => ?asked) (fun _ => ⟨rfl, rfl⟩) (fun _ _ => ⟨rfl, rfl⟩) ?_
      fun _ => ⟨rfl, rfl⟩
    case asked =>
      cases call with
      | send | isPending => cases idle
      | _ => exact ⟨rfl, rfl⟩
    exact ⟨rfl, rfl⟩

theorem sweep_unregistering {cause managerFunds block m r added m'}
    (run : Effect.Sweeps cause managerFunds block m r added m') : Unregistering m added m' := by
  refine run.all (fun call reply sweeps => ?asked) (fun _ => ⟨rfl, rfl⟩) ?_ ?_ ?_
  case asked =>
    cases call with
    | send tx =>
      have transfer : tx.action = .valueTransfer := of_decide_eq_true sweeps
      exact ⟨if_neg (by simp [transfer, ServerAction.registers]), rfl⟩
    | isPending => cases sweeps
    | _ => exact ⟨rfl, rfl⟩
  all_goals exact ⟨rfl, rfl⟩

theorem scan_unregistering {hubEvents scanned current m r added m'}
    (run : Effect.Scans hubEvents scanned current m r added m') : Unregistering m added m' :=
  run.obeys unregistering_trail (fun _ => unregistering_nil _ _) fun run =>
    run.obeys unregistering_trail sweep_unregistering

theorem release_unregistering {block m r added m'} (run : Effect.Releases block m r added m') :
    Unregistering m added m' :=
  run.obeys unregistering_trail (fun _ => unregistering_nil _ _) sweep_unregistering

theorem Unregistering.views {m added m'} (before : Unregistering m added m') :
    added.filterMap Entry.registration? = [] ∧ added.filterMap Entry.pending? = [] :=
  ⟨List.filterMap_eq_nil_iff.mpr fun entry member => (before entry member).1,
    List.filterMap_eq_nil_iff.mpr fun entry member => (before entry member).2⟩

structure Reaches (current : UInt64) (result : Except RegistrationFailure (List String))
    (added last : List Entry) (m' : Manager) : Prop where
  gate : ∃ middle, Effect.Registers current false middle result last middle ∧
    m'.mayRegister = middle.mayRegister ∧ m'.registrationCorrect = middle.registrationCorrect
  registrations : Entry.registrations added = Entry.registrations last
  pendings : added.filterMap Entry.pending? = last.filterMap Entry.pending?

theorem reaches_append {current m before middle result last m'}
    (unregistering : Unregistering m before middle)
    (register : Effect.Registers current false middle result last middle)
    (may : m'.mayRegister = middle.mayRegister)
    (correct : m'.registrationCorrect = middle.registrationCorrect) :
    Reaches current result (before ++ last) last m' := by
  obtain ⟨none, unasked⟩ := unregistering.views
  exact ⟨⟨middle, register, may, correct⟩, by simp [Entry.registrations, none], by simp [unasked]⟩

theorem cycle_reaches {hubEvents scanned current m r added m'}
    (run : Effect.Cycles hubEvents scanned current false m r added m') :
    (Unregistering m added m' ∧ r.isOk = false) ∨
      ∃ result last, Reaches current result added last m' ∧ r.isOk = result.isOk := by
  have trail := unregistering_trail
  cases run with
  | scanFailed scan => exact .inl ⟨scan_unregistering scan, rfl⟩
  | releaseFailed scan release =>
    exact .inl ⟨trail.trans (scan_unregistering scan) (release_unregistering release), rfl⟩
  | registerFailed scan release register =>
    have before := trail.trans (scan_unregistering scan) (release_unregistering release)
    exact .inr ⟨_, _, reaches_append before register rfl rfl, rfl⟩
  | done scan release register =>
    have before := trail.trans (scan_unregistering scan) (release_unregistering release)
    exact .inr ⟨_, _, reaches_append before register rfl rfl, rfl⟩

theorem handle_reaches {hubEvents scanned current m r added m'}
    (run : (Command.handle hubEvents scanned current false).effect m r added m') :
    (Unregistering m added m' ∧ r.isOk = false) ∨
      ∃ result last, Reaches current result added last m' ∧ r.isOk = result.isOk := by
  cases run with
  | failed run => exact cycle_reaches run
  | given run => exact cycle_reaches run

-- The gate without force, from what came through it.
theorem register_open {block m r added m'} (run : Effect.Registers block false m r added m')
    (some : Entry.registrations added ≠ []) :
    m.mayRegister = true ∧ m.registrationCorrect = false ∧ false ∈ added.filterMap Entry.pending? := by
  cases run with
  | unread failure => exact absurd rfl some
  | closed pending unneeded => exact absurd rfl some
  | opened pending needed attempt =>
    have wanted : pending = false ∧ m.registrationCorrect = false := by simpa using needed
    obtain ⟨rfl, wrong⟩ := wanted
    refine ⟨?_, wrong, by simp [Entry.pending?]⟩
    cases attempt with
    | unready barred => exact absurd rfl some
    | stopped ready | failed ready | registered ready => exact ready

theorem attempt_submits {block m hashes added m'} (run : Effect.Attempts block m (.ok hashes) added m')
    (ready : m.mayRegister = true) : ∃ tx ∈ Entry.registrations added, tx.action = .registerServer := by
  cases run with
  | unready barred =>
    rw [barred] at ready
    cases ready
  | registered _ ensure register =>
    cases register with
    | @registered _ method _ _ call =>
      cases call with
      | accepted gas receipt =>
        refine ⟨m.hubCall .registerServer method gas block, ?_, rfl⟩
        simp [Entry.registrations, Entry.registration?, Manager.hubCall, Transaction.contractCall,
          ServerAction.registers]

theorem register_submits {block m hashes added m'}
    (run : Effect.Registers block false m (.ok hashes) added m') (ready : m.mayRegister = true)
    (wrong : m.registrationCorrect = false) (free : false ∈ added.filterMap Entry.pending?) :
    ∃ tx ∈ Entry.registrations added, tx.action = .registerServer := by
  cases run with
  | closed pending unneeded =>
    have waiting : pending = true := by simpa [wrong] using unneeded
    simp [Entry.pending?, waiting] at free
  | opened pending needed attempt =>
    have submits := attempt_submits attempt ready
    exact submits

theorem stage_leaving {m : Manager} (unstaked : m.unstaked = true) : m.stage = .unstaking := by
  rw [Manager.stage, if_pos unstaked]

section

variable {ω : Type} (c : Collaborators ω)

-- The gate reads the memory; the journal has what the memory is made of.
theorem admits_iff {settings : ServerSettings} {address worker : String} {before after : Session ω}
    (recalls : Recalls (Manager.new settings address worker) after.journal after.manager) :
    before.Admits after ↔ after.manager.mayRegister = true ∧
      after.manager.registrationCorrect = false ∧
      false ∈ (before.adds after).filterMap Entry.pending? := by
  have minimum : after.manager.stake.minimum = after.manager.settings.minStake := by
    rw [recalls.minimum, recalls.settings]
    rfl
  have memory := recalls.memory
  simp only [Manager.stakeMemory, Prod.ext_iff] at memory
  obtain ⟨locked, current⟩ := memory
  constructor
  · rintro ⟨⟨reading, last, isLocked, enough⟩, balance, record, free⟩
    rw [last] at locked current
    refine ⟨?_, record, free⟩
    have satisfied : after.manager.stake.satisfied = true := by
      rw [Requirement.satisfied, minimum, current]
      exact decide_eq_true enough
    rw [Manager.mayRegister, satisfied, balance, locked]
    simpa [StakeReading.memory] using isLocked
  · rintro ⟨may, record, free⟩
    simp only [Manager.mayRegister, Bool.and_eq_true] at may
    obtain ⟨⟨isLocked, satisfied⟩, balance⟩ := may
    refine ⟨?_, balance, record, free⟩
    cases last : Entry.lastStake after.journal with
    | none =>
      rw [last, isLocked] at locked
      cases locked
    | some reading =>
      rw [last] at locked current
      have enough := of_decide_eq_true satisfied
      rw [minimum, current] at enough
      exact ⟨reading, rfl, locked.symm.trans isLocked, enough⟩

-- What holds of each run of commands and of the cycle after it holds of both together.
theorem last_cycle {R : Relation} (course : Course R)
    (forgot : ∀ scanned m, R m [] (Manager.forgetHandled scanned m).1) (settings : ServerSettings)
    (address worker : String) (world : ω) (commands : List Command) (command : Command) :
    let s := ((Session.fresh settings address worker world).performAll c commands).2
    R (Manager.new settings address worker) (s.perform c command).2.journal
      (s.perform c command).2.manager := by
  intro s
  have before := works_obey course (fun _ _ scanned _ => forgot scanned)
    (performAll_works c (Session.fresh settings address worker world) commands)
  have after := command_obeys course (fun scanned _ => forgot scanned) (perform_effect c s command)
  rw [perform_journal]
  exact course.trans before after

-- The manager counts as leaving for good, but leaving is no part of the gate. It submits nothing unless the last
-- reading that found a stake was locked and high enough, the balance suffices, the hub's record is wrong and no
-- registration is on its way, and then it registers if nothing fails.
theorem leaving_registers_when_admitted (settings : ServerSettings) (address worker : String)
    (world : ω) (commands : List Command) (hubEvents : List EventRecord) (scanned current : UInt64) :
    let s := ((Session.fresh settings address worker world).performAll c commands).2
    let ran := s.perform c (.handle hubEvents scanned current false)
    (Entry.sweeps ran.2.journal).any (·.ended) = true →
      ran.2.manager.stage = .unstaking ∧
      (Entry.registrations (s.adds ran.2) ≠ [] → s.Admits ran.2) ∧
      (ran.1.isOk = true → s.Admits ran.2 →
        ∃ tx ∈ Entry.registrations (s.adds ran.2), tx.action = .registerServer) := by
  intro s ran left
  obtain ⟨sweeps, told, unstaked⟩ := last_cycle c leaves_course
    (fun _ _ => leaves_still (fun _ => rfl) rfl) settings address worker world commands
    (.handle hubEvents scanned current false)
  have recalls := last_cycle c recalls_course
    (fun _ _ => recalls_nothing (by simp) rfl rfl rfl) settings address worker world commands
    (.handle hubEvents scanned current false)
  rw [told.sweeps] at left
  rw [admits_iff recalls]
  refine ⟨stage_leaving (by rw [unstaked, left, Bool.or_true]), fun some => ?_, fun ok admitted => ?_⟩
  · rcases handle_reaches (perform_effect c s _) with ⟨before, _⟩ | ⟨result, last, reaches, _⟩
    · exact absurd before.views.1 some
    · obtain ⟨middle, register, may, correct⟩ := reaches.gate
      rw [reaches.registrations] at some
      rw [may, correct, reaches.pendings]
      exact register_open register some
  · rcases handle_reaches (perform_effect c s _) with ⟨_, failed⟩ | ⟨result, last, reaches, same⟩
    · rw [failed] at ok
      cases ok
    · obtain ⟨middle, register, may, correct⟩ := reaches.gate
      rw [may, correct, reaches.pendings] at admitted
      rw [reaches.registrations]
      rw [same] at ok
      cases result with
      | error failure => cases ok
      | ok hashes => exact register_submits register admitted.1 admitted.2.1 admitted.2.2

end

namespace Rehearsal

-- A stake that is added, locked, and then withdrawn: the reading of zero stake after the withdrawal
-- leaves the memory of the locked one.
def withdrawnLocked : Rehearsal :=
  { leaving [stakeAdded 5, stakeWithdrawn 30] with
    stake := {}
    nextStakes := [{ stake := 1000, unstakeDelay := 100, owner }] }

def staking : List Command := [.initialise, .refreshBalance, .handle [] 0 20 false]

def leavingCycle : Command := .handle [] 20 40 false

theorem withdrawn_relay_leaves :
    ((run withdrawnLocked staking).perform collaborators leavingCycle).2.manager.stage = .unstaking := by
  have left : (Entry.sweeps ((run withdrawnLocked staking).perform collaborators
      leavingCycle).2.journal).any (·.ended) = true := by decide +kernel
  -- The run is spelled out: to compare it with its name, the kernel would evaluate it.
  rw [run, start, leavingCycle] at left ⊢
  exact (leaving_registers_when_admitted collaborators settings manager worker withdrawnLocked staking
    [] 20 40 left).1

theorem withdrawn_relay_registers_again :
    (run withdrawnLocked (staking ++ [leavingCycle])).manager.stage = .unstaking ∧
      (Entry.sweeps (run withdrawnLocked (staking ++ [leavingCycle])).journal).map (·.ended) = [true] ∧
      (Entry.registrations ((run withdrawnLocked staking).adds
        (run withdrawnLocked (staking ++ [leavingCycle])))).map (·.action) =
          [.addWorker, .registerServer] ∧
      (Entry.registrations ((run withdrawnLocked (staking ++ [leavingCycle])).adds
        (run withdrawnLocked (staking ++ [leavingCycle, .handle [] 40 60 false])))).map (·.action) =
          [.addWorker, .registerServer] := by
  decide +kernel

end Rehearsal
end TransactionRelay
