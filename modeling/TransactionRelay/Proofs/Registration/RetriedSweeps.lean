import TransactionRelay.Proofs.Registration.SweepLog
import TransactionRelay.Rehearsal.Ledger

namespace TransactionRelay

def Entry.sweepsFor (cause : SweepCause) (entries : List Entry) : List SweepRecord :=
  (Entry.sweeps entries).filter (·.cause = cause)

def Command.resumes (scanned : UInt64) (command : Command) : Bool :=
  command.scanned?.all (· == scanned)

open SweepRecord (givenIn givenIn_cons)

-- No account gives twice in one sweep, and once the manager has given nothing can fail.
structure SweepRecord.Careful (manager : String) (record : SweepRecord) : Prop where
  once : ∀ account, record.given account ≤ 1
  last : 0 < record.given manager → record.ended = true

-- A sweep that ended settles its event, so of all sweeps for one event only the last can have ended.
structure Resumes (event : EventRecord) (m : Manager) (sweeps : List SweepRecord) (m' : Manager) :
    Prop where
  worker : m'.worker = m.worker
  address : m'.address = m.address
  careful : ∀ record ∈ sweeps, record.Careful m.address
  settled : event.key ∈ m.handled → sweeps = [] ∧ event.key ∈ m'.handled
  final : ∀ record ∈ sweeps, record.ended = true → event.key ∈ m'.handled
  ordered : sweeps.Pairwise fun earlier _ => earlier.ended = false

def Retries (event : EventRecord) : Relation := fun m added m' =>
  m.worker ≠ m.address → ∃ told, Tells added told ∧
    Resumes event m (told.filter (·.cause = .withdrawn event)) m'

theorem Resumes.trans {event m early middle late m'} (first : Resumes event m early middle)
    (second : Resumes event middle late m') : Resumes event m (early ++ late) m' where
  worker := second.worker.trans first.worker
  address := second.address.trans first.address
  careful record member := by
    rcases List.mem_append.mp member with before | after
    · exact first.careful record before
    · have careful := second.careful record after
      rwa [first.address] at careful
  settled known := by
    obtain ⟨none, kept⟩ := first.settled known
    obtain ⟨noneLater, keptLater⟩ := second.settled kept
    exact ⟨by rw [none, noneLater]; rfl, keptLater⟩
  final record member ended := by
    rcases List.mem_append.mp member with before | after
    · exact (second.settled (first.final record before ended)).2
    · exact second.final record after ended
  ordered := by
    refine List.pairwise_append.mpr ⟨first.ordered, second.ordered, fun record before later after => ?_⟩
    -- A sweep that ended leaves the event settled, so that no sweep comes after it.
    cases ended : record.ended with
    | false => rfl
    | true =>
      obtain ⟨none, _⟩ := second.settled (first.final record before ended)
      rw [none] at after
      cases after

theorem resumes_nil {event : EventRecord} {m m' : Manager} (worker : m'.worker = m.worker)
    (address : m'.address = m.address) (kept : event.key ∈ m.handled → event.key ∈ m'.handled) :
    Resumes event m [] m' where
  worker := worker
  address := address
  careful := by simp
  settled known := ⟨rfl, kept known⟩
  final := by simp
  ordered := .nil

theorem Part.keeps_handled {m added m'} (part : Part m added m') (event : EventRecord)
    (known : event.key ∈ m.handled) : event.key ∈ m'.handled := by
  cases part with
  | stakeRead reading => simpa using known
  | settled other => exact (Manager.settle_handled m other event.key).mpr (.inr known)
  | _ => exact known

theorem retries_trail (event : EventRecord) : Trail (Retries event) where
  refl m _ := ⟨[], rfl, resumes_nil rfl rfl id⟩
  trans := by
    intro m added middle more m' first second apart
    obtain ⟨early, toldEarly, one⟩ := first apart
    obtain ⟨late, toldLate, two⟩ := second (by rwa [one.worker, one.address])
    refine ⟨early ++ late, toldEarly.append toldLate, ?_⟩
    rw [List.filter_append]
    exact one.trans two
  part part _ := by
    obtain ⟨worker, address⟩ := part.accounts
    exact ⟨[], part.still.tells, resumes_nil worker address (part.keeps_handled event)⟩

theorem other_sweep_retries {event : EventRecord} {cause managerFunds block m r added m'}
    (other : cause ≠ .withdrawn event) (run : Effect.Sweeps cause managerFunds block m r added m') :
    Retries event m added m' := by
  intro apart
  obtain ⟨record, _, swept⟩ := run.swept
  obtain ⟨worker, address, handled, _⟩ := swept.kept
  refine ⟨[record], swept.told, ?_⟩
  have none : [record].filter (·.cause = .withdrawn event) = [] := by simp [swept.caused, other]
  rw [none]
  exact resumes_nil worker address (by rw [handled]; exact id)

theorem own_sweep_resumes {event : EventRecord} {managerFunds block m r added m'} (after : Manager)
    (apart : m.worker ≠ m.address) (fresh : event.key ∉ m.handled)
    (run : Effect.Sweeps (.withdrawn event) managerFunds block m r added m')
    (worker : after.worker = m'.worker) (address : after.address = m'.address)
    (settled : r.isOk = true → event.key ∈ after.handled) :
    ∃ told, Tells added told ∧ Resumes event m (told.filter (·.cause = .withdrawn event)) after := by
  obtain ⟨record, ended, swept⟩ := run.swept
  obtain ⟨sameWorker, sameAddress, _, _⟩ := swept.kept
  refine ⟨[record], swept.told, ?_⟩
  have own : [record].filter (·.cause = .withdrawn event) = [record] := by simp [swept.caused]
  rw [own]
  refine ⟨worker.trans sameWorker, address.trans sameAddress, ?_, fun known => absurd known fresh, ?_, ?_⟩
  · intro other member
    rw [List.mem_singleton.mp member]
    exact ⟨swept.once apart, swept.managerLast apart⟩
  · intro other member done
    rw [List.mem_singleton.mp member, ended] at done
    exact settled done
  · exact List.pairwise_singleton _ _

theorem readsStake_memory {m r added m'} (run : Effect.ReadsStake m r added m') :
    m'.worker = m.worker ∧ m'.address = m.address ∧ m'.handled = m.handled := by
  cases run with
  | unread failure => exact ⟨rfl, rfl, rfl⟩
  | read reading => simp

theorem own_handle_retries {event : EventRecord} {block m r added m'}
    (run : Effect.Handles block event m r added m') : Retries event m added m' := by
  have trail := retries_trail event
  have noted {m : Manager} (notice : Notice) : Retries event m [.logged notice] m :=
    trail.part (.noted (Manager.quiet_cons Manager.quiet_nil))
  have settled (m : Manager) := trail.part (.settled event : Part m _ _)
  cases run with
  | settled known => exact noted _
  | failed fresh react =>
    cases react with
    | unread kind reading => exact reading.obeys trail
    | withdrawn kind reading sweep =>
      obtain ⟨worker, address, handled⟩ := readsStake_memory reading
      refine trail.trans (reading.obeys trail) (trail.trans (noted _) fun apart => ?_)
      exact own_sweep_resumes _ apart (by rwa [handled]) sweep rfl rfl (fun wrong => by cases wrong)
  | @done _ _ _ swept fresh react =>
    cases react with
    | added kind reading => exact trail.trans (reading.obeys trail) (settled _)
    | unlocked data reading =>
      exact trail.trans (trail.trans (reading.obeys trail) (trail.part (.delayed data))) (settled _)
    | ignored kind => exact trail.trans (noted _) (settled _)
    | @withdrawn _ _ middle _ more _ kind reading sweep =>
      obtain ⟨worker, address, handled⟩ := readsStake_memory reading
      have turn : Retries event middle (more ++ [.settled event]) (Manager.settle event swept).1 := by
        intro apart
        have known : event.key ∈ (Manager.settle event swept).1.handled :=
          (Manager.settle_handled swept event event.key).mpr (.inl rfl)
        obtain ⟨told, tells, resumes⟩ := own_sweep_resumes (Manager.settle event swept).1 apart
          (by rwa [handled]) sweep rfl rfl fun _ => known
        have still : Still [.settled event] := fun _ => rfl
        exact ⟨told, by simpa using tells.append still.tells, resumes⟩
      rw [List.append_assoc]
      have noticed := trail.trans (noted (.handlingWithdrawn event.hash)) turn
      exact trail.trans (reading.obeys trail) noticed

theorem handle_retries {event other : EventRecord} {block m r added m'}
    (run : Effect.Handles block other m r added m') : Retries event m added m' := by
  by_cases same : other = event
  · subst same
    exact own_handle_retries run
  · exact run.obeys (retries_trail event) fun sweep => other_sweep_retries (by simp [same]) sweep

theorem attempt_retries {event : EventRecord} {block m r added m'}
    (run : Effect.Attempts block m r added m') : Retries event m added m' := by
  intro _
  cases run.memory
  exact ⟨[], run.still.tells, resumes_nil rfl rfl id⟩

theorem retries_course (event : EventRecord) : Course (Retries event) where
  toTrail := retries_trail event
  handled run := handle_retries run
  released run := run.obeys (retries_trail event) (fun _ _ => ⟨[], rfl, resumes_nil rfl rfl id⟩)
    fun sweep => other_sweep_retries (by simp) sweep
  pended _ _ _ := ⟨[], rfl, resumes_nil rfl rfl id⟩
  attempted run := attempt_retries run
  demanded run := other_sweep_retries (by simp) run

-- Settled events after the scanned block are not forgotten.
theorem forget_retries {event : EventRecord} {scanned : UInt64} (beyond : scanned < event.block)
    (m : Manager) : Retries event m [] (Manager.forgetHandled scanned m).1 := by
  refine fun _ => ⟨[], rfl, resumes_nil rfl rfl fun known => ?_⟩
  exact List.mem_filter.mpr ⟨known, decide_eq_true beyond⟩

theorem givenIn_zero (account : String) (sweeps : List SweepRecord) :
    givenIn account sweeps = 0 ↔ ∀ record ∈ sweeps, record.given account = 0 := by
  induction sweeps with
  | nil => simp [givenIn]
  | cons record rest ih => simp [givenIn_cons, ih]

theorem givenIn_once (account : String) {sweeps : List SweepRecord}
    (each : ∀ record ∈ sweeps, record.given account ≤ 1) :
    givenIn account sweeps ≤ 1 ↔
      sweeps.Pairwise fun earlier later => ¬(0 < earlier.given account ∧ 0 < later.given account) := by
  induction sweeps with
  | nil => simp [givenIn]
  | cons record rest ih =>
    have rest_once := ih fun other member => each other (List.mem_cons_of_mem _ member)
    have once := each record (by simp)
    have none := givenIn_zero account rest
    rw [givenIn_cons, List.pairwise_cons, ← rest_once]
    constructor
    · intro bound
      refine ⟨fun other member both => ?_, by omega⟩
      have zero := none.mp (by omega) other member
      omega
    · rintro ⟨alone, bound⟩
      rcases Nat.eq_zero_or_pos (record.given account) with zero | gave
      · omega
      · have zero : givenIn account rest = 0 := none.mpr fun other member => by
          have silent := alone other member
          omega
        omega

section

variable {ω : Type} (c : Collaborators ω)

-- The manager gives last in a sweep, so it gives once at most. The worker gives again when a sweep failed after the
-- worker had given. The range asks for the events after the scanned block.
theorem retried_withdrawal_gives_once_iff (s : Session ω) (commands : List Command) (scanned : UInt64)
    (event : EventRecord) (apart : s.manager.worker ≠ s.manager.address)
    (same : ∀ command ∈ commands, command.resumes scanned = true) (beyond : scanned < event.block) :
    let sweeps := Entry.sweepsFor (.withdrawn event) (s.adds (s.performAll c commands).2)
    givenIn s.manager.address sweeps ≤ 1 ∧
      (givenIn s.manager.worker sweeps ≤ 1 ↔ sweeps.Pairwise fun earlier later =>
        ¬(earlier.ended = false ∧ 0 < earlier.given s.manager.worker ∧
          0 < later.given s.manager.worker)) := by
  intro sweeps
  have run : Retries event s.manager (s.adds (s.performAll c commands).2)
      (s.performAll c commands).2.manager := by
    refine works_obey (retries_course event) ?_ (performAll_works c s commands)
    intro command member last scans m
    have resumes := same command member
    rw [Command.resumes, scans] at resumes
    rw [eq_of_beq resumes]
    exact forget_retries beyond m
  obtain ⟨told, tells, resumes⟩ := run apart
  have all : sweeps = told.filter (·.cause = .withdrawn event) := by
    simp only [sweeps, Entry.sweepsFor, tells.sweeps]
  rw [← all] at resumes
  have careful := resumes.careful
  constructor
  · refine (givenIn_once _ fun record member => (careful record member).once _).mpr ?_
    refine resumes.ordered.imp_of_mem fun {earlier later} among _ failed both => ?_
    have ended := (careful earlier among).last both.1
    rw [failed] at ended
    cases ended
  · rw [givenIn_once _ fun record member => (careful record member).once _]
    constructor
    · exact fun alone => alone.imp fun alone twice => alone twice.2
    · exact fun alone => (resumes.ordered.and alone).imp fun both twice => both.2 ⟨both.1, twice⟩

end

namespace Rehearsal

def unsendable : Rehearsal :=
  { leaving [stakeWithdrawn 30] with
    submitterOutcomes := [(.send, [none, some (.send "nonce too low")])] }

def attempts : List Command := [.handle [] 20 40 false, .handle [] 20 40 false]

def attempted : List SweepRecord :=
  Entry.sweepsFor (.withdrawn (stakeWithdrawn 30)) ((run unsendable [.initialise]).adds
    ((run unsendable [.initialise]).performAll collaborators attempts).2)

theorem attempted_manager_gives_once :
    givenIn (run unsendable [.initialise]).manager.address attempted ≤ 1 := by
  rw [attempted]
  exact (retried_withdrawal_gives_once_iff collaborators (run unsendable [.initialise]) attempts 20
    (stakeWithdrawn 30) (by decide +kernel) (by decide) (by decide)).1

theorem attempted_worker_gives_twice : worker ≠ manager ∧ ¬givenIn worker attempted ≤ 1 := by
  decide +kernel

end Rehearsal
end TransactionRelay
