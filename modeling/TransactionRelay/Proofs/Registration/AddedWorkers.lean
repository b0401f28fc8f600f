import TransactionRelay.Proofs.Polling.Decision
import TransactionRelay.Proofs.Registration.Evidence

namespace TransactionRelay

def Entry.addsWorker (entry : Entry) : Bool := entry.submission?.any (·.action == .addWorker)

theorem unregistering_adds_none {m added m'} (run : Unregistering m added m') :
    added.any Entry.addsWorker = false := by
  refine List.any_eq_false.mpr fun entry member adds => ?_
  have none := (run entry member).1
  cases entry with
  | asked call reply =>
    cases call with
    | send tx =>
      have adding : tx.action = .addWorker := by simpa [Entry.addsWorker, Entry.submission?] using adds
      simp [Entry.registration?, adding, ServerAction.registers] at none
    | _ => cases adds
  | _ => cases adds

namespace Effect

variable {block : UInt64} {m m' : Manager} {added : List Entry}

theorem RegistersServer.adds_none {r} (run : RegistersServer block m r added m') :
    added.any Entry.addsWorker = false := by
  cases run with
  | unencoded failure => rfl
  | failed call => cases call <;> rfl
  | registered call =>
    cases call
    rfl

-- The worker is submitted only where the evidence does not list it.
theorem EnsuresWorker.absent {r} (run : EnsuresWorker block m r added m')
    (adds : added.any Entry.addsWorker = true) : m.workerAdded = false := by
  cases run with
  | unread | spared => cases adds
  | failed absent add | added absent add => exact absent

theorem Attempts.absent {r} (run : Attempts block m r added m')
    (adds : added.any Entry.addsWorker = true) : m.workerAdded = false := by
  cases run with
  | unready barred => cases adds
  | stopped ready ensure => exact ensure.absent adds
  | failed ready ensure register | registered ready ensure register =>
    rw [List.any_append, register.adds_none, Bool.or_false] at adds
    exact ensure.absent adds

theorem Registers.absent {force r} (run : Registers block force m r added m')
    (adds : added.any Entry.addsWorker = true) : m.workerAdded = false := by
  cases run with
  | unread | closed => cases adds
  | opened pending needed attempt => exact attempt.absent adds

-- What a cycle hears comes before its registration, and the registration leaves the memory as it is.
theorem Cycles.absent {hubEvents scanned current force r}
    (run : Cycles hubEvents scanned current force m r added m')
    (adds : added.any Entry.addsWorker = true) : m'.workerAdded = false := by
  cases run with
  | scanFailed scan =>
    rw [unregistering_adds_none (scan_unregistering scan)] at adds
    cases adds
  | releaseFailed scan release =>
    rw [List.any_append, unregistering_adds_none (scan_unregistering scan),
      unregistering_adds_none (release_unregistering release)] at adds
    cases adds
  | registerFailed scan release register | done scan release register =>
    rw [List.any_append, List.any_append, unregistering_adds_none (scan_unregistering scan),
      unregistering_adds_none (release_unregistering release)] at adds
    exact register.absent adds

end Effect

theorem command_absent {command : Command} {m r added m'} (run : command.effect m r added m')
    (adds : added.any Entry.addsWorker = true) : m'.workerAdded = false := by
  have never (before : Unregistering m added m') : m'.workerAdded = false := by
    rw [unregistering_adds_none before] at adds
    cases adds
  cases command with
  | handle => cases run with | failed run | given run => exact run.absent adds
  | attempt =>
    cases run with
    | failed run | given run =>
      cases run.memory
      exact run.absent adds
  | initialise => cases run with | failed run | given run => exact never (run.obeys unregistering_trail)
  | withdraw => cases run with | failed run | given run => exact never (sweep_unregistering run)
  | refreshBalance =>
    cases run with | failed run | given run => exact never (run.obeys unregistering_trail)
  | refreshStake => cases run with | failed run | given run => exact never (run.obeys unregistering_trail)
  | takeNotifications =>
    cases run with
    | failed run => cases run
    | given run => cases run; cases adds
  | explain =>
    cases run with
    | failed run => cases run
    | given run =>
      cases run
      exact never (unregistering_trail.part (.noted (Manager.explain_quiet m)))

section

variable {ω : Type} (c : Collaborators ω)

-- The evidence is one event. So an event that lists the worker is enough for as long as each event that is delivered
-- at its position or after it lists the worker too.
theorem listed_worker_not_added_again (settings : ServerSettings) (address worker : String) (world : ω)
    (commands : List Command) (command : Command) :
    let s := ((Session.fresh settings address worker world).performAll c commands).2
    let added := s.adds (s.perform c command).2
    let delivered :=
      (Session.fresh settings address worker world).delivered c commands ++ command.delivers added
    (EventRecord.lists (delivered.argmax EventRecord.rank) worker = true →
      added.any Entry.addsWorker = false) ∧
      ∀ event ∈ delivered,
        (∀ other ∈ delivered, event.rank ≤ other.rank → EventRecord.lists (some other) worker = true) →
        added.any Entry.addsWorker = false := by
  intro s added delivered
  have run : command.effect s.manager (s.perform c command).1 added (s.perform c command).2.manager :=
    perform_effect c s command
  have own : (s.perform c command).2.manager.worker = worker :=
    (last_cycle c keeps_course (fun _ _ => ⟨rfl, rfl, rfl, rfl, rfl⟩) settings address worker world
      commands command).worker
  have evidence : (s.perform c command).2.manager.workerEvidence =
      delivered.argmax EventRecord.rank := by
    rw [← EventRecord.fold_later_argmax, List.foldl_append]
    exact (command_evidence run).trans
      (congrArg (List.foldl EventRecord.later · _) (performAll_evidence c _ commands))
  have latest (listed : EventRecord.lists (delivered.argmax EventRecord.rank) worker = true) :
      added.any Entry.addsWorker = false := by
    refine Bool.eq_false_iff.mpr fun adds => ?_
    have absent : EventRecord.lists (s.perform c command).2.manager.workerEvidence
        (s.perform c command).2.manager.worker = false := command_absent run adds
    rw [own, evidence, listed] at absent
    cases absent
  refine ⟨latest, fun event member after => latest ?_⟩
  cases greatest : delivered.argmax EventRecord.rank with
  | none =>
    rw [List.argmax_eq_none.mp greatest] at member
    cases member
  | some last => exact after last (List.argmax_mem greatest) (List.le_of_mem_argmax member greatest)

end

namespace Rehearsal

def frugal : ServerSettings := { minBalance := 0, minStake := 1000 }

def employing : Rehearsal where
  stake := { stake := 1000, unstakeDelay := 100, owner }
  stakeEvents := [stakeAdded 8]
  hubEvents := [staffAdded 5 [worker]]
  relayData := [{ url := "http://other.example.com" }]

def employed : Session Rehearsal :=
  ((Session.fresh frugal manager worker employing).performAll collaborators [.initialise]).2

def staffing (workers : List String) : Command := .handle [staffAdded 10 workers] 0 20 false

theorem listed_worker_registers_without_being_added :
    let added := employed.adds (employed.perform collaborators (staffing [worker])).2
    added.any Entry.addsWorker = false ∧ (Entry.registrations added).map (·.action) = [.registerServer] := by
  intro added
  have listed : ∀ other ∈ (Session.fresh frugal manager worker employing).delivered collaborators
        [.initialise] ++ (staffing [worker]).delivers added,
      (staffAdded 5 [worker]).rank ≤ other.rank →
        EventRecord.lists (some other) worker = true := by decide +kernel
  have known : staffAdded 5 [worker] ∈ (Session.fresh frugal manager worker employing).delivered
      collaborators [.initialise] ++ (staffing [worker]).delivers added := by decide +kernel
  have registered : (Entry.registrations added).map (·.action) = [.registerServer] := by decide +kernel
  refine ⟨?_, registered⟩
  exact (listed_worker_not_added_again collaborators frugal manager worker employing [.initialise]
    (staffing [worker])).2 _ known listed

theorem listed_worker_added_again :
    staffAdded 5 [worker] ∈
        (Session.fresh frugal manager worker employing).delivered collaborators [.initialise] ∧
      EventRecord.lists (some (staffAdded 5 [worker])) worker = true ∧
      (employed.perform collaborators (staffing [owner])).1.isOk = true ∧
      (Entry.registrations (employed.adds (employed.perform collaborators (staffing [owner])).2)).map
        (·.action) = [.addWorker, .registerServer] := by
  decide +kernel

end Rehearsal
end TransactionRelay
