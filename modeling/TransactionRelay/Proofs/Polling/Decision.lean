import TransactionRelay.Proofs.Polling.InFlight

namespace TransactionRelay

def Entry.submission? : Entry → Option Transaction
  | .asked (.send tx) _ => some tx
  | _ => none

def RelayRecord.carries (record : RelayRecord) (address url : String) : Bool :=
  record.manager.any (Address.same · address) && record.url == url

def EventRecord.lists (evidence : Option EventRecord) (worker : String) : Bool :=
  evidence.any fun event => event.workers.any (Address.same · worker)

-- A registration is due, by the journal of a run and by what its last poll has added to it.
structure Due (settings : ServerSettings) (address : String) (journal added : List Entry) : Prop where
  balance : ∃ amount, (added.filterMap (Entry.balanceOf? address)).head? = some amount ∧
    settings.minBalance ≤ amount
  stake : ∃ reading, Entry.lastStake journal = some reading ∧ settings.minStake ≤ reading.stake ∧
    reading.withdrawBlock = 0
  record : ∃ record, added.filterMap Entry.record? = [record] ∧
    record.carries address settings.registrationUrl = false
  free : added.any (Entry.frees .registerServer) = true

-- What is submitted to register a relay: after the transfers of the sweeps the worker, if it is neither
-- listed nor pending, and the server last. The methods are those that the ledger has encoded.
structure Submits (settings : ServerSettings) (address worker : String) (listed : Bool)
    (added : List Entry) (transfers adding : List Transaction) (registering : Transaction) : Prop where
  order : added.filterMap Entry.submission? = transfers ++ adding ++ [registering]
  transfers : ∀ tx ∈ transfers, tx.action = .valueTransfer
  adding : if listed = false ∧ added.any (Entry.frees .addWorker) = true then
      ∃ method gas current, .asked (.addWorkersMethod [worker]) (.ok method) ∈ added ∧
        added.filterMap Entry.block? = [current] ∧
        adding = [.contractCall address settings.hub .addWorker method gas current]
    else adding = []
  registering : ∃ method gas current,
    .asked (.registerMethod settings.registrationUrl) (.ok method) ∈ added ∧
      added.filterMap Entry.block? = [current] ∧
      registering = .contractCall address settings.hub .registerServer method gas current

theorem submission_quiet {entries : List Entry} (quiet : Manager.Quiet entries) :
    entries.filterMap Entry.submission? = [] := quiet.filterMap _ fun _ => rfl

theorem frees_quiet {action : ServerAction} {entries : List Entry} (quiet : Manager.Quiet entries) :
    entries.any (Entry.frees action) = false :=
  List.any_eq_false.mpr (quiet.all (p := fun entry => ¬entry.frees action = true) fun _ => by
    simp [Entry.frees])

theorem Asks.transfers {entries : List Entry} (early : Asks Call.early entries) :
    ∀ tx ∈ entries.filterMap Entry.submission?, tx.action = .valueTransfer := by
  intro tx submitted
  obtain ⟨entry, member, seen⟩ := List.mem_filterMap.mp submitted
  cases entry with
  | asked call reply =>
    cases call with
    | send sent =>
      cases seen
      exact of_decide_eq_true (early _ member _ rfl)
    | _ => cases seen
  | _ => cases seen

theorem Asks.unfreed {action : ServerAction} {entries : List Entry} (early : Asks Call.early entries) :
    entries.any (Entry.frees action) = false := by
  refine List.any_eq_false.mpr fun entry member => ?_
  cases entry with
  | asked call reply =>
    cases call with
    | isPending => cases early _ member _ rfl
    | _ => simp [Entry.frees]
  | _ => simp [Entry.frees]

theorem Gate.freed {m current result before last record middle m'}
    (gate : Gate m current result before last record middle m') {tail : List Entry}
    (quiet : Manager.Quiet tail) (action : ServerAction) :
    (before ++ (last ++ tail)).any (Entry.frees action) = last.any (Entry.frees action) := by
  rw [List.any_append, List.any_append, gate.early.unfreed, frees_quiet quiet, Bool.or_false, Bool.false_or]

namespace Effect

variable {current : UInt64} {m m' : Manager} {added : List Entry}

theorem CallsHub.submits {label action method hash} (run : CallsHub label action method current m
    (.ok hash) added m') (other : ServerAction) :
    (∃ gas, added.filterMap Entry.submission? = [m.hubCall action method gas current]) ∧
      added.any (Entry.frees other) = false := by
  cases run with
  | accepted gas receipt => exact ⟨⟨gas, rfl⟩, rfl⟩

theorem AddsWorker.submits {hash} (run : AddsWorker current m (.ok hash) added m') (other : ServerAction) :
    (∃ method gas, .asked (.addWorkersMethod [m.worker]) (.ok method) ∈ added ∧
      added.filterMap Entry.submission? = [m.hubCall .addWorker method gas current]) ∧
      added.any (Entry.frees other) = false := by
  cases run with
  | called call =>
    obtain ⟨⟨gas, submitted⟩, unfreed⟩ := call.submits other
    exact ⟨⟨_, gas, List.mem_cons_self, submitted⟩, unfreed⟩

theorem RegistersServer.submits {hash} (run : RegistersServer current m (.ok hash) added m')
    (other : ServerAction) :
    (∃ method gas, .asked (.registerMethod m.settings.registrationUrl) (.ok method) ∈ added ∧
      added.filterMap Entry.submission? = [m.hubCall .registerServer method gas current]) ∧
      added.any (Entry.frees other) = false := by
  cases run with
  | registered call =>
    obtain ⟨⟨gas, submitted⟩, unfreed⟩ := call.submits other
    refine ⟨⟨_, gas, List.mem_cons_self, ?_⟩, ?_⟩
    · rw [List.filterMap_cons_none rfl, List.filterMap_append, submitted]
      rfl
    · simp [unfreed, Entry.frees]

theorem EnsuresWorker.submits {hashes} (run : EnsuresWorker current m (.ok hashes) added m') :
    (if m.workerAdded = false ∧ added.any (Entry.frees .addWorker) = true then
      ∃ method gas, .asked (.addWorkersMethod [m.worker]) (.ok method) ∈ added ∧
        added.filterMap Entry.submission? = [m.hubCall .addWorker method gas current]
      else added.filterMap Entry.submission? = []) ∧ added.any (Entry.frees .registerServer) = false := by
  cases run with
  | spared adding unneeded =>
    refine ⟨?_, by simp [Entry.frees]⟩
    rw [if_neg]
    · rfl
    rintro ⟨absent, freed⟩
    rw [absent, Bool.false_or] at unneeded
    simp [Entry.frees, unneeded] at freed
  | added absent add =>
    obtain ⟨⟨method, gas, encoded, submitted⟩, _⟩ := add.submits .addWorker
    refine ⟨?_, ?_⟩
    · rw [if_pos ⟨absent, by simp [Entry.frees]⟩]
      exact ⟨method, gas, List.mem_cons_of_mem _ encoded, submitted⟩
    · have unfreed := (add.submits .registerServer).2
      simp [unfreed, Entry.frees]

theorem Registers.opens {r} (run : Registers current false m r added m') {tx : Transaction}
    (submitted : tx ∈ added.filterMap Entry.submission?) :
    m.mayRegister = true ∧ m.registrationCorrect = false ∧
      added.any (Entry.frees .registerServer) = true := by
  cases run with
  | unread | closed => cases submitted
  | opened pending needed attempt =>
    have wanted : pending = false ∧ m.registrationCorrect = false := by simpa using needed
    obtain ⟨rfl, wrong⟩ := wanted
    refine ⟨?_, wrong, by simp [Entry.frees]⟩
    cases attempt with
    | unready barred => cases submitted
    | stopped ready | failed ready | registered ready => exact ready

theorem Registers.submits {hashes} (run : Registers current false m (.ok hashes) added m')
    (may : m.mayRegister = true) (wrong : m.registrationCorrect = false)
    (free : added.any (Entry.frees .registerServer) = true) :
    ∃ adding method gas, added.filterMap Entry.submission? =
        adding ++ [m.hubCall .registerServer method gas current] ∧
      .asked (.registerMethod m.settings.registrationUrl) (.ok method) ∈ added ∧
      if m.workerAdded = false ∧ added.any (Entry.frees .addWorker) = true then
        ∃ method gas, .asked (.addWorkersMethod [m.worker]) (.ok method) ∈ added ∧
          adding = [m.hubCall .addWorker method gas current]
      else adding = [] := by
  cases run with
  | closed pending unneeded =>
    have waiting : pending = true := by simpa [wrong] using unneeded
    simp [Entry.frees, waiting] at free
  | opened pending needed attempt =>
    cases attempt with
    | unready barred =>
      rw [may] at barred
      cases barred
    | @registered _ _ early _ late _ ensure register =>
      obtain ⟨added, _⟩ := ensure.submits
      obtain ⟨⟨method, gas, encoded, submitted⟩, unfreed⟩ := register.submits .addWorker
      have asked : (Entry.asked (.isPending .registerServer) (.ok pending) :: (early ++ late)).any
          (Entry.frees .addWorker) = early.any (Entry.frees .addWorker) := by
        simp [unfreed, Entry.frees]
      refine ⟨early.filterMap Entry.submission?, method, gas, ?_, ?_, ?_⟩
      · rw [List.filterMap_cons_none rfl, List.filterMap_append, submitted]
      · exact List.mem_cons_of_mem _ (List.mem_append_right _ encoded)
      · rw [asked]
        split_ifs with absent
        · rw [if_pos absent] at added
          obtain ⟨method, gas, encoded, submitted⟩ := added
          exact ⟨method, gas, List.mem_cons_of_mem _ (List.mem_append_left _ encoded), submitted⟩
        · rw [if_neg absent] at added
          exact added

end Effect

-- What the memory says of the stake is what the last reading said that found one.
theorem recalls_stake {settings : ServerSettings} {address worker : String} {journal : List Entry}
    {m : Manager} (recalls : Recalls (Manager.new settings address worker) journal m) :
    (m.stakeLocked = true ∧ m.stake.satisfied = true) ↔
      ∃ reading, Entry.lastStake journal = some reading ∧ settings.minStake ≤ reading.stake ∧
        reading.withdrawBlock = 0 := by
  have minimum : m.stake.minimum = settings.minStake := recalls.minimum
  have memory := recalls.memory
  simp only [Manager.stakeMemory, Prod.ext_iff] at memory
  obtain ⟨locked, current⟩ := memory
  rw [locked, Requirement.satisfied, minimum, current, decide_eq_true_iff]
  cases last : Entry.lastStake journal with
  | none => simp [Manager.new]
  | some reading => simp [StakeReading.memory, StakeReading.locked, and_comm]

section

variable {ω : Type}

theorem due_iff {settings : ServerSettings} {address worker : String} {before after : Session ω}
    (recalls : Recalls (Manager.new settings address worker) after.journal after.manager)
    (kept : Keeps (Manager.new settings address worker) after.journal after.manager)
    {current result early last tail record middle}
    (gate : Gate before.manager current result early last record middle after.manager)
    (added : before.adds after = early ++ (last ++ tail)) (quiet : Manager.Quiet tail)
    (read : (early.filterMap (Entry.balanceOf? middle.address)).head? = some middle.balance.current) :
    Due settings address after.journal (before.adds after) ↔
      middle.mayRegister = true ∧ middle.registrationCorrect = false ∧
        last.any (Entry.frees .registerServer) = true := by
  obtain ⟨notifications, memory⟩ := gate.after
  rw [memory] at recalls kept
  have own : middle.address = address := kept.address
  have known : middle.settings = settings := kept.settings
  have least : middle.balance.minimum = settings.minBalance := kept.balance
  have stake := recalls_stake recalls
  have balance : ((early ++ (last ++ tail)).filterMap (Entry.balanceOf? address)).head? =
      some middle.balance.current := by
    rw [own] at read
    rw [List.filterMap_append, List.head?_append, read]
    rfl
  have fetched := gate.records quiet
  have freed := gate.freed quiet .registerServer
  have correct : middle.registrationCorrect = record.carries address settings.registrationUrl := by
    rw [Manager.registrationCorrect, gate.recorded, own, known]
    rfl
  have satisfied : middle.balance.satisfied = true ↔ settings.minBalance ≤ middle.balance.current := by
    rw [Requirement.satisfied, least, decide_eq_true_iff]
  rw [added, correct, Manager.mayRegister, Bool.and_eq_true, Bool.and_eq_true, satisfied, ← freed]
  constructor
  · intro due
    obtain ⟨amount, first, enough⟩ := due.balance
    obtain ⟨other, only, wrong⟩ := due.record
    cases first.symm.trans balance
    cases List.singleton_inj.mp (only.symm.trans fetched)
    exact ⟨⟨stake.mpr due.stake, enough⟩, wrong, due.free⟩
  · rintro ⟨⟨locked, enough⟩, wrong, free⟩
    exact ⟨⟨_, balance, enough⟩, stake.mp locked, ⟨record, fetched, wrong⟩, free⟩

-- What a gate lets through that is open, when every question after it was answered.
theorem due_submits {settings : ServerSettings} {address worker : String} {before after : Session ω}
    (kept : Keeps (Manager.new settings address worker) after.journal after.manager)
    {current hashes early last tail record middle}
    (gate : Gate before.manager current (.ok hashes) early last record middle after.manager)
    (added : before.adds after = early ++ (last ++ tail)) (quiet : Manager.Quiet tail)
    (blocks : (before.adds after).filterMap Entry.block? = [current]) (may : middle.mayRegister = true)
    (wrong : middle.registrationCorrect = false)
    (free : last.any (Entry.frees .registerServer) = true) :
    ∃ transfers adding registering, Submits settings address worker
      (EventRecord.lists after.manager.workerEvidence worker) (before.adds after)
      transfers adding registering := by
  obtain ⟨notifications, memory⟩ := gate.after
  rw [memory] at kept ⊢
  have own : middle.address = address := kept.address
  have known : middle.settings = settings := kept.settings
  have work : middle.worker = worker := kept.worker
  subst own known work
  have inside : ∀ entry ∈ last, entry ∈ before.adds after := by
    rw [added]
    exact fun entry member => List.mem_append_right _ (List.mem_append_left _ member)
  have freed : (before.adds after).any (Entry.frees .addWorker) = last.any (Entry.frees .addWorker) := by
    rw [added]
    exact gate.freed quiet .addWorker
  obtain ⟨adding, method, gas, order, encoded, workers⟩ := gate.register.submits may wrong free
  refine ⟨early.filterMap Entry.submission?, adding, _, ?_, gate.early.transfers, ?_, method, gas, current,
    inside _ encoded, blocks, rfl⟩
  · rw [added, List.filterMap_append, List.filterMap_append, submission_quiet quiet, List.append_nil, order,
      List.append_assoc]
    rfl
  · have listed : EventRecord.lists { middle with notifications }.workerEvidence middle.worker =
        middle.workerAdded := rfl
    rw [listed, freed]
    by_cases absent : middle.workerAdded = false ∧ last.any (Entry.frees .addWorker) = true
    · rw [if_pos absent] at workers ⊢
      obtain ⟨method, gas, encoded, alone⟩ := workers
      exact ⟨method, gas, current, inside _ encoded, blocks, alone⟩
    · rw [if_neg absent] at workers ⊢
      exact workers

variable (c : Collaborators ω)

-- A registration of the server is submitted only if one is due, by the balance and the record that this poll has
-- read, the last reading of a stake in any poll, and the answer that none is pending. If one is due and every
-- question is answered, it is submitted once and last, and the worker before it if it is missing.
theorem registers_exactly_when_due (settings : ServerSettings) (address worker : String) (world : ω)
    (pollMillis : Nat) (policy : RetryPolicy) (start : UInt64) (n : Nat) :
    let p := Poller.polls c n (.fresh settings address worker world pollMillis policy start)
    let ran := p.pollOnce c
    let added := p.session.adds ran.2.session
    (∀ tx ∈ added.filterMap Entry.submission?, tx.action = .registerServer →
      Due settings address ran.2.session.journal added) ∧
      (Due settings address ran.2.session.journal added → (∀ entry ∈ added, entry.failed = false) →
        ran.1.isOk = true ∧ ∃ transfers adding registering,
          Submits settings address worker
            (EventRecord.lists ran.2.session.manager.workerEvidence worker) added
            transfers adding registering) := by
  intro p ran added
  obtain ⟨r, entries, returned, journal, polled, _⟩ := Poller.pollOnce_returns c p
  have gained : added = entries := adds_eq journal
  have recalls : Recalls (Manager.new settings address worker) ran.2.session.journal
      ran.2.session.manager :=
    Poller.fresh_obey recalls_course (fun _ _ => recalls_nothing (by simp [Entry.stake?]) rfl rfl rfl)
      (fun _ _ => recalls_nothing (by simp) rfl rfl rfl) c settings address worker world pollMillis policy
      start (n + 1)
  have kept : Keeps (Manager.new settings address worker) ran.2.session.journal ran.2.session.manager :=
    Poller.fresh_obey keeps_course (fun m _ => keeps_refl m _) (fun _ _ => ⟨rfl, rfl, rfl, rfl, rfl⟩) c
      settings address worker world pollMillis policy start (n + 1)
  have result : ran.1 = r.map Prod.fst := returned
  rcases polled.gate with early | ⟨current, gone, before, last, tail, record, middle, split, quiet, same,
    blocks, read, gate⟩
  · -- This poll has not come to the gate.
    rw [gained]
    refine ⟨fun tx submitted registers => ?_, fun due => ?_⟩
    · have transfer := early.transfers tx submitted
      rw [registers] at transfer
      cases transfer
    · have free := due.free
      rw [early.unfreed] at free
      cases free
  have due := due_iff recalls kept gate (gained.trans split) quiet read
  change Due settings address ran.2.session.journal added ↔ _ at due
  rw [due]
  have submitted : added.filterMap Entry.submission? =
      before.filterMap Entry.submission? ++ last.filterMap Entry.submission? := by
    rw [gained, split, List.filterMap_append, List.filterMap_append, submission_quiet quiet,
      List.append_nil]
  constructor
  · intro tx member registers
    rw [submitted] at member
    rcases List.mem_append.mp member with early | late
    · have transfer := gate.early.transfers tx early
      rw [registers] at transfer
      cases transfer
    · exact gate.register.opens late
  · rintro ⟨may, wrong, free⟩ answered
    cases gone with
    | error failure =>
      obtain ⟨entry, member, failed⟩ := gate.register.blames.failed
      have inside : entry ∈ added := by
        rw [gained, split]
        exact List.mem_append_right _ (List.mem_append_left _ member)
      rw [answered entry inside] at failed
      cases failed
    | ok hashes =>
      have ok : ran.1.isOk = true := by
        rw [result]
        cases r with
        | error failure => cases same
        | ok done => rfl
      have read : added.filterMap Entry.block? = [current] := by rw [gained, blocks]
      exact ⟨ok, due_submits kept gate (gained.trans split) quiet read may wrong free⟩

end

namespace Rehearsal

theorem registering_registers_when_due :
    let p := polled registering 0
    let ran := p.pollOnce collaborators
    ran.1.isOk = true ∧ ∃ transfers adding registering, Submits settings manager worker
      (EventRecord.lists ran.2.session.manager.workerEvidence worker) (p.session.adds ran.2.session)
      transfers adding registering := by
  have due : Due settings manager ((polled registering 0).pollOnce collaborators).2.session.journal
      ((polled registering 0).session.adds ((polled registering 0).pollOnce collaborators).2.session) := by
    refine ⟨⟨1000000, by decide +kernel, by decide⟩, ⟨registering.stake, by decide +kernel, by decide, rfl⟩,
      ⟨{ url := "http://other.example.com" }, by decide +kernel, by decide +kernel⟩, by decide +kernel⟩
  have answered : ∀ entry ∈ (polled registering 0).session.adds
      ((polled registering 0).pollOnce collaborators).2.session, entry.failed = false := by
    decide +kernel
  unfold polled at due answered ⊢
  exact (registers_exactly_when_due collaborators settings manager worker registering 10 {} 0 0).2 due
    answered

end Rehearsal
end TransactionRelay
