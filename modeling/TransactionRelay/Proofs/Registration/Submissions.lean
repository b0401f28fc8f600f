import Mathlib.Data.List.Basic
import TransactionRelay.Proofs.Registration.AfterLeaving
import TransactionRelay.Proofs.Registration.Standing

namespace TransactionRelay

def Entry.offer? : Entry → Option (Transaction × Except SubmissionFailure Receipt)
  | .asked (.send tx) answer => some (tx, answer)
  | _ => none

def Entry.offers (entries : List Entry) : List (Transaction × Except SubmissionFailure Receipt) :=
  entries.filterMap offer?

def Accepts (entries : List Entry) (hashes : List String) : Prop :=
  (Entry.offers entries).map Prod.snd = hashes.map fun hash => .ok ⟨hash⟩

theorem offers_append (first second : List Entry) :
    Entry.offers (first ++ second) = Entry.offers first ++ Entry.offers second := List.filterMap_append

theorem offers_quiet {entries : List Entry} (quiet : Manager.Quiet entries) : Entry.offers entries = [] :=
  quiet.filterMap _ fun _ => rfl

theorem offers_asked {call : Call} {answer : Except call.Failure call.Answer} {rest : List Entry}
    (other : Entry.offer? (.asked call answer) = none) :
    Entry.offers (.asked call answer :: rest) = Entry.offers rest := List.filterMap_cons_none other

namespace Accepts

variable {first second entries : List Entry} {early late hashes : List String}

theorem append (one : Accepts first early) (two : Accepts second late) :
    Accepts (first ++ second) (early ++ late) := by
  rw [Accepts, offers_append, List.map_append, List.map_append, one, two]

theorem before (accepts : Accepts first hashes) (none : Entry.offers second = []) :
    Accepts (first ++ second) hashes := by
  rwa [Accepts, offers_append, none, List.append_nil]

theorem nothing (none : Entry.offers entries = []) : Accepts entries [] := by
  rw [Accepts, none]
  rfl

theorem all_ok (accepts : Accepts entries hashes) : ∀ offer ∈ Entry.offers entries, offer.2.isOk = true := by
  intro offer member
  have answered : offer.2 ∈ hashes.map fun hash => (.ok ⟨hash⟩ : Except SubmissionFailure Receipt) :=
    accepts ▸ List.mem_map_of_mem member
  obtain ⟨hash, _, ok⟩ := List.mem_map.mp answered
  rw [← ok]
  rfl

-- Where nothing but transfers of funds is submitted, they are the accepted transfers.
theorem transfers (accepts : Accepts entries hashes) (asks : Asks Call.turns entries) :
    (Entry.offers entries).map Prod.fst = entries.filterMap Entry.transfer? := by
  rw [Entry.offers, List.map_filterMap]
  refine List.filterMap_congr fun entry member => ?_
  cases entry with
  | asked call answer =>
    cases call with
    | send tx =>
      have transfer : tx.action = .valueTransfer := of_decide_eq_true (asks _ member _ rfl)
      have ok := accepts.all_ok (tx, answer) (List.mem_filterMap.mpr ⟨_, member, rfl⟩)
      cases answer with
      | error failure => cases ok
      | ok receipt => simp [Entry.offer?, Entry.transfer?, transfer]
    | _ => rfl
  | _ => rfl

end Accepts

-- The events of a range whose turn comes: those that were not handled before, and the first of each key.
def EventRecord.unhandled (handled : List EventKey) : List EventRecord → List EventRecord
  | [] => []
  | event :: rest =>
    if event.key ∈ handled then unhandled handled rest
    else event :: unhandled (event.key :: handled) rest

def DelayedQueue.pushAll (queue : DelayedQueue) (events : List EventRecord) : DelayedQueue :=
  (events.filterMap EventRecord.waiting?).foldl (fun queue late => queue.push late.due late.event) queue

theorem unhandled_congr {known also : List EventKey} (same : ∀ key, key ∈ known ↔ key ∈ also)
    (events : List EventRecord) : EventRecord.unhandled known events = EventRecord.unhandled also events := by
  induction events generalizing known also with
  | nil => rfl
  | cons event rest ih =>
    have later : ∀ key, key ∈ event.key :: known ↔ key ∈ event.key :: also := by
      intro key
      rw [List.mem_cons, List.mem_cons, same key]
    rw [EventRecord.unhandled, EventRecord.unhandled, ih same, ih later]
    simp only [same]

theorem DelayedQueue.pushAll_append (queue : DelayedQueue) (first second : List EventRecord) :
    queue.pushAll (first ++ second) = (queue.pushAll first).pushAll second := by
  rw [pushAll, List.filterMap_append, List.foldl_append]
  rfl

theorem Gives.signers {account added sent} (gives : Gives account added sent) :
    (sent.map (·.signer)).Sublist [account] := by
  cases gives with
  | nothing => exact List.nil_sublist _
  | emptied read enough => exact List.Sublist.refl _

-- A part of a cycle that came to its end. What it submitted was accepted and belongs to its sweeps, which are
-- for these causes; in each of them the worker gives first, and neither account gives twice.
structure Reports (m : Manager) (added : List Entry) (causes : List SweepCause) (hashes : List String)
    (m' : Manager) : Prop where
  accepts : Accepts added hashes
  sweeps : ∃ sweeps, Tells added sweeps ∧ sweeps.map (·.cause) = causes ∧
    (Entry.offers added).map Prod.fst = sweeps.flatMap (·.sent) ∧
    ∀ sweep ∈ sweeps, sweep.ended = true ∧ (sweep.sent.map (·.signer)).Sublist [m.worker, m.address]
  worker : m'.worker = m.worker
  address : m'.address = m.address

namespace Reports

variable {m middle m' : Manager} {added more : List Entry} {causes later : List SweepCause}
  {hashes others : List String}

theorem trans (first : Reports m added causes hashes middle) (second : Reports middle more later others m') :
    Reports m (added ++ more) (causes ++ later) (hashes ++ others) m' := by
  obtain ⟨early, toldEarly, causedEarly, sentEarly, careful⟩ := first.sweeps
  obtain ⟨late, toldLate, causedLate, sentLate, carefulLate⟩ := second.sweeps
  rw [first.worker, first.address] at carefulLate
  refine ⟨first.accepts.append second.accepts, ⟨early ++ late, toldEarly.append toldLate, ?_, ?_, ?_⟩,
    second.worker.trans first.worker, second.address.trans first.address⟩
  · rw [List.map_append, causedEarly, causedLate]
  · rw [offers_append, List.map_append, List.flatMap_append, sentEarly, sentLate]
  · exact fun sweep member => (List.mem_append.mp member).elim (careful sweep) (carefulLate sweep)

theorem part (part : Part m added m') (none : Entry.offers added = []) : Reports m added [] [] m' :=
  ⟨.nothing none, ⟨[], part.still.tells, rfl, by rw [none]; rfl, by simp⟩, part.accounts.1, part.accounts.2⟩

theorem quiet (quiet : Manager.Quiet added) : Reports m added [] [] m := part (.noted quiet) (offers_quiet quiet)

-- A change of what was handled or of what waits, which the journal does not show.
theorem unseen (worker : m'.worker = m.worker) (address : m'.address = m.address) : Reports m [] [] [] m' :=
  ⟨rfl, ⟨[], rfl, rfl, rfl, by simp⟩, worker, address⟩

end Reports

namespace Effect

variable {block : UInt64} {m m' : Manager} {hashes : List String} {added : List Entry}

theorem Transfers.accepts {account owner price} (run : Transfers account owner price block m (.ok hashes) added m') :
    Accepts added hashes := by
  cases run with
  | tooLow balance low => rfl
  | sent balance enough receipt => rfl

theorem Withdraws.accepts {managerFunds} (run : Withdraws managerFunds block m (.ok hashes) added m') :
    Accepts added hashes := by
  cases run with
  | ownerless unknown => rfl
  | workerOnly spared known worker => exact worker.accepts.before rfl
  | both asked known worker manager => exact (worker.accepts.append manager.accepts).before rfl

theorem Sweeps.accepts {cause managerFunds} (run : Sweeps cause managerFunds block m (.ok hashes) added m') :
    Accepts added hashes := by
  cases run with
  | ended run => exact run.accepts.before rfl

theorem Sweeps.reports {cause managerFunds}
    (run : Sweeps cause managerFunds block m (.ok hashes) added m') : Reports m added [cause] hashes m' := by
  obtain ⟨record, ended, swept⟩ := run.swept
  obtain ⟨fromWorker, fromManager, sent, worker, manager, _⟩ := swept.given
  obtain ⟨sameWorker, sameAddress, _⟩ := swept.kept
  have signers : (record.sent.map (·.signer)).Sublist [m.worker, m.address] := by
    rw [sent, List.map_append]
    exact worker.signers.append manager.signers
  refine ⟨run.accepts, ⟨[record], swept.told, by rw [← swept.caused]; rfl, ?_, ?_⟩, sameWorker, sameAddress⟩
  · rw [run.accepts.transfers run.asks, swept.told.transfers]
  · intro sweep member
    rw [List.mem_singleton.mp member]
    exact ⟨ended, signers⟩

theorem ReadsStake.reports (run : ReadsStake m (.ok ()) added m') :
    Reports m added [] [] m' ∧ m'.handled = m.handled ∧ m'.delayed = m.delayed := by
  cases run with
  | read reading =>
    have none : Entry.offers (.asked (.stakeReading m.address) (.ok reading) ::
        (Manager.observeStake reading m).2) = [] := by
      rw [offers_asked rfl]
      exact offers_quiet (m.observeStake_quiet reading)
    obtain ⟨_, _, _, delayed, handled, _⟩ := m.observeStake_frame reading
    exact ⟨.part (.stakeRead reading) none, handled, delayed⟩

theorem Reacts.reports {event} (run : Reacts block event m (.ok hashes) added m') :
    Reports m added (([event].filter (·.withdraws)).map .withdrawn) hashes m' ∧ m'.handled = m.handled ∧
      m'.delayed = m.delayed.pushAll [event] := by
  cases run with
  | added kind reading =>
    obtain ⟨reports, handled, delayed⟩ := reading.reports
    have stays : event.withdraws = false := by simp [EventRecord.withdraws, kind]
    have other : event.waiting? = none := EventRecord.waiting?_none (by rw [kind]; decide)
    refine ⟨by simpa [stays] using reports, handled, ?_⟩
    simp [DelayedQueue.pushAll, other, delayed]
  | @unlocked _ _ _ due _ middle data reading =>
    obtain ⟨reports, handled, delayed⟩ := reading.reports
    have kind : event.kind = .stakeUnlocked := by rw [EventRecord.kind, data]; rfl
    have stays : event.withdraws = false := by simp [EventRecord.withdraws, kind]
    have waits : event.waiting? = some ⟨due, event⟩ := by rw [EventRecord.waiting?, data]
    have none : Entry.offers (Manager.delay due event middle).2 = [] :=
      List.filterMap_eq_nil_iff.mpr (middle.delay_all (fun _ => rfl) due event fun _ => rfl)
    have queued : Reports middle (Manager.delay due event middle).2 [] [] (Manager.delay due event middle).1 :=
      .part (.delayed data) none
    refine ⟨by simpa [stays] using reports.trans queued, handled, ?_⟩
    simp [DelayedQueue.pushAll, waits, Manager.delay, delayed]
  | @withdrawn _ _ middle _ _ _ kind reading sweep =>
    obtain ⟨reports, handled, delayed⟩ := reading.reports
    have leaves : event.withdraws = true := by simp [EventRecord.withdraws, kind]
    have other : event.waiting? = none := EventRecord.waiting?_none (by rw [kind]; decide)
    have noted : Reports middle [.logged (.handlingWithdrawn event.hash)] [] [] middle :=
      .quiet (Manager.quiet_cons Manager.quiet_nil)
    obtain ⟨sameHandled, sameDelayed⟩ := sweep.kept
    refine ⟨by simpa [leaves] using reports.trans (noted.trans sweep.reports), sameHandled.trans handled, ?_⟩
    simp [DelayedQueue.pushAll, other, sameDelayed, delayed]
  | ignored kind =>
    have stays : event.withdraws = false := decide_eq_false fun same => kind (by rw [same]; decide)
    have other : event.waiting? = none := EventRecord.waiting?_none fun same => kind (by rw [same]; decide)
    have noted : Reports m [.logged (.ignoring event.kind)] [] [] m :=
      .quiet (Manager.quiet_cons Manager.quiet_nil)
    exact ⟨by simpa [stays] using noted, rfl, by simp [DelayedQueue.pushAll, other]⟩

theorem turns_report {events r} (run : InTurn (Handles block) events m r added m') {hashes : List String}
    (ok : r = .ok hashes) :
    Reports m added (((EventRecord.unhandled m.handled events).filter (·.withdraws)).map .withdrawn) hashes m' ∧
      m'.delayed = m.delayed.pushAll (EventRecord.unhandled m.handled events) := by
  induction run generalizing hashes with
  | done =>
    cases ok
    exact ⟨.unseen rfl rfl, rfl⟩
  | stopped => cases ok
  | stoppedLater => cases ok
  | @passed m event rest early late added middle more m' turn later ih =>
    cases ok
    obtain ⟨reports, delayed⟩ := ih rfl
    cases turn with
    | settled known =>
      rw [EventRecord.unhandled, if_pos known]
      have noted : Reports m [.logged (.alreadyHandled event)] [] [] m :=
        .quiet (Manager.quiet_cons Manager.quiet_nil)
      exact ⟨noted.trans reports, delayed⟩
    | @done _ _ inner between fresh react =>
      obtain ⟨reacts, handled, queued⟩ := react.reports
      have marked : Reports between [.settled event] [] [] (Manager.settle event between).1 :=
        .part (.settled event) rfl
      have settled : EventRecord.unhandled (Manager.settle event between).1.handled rest =
          EventRecord.unhandled (event.key :: m.handled) rest :=
        unhandled_congr (fun key => by rw [Manager.settle_handled, List.mem_cons, handled]) rest
      rw [settled] at reports delayed
      have apart (tail : List EventRecord) : event :: tail = [event] ++ tail := rfl
      rw [EventRecord.unhandled, if_neg fresh, apart, List.filter_append, List.map_append,
        DelayedQueue.pushAll_append, ← queued]
      refine ⟨?_, delayed⟩
      have whole := (reacts.trans marked).trans reports
      rwa [List.append_nil, List.append_nil] at whole

theorem FetchesRecord.reports {record} (run : FetchesRecord m (.ok record) added m') :
    Reports m added [] [] m := by
  cases run with
  | found _ rest => exact .part (.listed (.relayData [m.address]) (record :: rest) rfl) rfl

theorem Scans.reports {hubEvents scanned} (run : Scans hubEvents scanned block m (.ok hashes) added m') :
    ∃ events, added.head? = some (.asked (m.stakeQuery scanned block) (.ok events)) ∧
      let fresh := EventRecord.unhandled (Manager.forgetHandled scanned m).1.handled events
      Reports m added ((fresh.filter (·.withdraws)).map .withdrawn) hashes m' ∧
        m'.delayed = m.delayed.pushAll fresh := by
  cases run with
  | @done _ events _ turns middle record more ready handling found =>
    obtain ⟨reports, delayed⟩ := turns_report handling rfl
    have asked : Reports m [.asked (m.stakeQuery scanned block) (.ok events)] [] [] m :=
      .part (.listed (m.stakeQuery scanned block) events rfl) rfl
    have noted : Reports m (scanNotices events (.since scanned block)) [] [] m :=
      .quiet (Manager.scanNotices_quiet _ _)
    have forgot : Reports m [] [] [] (Manager.forgetHandled scanned m).1 := .unseen rfl rfl
    have recorded : Reports middle (Manager.observeRecord record middle).2 [] []
        (Manager.observeRecord record middle).1 :=
      .part (.recorded record) (List.filterMap_eq_nil_iff.mpr (middle.observeRecord_all (fun _ => rfl) record rfl))
    have heard : Reports (Manager.observeRecord record middle).1 [] [] []
        (Manager.observeHubEvents hubEvents (Manager.observeRecord record middle).1).1 := .part (.heard hubEvents) rfl
    refine ⟨events, rfl, ?_, delayed⟩
    have fetched := (asked.trans noted).trans forgot
    have whole := (((fetched.trans reports).trans found.reports).trans recorded).trans heard
    simpa [fetchEntries] using whole

theorem SweepsFor.reports {event} (run : SweepsFor block event m (.ok hashes) added m') :
    Reports m added (([event].filter (·.unlocks)).map .unlocked) hashes m' := by
  cases run with
  | swept kind sweep =>
    have unlocks : event.unlocks = true := by simp [EventRecord.unlocks, kind]
    have noted : Reports m [.logged (.handlingUnlocked event.hash)] [] [] m :=
      .quiet (Manager.quiet_cons Manager.quiet_nil)
    simpa [unlocks] using noted.trans sweep.reports
  | spared kind =>
    have other : event.unlocks = false := by simp [EventRecord.unlocks, kind]
    have nothing : Reports m [] [] [] m := .unseen rfl rfl
    simpa [other] using nothing

theorem releases_report {events r} (run : InTurn (SweepsFor block) events m r added m') {hashes : List String}
    (ok : r = .ok hashes) : Reports m added ((events.filter (·.unlocks)).map .unlocked) hashes m' := by
  induction run generalizing hashes with
  | done =>
    cases ok
    exact .unseen rfl rfl
  | stopped => cases ok
  | stoppedLater => cases ok
  | passed turn later ih =>
    cases ok
    rw [← List.singleton_append, List.filter_append, List.map_append]
    exact turn.reports.trans (ih rfl)

theorem Releases.reports (run : Releases block m (.ok hashes) added m') :
    Reports m added (((m.delayed.due block).filter (·.unlocks)).map .unlocked) hashes m' := by
  cases run with
  | released sweeps =>
    have dropped : Reports m [] [] [] (Manager.dropDue block m).1 := .unseen rfl rfl
    exact dropped.trans (releases_report sweeps rfl)

theorem CallsHub.accepts {label action method hash}
    (run : CallsHub label action method block m (.ok hash) added m') :
    Accepts added [hash] ∧ (Entry.offers added).map (·.1.action) = [action] := by
  cases run with
  | accepted gas receipt => exact ⟨rfl, rfl⟩

theorem EnsuresWorker.accepts (run : EnsuresWorker block m (.ok hashes) added m') :
    Accepts added hashes ∧ (Entry.offers added).map (·.1.action) ∈ [[], [ServerAction.addWorker]] := by
  cases run with
  | spared adding unneeded => exact ⟨rfl, by simp [Entry.offers, Entry.offer?]⟩
  | added absent add =>
    cases add with
    | called call =>
      obtain ⟨accepts, actions⟩ := call.accepts
      exact ⟨accepts, by rw [offers_asked rfl, offers_asked rfl, actions]; simp⟩

theorem RegistersServer.accepts {hash} (run : RegistersServer block m (.ok hash) added m') :
    Accepts added [hash] ∧ (Entry.offers added).map (·.1.action) = [ServerAction.registerServer] := by
  cases run with
  | registered call =>
    obtain ⟨accepts, actions⟩ := call.accepts
    refine ⟨Accepts.before accepts rfl, ?_⟩
    rw [offers_asked rfl, offers_append, List.map_append, actions]
    rfl

theorem Attempts.accepts (run : Attempts block m (.ok hashes) added m') :
    Accepts added hashes ∧ (Entry.offers added).map (·.1.action) ∈
      [[], [ServerAction.registerServer], [ServerAction.addWorker, ServerAction.registerServer]] := by
  cases run with
  | unready barred => exact ⟨rfl, by simp [Entry.offers, Entry.offer?]⟩
  | registered ready ensure register =>
    obtain ⟨added, adding⟩ := ensure.accepts
    obtain ⟨registered, registering⟩ := register.accepts
    refine ⟨added.append registered, ?_⟩
    rw [offers_append, List.map_append, registering]
    rcases List.mem_pair.mp adding with none | worker
    · rw [none]
      simp
    · rw [worker]
      simp

theorem Registers.accepts {force} (run : Registers block force m (.ok hashes) added m') :
    Accepts added hashes ∧ Still added ∧ (Entry.offers added).map (·.1.action) ∈
      [[], [ServerAction.registerServer], [ServerAction.addWorker, ServerAction.registerServer]] := by
  cases run with
  | closed pending unneeded => exact ⟨rfl, fun _ => rfl, by simp [Entry.offers, Entry.offer?]⟩
  | opened pending needed attempt =>
    obtain ⟨accepts, actions⟩ := attempt.accepts
    exact ⟨accepts, attempt.still, actions⟩

end Effect

section

open Effect

variable {ω : Type} (c : Collaborators ω)

-- A cycle that comes to its end has submitted nothing that was refused. First come the sweeps, for withdrawals among
-- the new events and then for the due unlocks as they wait, and last the worker and the server.
theorem cycle_reports_all_submissions (s : Session ω) (hubEvents : List EventRecord) (scanned current : UInt64)
    (force : Bool) (outcome : Outcome)
    (done : (s.perform c (.handle hubEvents scanned current force)).1 = .ok (.outcome outcome)) :
    let added := s.adds (s.perform c (.handle hubEvents scanned current force)).2
    (Entry.offers added).map Prod.snd = outcome.hashes.map (fun hash => .ok ⟨hash⟩) ∧
    ∃ events registering,
      added.head? = some (.asked (s.manager.stakeQuery scanned current) (.ok events)) ∧
      (Entry.offers added).map Prod.fst = (Entry.sweeps added).flatMap (·.sent) ++ registering ∧
      (let fresh := EventRecord.unhandled (s.manager.handled.filter (scanned < ·.position.block)) events
      (Entry.sweeps added).map (·.cause) = (fresh.filter (·.withdraws)).map .withdrawn ++
        (((s.manager.delayed.pushAll fresh).due current).filter (·.unlocks)).map .unlocked) ∧
      (∀ sweep ∈ Entry.sweeps added, sweep.ended = true ∧
        (sweep.sent.map (·.signer)).Sublist [s.manager.worker, s.manager.address]) ∧
      registering.map (·.action) ∈
        [[], [ServerAction.registerServer], [ServerAction.addWorker, ServerAction.registerServer]] := by
  intro added
  have run := perform_effect c s (.handle hubEvents scanned current force)
  rw [done] at run
  change Maps Reply.outcome (Cycles hubEvents scanned current force) _ _ added _ at run
  generalize (s.perform c (.handle hubEvents scanned current force)).2.manager = after at run
  generalize added = entries at run ⊢
  cases run with
  | given cycle =>
    cases cycle with
    | @done _ hashes early middle others more between sent last scan release register =>
      obtain ⟨events, asked, scans, queue⟩ := scan.reports
      have swept := scans.trans release.reports
      rw [queue] at swept
      obtain ⟨registered, still, actions⟩ := register.accepts
      obtain ⟨sweeps, told, caused, sent, careful⟩ := swept.sweeps
      have all : Entry.sweeps (early ++ more ++ last) = sweeps := by
        rw [(told.append still.tells).sweeps, List.append_nil]
      refine ⟨swept.accepts.append registered, events, (Entry.offers last).map Prod.fst, ?_, ?_, ?_, ?_, ?_⟩
      · rw [List.append_assoc, List.head?_append, asked]
        rfl
      · rw [all, offers_append, List.map_append, sent]
      · rw [all, caused]
        rfl
      · rw [all]
        exact careful
      · rw [List.map_map]
        exact actions

end

namespace Rehearsal

def parting : Rehearsal :=
  { withdrawnLocked with stakeEvents := [stakeAdded 5, stakeUnlocked 25 28, stakeWithdrawn 30] }

def parted : Outcome where
  hashes := ["0xvalue_transfer-2", "0xvalue_transfer-3", "0xvalue_transfer-4", "0xvalue_transfer-5",
    "0xadd_worker-6", "0xregister_server-7"]
  notifications := [.unstaked, .unstaked]

theorem parting_cycle_reports_two_sweeps_and_a_registration :
    let ran := (run parting staking).perform collaborators leavingCycle
    let added := (run parting staking).adds ran.2
    ran.1 = .ok (.outcome parted) ∧
      (Entry.offers added).map Prod.snd = parted.hashes.map (fun hash => .ok ⟨hash⟩) ∧
      (Entry.sweeps added).map (·.cause) = [.withdrawn (stakeWithdrawn 30), .unlocked (stakeUnlocked 25 28)] := by
  have done : ((run parting staking).perform collaborators leavingCycle).1 = .ok (.outcome parted) := by
    decide +kernel
  have caused : (Entry.sweeps ((run parting staking).adds
      ((run parting staking).perform collaborators leavingCycle).2)).map (·.cause) =
        [.withdrawn (stakeWithdrawn 30), .unlocked (stakeUnlocked 25 28)] := by decide +kernel
  exact ⟨done, (cycle_reports_all_submissions collaborators (run parting staking) [] 20 40 false parted done).1,
    caused⟩

end Rehearsal
end TransactionRelay
