import TransactionRelay.Proofs.Polling.PollGate
import TransactionRelay.Proofs.Registration.AfterLeaving

namespace TransactionRelay

namespace Entry

def sent? : Entry → Option Transaction
  | .asked (.send tx) (.ok _) => some tx
  | _ => none

def starts (action : ServerAction) (entry : Entry) : Bool := entry.sent?.any (·.action = action)

def frees (action : ServerAction) : Entry → Bool
  | .asked (.isPending other) (.ok pending) => other = action && !pending
  | _ => false

-- Whether the last word on the action is that nothing is pending, before an entry and after it.
def clear (action : ServerAction) (before : Bool) (entry : Entry) : Bool :=
  entry.frees action || (before && !entry.starts action)

def cleared (action : ServerAction) (entries : List Entry) : Bool := entries.foldl (clear action) false

def advertised? : Entry → Option String
  | .asked (.registerMethod url) _ => some url
  | _ => none

end Entry

open Entry (cleared clear)

-- What may be in flight after these entries, when nothing was before them. A transaction is mined at any
-- time, and no answer says that an action is not pending while one of its transactions is in flight.
inductive Flies : List Entry → List Transaction → Prop
  | nothing : Flies [] []
  | next {journal flying entry} (before : Flies journal flying)
      (honest : ∀ action, entry.frees action = true → ∀ tx ∈ flying, tx.action ≠ action) :
      Flies (journal ++ [entry]) (flying ++ entry.sent?.toList)
  | mined {journal flying left} (before : Flies journal flying) (some : left.Sublist flying) :
      Flies journal left

-- No answer among these entries denies what has been in flight since before them, or was accepted earlier
-- among them.
def Entry.honest (flying : List Transaction) : List Entry → Bool
  | [] => true
  | entry :: rest =>
    (flying.all fun tx => !entry.frees tx.action) && honest (flying ++ entry.sent?.toList) rest

theorem Flies.unmined {journal rest : List Entry} {flying : List Transaction} (flies : Flies journal flying)
    (honest : Entry.honest flying rest = true) :
    Flies (journal ++ rest) (flying ++ rest.filterMap Entry.sent?) := by
  induction rest generalizing journal flying with
  | nil => simpa using flies
  | cons entry rest ih =>
    obtain ⟨first, later⟩ := Bool.and_eq_true_iff.mp honest
    have step : Flies (journal ++ [entry]) (flying ++ entry.sent?.toList) := by
      refine .next flies fun action freed tx member same => ?_
      have kept := List.all_eq_true.mp first tx member
      simp [same, freed] at kept
    have whole := ih step later
    rw [List.append_assoc, List.append_assoc] at whole
    cases sent : entry.sent? with
    | none => simpa [sent] using whole
    | some tx => simpa [sent] using whole

-- Each accepted transaction of the action comes after an answer that none is pending, and no other one
-- comes between the two.
def Guarded (action : ServerAction) (entries : List Entry) : Prop :=
  ∀ before entry after, entries = before ++ entry :: after → entry.starts action = true →
    cleared action before = true

section

variable {action : ServerAction} {first second entries : List Entry}

theorem clear_more (begun : Bool) (clears : entries.foldl (clear action) false = true) :
    entries.foldl (clear action) begun = true := by
  induction entries generalizing begun with
  | nil => cases clears
  | cons entry rest ih =>
    rw [List.foldl_cons] at clears ⊢
    cases freed : entry.frees action with
    | true => simpa [clear, freed] using clears
    | false => exact ih _ (by simpa [clear, freed] using clears)

theorem clear_idle (idle : ∀ entry ∈ entries, entry.starts action = false) :
    entries.foldl (clear action) true = true := by
  induction entries with
  | nil => rfl
  | cons entry rest ih =>
    have stays : clear action true entry = true := by simp [clear, idle entry (by simp)]
    rw [List.foldl_cons, stays]
    exact ih fun other member => idle other (List.mem_cons_of_mem _ member)

theorem cleared_append (clears : cleared action second = true) :
    cleared action (first ++ second) = true := by
  rw [cleared, List.foldl_append]
  exact clear_more _ clears

theorem guarded_idle (idle : ∀ entry ∈ entries, entry.starts action = false) : Guarded action entries := by
  rintro before entry after rfl starts
  rw [idle entry (by simp)] at starts
  cases starts

theorem Guarded.append (one : Guarded action first) (two : Guarded action second) :
    Guarded action (first ++ second) := by
  intro before entry after split starts
  rcases List.append_eq_append_iff.mp split with ⟨middle, rfl, rest⟩ | ⟨middle, whole, rest⟩
  · exact cleared_append (two middle entry after rest starts)
  · cases middle with
    | nil =>
      have clears := two [] entry after rest.symm starts
      cases clears
    | cons other more =>
      obtain ⟨rfl, rfl⟩ := List.cons_eq_cons.mp rest
      exact one before entry more whole starts

theorem Guarded.earlier (guarded : Guarded action entries) (earlier : first <+: entries) :
    Guarded action first := by
  obtain ⟨rest, rfl⟩ := earlier
  rintro before entry after rfl starts
  exact guarded before entry (after ++ rest) (by simp) starts

theorem guarded_freed {entry : Entry} (frees : entry.frees action = true)
    (once : entries.countP (·.starts action) ≤ 1) : Guarded action (entry :: entries) := by
  intro before other after split starts
  cases before with
  | nil =>
    obtain ⟨rfl, rfl⟩ := List.cons_eq_cons.mp split
    cases entry with
    | asked call reply =>
      cases call with
      | isPending => cases starts
      | _ => cases frees
    | _ => cases frees
  | cons head middle =>
    have same : entry = head := (List.cons_eq_cons.mp split).1
    have rest : entries = middle ++ other :: after := (List.cons_eq_cons.mp split).2
    have idle : ∀ early ∈ middle, early.starts action = false := by
      rw [rest, List.countP_append, List.countP_cons_of_pos starts] at once
      intro early member
      have none : middle.countP (·.starts action) = 0 := by omega
      exact Bool.eq_false_iff.mpr (List.countP_eq_zero.mp none early member)
    have begun : clear action false head = true := by simp [clear, ← same, frees]
    rw [cleared, List.foldl_cons, begun]
    exact clear_idle idle

-- A guarded action has one transaction in flight at most, and none after an answer that none is pending.
theorem Flies.few {journal : List Entry} {flying : List Transaction} (flies : Flies journal flying)
    (guarded : Guarded action journal) :
    flying.countP (·.action = action) ≤ 1 ∧
      (cleared action journal = true → flying.countP (·.action = action) = 0) := by
  induction flies with
  | nothing => exact ⟨Nat.zero_le _, fun _ => rfl⟩
  | mined _ some ih =>
    obtain ⟨few, none⟩ := ih guarded
    have fewer := some.countP_le (p := fun tx => decide (tx.action = action))
    refine ⟨by omega, fun clears => ?_⟩
    have all := none clears
    omega
  | @next journal flying entry _ honest ih =>
    obtain ⟨few, none⟩ := ih (guarded.earlier (List.prefix_append _ _))
    have after : cleared action (journal ++ [entry]) = clear action (cleared action journal) entry := by
      simp [cleared]
    rw [List.countP_append, after]
    cases freed : entry.frees action with
    | true =>
      have absent : flying.countP (·.action = action) = 0 :=
        List.countP_eq_zero.mpr fun tx member => by simpa using honest action freed tx member
      have silent : entry.sent? = .none := by
        cases entry with
        | asked call reply =>
          cases call with
          | send => cases freed
          | _ => rfl
        | _ => rfl
      simp [absent, silent]
    | false =>
      cases starts : entry.starts action with
      | true =>
        have absent := none (guarded journal entry [] rfl starts)
        have single : entry.sent?.toList.countP (·.action = action) ≤ 1 := by
          cases entry.sent? with
          | none => simp
          | some tx => exact List.countP_le_length
        refine ⟨by omega, fun clears => ?_⟩
        simp [clear, freed, starts] at clears
      | false =>
        have other : entry.sent?.toList.countP (·.action = action) = 0 := by
          cases sent : entry.sent? with
          | none => rfl
          | some tx => simpa [Entry.starts, sent] using starts
        refine ⟨by omega, fun clears => ?_⟩
        have before : cleared action journal = true := by simpa [clear, freed, starts] using clears
        have absent := none before
        omega

end

theorem Asks.idle {action : ServerAction} {entries : List Entry} (asks : Asks Call.early entries)
    (registers : action.registers = true) : ∀ entry ∈ entries, entry.starts action = false := by
  intro entry member
  cases entry with
  | asked call reply =>
    cases call with
    | send tx =>
      have transfer : tx.action = .valueTransfer := of_decide_eq_true (asks _ member _ rfl)
      cases reply with
      | error failure => rfl
      | ok receipt =>
        refine decide_eq_false fun same => ?_
        rw [← same, transfer] at registers
        cases registers
    | _ => rfl
  | _ => rfl

theorem idle_quiet {action : ServerAction} {entries : List Entry} (quiet : Manager.Quiet entries) :
    ∀ entry ∈ entries, entry.starts action = false := quiet.all fun _ => rfl

namespace Effect

section

variable (other : ServerAction) {block : UInt64}

theorem CallsHub.starts {label action method m r added m'}
    (run : CallsHub label action method block m r added m') :
    added.countP (·.starts other) ≤ if action = other then 1 else 0 := by
  cases run with
  | unestimated | refused => simp [Entry.starts, Entry.sent?]
  | accepted gas receipt =>
    simp [List.countP_cons, Entry.starts, Entry.sent?, Manager.hubCall, Transaction.contractCall]

theorem EnsuresWorker.starts {m r added m'} (run : EnsuresWorker block m r added m') :
    added.countP (·.starts other) ≤ if ServerAction.addWorker = other then 1 else 0 := by
  have adds {m r added m'} (run : AddsWorker block m r added m') :
      added.countP (·.starts other) ≤ if ServerAction.addWorker = other then 1 else 0 := by
    cases run with
    | unencoded failure => simp [Entry.starts, Entry.sent?]
    | called call =>
      rw [List.countP_cons_of_neg (by simp [Entry.starts, Entry.sent?])]
      exact call.starts other
  cases run with
  | unread | spared => simp [Entry.starts, Entry.sent?]
  | failed absent add | added absent add =>
    rw [List.countP_cons_of_neg (by simp [Entry.starts, Entry.sent?])]
    exact adds add

theorem RegistersServer.starts {m r added m'} (run : RegistersServer block m r added m') :
    added.countP (·.starts other) ≤ if ServerAction.registerServer = other then 1 else 0 := by
  cases run with
  | unencoded failure => simp [Entry.starts, Entry.sent?]
  | failed call =>
    rw [List.countP_cons_of_neg (by simp [Entry.starts, Entry.sent?])]
    exact call.starts other
  | registered call =>
    rw [List.countP_cons_of_neg (by simp [Entry.starts, Entry.sent?]), List.countP_append]
    exact call.starts other

theorem Attempts.starts {m r added m'} (run : Attempts block m r added m') :
    added.countP (·.starts other) ≤ 1 := by
  have apart : (if ServerAction.addWorker = other then 1 else 0) +
      (if ServerAction.registerServer = other then 1 else 0) ≤ 1 := by cases other <;> decide
  cases run with
  | unready barred => simp [Entry.starts, Entry.sent?]
  | stopped ready ensure =>
    have worker := ensure.starts other
    omega
  | failed ready ensure register | registered ready ensure register =>
    have worker := ensure.starts other
    have server := register.starts other
    rw [List.countP_append]
    omega

end

theorem EnsuresWorker.guarded {block m r added m'} (run : EnsuresWorker block m r added m') :
    Guarded .addWorker added := by
  have counted := run.starts .addWorker
  cases run with
  | unread | spared => exact guarded_idle (by simp [Entry.starts, Entry.sent?])
  | failed absent add | added absent add =>
    rw [List.countP_cons_of_neg (by simp [Entry.starts, Entry.sent?])] at counted
    exact guarded_freed (by rfl) counted

theorem Attempts.guarded {block m r added m'} (run : Attempts block m r added m') :
    Guarded .addWorker added := by
  have other {m r more m'} (register : RegistersServer block m r more m') : Guarded .addWorker more := by
    have counted := register.starts .addWorker
    refine guarded_idle fun entry member => ?_
    exact Bool.eq_false_iff.mpr (List.countP_eq_zero.mp (Nat.le_zero.mp counted) entry member)
  cases run with
  | unready barred => exact guarded_idle (by simp [Entry.starts, Entry.sent?])
  | stopped ready ensure => exact ensure.guarded
  | failed ready ensure register | registered ready ensure register =>
    exact ensure.guarded.append (other register)

-- The gate asks for a pending registration of the server, the attempt for one of the worker.
theorem Registers.guarded {block m r added m' action} (run : Registers block false m r added m')
    (registers : action.registers = true) : Guarded action added := by
  cases run with
  | unread | closed => exact guarded_idle (by simp [Entry.starts, Entry.sent?])
  | @opened _ _ inner pending needed attempt =>
    have free : pending = false ∧ m.registrationCorrect = false := by simpa using needed
    cases action with
    | registerServer => exact guarded_freed (by rw [free.1]; rfl) (attempt.starts _)
    | addWorker =>
      have gate : Guarded .addWorker [.asked (.isPending .registerServer) (.ok pending)] :=
        guarded_idle (by simp [Entry.starts, Entry.sent?])
      exact gate.append attempt.guarded
    | valueTransfer | relayCall => cases registers

theorem Registers.advertises {block force m r added m'} (run : Registers block force m r added m') :
    ∀ url ∈ added.filterMap Entry.advertised?, url = m.settings.registrationUrl := by
  have calls {label action method m r added m'} (run : CallsHub label action method block m r added m') :
      added.filterMap Entry.advertised? = [] := by
    cases run <;> rfl
  have adds {m r added m'} (run : AddsWorker block m r added m') :
      added.filterMap Entry.advertised? = [] := by
    cases run with
    | unencoded => rfl
    | called call => rw [List.filterMap_cons_none rfl, calls call]
  have ensures {m r added m'} (run : EnsuresWorker block m r added m') :
      added.filterMap Entry.advertised? = [] := by
    cases run with
    | unread | spared => rfl
    | failed absent add | added absent add => rw [List.filterMap_cons_none rfl, adds add]
  have server {m r added m'} (run : RegistersServer block m r added m') :
      added.filterMap Entry.advertised? = [m.settings.registrationUrl] := by
    have seen (reply) : Entry.advertised? (.asked (.registerMethod m.settings.registrationUrl) reply) =
        some m.settings.registrationUrl := rfl
    cases run with
    | unencoded => rfl
    | failed call => rw [List.filterMap_cons_some (seen _), calls call]
    | registered call =>
      rw [List.filterMap_cons_some (seen _), List.filterMap_append, calls call]
      rfl
  cases run with
  | unread | closed => simp [Entry.advertised?]
  | opened pending needed attempt =>
    rw [List.filterMap_cons_none rfl]
    cases attempt with
    | unready => simp [Entry.advertised?]
    | stopped ready ensure => simp [ensures ensure]
    | failed ready ensure register | registered ready ensure register =>
      simp [ensures ensure, server register]

end Effect

open Effect

namespace Poller

variable {scanned : UInt64} {m m' : Manager} {added : List Entry} {r : Except PollFailure (Outcome × UInt64)}

theorem Polls.guarded {action : ServerAction} (run : Polls scanned m r added m')
    (registers : action.registers = true) : Guarded action added := by
  rcases run.gate with early | ⟨_, _, _, _, _, _, _, rfl, quiet, _, _, _, gate⟩
  · exact guarded_idle (early.idle registers)
  · exact (guarded_idle (gate.early.idle registers)).append
      ((gate.register.guarded registers).append (guarded_idle (idle_quiet quiet)))

theorem Polls.advertises (run : Polls scanned m r added m') :
    ∀ url ∈ added.filterMap Entry.advertised?, url = m.settings.registrationUrl := by
  have unseen {entries : List Entry} (early : Asks Call.early entries) :
      entries.filterMap Entry.advertised? = [] := by
    refine early.unseen _ fun entry asked => ?_
    cases entry with
    | asked call reply =>
      cases call with
      | registerMethod => cases asked _ rfl
      | _ => rfl
    | _ => rfl
  rcases run.gate with early | ⟨_, _, _, _, _, _, _, rfl, quiet, _, _, _, gate⟩
  · simp [unseen early]
  · have silent := quiet.filterMap Entry.advertised? fun _ => rfl
    rw [List.filterMap_append, List.filterMap_append, unseen gate.early, silent, ← gate.kept.settings]
    simpa using gate.register.advertises

theorem Polls.registered (run : Polls scanned m r added m') {record : RelayRecord}
    (fetched : record ∈ added.filterMap Entry.record?)
    (own : record.manager.any (Address.same · m.address) = true)
    (url : record.url = m.settings.registrationUrl) : Entry.registrations added = [] := by
  have unregistered {entries : List Entry} (early : Asks Call.early entries) :
      entries.filterMap Entry.registration? = [] := by
    refine early.unseen _ fun entry asked => ?_
    cases entry with
    | asked call reply =>
      cases call with
      | send tx =>
        have transfer : tx.action = .valueTransfer := of_decide_eq_true (asked _ rfl)
        exact if_neg (by simp [transfer, ServerAction.registers])
      | _ => rfl
    | _ => rfl
  rcases run.gate with early | ⟨_, _, before, last, tail, known, middle, rfl, quiet, _, _, _, gate⟩
  · exact unregistered early
  · have silent := quiet.filterMap Entry.registration? fun _ => rfl
    rw [Entry.registrations, List.filterMap_append, List.filterMap_append, unregistered gate.early, silent,
      List.append_nil, List.nil_append]
    by_contra some
    obtain ⟨_, wrong, _⟩ := register_open gate.register some
    rw [gate.records quiet] at fetched
    have same : record = known := List.mem_singleton.mp fetched
    rw [Manager.registrationCorrect, gate.recorded, gate.kept.address, gate.kept.settings, ← same] at wrong
    simp [own, url] at wrong

end Poller

section

variable {ω : Type} (c : Collaborators ω)

theorem polls_guarded {action : ServerAction} (registers : action.registers = true) (p : Poller ω) (n : Nat) :
    ∃ added, (Poller.polls c n p).session.journal = p.session.journal ++ added ∧ Guarded action added := by
  induction n with
  | zero => exact ⟨[], (List.append_nil _).symm, guarded_idle (by simp)⟩
  | succ n ih =>
    obtain ⟨added, journal, before⟩ := ih
    obtain ⟨r, more, later, polled, _⟩ := Poller.pollOnce_polls c (Poller.polls c n p)
    refine ⟨added ++ more, ?_, before.append (polled.guarded registers)⟩
    rw [← List.append_assoc, ← journal]
    exact later

-- The submitter says that an action is pending for as long as one of its transactions is in flight. Nothing is
-- assumed of when transactions are mined, or of the answers of the others.
theorem registrations_in_flight_once (p : Poller ω) (n : Nat) :
    let q := Poller.polls c n p
    let added := q.session.adds (q.pollOnce c).2.session
    let own := p.session.manager
    (∀ moment flying, moment <+: p.session.adds q.session → Flies moment flying →
      flying.countP (·.action = .registerServer) ≤ 1 ∧ flying.countP (·.action = .addWorker) ≤ 1) ∧
      (∀ url ∈ added.filterMap Entry.advertised?, url = own.settings.registrationUrl) ∧
      ∀ record ∈ added.filterMap Entry.record?, record.manager.any (Address.same · own.address) = true →
        record.url = own.settings.registrationUrl → Entry.registrations added = [] := by
  intro q added own
  obtain ⟨r, entries, journal, polled, _⟩ := Poller.pollOnce_polls c q
  have gained : added = entries := adds_eq journal
  obtain ⟨_, _, kept⟩ := Poller.polls_obey keeps_course (fun m _ => keeps_refl m _)
    (fun _ _ => ⟨rfl, rfl, rfl, rfl, rfl⟩) c p n
  refine ⟨?_, ?_, ?_⟩
  · intro moment flying within flies
    have few {action : ServerAction} (registers : action.registers = true) :
        flying.countP (·.action = action) ≤ 1 := by
      obtain ⟨whole, begun, guarded⟩ := polls_guarded c registers p n
      rw [adds_eq begun] at within
      exact (flies.few (guarded.earlier within)).1
    exact ⟨few rfl, few rfl⟩
  · rw [gained, ← kept.settings]
    exact polled.advertises
  · intro record fetched carried url
    rw [gained] at fetched ⊢
    rw [← kept.address] at carried
    rw [← kept.settings] at url
    exact polled.registered fetched carried url

end

namespace Rehearsal

def registering : Rehearsal where
  stake := { stake := 1000, unstakeDelay := 100, owner }
  balances := [(manager, 1000000)]
  stakeEvents := [stakeAdded 5]
  relayData := [{ url := "http://other.example.com" }]
  autoPending := true
  script := some [{ block := some 20 }, { block := some 40 }]

theorem registering_in_flight_once :
    let flying := (polled registering 2).session.journal.filterMap Entry.sent?
    flying.map (·.action) = [.addWorker, .registerServer] ∧
      flying.countP (·.action = .registerServer) ≤ 1 ∧ flying.countP (·.action = .addWorker) ≤ 1 := by
  have sent : ((polled registering 2).session.journal.filterMap Entry.sent?).map (·.action) =
      [.addWorker, .registerServer] := by decide +kernel
  have honest : Entry.honest [] (polled registering 2).session.journal = true := by decide +kernel
  refine ⟨sent, ?_⟩
  unfold polled at honest ⊢
  have begun (after : Session Rehearsal) :
      (Poller.fresh settings manager worker registering 10 {} 0).session.adds after = after.journal := rfl
  obtain ⟨few, _⟩ := registrations_in_flight_once collaborators
    (.fresh settings manager worker registering 10 {} 0) 2
  rw [begun] at few
  have flies := Flies.nothing.unmined honest
  rw [List.nil_append, List.nil_append] at flies
  exact few _ _ (List.prefix_refl _) flies

end Rehearsal
end TransactionRelay
