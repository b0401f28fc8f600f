import TransactionRelay.Proofs.Registration.Parts

namespace TransactionRelay

structure SweepRecord where
  cause : SweepCause
  sent : List Transaction
  announced : Bool
  ended : Bool
  deriving DecidableEq, Repr

-- A journal is read from its last entry on: what belongs to a sweep that began earlier, and the
-- sweeps that began later.
structure SweepTale where
  sent : List Transaction := []
  announced : Bool := false
  ended : Bool := false
  sweeps : List SweepRecord := []
  deriving DecidableEq, Repr

def SweepRecord.given (account : String) (record : SweepRecord) : Nat :=
  record.sent.countP (·.signer = account)

def SweepRecord.givenIn (account : String) (sweeps : List SweepRecord) : Nat :=
  (sweeps.flatMap (·.sent)).countP (·.signer = account)

theorem SweepRecord.givenIn_cons (account : String) (record : SweepRecord) (rest : List SweepRecord) :
    givenIn account (record :: rest) = record.given account + givenIn account rest := by
  simp [givenIn, given]

def Entry.transfer? : Entry → Option Transaction
  | .asked (.send tx) (.ok _) => if tx.action = .valueTransfer then some tx else none
  | _ => none

def SweepTale.recount : Entry → SweepTale → SweepTale
  | .sweepBegan cause, tale => { sweeps := ⟨cause, tale.sent, tale.announced, tale.ended⟩ :: tale.sweeps }
  | .sweepEnded _, tale => { tale with ended := true }
  | .emitted .unstaked, tale => { tale with announced := true }
  | entry, tale => { tale with sent := entry.transfer?.toList ++ tale.sent }

def Entry.tale (entries : List Entry) : SweepTale := entries.foldr SweepTale.recount {}

def Entry.sweeps (entries : List Entry) : List SweepRecord := (tale entries).sweeps

namespace Entry

def mark (underWay : Option SweepCause) : Entry → Option SweepCause
  | .sweepBegan cause => some cause
  | .sweepEnded _ => none
  | _ => underWay

def sweeping (entries : List Entry) : Option SweepCause := entries.foldl mark none

def unmarked : Entry → Bool
  | .sweepBegan _ | .sweepEnded _ => false
  | _ => true

theorem foldl_mark {entries : List Entry} (plain : ∀ entry ∈ entries, entry.unmarked = true)
    (underWay : Option SweepCause) : entries.foldl mark underWay = underWay := by
  induction entries with
  | nil => rfl
  | cons entry rest ih =>
    have same : mark underWay entry = underWay := by
      have quiet := plain entry (by simp)
      cases entry with
      | sweepBegan | sweepEnded => cases quiet
      | _ => rfl
    rw [List.foldl_cons, same]
    exact ih fun other member => plain other (List.mem_cons_of_mem _ member)

-- A sweep that is under way after the later entries began among them.
theorem sweeping_append {first second : List Entry} {cause : SweepCause}
    (late : sweeping second = some cause) : sweeping (first ++ second) = some cause := by
  unfold sweeping at *
  rw [List.foldl_append]
  generalize first.foldl mark none = underWay
  induction second with
  | nil => cases late
  | cons entry rest ih =>
    rw [List.foldl_cons] at late ⊢
    cases entry with
    | sweepBegan | sweepEnded => exact late
    | _ => exact ih late

theorem sweeping_late {first second : List Entry} (none : sweeping (first ++ second) = none) :
    sweeping second = .none := by
  cases late : sweeping second with
  | none => rfl
  | some cause => rw [sweeping_append late] at none; cases none

end Entry

open SweepTale (recount)

theorem tale_later (entries : List Entry) (later : List SweepRecord) :
    entries.foldr recount { sweeps := later } =
      { Entry.tale entries with sweeps := Entry.sweeps entries ++ later } := by
  induction entries with
  | nil => rfl
  | cons entry rest ih =>
    rw [List.foldr_cons, ih]
    simp only [Entry.sweeps, Entry.tale, List.foldr_cons]
    cases entry with
    | emitted notification => cases notification <;> rfl
    | _ => rfl

-- The entries tell of these sweeps, and nothing in them belongs to a sweep that began earlier.
def Tells (entries : List Entry) (sweeps : List SweepRecord) : Prop := Entry.tale entries = { sweeps }

theorem Tells.sweeps {entries sweeps} (tells : Tells entries sweeps) : Entry.sweeps entries = sweeps := by
  rw [Entry.sweeps, tells]

theorem Tells.append {first second : List Entry} {early late : List SweepRecord}
    (one : Tells first early) (two : Tells second late) : Tells (first ++ second) (early ++ late) := by
  unfold Tells Entry.tale at two ⊢
  rw [List.foldr_append, two, tale_later, one.sweeps, one]

theorem Tells.transfers {entries sweeps} (tells : Tells entries sweeps) :
    entries.filterMap Entry.transfer? = sweeps.flatMap (·.sent) := by
  have all (entries : List Entry) : entries.filterMap Entry.transfer? =
      (Entry.tale entries).sent ++ (Entry.tale entries).sweeps.flatMap (·.sent) := by
    induction entries with
    | nil => rfl
    | cons entry rest ih =>
      rw [List.filterMap_cons, ih]
      simp only [Entry.tale, List.foldr_cons]
      cases entry with
      | emitted notification => cases notification <;> rfl
      | sweepBegan | sweepEnded => rfl
      | asked call reply =>
        cases found : Entry.transfer? (.asked call reply) <;> simp [recount, found]
      | _ => rfl
  rw [all, tells]
  rfl

def Still (entries : List Entry) : Prop := ∀ tale, entries.foldr recount tale = tale

theorem Still.tells {entries} (still : Still entries) : Tells entries [] := still _

theorem still_all {entries : List Entry} (each : ∀ entry ∈ entries, ∀ tale, recount entry tale = tale) :
    Still entries := by
  intro tale
  induction entries with
  | nil => rfl
  | cons entry rest ih =>
    have later := ih fun other member => each other (List.mem_cons_of_mem _ member)
    rw [List.foldr_cons, later, each entry (by simp)]

theorem recount_asked {call : Call} {reply : Except call.Failure call.Answer}
    (other : Entry.transfer? (.asked call reply) = none) (tale : SweepTale) :
    recount (.asked call reply) tale = tale := by
  simp [recount, other]

theorem Part.still {m added m'} (part : Part m added m') : Still added := by
  refine still_all (part.all (fun call reply idle tale => recount_asked ?_ tale) (fun _ _ => rfl)
    (fun _ _ _ => rfl) (fun _ => rfl) fun _ _ => rfl)
  cases call with
  | send => cases idle
  | _ => rfl

theorem Effect.Attempts.still {block m r added m'} (run : Effect.Attempts block m r added m') :
    Still added := by
  refine still_all (run.all (fun call reply registers tale => recount_asked ?_ tale) fun _ _ => rfl)
  cases call with
  | send tx =>
    cases reply with
    | error failure => rfl
    | ok receipt =>
      refine if_neg fun transfer => ?_
      rw [Call.registers, transfer] at registers
      cases registers
  | _ => rfl

inductive Gives (account : String) (added : List Entry) : List Transaction → Prop
  | nothing : Gives account added []
  | emptied {owner balance price block} (read : .asked (.balance account) (.ok balance) ∈ added)
      (enough : ¬balance < Wei.ofGas transferGas price) :
      Gives account added [sweepTransfer account owner balance price block]

theorem Gives.mono {account sent} {few many : List Entry} (gives : Gives account few sent)
    (more : ∀ entry ∈ few, entry ∈ many) : Gives account many sent := by
  cases gives with
  | nothing => exact .nothing
  | emptied read enough => exact .emptied (more _ read) enough

theorem Gives.count {account added sent} (gives : Gives account added sent) (other : String) :
    sent.countP (·.signer = other) = if account = other then sent.length else 0 := by
  cases gives with
  | nothing => simp
  | @emptied owner balance price block read enough =>
    have signer : (sweepTransfer account owner balance price block).signer = account := rfl
    simp [List.countP_cons, signer]

theorem Gives.once {account added sent} (gives : Gives account added sent) : sent.length ≤ 1 := by
  cases gives <;> simp

-- One sweep in the journal and in the memory. The worker gives first; the manager's own transfer is
-- the last thing that can fail.
structure Swept (m : Manager) (cause : SweepCause) (added : List Entry) (record : SweepRecord)
    (m' : Manager) : Prop where
  told : Tells added [record]
  caused : record.cause = cause
  given : ∃ fromWorker fromManager, record.sent = fromWorker ++ fromManager ∧
    Gives m.worker added fromWorker ∧ Gives m.address added fromManager ∧
    (fromManager ≠ [] → record.ended = true)
  announced : record.announced = record.ended
  memory : m' = if record.ended then (Manager.markUnstaked m).1 else m

namespace Swept

variable {m : Manager} {cause : SweepCause} {added : List Entry} {record : SweepRecord} {m' : Manager}

theorem kept (swept : Swept m cause added record m') :
    m'.worker = m.worker ∧ m'.address = m.address ∧ m'.handled = m.handled ∧ m'.delayed = m.delayed := by
  rw [swept.memory]
  split <;> exact ⟨rfl, rfl, rfl, rfl⟩

theorem once (swept : Swept m cause added record m') (apart : m.worker ≠ m.address) (account : String) :
    record.given account ≤ 1 := by
  obtain ⟨fromWorker, fromManager, sent, worker, manager, _⟩ := swept.given
  have workerOnce := worker.once
  have managerOnce := manager.once
  rw [SweepRecord.given, sent, List.countP_append, worker.count, manager.count]
  split
  next isWorker =>
    rw [if_neg fun isManager => apart (isWorker.trans isManager.symm)]
    omega
  next => split <;> omega

-- Once the manager has given nothing can fail.
theorem managerLast (swept : Swept m cause added record m') (apart : m.worker ≠ m.address)
    (gave : 0 < record.given m.address) : record.ended = true := by
  obtain ⟨fromWorker, fromManager, sent, worker, manager, last⟩ := swept.given
  rw [SweepRecord.given, sent, List.countP_append, worker.count, manager.count, if_neg apart,
    if_pos rfl] at gave
  exact last (List.ne_nil_of_length_pos (by omega))

end Swept

namespace Effect

theorem Transfers.given {account owner price block m r added m'}
    (run : Transfers account owner price block m r added m') :
    ∃ sent, (∀ tale, added.foldr recount tale = { tale with sent := sent ++ tale.sent }) ∧
      Gives account added sent ∧ (sent ≠ [] → ∃ hashes, r = .ok hashes) := by
  cases run with
  | unread failure => exact ⟨[], fun _ => rfl, .nothing, by simp⟩
  | tooLow balance low => exact ⟨[], fun _ => rfl, .nothing, by simp⟩
  | refused balance enough failure => exact ⟨[], fun _ => rfl, .nothing, by simp⟩
  | sent balance enough receipt =>
    exact ⟨[sweepTransfer account owner balance price block], fun _ => rfl,
      .emptied (by simp) enough, fun _ => ⟨_, rfl⟩⟩

theorem Withdraws.given {managerFunds block m r added m'}
    (run : Withdraws managerFunds block m r added m') :
    ∃ fromWorker fromManager,
      (∀ tale, added.foldr recount tale = { tale with
        sent := fromWorker ++ (fromManager ++ tale.sent), announced := r.isOk || tale.announced }) ∧
      Gives m.worker added fromWorker ∧ Gives m.address added fromManager ∧
      (fromManager ≠ [] → r.isOk = true) ∧ m' = if r.isOk then (Manager.markUnstaked m).1 else m := by
  cases run with
  | ownerless unknown => exact ⟨[], [], fun _ => rfl, .nothing, .nothing, fun some => absurd rfl some, rfl⟩
  | priceUnread failure =>
    exact ⟨[], [], fun _ => rfl, .nothing, .nothing, fun some => absurd rfl some, rfl⟩
  | workerFailed known worker =>
    obtain ⟨sent, told, gives, _⟩ := worker.given
    refine ⟨sent, [], ?_, gives.mono (by simp +contextual), .nothing, fun some => absurd rfl some, rfl⟩
    intro tale
    rw [List.foldr_cons, told]
    rfl
  | managerFailed asked known worker manager =>
    obtain ⟨sent, told, gives, _⟩ := worker.given
    obtain ⟨others, toldAlso, givesAlso, done⟩ := manager.given
    refine ⟨sent, others, ?_, gives.mono (by simp +contextual), givesAlso.mono (by simp +contextual), ?_, rfl⟩
    · intro tale
      rw [List.foldr_cons, List.foldr_append, toldAlso, told]
      rfl
    · intro some
      obtain ⟨hashes, wrong⟩ := done some
      cases wrong
  | workerOnly spared known worker =>
    obtain ⟨sent, told, gives, _⟩ := worker.given
    refine ⟨sent, [], ?_, gives.mono (by simp +contextual), .nothing, fun some => absurd rfl some, rfl⟩
    intro tale
    rw [List.foldr_cons, List.foldr_append, told]
    rfl
  | both asked known worker manager =>
    obtain ⟨sent, told, gives, _⟩ := worker.given
    obtain ⟨others, toldAlso, givesAlso, _⟩ := manager.given
    refine ⟨sent, others, ?_, gives.mono (by simp +contextual), givesAlso.mono (by simp +contextual),
      fun _ => rfl, rfl⟩
    intro tale
    rw [List.foldr_cons, List.foldr_append, List.foldr_append, toldAlso, told]
    rfl

theorem Sweeps.swept {cause managerFunds block m r added m'}
    (run : Sweeps cause managerFunds block m r added m') :
    ∃ record, record.ended = r.isOk ∧ Swept m cause added record m' := by
  cases run with
  | failed run =>
    obtain ⟨fromWorker, fromManager, told, worker, manager, last, memory⟩ := run.given
    refine ⟨⟨cause, fromWorker ++ fromManager, false, false⟩, rfl, ?_, rfl, ?_, rfl, memory⟩
    · rw [Tells, Entry.tale, List.foldr_cons, told]
      simp [recount, Except.isOk, Except.toBool]
    · refine ⟨fromWorker, fromManager, rfl, worker.mono ?_, manager.mono ?_, last⟩
      · exact fun entry member => List.mem_cons_of_mem _ member
      · exact fun entry member => List.mem_cons_of_mem _ member
  | @ended _ hashes added _ run =>
    obtain ⟨fromWorker, fromManager, told, worker, manager, last, memory⟩ := run.given
    have more : ∀ entry ∈ added, entry ∈ .sweepBegan cause :: (added ++ [.sweepEnded cause]) := by
      simp +contextual
    refine ⟨⟨cause, fromWorker ++ fromManager, true, true⟩, rfl, ?_, rfl, ?_, rfl, memory⟩
    · rw [Tells, Entry.tale, List.foldr_cons, List.foldr_append, told]
      simp [recount, Except.isOk, Except.toBool]
    · exact ⟨fromWorker, fromManager, rfl, worker.mono more, manager.mono more, fun _ => rfl⟩

theorem Sweeps.kept {cause managerFunds block m r added m'}
    (run : Sweeps cause managerFunds block m r added m') :
    m'.handled = m.handled ∧ m'.delayed = m.delayed := by
  obtain ⟨_, _, swept⟩ := run.swept
  exact swept.kept.2.2

end Effect
end TransactionRelay
