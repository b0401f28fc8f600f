import TransactionRelay.Proofs.Registration.SweepLog
import TransactionRelay.Rehearsal.Ledger

namespace TransactionRelay

def Transaction.spentBy (account : String) : List Transaction → Nat
  | [] => 0
  | tx :: rest => (if tx.signer = account then tx.cost else 0) + spentBy account rest

def Entry.balance? : Entry → Option (String × Wei)
  | .asked (.balance account) (.ok amount) => some (account, amount)
  | _ => none

def Steady (balance : String → Wei) (entries : List Entry) : Prop :=
  ∀ reading ∈ entries.filterMap Entry.balance?, reading.2 = balance reading.1

instance (balance : String → Wei) (entries : List Entry) : Decidable (Steady balance entries) :=
  inferInstanceAs (Decidable (∀ reading ∈ entries.filterMap Entry.balance?, _))

open SweepRecord (givenIn)
open Transaction (spentBy)

theorem steady_append {balance : String → Wei} {first second : List Entry} :
    Steady balance (first ++ second) ↔ Steady balance first ∧ Steady balance second := by
  simp only [Steady, List.filterMap_append, List.mem_append, or_imp, forall_and]

theorem ofGas_toNat (price : GasPrice) : (Wei.ofGas transferGas price).toNat = 21000 * price.toNat := by
  have small : price.toNat < 2 ^ 128 := price.isLt
  have gas : transferGas.toNat = 21000 := rfl
  simp only [Wei.ofGas, BitVec.toNat_mul, BitVec.toNat_ofNat, BitVec.toNat_setWidth, gas]
  rw [Nat.mod_eq_of_lt (a := price.toNat) (by omega)]
  omega

-- The value and the gas of a transfer make up the balance that was read.
theorem sweepTransfer_cost {account owner : String} {balance : Wei} {price : GasPrice} {block : UInt64}
    (enough : ¬balance < Wei.ofGas transferGas price) :
    (sweepTransfer account owner balance price block).cost = balance.toNat := by
  have gas := ofGas_toNat price
  have fits : Wei.ofGas transferGas price ≤ balance := BitVec.not_lt.mp enough
  have value : (balance - Wei.ofGas transferGas price).toNat = balance.toNat - 21000 * price.toNat := by
    rw [BitVec.toNat_sub_of_le fits, gas]
  have bound : 21000 * price.toNat ≤ balance.toNat := gas ▸ BitVec.le_def.mp fits
  change (balance - Wei.ofGas transferGas price).toNat + 21000 * price.toNat = balance.toNat
  omega

-- A sweep in which each account gives at most once, and then all that it holds.
structure SweepRecord.Exact (balance : String → Wei) (record : SweepRecord) : Prop where
  once : ∀ account, record.given account ≤ 1
  whole : ∀ tx ∈ record.sent, tx.cost = (balance tx.signer).toNat

def Spends (balance : String → Wei) : Relation := fun m added m' =>
  m.worker ≠ m.address → Steady balance added → ∃ sweeps, Tells added sweeps ∧
    m'.worker = m.worker ∧ m'.address = m.address ∧ ∀ record ∈ sweeps, record.Exact balance

theorem Gives.whole {balance : String → Wei} {account added sent} (gives : Gives account added sent)
    (steady : Steady balance added) : ∀ tx ∈ sent, tx.cost = (balance tx.signer).toNat := by
  cases gives with
  | nothing => simp
  | @emptied owner found price block read enough =>
    intro tx member
    have same : found = balance account := steady _ (List.mem_filterMap.mpr ⟨_, read, rfl⟩)
    rw [List.mem_singleton.mp member, sweepTransfer_cost enough, same]
    rfl

theorem Swept.exact {balance : String → Wei} {m cause added record m'}
    (swept : Swept m cause added record m') (apart : m.worker ≠ m.address)
    (steady : Steady balance added) : record.Exact balance := by
  obtain ⟨fromWorker, fromManager, sent, worker, manager, _⟩ := swept.given
  refine ⟨swept.once apart, fun tx member => ?_⟩
  rw [sent] at member
  rcases List.mem_append.mp member with byWorker | byManager
  · exact worker.whole steady tx byWorker
  · exact manager.whole steady tx byManager

theorem sweep_spends {balance : String → Wei} {cause managerFunds block m r added m'}
    (run : Effect.Sweeps cause managerFunds block m r added m') : Spends balance m added m' := by
  intro apart steady
  obtain ⟨record, _, swept⟩ := run.swept
  obtain ⟨worker, address, _, _⟩ := swept.kept
  refine ⟨[record], swept.told, worker, address, fun other member => ?_⟩
  rw [List.mem_singleton.mp member]
  exact swept.exact apart steady

theorem spends_trail (balance : String → Wei) : Trail (Spends balance) where
  refl m _ _ := ⟨[], rfl, rfl, rfl, by simp⟩
  trans := by
    intro m added middle more m' first second apart steady
    obtain ⟨steadyFirst, steadySecond⟩ := steady_append.mp steady
    obtain ⟨early, toldEarly, worker, address, exactEarly⟩ := first apart steadyFirst
    obtain ⟨late, toldLate, workerLate, addressLate, exactLate⟩ :=
      second (by rwa [worker, address]) steadySecond
    refine ⟨early ++ late, toldEarly.append toldLate, workerLate.trans worker,
      addressLate.trans address, fun record member => ?_⟩
    rcases List.mem_append.mp member with before | after
    · exact exactEarly record before
    · exact exactLate record after
  part part _ _ := by
    obtain ⟨worker, address⟩ := part.accounts
    exact ⟨[], part.still.tells, worker, address, by simp⟩

theorem spends_course (balance : String → Wei) : Course (Spends balance) where
  toTrail := spends_trail balance
  handled run := run.obeys (spends_trail balance) sweep_spends
  released run := run.obeys (spends_trail balance) (fun _ _ _ => ⟨[], rfl, rfl, rfl, by simp⟩) sweep_spends
  pended _ _ _ _ := ⟨[], rfl, rfl, rfl, by simp⟩
  attempted run _ _ := by
    cases run.memory
    exact ⟨[], run.still.tells, rfl, rfl, by simp⟩
  demanded run := sweep_spends run

theorem spentBy_whole {balance : String → Wei} (account : String) {sent : List Transaction}
    (whole : ∀ tx ∈ sent, tx.cost = (balance tx.signer).toNat) :
    spentBy account sent = sent.countP (·.signer = account) * (balance account).toNat := by
  induction sent with
  | nil => simp [spentBy]
  | cons tx rest ih =>
    have cost := whole tx (by simp)
    have later := ih fun other member => whole other (List.mem_cons_of_mem _ member)
    rw [spentBy, later, List.countP_cons]
    by_cases own : tx.signer = account
    · simp [own, cost, Nat.add_mul, Nat.add_comm]
    · simp [own]

theorem givenIn_le_length {account : String} {sweeps : List SweepRecord}
    (once : ∀ record ∈ sweeps, record.given account ≤ 1) : givenIn account sweeps ≤ sweeps.length := by
  induction sweeps with
  | nil => simp [givenIn]
  | cons record rest ih =>
    have first := once record (by simp)
    have later := ih fun other member => once other (List.mem_cons_of_mem _ member)
    rw [SweepRecord.givenIn_cons, List.length_cons]
    omega

section

variable {ω : Type} (c : Collaborators ω)

-- Each sweep reads the balance anew, so a cycle takes the balance once for each accepted transfer. That is more than
-- the account holds as soon as two were accepted, unless there was nothing to take.
theorem cycle_spends_per_transfer (s : Session ω) (hubEvents : List EventRecord)
    (scanned current : UInt64) (force : Bool) (balance : String → Wei)
    (apart : s.manager.worker ≠ s.manager.address)
    (steady : Steady balance (s.adds (s.perform c (.handle hubEvents scanned current force)).2))
    (account : String) :
    let added := s.adds (s.perform c (.handle hubEvents scanned current force)).2
    let count := givenIn account (Entry.sweeps added)
    let spent := spentBy account (added.filterMap Entry.transfer?)
    (∀ sweep ∈ Entry.sweeps added, spentBy account sweep.sent ≤ (balance account).toNat) ∧
      spent = count * (balance account).toNat ∧ count ≤ (Entry.sweeps added).length ∧
      (spent ≤ (balance account).toNat ↔ count ≤ 1 ∨ (balance account).toNat = 0) := by
  intro added count spent
  obtain ⟨sweeps, told, _, _, exact⟩ := command_obeys (spends_course balance)
    (fun _ _ _ _ _ => ⟨[], rfl, rfl, rfl, by simp⟩) (perform_effect c s _) apart steady
  have all : Entry.sweeps added = sweeps := told.sweeps
  have total : spent = count * (balance account).toNat := by
    have sent : added.filterMap Entry.transfer? = sweeps.flatMap (·.sent) := told.transfers
    simp only [spent, count, sent, all, givenIn]
    refine spentBy_whole account fun tx member => ?_
    obtain ⟨record, among, sending⟩ := List.mem_flatMap.mp member
    exact (exact record among).whole tx sending
  refine ⟨?_, total, ?_, ?_⟩
  · intro sweep member
    rw [all] at member
    rw [spentBy_whole account (exact sweep member).whole]
    have once := Nat.mul_le_mul_right (balance account).toNat ((exact sweep member).once account)
    rwa [Nat.one_mul] at once
  · simp only [count, all]
    exact givenIn_le_length fun record member => (exact record member).once account
  · rw [total]
    constructor
    · intro bound
      rcases Nat.lt_or_ge 1 count with many | few
      · have twice := Nat.mul_le_mul_right (balance account).toNat many
        omega
      · exact .inl few
    · rintro (few | nothing)
      · have once := Nat.mul_le_mul_right (balance account).toNat few
        rwa [Nat.one_mul] at once
      · simp [nothing]

end

namespace Rehearsal

def twoWithdrawals : Rehearsal := leaving [stakeWithdrawn 30, stakeWithdrawn 31]

def twice : List Entry :=
  (run twoWithdrawals [.initialise]).adds
    ((run twoWithdrawals [.initialise]).perform collaborators (.handle [] 20 40 false)).2

theorem twice_spends_per_transfer :
    spentBy worker (twice.filterMap Entry.transfer?) =
      givenIn worker (Entry.sweeps twice) * (twoWithdrawals.balanceOf worker).toNat := by
  rw [twice]
  exact (cycle_spends_per_transfer collaborators (run twoWithdrawals [.initialise]) [] 20 40 false
    twoWithdrawals.balanceOf (by decide +kernel) (by decide +kernel) worker).2.1

theorem twice_overspends :
    worker ≠ manager ∧ Steady twoWithdrawals.balanceOf twice ∧
      ¬spentBy worker (twice.filterMap Entry.transfer?) ≤ (twoWithdrawals.balanceOf worker).toNat ∧
      ¬spentBy manager (twice.filterMap Entry.transfer?) ≤ (twoWithdrawals.balanceOf manager).toNat := by
  decide +kernel

end Rehearsal
end TransactionRelay
