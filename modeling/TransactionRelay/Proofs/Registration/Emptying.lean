import Mathlib.Data.List.Forall2
import TransactionRelay.Proofs.Registration.Spending
import TransactionRelay.Proofs.Registration.Submissions

namespace TransactionRelay

def Manager.purses (m : Manager) (managerFunds : Bool) : List String :=
  m.worker :: if managerFunds then [m.address] else []

def Entry.price? : Entry → Option GasPrice
  | .asked .gasPrice (.ok price) => some price
  | _ => none

def Entry.solvent (price : GasPrice) (entries : List Entry) : List (String × Wei) :=
  (entries.filterMap balance?).filter fun reading => 21000 * price.toNat ≤ reading.2.toNat

-- A transfer to the owner of all that was read. Nothing wraps: the sum is one of natural numbers.
structure Transaction.Empties (owner : String) (price : GasPrice) (block : UInt64) (tx : Transaction)
    (reading : String × Wei) : Prop where
  signer : tx.signer = reading.1
  destination : tx.destination = owner
  action : tx.action = .valueTransfer
  method : tx.method = none
  gasLimit : tx.gasLimit.toNat = 21000
  gasPrice : tx.gasPrice = some price
  creationBlock : tx.creationBlock = block
  exact : tx.value.toNat + tx.gasLimit.toNat * price.toNat = reading.2.toNat

-- Accounts are read in their order, and each that holds enough is emptied. Only an answer that is missing
-- keeps one of them from being read.
structure Emptying (owner : String) (price : GasPrice) (block : UInt64) (accounts : List String) (ended : Bool)
    (added : List Entry) : Prop where
  read : (added.filterMap Entry.balance?).map Prod.fst <+: accounts
  whole : ended = true → (added.filterMap Entry.balance?).map Prod.fst = accounts
  given : List.Forall₂ (Transaction.Empties owner price block) ((Entry.offers added).map Prod.fst)
    (Entry.solvent price added)
  answered : ended = true ↔ ∀ entry ∈ added, entry.failed = false

theorem solvent_append (price : GasPrice) (first second : List Entry) :
    Entry.solvent price (first ++ second) = Entry.solvent price first ++ Entry.solvent price second := by
  rw [Entry.solvent, List.filterMap_append, List.filter_append]
  rfl

theorem lacking_iff (price : GasPrice) (balance : Wei) :
    balance < Wei.ofGas transferGas price ↔ ¬21000 * price.toNat ≤ balance.toNat := by
  rw [BitVec.lt_def, ofGas_toNat, Nat.not_le]

section

variable {account owner : String} {balance : Wei} {price : GasPrice} {block : UInt64} {rest : List Entry}

theorem solvent_lacking (low : balance < Wei.ofGas transferGas price) :
    Entry.solvent price (.asked (.balance account) (.ok balance) :: rest) = Entry.solvent price rest := by
  have lacking := (lacking_iff price balance).mp low
  exact List.filter_cons_of_neg (by simpa using lacking)

theorem solvent_enough (enough : ¬balance < Wei.ofGas transferGas price) :
    Entry.solvent price (.asked (.balance account) (.ok balance) :: rest) =
      (account, balance) :: Entry.solvent price rest := by
  have pays := (lacking_iff price balance).not_left.mp enough
  exact List.filter_cons_of_pos (by simpa using pays)

theorem sweepTransfer_empties (enough : ¬balance < Wei.ofGas transferGas price) :
    (sweepTransfer account owner balance price block).Empties owner price block (account, balance) where
  signer := rfl
  destination := rfl
  action := rfl
  method := rfl
  gasLimit := rfl
  gasPrice := rfl
  creationBlock := rfl
  exact := sweepTransfer_cost enough

end

namespace Emptying

variable {owner : String} {price : GasPrice} {block : UInt64} {accounts others : List String} {ended : Bool}
  {added more : List Entry}

theorem append (first : Emptying owner price block accounts true added)
    (second : Emptying owner price block others ended more) :
    Emptying owner price block (accounts ++ others) ended (added ++ more) where
  read := by
    rw [List.filterMap_append, List.map_append, first.whole rfl]
    exact (List.prefix_append_right_inj accounts).mpr second.read
  whole := by
    intro done
    rw [List.filterMap_append, List.map_append, first.whole rfl, second.whole done]
  given := by
    rw [offers_append, List.map_append, solvent_append]
    exact List.rel_append first.given second.given
  answered := by
    rw [List.forall_mem_append, second.answered]
    exact (and_iff_right (first.answered.mp rfl)).symm

-- After a failure no further account is read.
theorem stopped (first : Emptying owner price block accounts false added) :
    Emptying owner price block (accounts ++ others) false added where
  read := first.read.trans (List.prefix_append accounts others)
  whole := fun done => by cases done
  given := first.given
  answered := first.answered

theorem idle {entry : Entry} (unread : entry.balance? = none) (unsent : entry.offer? = none)
    (well : entry.failed = false) : Emptying owner price block [] true [entry] where
  read := by simp [unread]
  whole := fun _ => by simp [unread]
  given := by simp [Entry.offers, Entry.solvent, unread, unsent]
  answered := by simp [well]

end Emptying

namespace Effect

variable {block : UInt64} {m m' : Manager} {r : Except RegistrationFailure (List String)} {added : List Entry}

theorem Transfers.empties {account owner price} (run : Transfers account owner price block m r added m') :
    Emptying owner price block [account] r.isOk added where
  read := by
    cases run with
    | unread failure => exact List.nil_prefix
    | tooLow | refused | sent => exact List.prefix_rfl
  whole := by
    intro done
    cases run with
    | unread failure => cases done
    | tooLow | refused | sent => rfl
  given := by
    cases run with
    | unread failure => exact .nil
    | tooLow balance low =>
      rw [solvent_lacking low]
      exact .nil
    | refused balance enough failure | sent balance enough receipt =>
      rw [solvent_enough enough]
      exact .cons (sweepTransfer_empties enough) .nil
  answered := by
    cases run with
    | unread | refused => simp [Entry.failed, Except.isOk, Except.toBool]
    | tooLow | sent => simp [Entry.failed, Except.isOk, Except.toBool]

theorem Transfers.priceless {account owner price} (run : Transfers account owner price block m r added m') :
    added.filterMap Entry.price? = [] := by
  cases run <;> rfl

theorem Withdraws.empties {managerFunds owner} (run : Withdraws managerFunds block m r added m')
    (known : m.owner = some owner) :
    (r.isOk = false ∧ added.filterMap Entry.call? = [.gasPrice]) ∨
      ∃ price, added.filterMap Entry.price? = [price] ∧
        Emptying owner price block (m.purses managerFunds) r.isOk added := by
  cases run with
  | ownerless unknown =>
    rw [known] at unknown
    cases unknown
  | priceUnread failure => exact .inl ⟨rfl, rfl⟩
  | @workerFailed _ _ price _ _ own worker =>
    cases known.symm.trans own
    refine .inr ⟨price, by simp [Entry.price?, worker.priceless], ?_⟩
    exact ((Emptying.idle rfl rfl rfl).append worker.empties).stopped
  | @managerFailed _ _ price _ _ _ _ asked own worker manager =>
    cases known.symm.trans own
    cases asked
    refine .inr ⟨price, by simp [Entry.price?, worker.priceless, manager.priceless], ?_⟩
    exact (Emptying.idle rfl rfl rfl).append (worker.empties.append manager.empties)
  | @workerOnly _ _ price _ _ spared own worker =>
    cases known.symm.trans own
    cases spared
    refine .inr ⟨price, by simp [Entry.price?, worker.priceless], ?_⟩
    exact (Emptying.idle rfl rfl rfl).append (worker.empties.append (.idle rfl rfl rfl))
  | @both _ _ price _ _ _ _ asked own worker manager =>
    cases known.symm.trans own
    cases asked
    refine .inr ⟨price, by simp [Entry.price?, worker.priceless, manager.priceless], ?_⟩
    exact (Emptying.idle rfl rfl rfl).append ((worker.empties.append manager.empties).append (.idle rfl rfl rfl))

end Effect

section

open Effect

variable {ω : Type} (c : Collaborators ω)

-- `Withdraws` leaves open whether the price is asked for without an owner, so this is walked through by itself.
theorem Action.withdrawAll_ownerless {m : Manager} (unknown : m.owner = none) (managerFunds : Bool)
    (block : UInt64) : (withdrawAll c managerFunds block).Ends m fun r added _ =>
      r = .ok [] ∧ added.filterMap Entry.call? = [] := by
  refine ends_manager ?_
  rw [unknown]
  exact ends_log (ends_given (ends_change (ends_pure ⟨rfl, rfl⟩)))

-- Value and gas make up the balance as plain numbers, whatever the price. Without an owner nothing is asked, and the
-- withdrawal is announced all the same; one that fails leaves the memory as it was.
theorem withdrawal_empties_exactly (s : Session ω) (managerFunds : Bool) (block : UInt64) :
    let ran := (Action.withdrawAll c managerFunds block).runOn s
    let added := s.adds ran.2
    (match s.manager.owner with
    | none => ran.1 = .ok [] ∧ added.filterMap Entry.call? = []
    | some owner =>
      (ran.1.isOk = false ∧ added.filterMap Entry.call? = [.gasPrice]) ∨
      ∃ price, added.filterMap Entry.price? = [price] ∧
        Emptying owner price block (s.manager.purses managerFunds) ran.1.isOk added) ∧
    match ran.1 with
    | .ok hashes => Accepts added hashes ∧ ran.2.manager =
        { s.manager with unstaked := true, notifications := s.manager.notifications ++ [.unstaked] }
    | .error failure => Blames added failure ∧ ran.2.manager = s.manager := by
  intro ran added
  have run : Withdraws managerFunds block s.manager ran.1 added ran.2.manager :=
    (Action.withdrawAll_follows c managerFunds block s.manager).adds
  constructor
  · cases owner : s.manager.owner with
    | none => exact (Action.withdrawAll_ownerless c owner managerFunds block).adds
    | some owner => exact run.empties owner
  · obtain ⟨_, _, _, _, _, _, memory⟩ := run.given
    cases ended : ran.1 with
    | ok hashes =>
      rw [ended] at run memory
      exact ⟨run.accepts, memory⟩
    | error failure =>
      rw [ended] at run memory
      exact ⟨run.blames, memory⟩

end

namespace Rehearsal

def highest : GasPrice := .allOnes 128

-- The worker holds what a transfer costs at the highest price, and the manager one unit less.
def dear : Rehearsal :=
  let fee := Wei.ofGas transferGas highest
  { leaving [] with gasPrice := highest, balances := [(worker, fee), (manager, fee - 1)] }

def owned (world : Rehearsal) : Session Rehearsal :=
  { start world with manager := { (start world).manager with owner := some owner } }

example : Entry.offers ((owned dear).adds ((Action.withdrawAll collaborators true 40).runOn (owned dear)).2) =
    [(.valueTransfer worker owner 0 21000 highest 40, .ok ⟨"0xvalue_transfer-0"⟩)] := by
  decide +kernel

end Rehearsal
end TransactionRelay
