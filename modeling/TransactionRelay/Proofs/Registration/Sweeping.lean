import TransactionRelay.Proofs.Registration.Running
import TransactionRelay.Registration.Sweep

namespace TransactionRelay

def sweepTransfer (account owner : String) (balance : Wei) (price : GasPrice) (block : UInt64) :
    Transaction :=
  Transaction.valueTransfer account owner (balance - Wei.ofGas transferGas price) transferGas price block

def Call.sweeps : Call → Bool
  | .balance .. | .gasPrice => true
  | .send tx => tx.action = .valueTransfer
  | _ => false

namespace Effect

inductive Transfers (account owner : String) (price : GasPrice) (block : UInt64) :
    Effect (List String)
  | unread {m} (failure : LedgerFailure) :
      Transfers account owner price block m (.error (.ledger failure))
        [.asked (.balance account) (.error failure)] m
  | tooLow {m} (balance : Wei) (low : balance < Wei.ofGas transferGas price) :
      Transfers account owner price block m (.ok [])
        [.asked (.balance account) (.ok balance),
          .logged (.tooLow account balance (Wei.ofGas transferGas price))] m
  | refused {m} (balance : Wei) (enough : ¬balance < Wei.ofGas transferGas price)
      (failure : SubmissionFailure) :
      Transfers account owner price block m (.error (.submission failure))
        [.asked (.balance account) (.ok balance), .logged (.sweeping account owner balance),
          .asked (.send (sweepTransfer account owner balance price block)) (.error failure)] m
  | sent {m} (balance : Wei) (enough : ¬balance < Wei.ofGas transferGas price) (receipt : Receipt) :
      Transfers account owner price block m (.ok [receipt.hash])
        [.asked (.balance account) (.ok balance), .logged (.sweeping account owner balance),
          .asked (.send (sweepTransfer account owner balance price block)) (.ok receipt)] m

theorem Transfers.memory {account owner price block m r added m'}
    (run : Transfers account owner price block m r added m') : m' = m := by
  cases run <;> rfl

inductive Withdraws (managerFunds : Bool) (block : UInt64) : Effect (List String)
  | ownerless {m} (unknown : m.owner = none) :
      Withdraws managerFunds block m (.ok [])
        [.logged (.ownerUnknown m.address), .emitted .unstaked] (Manager.markUnstaked m).1
  | priceUnread {m} (failure : LedgerFailure) :
      Withdraws managerFunds block m (.error (.ledger failure)) [.asked .gasPrice (.error failure)] m
  | workerFailed {m owner price failure added} (known : m.owner = some owner)
      (worker : Transfers m.worker owner price block m (.error failure) added m) :
      Withdraws managerFunds block m (.error failure) (.asked .gasPrice (.ok price) :: added) m
  | managerFailed {m owner price hashes added failure more} (asked : managerFunds = true)
      (known : m.owner = some owner)
      (worker : Transfers m.worker owner price block m (.ok hashes) added m)
      (manager : Transfers m.address owner price block m (.error failure) more m) :
      Withdraws managerFunds block m (.error failure)
        (.asked .gasPrice (.ok price) :: (added ++ more)) m
  | workerOnly {m owner price hashes added} (spared : managerFunds = false)
      (known : m.owner = some owner)
      (worker : Transfers m.worker owner price block m (.ok hashes) added m) :
      Withdraws managerFunds block m (.ok hashes)
        (.asked .gasPrice (.ok price) :: (added ++ [.emitted .unstaked])) (Manager.markUnstaked m).1
  | both {m owner price hashes added others more} (asked : managerFunds = true)
      (known : m.owner = some owner)
      (worker : Transfers m.worker owner price block m (.ok hashes) added m)
      (manager : Transfers m.address owner price block m (.ok others) more m) :
      Withdraws managerFunds block m (.ok (hashes ++ others))
        (.asked .gasPrice (.ok price) :: (added ++ more ++ [.emitted .unstaked]))
        (Manager.markUnstaked m).1

inductive Sweeps (cause : SweepCause) (managerFunds : Bool) (block : UInt64) : Effect (List String)
  | failed {m failure added m'} (run : Withdraws managerFunds block m (.error failure) added m') :
      Sweeps cause managerFunds block m (.error failure) (.sweepBegan cause :: added) m'
  | ended {m hashes added m'} (run : Withdraws managerFunds block m (.ok hashes) added m') :
      Sweeps cause managerFunds block m (.ok hashes)
        (.sweepBegan cause :: (added ++ [.sweepEnded cause])) m'

section

-- A property of the entries that a sweep is made of.
variable {p : Entry → Prop} (asked : ∀ call reply, call.sweeps = true → p (.asked call reply))
  (logged : ∀ notice, p (.logged notice)) (emitted : p (.emitted .unstaked))

include asked logged

theorem Transfers.all {account owner price block m r added m'}
    (run : Transfers account owner price block m r added m') : ∀ entry ∈ added, p entry := by
  have read := fun reply => asked (.balance account) reply rfl
  have sent := fun balance reply => asked (.send (sweepTransfer account owner balance price block)) reply rfl
  cases run <;> simp [read, sent, logged]

include emitted

theorem Withdraws.all {managerFunds block m r added m'}
    (run : Withdraws managerFunds block m r added m') : ∀ entry ∈ added, p entry := by
  have priced := fun reply => asked .gasPrice reply rfl
  cases run with
  | ownerless | priceUnread => simp [priced, logged, emitted]
  | workerFailed known worker =>
    have first := worker.all asked logged
    simpa [priced] using first
  | workerOnly spared known worker =>
    have first := worker.all asked logged
    simp only [List.mem_cons, List.mem_append, List.not_mem_nil, or_false]
    rintro entry (rfl | member | rfl)
    · exact priced _
    · exact first entry member
    · exact emitted
  | managerFailed wanted known worker manager =>
    have first := worker.all asked logged
    have second := manager.all asked logged
    simp only [List.mem_cons, List.mem_append]
    rintro entry (rfl | member | member)
    · exact priced _
    · exact first entry member
    · exact second entry member
  | both wanted known worker manager =>
    have first := worker.all asked logged
    have second := manager.all asked logged
    simp only [List.mem_cons, List.mem_append, List.not_mem_nil, or_false]
    rintro entry (rfl | (member | member) | rfl)
    · exact priced _
    · exact first entry member
    · exact second entry member
    · exact emitted

theorem Sweeps.all {cause managerFunds block m r added m'} (began : p (.sweepBegan cause))
    (ended : p (.sweepEnded cause)) (run : Sweeps cause managerFunds block m r added m') :
    ∀ entry ∈ added, p entry := by
  cases run with
  | failed run =>
    have inner := run.all asked logged emitted
    simpa [began] using inner
  | ended run =>
    have inner := run.all asked logged emitted
    simp only [List.mem_cons, List.mem_append, List.not_mem_nil, or_false]
    rintro entry (rfl | member | rfl)
    · exact began
    · exact inner entry member
    · exact ended

end

end Effect

namespace Action

open Effect

variable {ω : Type} (c : Collaborators ω)

theorem sendBalance_follows (account owner : String) (price : GasPrice) (block : UInt64) :
    (sendBalance c account owner price block).Follows (Transfers account owner price block) := by
  intro m
  refine ends_ask (fun failure => .unread failure) fun balance => ?_
  by_cases low : balance < Wei.ofGas transferGas price
  · rw [if_pos low]
    exact ends_log (ends_pure (.tooLow balance low))
  · rw [if_neg low]
    refine ends_log (ends_ask (fun failure => .refused balance low failure) fun receipt => ?_)
    exact ends_pure (.sent balance low receipt)

theorem withdrawAll_follows (managerFunds : Bool) (block : UInt64) :
    (withdrawAll c managerFunds block).Follows (Withdraws managerFunds block) := by
  intro m
  refine ends_manager ?_
  cases known : m.owner with
  | none => exact ends_log (ends_given (ends_change (ends_pure (.ownerless known))))
  | some owner =>
    refine ends_ask (fun failure => .priceUnread failure) fun price => ?_
    refine ends_bind (sendBalance_follows c m.worker owner price block m) ?_ ?_
    · intro failure added m' worker
      cases worker.memory
      exact .workerFailed known worker
    intro hashes added middle worker
    cases worker.memory
    cases managerFunds with
    | false =>
      refine ends_given (ends_given (ends_change (ends_pure ?_)))
      rw [List.append_nil]
      exact .workerOnly rfl known worker
    | true =>
      refine ends_bind (sendBalance_follows c m.address owner price block m) ?_ ?_
      · intro failure more m' manager
        cases manager.memory
        exact .managerFailed rfl known worker manager
      intro others more middle manager
      cases manager.memory
      refine ends_given (ends_change (ends_pure ?_))
      rw [← List.append_assoc]
      exact .both rfl known worker manager

theorem sweep_follows (cause : SweepCause) (managerFunds : Bool) (block : UInt64) :
    (sweep c cause managerFunds block).Follows (Sweeps cause managerFunds block) := by
  intro m
  refine ends_note (ends_bind (withdrawAll_follows c managerFunds block m) ?_ ?_)
  · exact fun failure added m' run => .failed run
  · exact fun hashes added middle run => ends_note (ends_pure (.ended run))

end Action
end TransactionRelay
