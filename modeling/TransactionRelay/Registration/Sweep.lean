import TransactionRelay.Registration.Session

namespace TransactionRelay

def transferGas : UInt64 := 21000

namespace Action

variable {ω : Type} (c : Collaborators ω)

def sendBalance (account owner : String) (price : GasPrice) (block : UInt64) :
    Action ω (List String) := do
  let cost := Wei.ofGas transferGas price
  let balance ← ask c (.balance account)
  if balance < cost then
    log (.tooLow account balance cost)
    return []
  log (.sweeping account owner balance)
  let receipt ← ask c
    (.send (Transaction.valueTransfer account owner (balance - cost) transferGas price block))
  return [receipt.hash]

-- Nothing moves while the owner is unknown; the manager counts as unstaked all the same.
def withdrawAll (managerFunds : Bool) (block : UInt64) : Action ω (List String) := do
  let m ← manager
  let hashes ← match m.owner with
    | some owner => do
      let price ← ask c .gasPrice
      let fromWorker ← sendBalance c m.worker owner price block
      let fromManager ← if managerFunds then sendBalance c m.address owner price block else pure []
      pure (fromWorker ++ fromManager)
    | none => do
      log (.ownerUnknown m.address)
      pure []
  change Manager.markUnstaked
  return hashes

def sweep (cause : SweepCause) (managerFunds : Bool) (block : UInt64) : Action ω (List String) := do
  note [.sweepBegan cause]
  let hashes ← withdrawAll c managerFunds block
  note [.sweepEnded cause]
  return hashes

end Action
end TransactionRelay
