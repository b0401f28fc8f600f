import TransactionRelay.Registration.Session

namespace TransactionRelay.Action

variable {ω : Type} (c : Collaborators ω)

def refreshBalance : Action ω Unit := do
  let amount ← ask c (.balance (← manager).address)
  change (Manager.observeBalance amount)

def refreshStake : Action ω Unit := do
  let reading ← ask c (.stakeReading (← manager).address)
  change (Manager.observeStake reading)

def callHub (label : String) (action : ServerAction) (method : MethodCall) (block : UInt64) :
    Action ω String := do
  let m ← manager
  let gas ← ask c (.estimateGas label method m.address)
  let receipt ← ask c
    (.send (Transaction.contractCall m.address m.settings.hub action method gas block))
  return receipt.hash

def addWorker (block : UInt64) : Action ω String := do
  let method ← ask c (.addWorkersMethod [(← manager).worker])
  callHub c "AddRelayWorkers" .addWorker method block

def registerServer (block : UInt64) : Action ω String := do
  let m ← manager
  let method ← ask c (.registerMethod m.settings.registrationUrl)
  let hash ← callHub c "RegisterRelay" .registerServer method block
  log (.registered m.address m.settings.hub m.settings.registrationUrl)
  return hash

-- Whether a registration is needed is for the caller to decide.
def attemptRegistration (block : UInt64) : Action ω (List String) := do
  let m ← manager
  if !m.mayRegister then
    log .notReady
    return []
  let adding ← ask c (.isPending .addWorker)
  let added ← if m.workerAdded || adding then pure [] else do
    pure [← addWorker c block]
  let registered ← registerServer c block
  return added ++ [registered]

end TransactionRelay.Action
