import TransactionRelay.Amount

namespace TransactionRelay

inductive ServerAction
  | registerServer
  | addWorker
  | valueTransfer
  | relayCall
  deriving DecidableEq, Repr

namespace ServerAction

def all : List ServerAction := [.registerServer, .addWorker, .valueTransfer, .relayCall]

def name : ServerAction → String
  | .registerServer => "RegisterServer"
  | .addWorker => "AddWorker"
  | .valueTransfer => "ValueTransfer"
  | .relayCall => "RelayCall"

def label : ServerAction → String
  | .registerServer => "register_server"
  | .addWorker => "add_worker"
  | .valueTransfer => "value_transfer"
  | .relayCall => "relay_call"

def ofName? (text : String) : Option ServerAction := all.find? (·.name == text)

def ofLabel? (text : String) : Option ServerAction := all.find? (·.label == text)

end ServerAction

structure MethodCall where
  name : String
  data : String
  deriving DecidableEq, Repr

-- The gas price is left to the submitter when absent.
structure Transaction where
  signer : String
  action : ServerAction
  destination : String
  gasLimit : UInt64
  gasPrice : Option GasPrice
  value : Wei
  method : Option MethodCall
  creationBlock : UInt64
  deriving DecidableEq, Repr

namespace Transaction

def contractCall (signer destination : String) (action : ServerAction) (method : MethodCall)
    (gasLimit creationBlock : UInt64) : Transaction :=
  { signer, action, destination, gasLimit, gasPrice := none, value := 0, method := some method,
    creationBlock }

def valueTransfer (signer destination : String) (value : Wei) (gasLimit : UInt64)
    (gasPrice : GasPrice) (creationBlock : UInt64) : Transaction :=
  { signer, action := .valueTransfer, destination, gasLimit, gasPrice := some gasPrice, value,
    method := none, creationBlock }

-- The most that a transaction takes from its signer: its value and the gas it may use.
def cost (tx : Transaction) : Nat :=
  tx.value.toNat + tx.gasLimit.toNat * (tx.gasPrice.getD 0).toNat

end Transaction

structure Receipt where
  hash : String
  deriving DecidableEq, Repr

end TransactionRelay
