import TransactionRelay.Amount

namespace TransactionRelay

-- The manager is unknown when a directory knew the relay by its url only.
structure RelayRecord where
  manager : Option String := none
  url : String := ""
  penalized : Bool := false
  registered : Bool := false
  stakeAdded : Bool := false
  deriving DecidableEq, Repr

namespace RelayRecord

def ofUrl (url : String) : RelayRecord := { url }

def listed (relay : RelayRecord) : Bool := relay.registered && !relay.penalized

def active (relay : RelayRecord) : Bool := relay.registered && relay.stakeAdded && !relay.penalized

end RelayRecord

structure PingReply where
  worker : String := ""
  manager : String := ""
  hub : String := ""
  minGasPrice : GasPrice := 0
  ready : Bool := false
  version : String := ""
  deriving DecidableEq, Repr

structure RelayInfo where
  reply : PingReply
  relay : RelayRecord
  deriving DecidableEq, Repr

-- A manager the record does not know is taken from the reply, if the reply names one.
def RelayInfo.ofPing (reply : PingReply) (relay : RelayRecord) : RelayInfo :=
  if (relay.manager.getD "").isEmpty && !reply.manager.isEmpty then
    ⟨reply, { relay with manager := some reply.manager }⟩
  else ⟨reply, relay⟩

structure RelayRequest where
  sender : String := ""
  target : String := ""
  data : String := ""
  gasPrice : Option GasPrice := none
  deploysWallet : Bool := false
  deriving DecidableEq, Repr

end TransactionRelay
