import TransactionRelay.Amount

namespace TransactionRelay

inductive EventKind
  | stakeAdded
  | stakeUnlocked
  | stakeWithdrawn
  | stakePenalized
  | relayWorkersAdded
  | relayServerRegistered
  deriving DecidableEq, Repr

namespace EventKind

def name : EventKind → String
  | .stakeAdded => "StakeAdded"
  | .stakeUnlocked => "StakeUnlocked"
  | .stakeWithdrawn => "StakeWithdrawn"
  | .stakePenalized => "StakePenalized"
  | .relayWorkersAdded => "RelayWorkersAdded"
  | .relayServerRegistered => "RelayServerRegistered"

def all : List EventKind :=
  [.stakeAdded, .stakeUnlocked, .stakeWithdrawn, .stakePenalized, .relayWorkersAdded,
    .relayServerRegistered]

def ofName? (text : String) : Option EventKind := all.find? (·.name == text)

theorem ofName_name (kind : EventKind) : ofName? kind.name = some kind := by
  cases kind <;> decide

def ofStake : List EventKind := [.stakeAdded, .stakeUnlocked, .stakeWithdrawn]

def ofHub : List EventKind := [.relayServerRegistered, .relayWorkersAdded]

end EventKind

inductive EventData
  | stakeAdded (manager owner : String) (stake : Wei) (unstakeDelay : UInt64)
  | stakeUnlocked (manager owner : String) (withdrawBlock : UInt64)
  | stakeWithdrawn (manager owner : String) (amount : Wei)
  | stakePenalized (manager beneficiary : String) (reward : Wei)
  | relayWorkersAdded (manager : String) (workers : List String) (count : UInt64)
  | relayServerRegistered (manager url : String)
  deriving DecidableEq, Repr

def EventData.kind : EventData → EventKind
  | .stakeAdded .. => .stakeAdded
  | .stakeUnlocked .. => .stakeUnlocked
  | .stakeWithdrawn .. => .stakeWithdrawn
  | .stakePenalized .. => .stakePenalized
  | .relayWorkersAdded .. => .relayWorkersAdded
  | .relayServerRegistered .. => .relayServerRegistered

structure Position where
  block : UInt64
  transaction : UInt64
  log : UInt64
  deriving DecidableEq, Repr

def Position.before (a b : Position) : Bool :=
  a.block < b.block || (a.block == b.block &&
    (a.transaction < b.transaction || (a.transaction == b.transaction && a.log < b.log)))

structure EventKey where
  position : Position
  hash : String
  deriving DecidableEq, Repr

structure EventRecord where
  position : Position
  hash : String
  data : EventData
  deriving DecidableEq, Repr

namespace EventRecord

def kind (event : EventRecord) : EventKind := event.data.kind

def block (event : EventRecord) : UInt64 := event.position.block

def key (event : EventRecord) : EventKey := ⟨event.position, event.hash⟩

def followedBy (event other : EventRecord) : Bool := event.position.before other.position

def workers (event : EventRecord) : List String :=
  match event.data with
  | .relayWorkersAdded _ workers _ => workers
  | _ => []

-- Of two events at one position the known one stays.
def later (known : Option EventRecord) (event : EventRecord) : Option EventRecord :=
  match known with
  | none => some event
  | some earlier => if earlier.followedBy event then some event else some earlier

def latest (events : List EventRecord) : Option EventRecord := events.foldl later none

end EventRecord

-- The withdraw block is zero while the stake is locked.
structure StakeReading where
  stake : Wei := 0
  unstakeDelay : UInt64 := 0
  withdrawBlock : UInt64 := 0
  owner : String := ""
  deriving DecidableEq, Repr

def StakeReading.locked (reading : StakeReading) : Bool := reading.withdrawBlock == 0

def StakeReading.isZero (reading : StakeReading) : Bool := reading.stake == 0

end TransactionRelay
