import TransactionRelay.BlockRange
import TransactionRelay.Failure
import TransactionRelay.Registration.DelayedQueue
import TransactionRelay.Relay
import TransactionRelay.Requirement
import TransactionRelay.Settings.Logging
import TransactionRelay.Transaction

namespace TransactionRelay

inductive Notification
  | unstaked
  | removed
  deriving DecidableEq, Repr

def Notification.name : Notification → String
  | .unstaked => "Unstaked"
  | .removed => "Removed"

def Notification.ofName? (text : String) : Option Notification :=
  [Notification.unstaked, .removed].find? (·.name == text)

inductive Stage
  | unstaked
  | stakedUnlocked
  | stakedLocked
  | registerable
  | registered
  | unstaking
  deriving DecidableEq, Repr

def Stage.name : Stage → String
  | .unstaked => "Unstaked"
  | .stakedUnlocked => "StakedUnlocked"
  | .stakedLocked => "StakedLocked"
  | .registerable => "Registerable"
  | .registered => "Registered"
  | .unstaking => "Unstaking"

def Stage.text : Stage → String
  | .unstaked => "unstaked"
  | .stakedUnlocked => "staked (unlocked)"
  | .stakedLocked => "staked (locked)"
  | .registerable => "registerable"
  | .registered => "registered"
  | .unstaking => "unstaking"

inductive Call
  | stakeReading (manager : String)
  | balance (account : String)
  | blockNumber
  | gasPrice
  | stakeEvents (kinds : List EventKind) (topics : List String) (range : BlockRange)
  | hubEvents (kinds : List EventKind) (topics : List String) (range : BlockRange)
  | relayData (managers : List String)
  | addWorkersMethod (workers : List String)
  | registerMethod (url : String)
  | estimateGas (label : String) (method : MethodCall) (signer : String)
  | isPending (action : ServerAction)
  | send (transaction : Transaction)
  deriving DecidableEq, Repr

@[reducible] def Call.Answer : Call → Type
  | .stakeReading .. => StakeReading
  | .balance .. => Wei
  | .blockNumber => UInt64
  | .gasPrice => GasPrice
  | .stakeEvents .. => List EventRecord
  | .hubEvents .. => List EventRecord
  | .relayData .. => List RelayRecord
  | .addWorkersMethod .. => MethodCall
  | .registerMethod .. => MethodCall
  | .estimateGas .. => UInt64
  | .isPending .. => Bool
  | .send .. => Receipt

@[reducible] def Call.Failure : Call → Type
  | .estimateGas .. => SubmissionFailure
  | .isPending .. => SubmissionFailure
  | .send .. => SubmissionFailure
  | _ => LedgerFailure

def Call.report : (call : Call) → call.Failure → RegistrationFailure
  | .estimateGas .., failure => .submission failure
  | .isPending .., failure => .submission failure
  | .send .., failure => .submission failure
  | .stakeReading .., failure => .ledger failure
  | .balance .., failure => .ledger failure
  | .blockNumber, failure => .ledger failure
  | .gasPrice, failure => .ledger failure
  | .stakeEvents .., failure => .ledger failure
  | .hubEvents .., failure => .ledger failure
  | .relayData .., failure => .ledger failure
  | .addWorkersMethod .., failure => .ledger failure
  | .registerMethod .., failure => .ledger failure

-- Why funds are swept: on demand, or on account of an event.
inductive SweepCause
  | demand
  | withdrawn (event : EventRecord)
  | unlocked (event : EventRecord)
  deriving DecidableEq, Repr

structure Prerequisites where
  balance : Requirement
  stake : Requirement
  stakeLocked : Bool
  manager : String
  worker : String
  owner : Option String
  deriving DecidableEq, Repr

inductive Notice
  | flipped (requirement : Requirement)
  | lockChanged (locked : Bool)
  | notRegistered (missing : Prerequisites)
  | firstStake
  | scanned (count : Nat) (first : UInt64)
  | found (event : EventRecord)
  | alreadyHandled (event : EventRecord)
  | delaying (due : UInt64)
  | alreadyQueued
  | handlingWithdrawn (hash : String)
  | handlingUnlocked (hash : String)
  | ignoring (kind : EventKind)
  | delisted (manager hub : String) (penalized : Bool)
  | notReady
  | registered (manager hub url : String)
  | ownerUnknown (manager : String)
  | tooLow (account : String) (balance cost : Wei)
  | sweeping (account owner : String) (balance : Wei)
  | noNewBlock (scanned : UInt64)
  | submitted (hashes : List String) (block : UInt64)
  | polling (manager : String)
  | stopping (manager : String)
  | stage (stage : Stage)
  | retrying (attempt millis : Nat)
  | givingUp (failures : Nat)
  deriving DecidableEq, Repr

inductive Entry
  | asked (call : Call) (answer : Except call.Failure call.Answer)
  | logged (notice : Notice)
  | emitted (notification : Notification)
  | queued (event : EventRecord) (accepted : Bool)
  | sweepBegan (cause : SweepCause)
  | sweepEnded (cause : SweepCause)
  | settled (event : EventRecord)
  | slept (millis : Nat)

def durationText (millis : Nat) : String :=
  if millis = 0 then "0ns"
  else if millis < 1000 then toString millis ++ "ms"
  else if millis % 1000 = 0 then toString (millis / 1000) ++ "s"
  else
    let digits := (toString (1000 + millis % 1000)).toList.tail
    toString (millis / 1000) ++ "." ++ String.ofList (digits.reverse.dropWhile (· = '0')).reverse ++ "s"

namespace Prerequisites

def text (p : Prerequisites) : String :=
  "\nNot registered yet. Prerequisites:\n" ++ p.balance.describe ++ "\n" ++ p.stake.describe ++
    "\nStake locked   | " ++ yesNo p.stakeLocked ++ "\nManager        | " ++ p.manager ++
    "\nWorker         | " ++ p.worker ++ "\nOwner          | " ++ p.owner.getD "unknown" ++ "\n"

end Prerequisites

namespace Notice

def level : Notice → LogLevel
  | .alreadyHandled .. | .delaying .. | .alreadyQueued | .ignoring .. | .registered ..
  | .noNewBlock .. | .stage .. => .debug
  | .handlingWithdrawn .. | .handlingUnlocked .. | .delisted .. | .stopping .. | .retrying .. => .warn
  | .ownerUnknown .. | .givingUp .. => .error
  | _ => .info

def text : Notice → String
  | .flipped requirement => requirement.flipNotice
  | .lockChanged locked => "Manager stake is " ++ (if locked then "now" else "no longer") ++ " locked"
  | .notRegistered missing => missing.text
  | .firstStake => "Got staked for the first time"
  | .scanned count first =>
    "Handling " ++ toString count ++ " events emitted since block: " ++ toString first
  | .found event =>
    "\nName      | " ++ Requirement.padRight 25 event.kind.name ++ "\nBlock     | " ++
      toString event.block ++ "\nTxHash    | " ++ event.hash ++ "\n"
  | .alreadyHandled event =>
    "Skipping already handled " ++ event.kind.name ++ " event: " ++ event.hash
  | .delaying due => "Delaying StakeUnlocked handling until block " ++ toString due
  | .alreadyQueued => "StakeUnlocked event is already queued"
  | .handlingWithdrawn hash => "Handling StakeWithdrawn event: " ++ hash
  | .handlingUnlocked hash => "Handling StakeUnlocked event: " ++ hash
  | .ignoring kind => "Ignoring " ++ kind.name ++ " stake manager event"
  | .delisted manager hub penalized =>
    "Relay " ++ manager ++ " is no longer listed on hub " ++ hub ++ " (penalized: " ++
      toString penalized ++ ")"
  | .notReady =>
    "Not all prerequisites for registration are met yet. Registration attempt cancelled"
  | .registered manager hub url =>
    "Relay " ++ manager ++ " registered on hub " ++ hub ++ " with url " ++ url
  | .ownerUnknown manager => "Owner of manager " ++ manager ++ " is unknown, cannot withdraw funds"
  | .tooLow account balance cost =>
    "Balance of " ++ account ++ " too low to withdraw: " ++ balance.toText ++ ", tx cost: " ++
      cost.toText
  | .sweeping account owner balance =>
    "Sending balance " ++ balance.toText ++ " of " ++ account ++ " to owner " ++ owner
  | .noNewBlock last => "No new block since " ++ toString last
  | .submitted hashes block =>
    "Submitted " ++ toString hashes.length ++ " transactions at block " ++ toString block ++ ": " ++
      Text.quotedList hashes
  | .polling manager => "Starting registration poller for manager " ++ manager
  | .stopping manager => "Manager " ++ manager ++ " unstaked, stopping registration poller"
  | .stage reached => "Registration state: " ++ reached.text
  | .retrying attempt millis =>
    "Poll cycle failed (attempt " ++ toString attempt ++ "), retrying in " ++ durationText millis
  | .givingUp failures =>
    "Registration poller giving up after " ++ toString failures ++ " failures"

end Notice

def Entry.notice? : Entry → Option Notice
  | .logged notice => some notice
  | _ => none

def Entry.lines (journal : List Entry) : List String :=
  (journal.filterMap Entry.notice?).map fun notice => notice.level.name ++ " " ++ notice.text

end TransactionRelay
