import TransactionRelay.Registration.Command

namespace TransactionRelay

inductive CallKind
  | stakeReading
  | balance
  | blockNumber
  | gasPrice
  | stakeEvents
  | hubEvents
  | relayData
  | addWorkersMethod
  | registerMethod
  | estimateGas
  | isPending
  | send
  deriving DecidableEq, Repr

-- What changes in the memory. An absent part stays as it is; balances, estimates and outcomes
-- replace those of the same name.
structure Scene where
  block : Option UInt64 := none
  gasPrice : Option GasPrice := none
  stake : Option StakeReading := none
  nextStakes : Option (List StakeReading) := none
  balances : List (String × Wei) := []
  stakeEvents : Option (List EventRecord) := none
  hubEvents : Option (List EventRecord) := none
  moreStakeEvents : List EventRecord := []
  moreHubEvents : List EventRecord := []
  relayData : Option (List RelayRecord) := none
  filterKinds : Option Bool := none
  filterBlocks : Option Bool := none
  ledgerOutcomes : List (CallKind × List (Option LedgerFailure)) := []
  submitterOutcomes : List (CallKind × List (Option SubmissionFailure)) := []
  pending : Option (List ServerAction) := none
  autoPending : Option Bool := none
  gasEstimates : List (String × UInt64) := []

structure Rehearsal where
  block : UInt64 := 0
  gasPrice : GasPrice := 1
  stake : StakeReading := {}
  nextStakes : List StakeReading := []
  balances : List (String × Wei) := []
  stakeEvents : List EventRecord := []
  hubEvents : List EventRecord := []
  relayData : List RelayRecord := []
  filterKinds : Bool := true
  filterBlocks : Bool := true
  ledgerOutcomes : List (CallKind × List (Option LedgerFailure)) := []
  submitterOutcomes : List (CallKind × List (Option SubmissionFailure)) := []
  pending : List ServerAction := []
  autoPending : Bool := false
  gasEstimates : List (String × UInt64) := []
  sent : Nat := 0
  script : Option (List Scene) := none

namespace Rehearsal

-- The newest entry of a name is in front, so it is the one that a look-up finds.
def play (scene : Scene) (r : Rehearsal) : Rehearsal :=
  { r with
    block := scene.block.getD r.block
    gasPrice := scene.gasPrice.getD r.gasPrice
    stake := scene.stake.getD r.stake
    nextStakes := scene.nextStakes.getD r.nextStakes
    balances := scene.balances ++ r.balances
    stakeEvents := scene.stakeEvents.getD r.stakeEvents ++ scene.moreStakeEvents
    hubEvents := scene.hubEvents.getD r.hubEvents ++ scene.moreHubEvents
    relayData := scene.relayData.getD r.relayData
    filterKinds := scene.filterKinds.getD r.filterKinds
    filterBlocks := scene.filterBlocks.getD r.filterBlocks
    ledgerOutcomes := scene.ledgerOutcomes ++ r.ledgerOutcomes
    submitterOutcomes := scene.submitterOutcomes ++ r.submitterOutcomes
    pending := scene.pending.getD r.pending
    autoPending := scene.autoPending.getD r.autoPending
    gasEstimates := scene.gasEstimates ++ r.gasEstimates }

def takeOutcome (kind : CallKind) (outcomes : List (CallKind × List (Option ε))) :
    Option ε × List (CallKind × List (Option ε)) :=
  match outcomes.lookup kind with
  | some (outcome :: rest) => (outcome, (kind, rest) :: outcomes.filter (·.1 != kind))
  | _ => (none, outcomes)

def ledgerCall (kind : CallKind) (r : Rehearsal) (succeed : Rehearsal → α × Rehearsal) :
    Except LedgerFailure α × Rehearsal :=
  let taken := takeOutcome kind r.ledgerOutcomes
  let after := { r with ledgerOutcomes := taken.2 }
  match taken.1 with
  | some failure => (.error failure, after)
  | none => let done := succeed after; (.ok done.1, done.2)

def submitterCall (kind : CallKind) (r : Rehearsal) (succeed : Rehearsal → α × Rehearsal) :
    Except SubmissionFailure α × Rehearsal :=
  let taken := takeOutcome kind r.submitterOutcomes
  let after := { r with submitterOutcomes := taken.2 }
  match taken.1 with
  | some failure => (.error failure, after)
  | none => let done := succeed after; (.ok done.1, done.2)

def readStake (r : Rehearsal) : StakeReading × Rehearsal :=
  match r.nextStakes with
  | [] => (r.stake, r)
  | reading :: rest => (reading, { r with nextStakes := rest })

def balanceOf (r : Rehearsal) (account : String) : Wei := (r.balances.lookup account).getD 0

def select (r : Rehearsal) (kinds : List EventKind) (range : BlockRange)
    (events : List EventRecord) : List EventRecord :=
  events.filter fun event =>
    (!r.filterKinds || kinds.contains event.kind) && (!r.filterBlocks || range.holds event.block)

def estimateOf (r : Rehearsal) (label : String) : UInt64 := (r.gasEstimates.lookup label).getD 150000

def accept (r : Rehearsal) (tx : Transaction) : Receipt × Rehearsal :=
  (⟨"0x" ++ tx.action.label ++ "-" ++ toString r.sent⟩,
    { r with
      sent := r.sent + 1
      pending := if r.autoPending then tx.action :: r.pending else r.pending })

-- With a script, each question for the block plays its next scene; after the last one there is
-- no block any more.
def readBlock (r : Rehearsal) : Except LedgerFailure UInt64 × Rehearsal :=
  match r.script with
  | none => ledgerCall .blockNumber r fun r => (r.block, r)
  | some [] => (.error (.rpc "end of script"), r)
  | some (scene :: rest) =>
    ledgerCall .blockNumber ({ r with script := some rest }.play scene) fun r => (r.block, r)

def answer : (call : Call) → Rehearsal → Except call.Failure call.Answer × Rehearsal
  | .stakeReading _, r => ledgerCall .stakeReading r readStake
  | .balance account, r => ledgerCall .balance r fun r => (r.balanceOf account, r)
  | .blockNumber, r => readBlock r
  | .gasPrice, r => ledgerCall .gasPrice r fun r => (r.gasPrice, r)
  | .stakeEvents kinds _ range, r =>
    ledgerCall .stakeEvents r fun r => (r.select kinds range r.stakeEvents, r)
  | .hubEvents kinds _ range, r =>
    ledgerCall .hubEvents r fun r => (r.select kinds range r.hubEvents, r)
  | .relayData _, r => ledgerCall .relayData r fun r => (r.relayData, r)
  | .addWorkersMethod workers, r =>
    ledgerCall .addWorkersMethod r fun r => (⟨"addRelayWorkers", ",".intercalate workers⟩, r)
  | .registerMethod url, r =>
    ledgerCall .registerMethod r fun r => (⟨"registerRelayServer", url⟩, r)
  | .estimateGas label _ _, r => submitterCall .estimateGas r fun r => (r.estimateOf label, r)
  | .isPending action, r => submitterCall .isPending r fun r => (r.pending.contains action, r)
  | .send tx, r => submitterCall .send r fun r => r.accept tx

def collaborators : Collaborators Rehearsal := ⟨answer⟩

def manager : String := "0xaaaaaaaaaaaaaaaaaaaaaaaaaaaaaaaaaaaaaaaa"

def worker : String := "0xbbbbbbbbbbbbbbbbbbbbbbbbbbbbbbbbbbbbbbbb"

def owner : String := "0xcccccccccccccccccccccccccccccccccccccccc"

def settings : ServerSettings := { minBalance := 500, minStake := 1000 }

def stakeAdded (block : UInt64) : EventRecord :=
  ⟨⟨block, 0, 0⟩, "0xe0", .stakeAdded manager owner 1000 100⟩

def stakeUnlocked (block due : UInt64) : EventRecord :=
  ⟨⟨block, 0, 0⟩, "0xe1", .stakeUnlocked manager owner due⟩

def stakeWithdrawn (block : UInt64) : EventRecord :=
  ⟨⟨block, 0, 0⟩, "0xe2", .stakeWithdrawn manager owner 1000⟩

def leaving (logs : List EventRecord) : Rehearsal where
  stake := { stake := 1000, unstakeDelay := 100, withdrawBlock := 50, owner }
  balances := [(manager, 1000000), (worker, 300000)]
  stakeEvents := logs
  relayData := [{ url := "http://other.example.com" }]

def start (world : Rehearsal) : Session Rehearsal := .fresh settings manager worker world

def run (world : Rehearsal) (commands : List Command) : Session Rehearsal :=
  ((start world).performAll collaborators commands).2

end Rehearsal
end TransactionRelay
