import TransactionRelay.Registration.Attempt
import TransactionRelay.Registration.Sweep

namespace TransactionRelay

structure Outcome where
  hashes : List String := []
  notifications : List Notification := []
  deriving DecidableEq, Repr

def Outcome.unstaked (outcome : Outcome) : Bool := outcome.notifications.contains .unstaked

def evidenceFrom : UInt64 := 1

def scanNotices (events : List EventRecord) (range : BlockRange) : List Entry :=
  if events.isEmpty then []
  else .logged (.scanned events.length range.first) :: events.map fun event => .logged (.found event)

namespace Action

variable {ω : Type} (c : Collaborators ω)

def initialise : Action ω Unit := do
  let m ← manager
  if m.initialized then throw .alreadyInitialized
  if let .error fault := m.settings.validate then throw (.ofSettings fault)
  if m.workerEvidence.isNone then
    let events ← ask c
      (.hubEvents [.relayWorkersAdded] [Address.topic m.address] (.startingAt evidenceFrom))
    change fun m => ({ m with workerEvidence := EventRecord.latest events }, [])
  change fun m => ({ m with initialized := true }, [])

def stakeEventEffects (block : UInt64) (event : EventRecord) : Action ω (List String) :=
  match event.data with
  | .stakeAdded .. => do
    refreshStake c
    return []
  | .stakeUnlocked _ _ due => do
    refreshStake c
    change (Manager.delay due event)
    return []
  | .stakeWithdrawn .. => do
    refreshStake c
    log (.handlingWithdrawn event.hash)
    sweep c (.withdrawn event) true block
  | _ => do
    log (.ignoring event.kind)
    return []

-- An event is settled once its effects are done; a settled event has none.
def handleStakeEvent (block : UInt64) (event : EventRecord) : Action ω (List String) := do
  if (← manager).handled.contains event.key then
    log (.alreadyHandled event)
    return []
  let hashes ← stakeEventEffects c block event
  change (Manager.settle event)
  return hashes

def handleStakeEvents (block : UInt64) : List EventRecord → Action ω (List String)
  | [] => return []
  | event :: rest => do
    let first ← handleStakeEvent c block event
    let others ← handleStakeEvents block rest
    return first ++ others

def fetchRecord : Action ω RelayRecord := do
  let m ← manager
  let records ← ask c (.relayData [m.address])
  match records.head? with
  | some record => return record
  | none => throw (.relayNotFound m.address)

def sweepFor (block : UInt64) (event : EventRecord) : Action ω (List String) := do
  if event.kind == .stakeUnlocked then
    log (.handlingUnlocked event.hash)
    sweep c (.unlocked event) true block
  else return []

def sweepUnlocked (block : UInt64) : List EventRecord → Action ω (List String)
  | [] => return []
  | event :: rest => do
    let first ← sweepFor c block event
    let others ← sweepUnlocked block rest
    return first ++ others

-- The due events leave the queue together, before the first of them is swept for.
def releaseDue (block : UInt64) : Action ω (List String) := do
  let due := (← manager).delayed.due block
  change (Manager.dropDue block)
  sweepUnlocked c block due

def takeNotifications : Action ω (List Notification) := do
  let m ← manager
  change fun m => ({ m with notifications := [] }, [])
  return m.notifications

-- `force` attempts the registration whatever the hub's record says.
def registerIfNeeded (block : UInt64) (force : Bool) : Action ω (List String) := do
  let correct := (← manager).registrationCorrect
  let pending ← ask c (.isPending .registerServer)
  if !(pending || correct) || force then attemptRegistration c block else return []

def scan (hubEvents : List EventRecord) (scanned current : UInt64) : Action ω (List String) := do
  let m ← manager
  if !m.initialized then throw .notInitialized
  let range := BlockRange.since scanned current
  let events ← ask c (.stakeEvents EventKind.ofStake [Address.topic m.address] range)
  note (scanNotices events range)
  change (Manager.forgetHandled scanned)
  let handled ← handleStakeEvents c current events
  let record ← fetchRecord c
  change (Manager.observeRecord record)
  change (Manager.observeHubEvents hubEvents)
  return handled

def handlePastEvents (hubEvents : List EventRecord) (scanned current : UInt64) (force : Bool) :
    Action ω Outcome := do
  let handled ← scan c hubEvents scanned current
  let released ← releaseDue c current
  let registered ← registerIfNeeded c current force
  let notifications ← takeNotifications
  return { hashes := handled ++ released ++ registered, notifications }

end Action
end TransactionRelay
