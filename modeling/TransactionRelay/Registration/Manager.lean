import TransactionRelay.BlockRange
import TransactionRelay.Registration.Journal
import TransactionRelay.Settings.Server

namespace TransactionRelay

structure Manager where
  settings : ServerSettings
  address : String
  worker : String
  owner : Option String := none
  balance : Requirement
  stake : Requirement
  requirementChanged : Bool := false
  stakeLocked : Bool := false
  workerEvidence : Option EventRecord := none
  delayed : DelayedQueue := {}
  handled : List EventKey := []
  hubRecord : Option RelayRecord := none
  notifications : List Notification := []
  unstaked : Bool := false
  initialized : Bool := false
  deriving DecidableEq, Repr

namespace Manager

def new (settings : ServerSettings) (address worker : String) : Manager where
  settings := settings
  address := address
  worker := worker
  balance := { label := "Balance", minimum := settings.minBalance }
  stake := { label := "Stake", minimum := settings.minStake }

def registrationCorrect (m : Manager) : Bool :=
  m.hubRecord.any fun relay =>
    relay.manager.any (Address.same · m.address) && relay.url == m.settings.registrationUrl

def registered (m : Manager) : Bool := m.stake.satisfied && m.stakeLocked && m.registrationCorrect

def workerAdded (m : Manager) : Bool :=
  m.workerEvidence.any fun event => event.workers.any (Address.same · m.worker)

def mayRegister (m : Manager) : Bool := m.stakeLocked && m.stake.satisfied && m.balance.satisfied

def stage (m : Manager) : Stage :=
  if m.unstaked then .unstaking
  else if m.owner.isNone then .unstaked
  else if !m.stakeLocked then .stakedUnlocked
  else if !(m.stake.satisfied && m.balance.satisfied) then .stakedLocked
  else if !m.registrationCorrect then .registerable
  else .registered

def prerequisites (m : Manager) : Prerequisites where
  balance := m.balance
  stake := m.stake
  stakeLocked := m.stakeLocked
  manager := m.address
  worker := m.worker
  owner := m.owner

def explain (m : Manager) : List Entry :=
  if m.registrationCorrect then [] else [.logged (.notRegistered m.prerequisites)]

-- A step of the memory, with the entries it adds.
abbrev Step := Manager → Manager × List Entry

def Step.andThen (first next : Step) : Step := fun m =>
  ((next (first m).1).1, (first m).2 ++ (next (first m).1).2)

def raiseChanged (_ : Requirement) (_ : Bool) : Bool := true

def storeBalance (amount : Wei) : Step := fun m =>
  let written := m.balance.write raiseChanged amount m.requirementChanged
  ({ m with balance := written.1, requirementChanged := written.2 },
    if m.balance.flips amount then [.logged (.flipped written.1)] else [])

def storeStake (amount : Wei) : Step := fun m =>
  let written := m.stake.write raiseChanged amount m.requirementChanged
  ({ m with stake := written.1, requirementChanged := written.2 },
    if m.stake.flips amount then [.logged (.flipped written.1)] else [])

def reportChange : Step := fun m =>
  ({ m with requirementChanged := false }, if m.requirementChanged then m.explain else [])

def setLocked (locked : Bool) : Step := fun m =>
  if m.stakeLocked == locked then (m, [])
  else
    let changed := { m with stakeLocked := locked }
    (changed, .logged (.lockChanged locked) :: changed.explain)

def noteOwner (owner : String) : Step := fun m =>
  if m.owner.isSome then (m, [])
  else
    let owned := { m with owner := some owner }
    (owned, .logged .firstStake :: owned.explain)

def observeBalance (amount : Wei) : Step := (storeBalance amount : Step).andThen reportChange

-- A reading of zero stake leaves the memory as it is.
def observeStake (reading : StakeReading) : Step := fun m =>
  if reading.isZero then (m, [])
  else
    (((setLocked reading.locked : Step).andThen (storeStake reading.stake)).andThen
      reportChange).andThen (noteOwner reading.owner) m

def emit (notification : Notification) : Step := fun m =>
  ({ m with notifications := m.notifications ++ [notification] }, [.emitted notification])

def observeRecord (record : RelayRecord) : Step := fun m =>
  let delisted := m.hubRecord.any (·.listed) && !record.listed
  ({ m with
      hubRecord := some record
      notifications := m.notifications ++ if delisted then [.removed] else [] },
    if delisted then
      [.logged (.delisted m.address m.settings.hub record.penalized), .emitted .removed]
    else [])

def observeHubEvents (events : List EventRecord) : Step := fun m =>
  ({ m with workerEvidence :=
      (events.filter (·.kind == .relayWorkersAdded)).foldl EventRecord.later m.workerEvidence }, [])

-- Nothing at or below a scanned block is fetched again.
def forgetHandled (scanned : UInt64) : Step := fun m =>
  ({ m with handled := m.handled.filter fun key => key.position.block > scanned }, [])

def settle (event : EventRecord) : Step := fun m =>
  ({ m with handled :=
      if m.handled.contains event.key then m.handled else m.handled ++ [event.key] },
    [.settled event])

def delay (due : UInt64) (event : EventRecord) : Step := fun m =>
  let refused := m.delayed.holds event.key
  ({ m with delayed := m.delayed.push due event },
    [.logged (.delaying due), .queued event (!refused)] ++
      if refused then [.logged .alreadyQueued] else [])

def dropDue (block : UInt64) : Step := fun m =>
  ({ m with delayed := m.delayed.withoutDue block }, [])

def markUnstaked : Step := fun m => emit .unstaked { m with unstaked := true }

end Manager
end TransactionRelay
