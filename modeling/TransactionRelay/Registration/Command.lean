import TransactionRelay.Registration.Cycle

namespace TransactionRelay

inductive Command
  | initialise
  | handle (hubEvents : List EventRecord) (scanned current : UInt64) (force : Bool)
  | attempt (block : UInt64)
  | withdraw (block : UInt64) (managerFunds : Bool)
  | refreshBalance
  | refreshStake
  | takeNotifications
  | explain
  deriving DecidableEq, Repr

inductive Reply
  | done
  | outcome (outcome : Outcome)
  | hashes (hashes : List String)
  | notifications (notifications : List Notification)
  deriving DecidableEq, Repr

variable {ω : Type} (c : Collaborators ω)

def Command.action : Command → Action ω Reply
  | .initialise => do
    Action.initialise c
    return .done
  | .handle hubEvents scanned current force => do
    return .outcome (← Action.handlePastEvents c hubEvents scanned current force)
  | .attempt block => return .hashes (← Action.attemptRegistration c block)
  | .withdraw block managerFunds => return .hashes (← Action.sweep c .demand managerFunds block)
  | .refreshBalance => do
    Action.refreshBalance c
    return .done
  | .refreshStake => do
    Action.refreshStake c
    return .done
  | .takeNotifications => return .notifications (← Action.takeNotifications)
  | .explain => do
    Action.note (← Action.manager).explain
    return .done

def Session.perform (s : Session ω) (command : Command) :
    Except RegistrationFailure Reply × Session ω :=
  (command.action c).runOn s

def Session.fresh (settings : ServerSettings) (address worker : String) (world : ω) : Session ω :=
  { manager := Manager.new settings address worker, world }

def Session.adds (before after : Session ω) : List Entry := after.journal.drop before.journal.length

-- A command that fails leaves the session as far as it came, and the run goes on.
def Session.performAll (s : Session ω) : List Command →
    List (Except RegistrationFailure Reply) × Session ω
  | [] => ([], s)
  | command :: rest =>
    let one := s.perform c command
    let others := one.2.performAll rest
    (one.1 :: others.1, others.2)

end TransactionRelay
