import TransactionRelay.Polling.RetryPolicy
import TransactionRelay.Registration.Cycle

namespace TransactionRelay

structure Poller (ω : Type) where
  session : Session ω
  pollMillis : Nat
  policy : RetryPolicy := {}
  scanned : UInt64 := 0

namespace Poller

variable {ω : Type} (c : Collaborators ω)

abbrev Poll (ω : Type) (α : Type) := ExceptT PollFailure (StateM (Session ω)) α

def ofAction (report : RegistrationFailure → PollFailure) (action : Action ω α) : Poll ω α :=
  ExceptT.adapt report action

def cycle (scanned : UInt64) : Poll ω (Outcome × UInt64) := do
  let m := (← get).manager
  if !m.initialized then ofAction .initialisation (Action.initialise c)
  let current ← match ← modifyGet (Session.request c .blockNumber) with
    | .ok block => pure block
    | .error failure => throw (.blockNumber failure)
  if current ≤ scanned then
    modify (Session.note [.logged (.noNewBlock scanned)])
    return ({}, scanned)
  ofAction .cycle (Action.refreshBalance c)
  let topic := Address.topic (← get).manager.address
  let range := BlockRange.since scanned current
  let hubEvents ← match ← modifyGet (Session.request c (.hubEvents EventKind.ofHub [topic] range)) with
    | .ok events => pure events
    | .error failure => throw (.hubEvents failure)
  let outcome ← ofAction .cycle (Action.handlePastEvents c hubEvents scanned current false)
  if !outcome.hashes.isEmpty then
    modify (Session.note [.logged (.submitted outcome.hashes current)])
  return (outcome, current)

def pollOnce (p : Poller ω) : Except PollFailure Outcome × Poller ω :=
  match (cycle c p.scanned).run.run p.session with
  | (.ok (outcome, scanned), session) => (.ok outcome, { p with session, scanned })
  | (.error failure, session) => (.error failure, { p with session })

inductive Verdict
  | stop
  | giveUp (failure : PollFailure)
  | goOn (failures millis : Nat)
  deriving DecidableEq, Repr

def verdict (policy : RetryPolicy) (pollMillis failures : Nat) :
    Except PollFailure Outcome → Verdict
  | .ok outcome => if outcome.unstaked then .stop else .goOn 0 pollMillis
  | .error failure =>
    match policy.delay? failures with
    | some millis => .goOn (failures + 1) millis
    | none => .giveUp failure

def verdictEntries (m : Manager) (failures : Nat) (result : Except PollFailure Outcome) :
    Verdict → List Entry
  | .stop => [.logged (.stopping m.address)]
  | .giveUp _ => [.logged (.givingUp (failures + 1))]
  | .goOn next millis =>
    [.logged (match result with
      | .ok _ => .stage m.stage
      | .error _ => .retrying next millis), .slept millis]

def noted (p : Poller ω) (entries : List Entry) : Poller ω :=
  { p with session := p.session.note entries }

-- At most `limit` polls. The result is absent when the loop would go on after them.
def loop (failures : Nat) : Nat → Poller ω → Option (Except PollFailure Unit) × Poller ω
  | 0, p => (none, p)
  | limit + 1, p =>
    let polled := pollOnce c p
    let decided := verdict p.policy p.pollMillis failures polled.1
    let after := polled.2.noted (verdictEntries polled.2.session.manager failures polled.1 decided)
    match decided with
    | .stop => (some (.ok ()), after)
    | .giveUp failure => (some (.error failure), after)
    | .goOn next _ => loop next limit after

def run (limit : Nat) (p : Poller ω) : Option (Except PollFailure Unit) × Poller ω :=
  loop c 0 limit (p.noted [.logged (.polling p.session.manager.address)])

end Poller

def Entry.elapsed : List Entry → Nat
  | [] => 0
  | .slept millis :: rest => millis + elapsed rest
  | _ :: rest => elapsed rest

end TransactionRelay
