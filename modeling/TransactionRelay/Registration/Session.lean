import TransactionRelay.Registration.Manager

namespace TransactionRelay

-- Nothing is assumed about the answers. No operation looks into the state that they come from.
structure Collaborators (ω : Type) where
  answer : (call : Call) → ω → Except call.Failure call.Answer × ω

structure Session (ω : Type) where
  manager : Manager
  world : ω
  journal : List Entry := []

abbrev Action (ω : Type) (α : Type) := ExceptT RegistrationFailure (StateM (Session ω)) α

namespace Session

variable {ω : Type}

def request (c : Collaborators ω) (call : Call) (s : Session ω) :
    Except call.Failure call.Answer × Session ω :=
  let reply := c.answer call s.world
  (reply.1, { s with world := reply.2, journal := s.journal ++ [.asked call reply.1] })

def apply (step : Manager.Step) (s : Session ω) : Session ω :=
  let changed := step s.manager
  { s with manager := changed.1, journal := s.journal ++ changed.2 }

def note (entries : List Entry) (s : Session ω) : Session ω :=
  { s with journal := s.journal ++ entries }

end Session

namespace Action

variable {ω : Type}

def ask (c : Collaborators ω) (call : Call) : Action ω call.Answer := do
  let reply ← modifyGet (Session.request c call)
  match reply with
  | .ok answer => return answer
  | .error failure => throw (call.report failure)

def change (step : Manager.Step) : Action ω Unit := modify (Session.apply step)

def note (entries : List Entry) : Action ω Unit := modify (Session.note entries)

def log (notice : Notice) : Action ω Unit := note [.logged notice]

def manager : Action ω Manager := return (← get).manager

def runOn (action : Action ω α) (s : Session ω) : Except RegistrationFailure α × Session ω :=
  StateT.run (ExceptT.run action) s

end Action
end TransactionRelay
