import TransactionRelay.Selection.Race

namespace TransactionRelay

structure ScriptedReply where
  result : Except SelectionFailure PingReply
  delayMillis : Nat := 0

structure ScriptedNetwork where
  replies : List (String × List ScriptedReply)
  running : List ScriptedReply := []

namespace ScriptedNetwork

def knows (net : ScriptedNetwork) (url : String) : Bool := net.replies.any (·.1 == url)

def noRoute (url : String) : SelectionFailure := .transport ("no route to " ++ url)

def setReplies (net : ScriptedNetwork) (url : String) (rest : List ScriptedReply) : ScriptedNetwork :=
  if rest.isEmpty then net
  else
    { net with replies := net.replies.map fun script => if script.1 == url then (url, rest) else script }

def start (url : String) (net : ScriptedNetwork) :
    Option (Except SelectionFailure PingReply) × ScriptedNetwork :=
  match net.replies.lookup url with
  | none | some [] => (some (.error (noRoute url)), net)
  | some (reply :: rest) =>
    let after := net.setReplies url rest
    if reply.delayMillis = 0 then (some reply.result, after)
    else (none, { after with running := after.running ++ [reply] })

-- The probes of one race start together, so the smallest delay among those that run answers first.
def soonest (best place delay : Nat) : List ScriptedReply → Nat
  | [] => best
  | reply :: rest =>
    if reply.delayMillis < delay then soonest place (place + 1) reply.delayMillis rest
    else soonest best (place + 1) delay rest

def next (first : String) (others : List String) (net : ScriptedNetwork) :
    Fin (others.length + 1) × Except SelectionFailure PingReply × ScriptedNetwork :=
  match net.running with
  | [] => (0, .error (noRoute first), net)
  | reply :: rest =>
    let place := soonest 0 1 reply.delayMillis rest
    let found := (reply :: rest)[place]?.getD reply
    (if h : place < others.length + 1 then ⟨place, h⟩ else 0,
      found.result, { net with running := (reply :: rest).eraseIdx place })

def network : Network ScriptedNetwork where
  start := start
  next := next
  abandon := fun net => { net with running := [] }

end ScriptedNetwork
end TransactionRelay
