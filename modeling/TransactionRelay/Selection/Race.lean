import TransactionRelay.Selection.PingFilter

namespace TransactionRelay

-- A url has the latest of its failures.
structure RaceOutcome where
  winner : Option RelayInfo := none
  errors : List (String × SelectionFailure) := []
  deriving DecidableEq, Repr

namespace RaceOutcome

def addError (outcome : RaceOutcome) (url : String) (failure : SelectionFailure) : RaceOutcome :=
  { outcome with errors := outcome.errors.filter (·.1 != url) ++ [(url, failure)] }

def urls (outcome : RaceOutcome) : List String :=
  outcome.errors.map (·.1) ++ (outcome.winner.map (·.relay.url)).toList

-- The outcome as the completions alone decide it, one after the other up to the first success.
def ofCompletions (outcome : RaceOutcome) :
    List (String × Except SelectionFailure RelayInfo) → RaceOutcome
  | [] => outcome
  | (_, .ok info) :: _ => { outcome with winner := some info }
  | (url, .error failure) :: rest => ofCompletions (outcome.addError url failure) rest

end RaceOutcome

-- The relays' side of a ping. `start` may answer at once; of the probes that run on, `next` tells
-- which one completes first, and how; `abandon` forgets those that run on when a race ends.
structure Network (ω : Type) where
  start : String → ω → Option (Except SelectionFailure PingReply) × ω
  next : (first : String) → (others : List String) → ω →
    Fin (others.length + 1) × Except SelectionFailure PingReply × ω
  abandon : ω → ω

inductive SearchNotice
  | loaded (relays tiers : Nat)
  | pinging (url : String)
  | failed (url : String) (failure : SelectionFailure)
  | selected (url : String)
  | noneLeft
  deriving DecidableEq, Repr

inductive SearchEntry
  | logged (notice : SearchNotice)
  | started (relay : RelayRecord)
  | completed (relay : RelayRecord) (reply : Except SelectionFailure PingReply)
  | raceEnded (outcome : RaceOutcome)

structure Track (ω : Type) where
  world : ω
  journal : List SearchEntry := []

namespace Track

variable {ω : Type}

def note (entries : List SearchEntry) (t : Track ω) : Track ω :=
  { t with journal := t.journal ++ entries }

def start (net : Network ω) (relay : RelayRecord) (t : Track ω) :
    Option (Except SelectionFailure PingReply) × Track ω :=
  let begun := net.start relay.url t.world
  let entries := [.logged (.pinging relay.url), .started relay] ++
    begun.1.toList.map (SearchEntry.completed relay)
  (begun.1, note entries { t with world := begun.2 })

def next (net : Network ω) (first : RelayRecord) (others : List RelayRecord) (t : Track ω) :
    RelayRecord × Except SelectionFailure PingReply × List RelayRecord × Track ω :=
  let done := net.next first.url (others.map (·.url)) t.world
  let relay := (first :: others)[done.1.val]?.getD first
  (relay, done.2.1, (first :: others).eraseIdx done.1.val,
    note [.completed relay done.2.1] { t with world := done.2.2 })

def abandon (net : Network ω) (t : Track ω) : Track ω := { t with world := net.abandon t.world }

theorem next_length (net : Network ω) (first : RelayRecord) (others : List RelayRecord)
    (t : Track ω) : (t.next net first others).2.2.1.length = others.length := by
  have bound : (net.next first.url (others.map (·.url)) t.world).1.val < (first :: others).length := by
    have := (net.next first.url (others.map (·.url)) t.world).1.isLt
    simpa using this
  simp [next, List.length_eraseIdx_of_lt bound]

end Track

namespace Race

variable {ω : Type} (net : Network ω) (filter : PingFilter) (request : RelayRequest)

def startAll (outcome : RaceOutcome) (running : List RelayRecord) :
    List RelayRecord → Track ω → RaceOutcome × List RelayRecord × Track ω
  | [], t => (outcome, running, t)
  | relay :: rest, t =>
    let begun := t.start net relay
    match begun.1.map (judge filter request relay) with
    | none => startAll outcome (running ++ [relay]) rest begun.2
    | some (.ok info) => ({ outcome with winner := some info }, running, begun.2)
    | some (.error failure) =>
      startAll (outcome.addError relay.url failure) running rest
        (begun.2.note [.logged (.failed relay.url failure)])

def awaitAll (outcome : RaceOutcome) (running : List RelayRecord) (t : Track ω) :
    RaceOutcome × Track ω :=
  match running with
  | [] => (outcome, t)
  | first :: others =>
    match done : t.next net first others with
    | (relay, reply, left, after) =>
      match judge filter request relay reply with
      | .ok info => ({ outcome with winner := some info }, after)
      | .error failure =>
        have shorter : left.length < (first :: others).length := by
          have same := Track.next_length net first others t
          rw [done] at same
          simp only at same
          simp only [List.length_cons]
          omega
        awaitAll (outcome.addError relay.url failure) left
          (after.note [.logged (.failed relay.url failure)])
termination_by running.length
decreasing_by exact shorter

def run (relays : List RelayRecord) (t : Track ω) : RaceOutcome × Track ω :=
  let started := startAll net filter request {} [] relays t
  let ended := if started.1.winner.isSome then (started.1, started.2.2)
    else awaitAll net filter request started.1 started.2.1 started.2.2
  (ended.1, (ended.2.abandon net).note [.raceEnded ended.1])

def ping (relay : RelayRecord) (t : Track ω) : Except SelectionFailure RelayInfo × Track ω :=
  let begun := t.start net relay
  match begun.1 with
  | some reply => (judge filter request relay reply, begun.2)
  | none =>
    let done := begun.2.next net relay []
    (judge filter request relay done.2.1, done.2.2.2)

end Race
end TransactionRelay
