import TransactionRelay.Selection.Directory
import TransactionRelay.Selection.Race
import TransactionRelay.Selection.TierPool
import TransactionRelay.Settings.Client

namespace TransactionRelay

structure Selector where
  request : RelayRequest := {}
  settings : ClientSettings := {}
  filter : PingFilter := PingFilter.acceptAll
  pool : Option TierPool := none

structure Search (ω : Type) where
  selector : Selector
  track : Track ω

namespace Selector

variable {ω : Type}

def remaining (s : Selector) : Option (List (List RelayRecord)) := s.pool.map TierPool.records

def handleRace (s : Selector) (outcome : RaceOutcome) : Selector :=
  { s with pool := s.pool.map (·.removeUrls outcome.urls) }

def selectFrom (net : Network ω) (s : Selector) (pool : TierPool) (t : Track ω) :
    Option RelayInfo × TierPool × Track ω :=
  match taken : pool.nextSlice s.settings.sliceSize with
  | ([], rest) => (none, rest, t.note [.logged .noneLeft])
  | (first :: others, rest) =>
    let raced := Race.run net s.filter s.request (first :: others) t
    have fewer : (rest.removeUrls raced.1.urls).openCount < pool.openCount := by
      have left_open := rest.open_removeUrls raced.1.urls
      have taken_open := pool.open_nextSlice s.settings.sliceSize
      rw [taken] at taken_open
      simp only [List.length_cons] at taken_open
      omega
    match raced.1.winner with
    | some info =>
      (some info, rest.removeUrls raced.1.urls, raced.2.note [.logged (.selected info.relay.url)])
    | none => selectFrom net s (rest.removeUrls raced.1.urls) raced.2
termination_by pool.openCount
decreasing_by exact fewer

end Selector

namespace Search

variable {ω : Type} (net : Network ω)

-- Loads the candidates. Settings with which nothing could be probed are refused.
def initialise (directory : RelayDirectory) (s : Search ω) : Except SelectionFailure Unit × Search ω :=
  match s.selector.settings.validate with
  | .error fault => (.error (.ofSettings fault), s)
  | .ok () =>
    match directory s.selector.request with
    | .error failure => (.error failure, s)
    | .ok tiers =>
      (.ok (), {
        selector := { s.selector with pool := some (TierPool.ofTiers tiers) }
        track := s.track.note [.logged (.loaded tiers.flatten.length tiers.length)] })

def select (s : Search ω) : Except SelectionFailure (Option RelayInfo) × Search ω :=
  match s.selector.pool with
  | none => (.error .notInitialized, s)
  | some pool =>
    let selected := s.selector.selectFrom net pool s.track
    (.ok selected.1, { selector := { s.selector with pool := some selected.2.1 }, track := selected.2.2 })

def nextSlice (s : Search ω) : Except SelectionFailure (List RelayRecord) × Search ω :=
  match s.selector.pool with
  | none => (.error .notInitialized, s)
  | some pool =>
    let taken := pool.nextSlice s.selector.settings.sliceSize
    (.ok taken.1, { s with selector := { s.selector with pool := some taken.2 } })

def ping (relay : RelayRecord) (s : Search ω) : Except SelectionFailure RelayInfo × Search ω :=
  let done := Race.ping net s.selector.filter s.selector.request relay s.track
  (done.1, { s with track := done.2 })

def race (relays : List RelayRecord) (s : Search ω) : RaceOutcome × Search ω :=
  let raced := Race.run net s.selector.filter s.selector.request relays s.track
  (raced.1, { s with track := raced.2 })

def handleRace (outcome : RaceOutcome) (s : Search ω) : Search ω :=
  { s with selector := s.selector.handleRace outcome }

end Search

namespace SearchNotice

def level : SearchNotice → String
  | .selected _ | .noneLeft => "INFO"
  | _ => "DEBUG"

def text : SearchNotice → String
  | .loaded relays tiers =>
    "Loaded " ++ toString relays ++ " candidate relays in " ++ toString tiers ++ " tiers"
  | .pinging url => "Pinging relay " ++ url
  | .failed url failure => "Relay " ++ url ++ " failed to ping: " ++ failure.message
  | .selected url => "Selected relay " ++ url
  | .noneLeft => "No relay could be pinged successfully"

end SearchNotice

def SearchEntry.notice? : SearchEntry → Option SearchNotice
  | .logged notice => some notice
  | _ => none

def SearchEntry.lines (journal : List SearchEntry) : List String :=
  (journal.filterMap SearchEntry.notice?).map fun notice => notice.level ++ " " ++ notice.text

end TransactionRelay
