import TransactionRelay.Json.Records

namespace TransactionRelay

open Json (Field asText asWord64 asWei asList asPlainName asName asNameTaken required)

namespace EventArguments

def stakeAdded : List Field := [
  .of "relay_manager" asText, .of "owner" asText, .of "stake" asWei, .of "unstake_delay" asWord64]

def stakeUnlocked : List Field := [
  .of "relay_manager" asText, .of "owner" asText, .of "withdraw_block" asWord64]

def stakeWithdrawn : List Field := [
  .of "relay_manager" asText, .of "owner" asText, .of "amount" asWei]

def stakePenalized : List Field := [
  .of "relay_manager" asText, .of "beneficiary" asText, .of "reward" asWei]

def relayWorkersAdded : List Field := [
  .of "relay_manager" asText, .of "new_relay_workers" (asList asText),
  .of "workers_count" asWord64]

def relayServerRegistered : List Field := [.of "relay_manager" asText, .of "url" asText]

def ofJson (kind : EventKind) (value : Json) : Except Fault EventData := do
  match kind with
  | .stakeAdded =>
    let m ← value.objectMembers stakeAdded
    return .stakeAdded (← required m "relay_manager" asText) (← required m "owner" asText)
      (← required m "stake" asWei) (← required m "unstake_delay" asWord64)
  | .stakeUnlocked =>
    let m ← value.objectMembers stakeUnlocked
    return .stakeUnlocked (← required m "relay_manager" asText) (← required m "owner" asText)
      (← required m "withdraw_block" asWord64)
  | .stakeWithdrawn =>
    let m ← value.objectMembers stakeWithdrawn
    return .stakeWithdrawn (← required m "relay_manager" asText) (← required m "owner" asText)
      (← required m "amount" asWei)
  | .stakePenalized =>
    let m ← value.objectMembers stakePenalized
    return .stakePenalized (← required m "relay_manager" asText)
      (← required m "beneficiary" asText) (← required m "reward" asWei)
  | .relayWorkersAdded =>
    let m ← value.objectMembers relayWorkersAdded
    return .relayWorkersAdded (← required m "relay_manager" asText)
      (← required m "new_relay_workers" (asList asText)) (← required m "workers_count" asWord64)
  | .relayServerRegistered =>
    let m ← value.objectMembers relayServerRegistered
    return .relayServerRegistered (← required m "relay_manager" asText) (← required m "url" asText)

def toJson : EventData → Json
  | .stakeAdded manager owner stake delay => .ofMembers [
    ("relay_manager", .text manager), ("owner", .text owner), ("stake", .text stake.toHex),
    ("unstake_delay", .ofNat delay.toNat)]
  | .stakeUnlocked manager owner block => .ofMembers [
    ("relay_manager", .text manager), ("owner", .text owner),
    ("withdraw_block", .ofNat block.toNat)]
  | .stakeWithdrawn manager owner amount => .ofMembers [
    ("relay_manager", .text manager), ("owner", .text owner), ("amount", .text amount.toHex)]
  | .stakePenalized manager beneficiary reward => .ofMembers [
    ("relay_manager", .text manager), ("beneficiary", .text beneficiary),
    ("reward", .text reward.toHex)]
  | .relayWorkersAdded manager workers count => .ofMembers [
    ("relay_manager", .text manager), ("new_relay_workers", .ofTexts workers),
    ("workers_count", .ofNat count.toNat)]
  | .relayServerRegistered manager url => .ofMembers [
    ("relay_manager", .text manager), ("url", .text url)]

end EventArguments

namespace EventData

-- How deep the lists and objects of a value may nest that is taken in before its kind is known.
def takenDepth : Nat := 126

def noMore (data : EventData) : List (Option String × Json) → Except Fault EventData
  | [] => .ok data
  | (none, _) :: _ => .error .grammar
  | (some key, value) :: rest =>
    if key = "event" ∨ key = "returnValues" then .error .shape
    else if value.intact then noMore data rest else .error .grammar

def afterKind (kind : EventKind) : List (Option String × Json) → Except Fault EventData
  | [] => .error .shape
  | (none, _) :: _ => .error .grammar
  | (some key, value) :: rest =>
    if key = "event" then .error .shape
    else if key = "returnValues" then do noMore (← EventArguments.ofJson kind value) rest
    else if value.intact then afterKind kind rest else .error .grammar

def afterArguments (asKind : Json → Except Fault EventKind) (arguments : Json) :
    List (Option String × Json) → Except Fault EventData
  | [] => .error .shape
  | (none, _) :: _ => .error .grammar
  | (some key, value) :: rest =>
    if key = "returnValues" then .error .shape
    else if key = "event" then do
      let kind ← asKind value
      noMore (← EventArguments.ofJson kind arguments) rest
    else if value.intact then afterArguments asKind arguments rest else .error .grammar

def ofMembers (asKind : Json → Except Fault EventKind) :
    List (Option String × Json) → Except Fault EventData
  | [] => .error .shape
  | (none, _) :: _ => .error .grammar
  | (some key, value) :: rest =>
    if key = "event" then do afterKind (← asKind value) rest
    else if key = "returnValues" then
      if value.readable takenDepth then afterArguments asKind value rest else .error .grammar
    else if value.intact then ofMembers asKind rest else .error .grammar

def ofItems : List Json → Except Fault EventData
  | [] => .error .shape
  | kind :: rest => do
    let kind ← asPlainName EventKind.ofName? kind
    match rest with
    | [] => .error .shape
    | arguments :: more => do
      let data ← EventArguments.ofJson kind arguments
      if more.isEmpty then return data else .error .grammar

def ofJson : Json → Except Fault EventData
  | .object members => ofMembers (asName EventKind.ofName?) members
  | .array items => ofItems items
  | other => .error other.mismatch

def members (data : EventData) : List (String × Json) :=
  [("event", data.kind.toJson), ("returnValues", EventArguments.toJson data)]

def toJson (data : EventData) : Json := .ofMembers data.members

end EventData

namespace EventRecord

def fields : List Field := [
  .of "block_number" asWord64, .of "transaction_index" asWord64, .of "log_index" asWord64,
  .of "transaction_hash" asText]

-- The members about the position, checked in order, and the others, taken in as they are.
def splitMembers (seen : List String) :
    List (Option String × Json) → Except Fault (List (String × Json) × List (Option String × Json))
  | [] => .ok ([], [])
  | (none, _) :: _ => .error .grammar
  | (some key, value) :: rest =>
    match fields.find? (·.name == key) with
    | none =>
      if value.readable EventData.takenDepth then do
        let split ← splitMembers seen rest
        return (split.1, (some key, value) :: split.2)
      else .error .grammar
    | some field =>
      if seen.contains key then .error .shape
      else do
        field.check value
        let split ← splitMembers (key :: seen) rest
        return ((key, value) :: split.1, split.2)

-- A record of an event has no list form.
def ofJson : Json → Except Fault EventRecord
  | .object members => do
    let (known, others) ← splitMembers [] members
    let position : Position := {
      block := ← required known "block_number" asWord64
      transaction := ← required known "transaction_index" asWord64
      log := ← required known "log_index" asWord64 }
    let hash ← required known "transaction_hash" asText
    let data ← EventData.ofMembers (asNameTaken EventKind.ofName?) others
    return { position, hash, data }
  | other => .error other.mismatch

def toJson (event : EventRecord) : Json := .ofMembers ([
  ("block_number", .ofNat event.position.block.toNat),
  ("transaction_index", .ofNat event.position.transaction.toNat),
  ("log_index", .ofNat event.position.log.toNat),
  ("transaction_hash", .text event.hash)] ++ event.data.members)

end EventRecord
end TransactionRelay
