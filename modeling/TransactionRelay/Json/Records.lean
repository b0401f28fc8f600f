import TransactionRelay.Event
import TransactionRelay.Json.GasPrice
import TransactionRelay.Json.Write
import TransactionRelay.Relay
import TransactionRelay.Transaction

namespace TransactionRelay

open Json (Field asText asBool asWord64 asGasPrice asReportedPrice asWei asOption asName required optional)

namespace RelayRecord

def fields : List Field := [
  .of "manager" (asOption asText), .of "url" asText, .of "penalized" asBool,
  .of "registered" asBool, .of "stakeAdded" asBool]

def ofJson (value : Json) : Except Fault RelayRecord := do
  let m ← value.recordMembers fields
  return {
    manager := ← optional m "manager" asText
    url := ← required m "url" asText
    penalized := ← required m "penalized" asBool
    registered := ← required m "registered" asBool
    stakeAdded := ← required m "stakeAdded" asBool }

def toJson (relay : RelayRecord) : Json := .ofMembers [
  ("manager", .ofOption .text relay.manager), ("url", .text relay.url),
  ("penalized", .bool relay.penalized), ("registered", .bool relay.registered),
  ("stakeAdded", .bool relay.stakeAdded)]

end RelayRecord

namespace PingReply

def fields : List Field := [
  .of "relayWorkerAddress" asText, .of "relayManagerAddress" asText,
  .of "relayHubAddress" asText, .of "minGasPrice" asReportedPrice, .of "ready" asBool,
  .of "version" asText]

def ofJson (value : Json) : Except Fault PingReply := do
  let m ← value.recordMembers fields
  return {
    worker := ← required m "relayWorkerAddress" asText
    manager := ← required m "relayManagerAddress" asText
    hub := ← required m "relayHubAddress" asText
    minGasPrice := ← required m "minGasPrice" asReportedPrice
    ready := ← required m "ready" asBool
    version := ← required m "version" asText }

def toJson (reply : PingReply) : Json := .ofMembers [
  ("relayWorkerAddress", .text reply.worker), ("relayManagerAddress", .text reply.manager),
  ("relayHubAddress", .text reply.hub), ("minGasPrice", .ofNat reply.minGasPrice.toNat),
  ("ready", .bool reply.ready), ("version", .text reply.version)]

end PingReply

namespace RelayRequest

def fields : List Field := [
  .of "from" asText, .of "to" asText, .of "data" asText, .of "gasPrice" (asOption asGasPrice),
  .of "isSmartWalletDeploy" asBool]

def ofJson (value : Json) : Except Fault RelayRequest := do
  let m ← value.recordMembers fields
  return {
    sender := ← required m "from" asText
    target := ← required m "to" asText
    data := ← required m "data" asText
    gasPrice := ← optional m "gasPrice" asGasPrice
    deploysWallet := ← required m "isSmartWalletDeploy" asBool }

def toJson (request : RelayRequest) : Json := .ofMembers [
  ("from", .text request.sender), ("to", .text request.target), ("data", .text request.data),
  ("gasPrice", .ofOption (fun price => .ofNat price.toNat) request.gasPrice),
  ("isSmartWalletDeploy", .bool request.deploysWallet)]

end RelayRequest

namespace StakeReading

def fields : List Field := [
  .of "stake" asWei, .of "unstake_delay" asWord64, .of "withdraw_block" asWord64,
  .of "owner" asText]

def ofJson (value : Json) : Except Fault StakeReading := do
  let m ← value.recordMembers fields
  return {
    stake := ← required m "stake" asWei
    unstakeDelay := ← required m "unstake_delay" asWord64
    withdrawBlock := ← required m "withdraw_block" asWord64
    owner := ← required m "owner" asText }

def toJson (reading : StakeReading) : Json := .ofMembers [
  ("stake", .text reading.stake.toHex), ("unstake_delay", .ofNat reading.unstakeDelay.toNat),
  ("withdraw_block", .ofNat reading.withdrawBlock.toNat), ("owner", .text reading.owner)]

end StakeReading

def EventKind.ofJson : Json → Except Fault EventKind := asName EventKind.ofName?

def EventKind.toJson (kind : EventKind) : Json := .text kind.name

def ServerAction.ofJson : Json → Except Fault ServerAction := asName ServerAction.ofName?

def ServerAction.toJson (action : ServerAction) : Json := .text action.name

namespace MethodCall

def fields : List Field := [.of "name" asText, .of "data" asText]

def ofJson (value : Json) : Except Fault MethodCall := do
  let m ← value.recordMembers fields
  return { name := ← required m "name" asText, data := ← required m "data" asText }

def toJson (method : MethodCall) : Json := .ofMembers [
  ("name", .text method.name), ("data", .text method.data)]

end MethodCall

namespace Receipt

def fields : List Field := [.of "transaction_hash" asText]

def ofJson (value : Json) : Except Fault Receipt := do
  let m ← value.recordMembers fields
  return { hash := ← required m "transaction_hash" asText }

def toJson (receipt : Receipt) : Json := .ofMembers [("transaction_hash", .text receipt.hash)]

end Receipt

namespace Transaction

def fields : List Field := [
  .of "signer" asText, .of "server_action" ServerAction.ofJson, .of "destination" asText,
  .of "gas_limit" asWord64, .of "gas_price" (asOption asGasPrice), .of "value" asWei,
  .of "method" (asOption MethodCall.ofJson), .of "creation_block_number" asWord64]

def ofJson (value : Json) : Except Fault Transaction := do
  let m ← value.recordMembers fields
  return {
    signer := ← required m "signer" asText
    action := ← required m "server_action" ServerAction.ofJson
    destination := ← required m "destination" asText
    gasLimit := ← required m "gas_limit" asWord64
    gasPrice := ← optional m "gas_price" asGasPrice
    value := ← required m "value" asWei
    method := ← optional m "method" MethodCall.ofJson
    creationBlock := ← required m "creation_block_number" asWord64 }

def toJson (tx : Transaction) : Json := .ofMembers [
  ("signer", .text tx.signer), ("server_action", tx.action.toJson),
  ("destination", .text tx.destination), ("gas_limit", .ofNat tx.gasLimit.toNat),
  ("gas_price", .ofOption (fun price => .ofNat price.toNat) tx.gasPrice),
  ("value", .text tx.value.toHex), ("method", .ofOption MethodCall.toJson tx.method),
  ("creation_block_number", .ofNat tx.creationBlock.toNat)]

end Transaction

namespace Json

-- The rest of the text is looked at last.
def decodeText (decode : Json → Except Fault α) (text : String) : Except Fault α := do
  let (value, rest) := read text.toList
  let decoded ← decode value
  if (skipBlank rest).isEmpty then return decoded else .error .grammar

end Json
end TransactionRelay
