import TransactionRelay.Failure
import TransactionRelay.Json.Write
import TransactionRelay.Registration.Cycle

namespace TransactionRelay

def Outcome.toJson (outcome : Outcome) : Json := .ofMembers [
  ("transaction_hashes", .ofTexts outcome.hashes),
  ("notifications", .ofTexts (outcome.notifications.map Notification.name))]

def Json.cause (name : String) (content : Json) : Json := .ofMembers [(name, content)]

def LedgerFailure.toJson : LedgerFailure → Json
  | .rpc text => .cause "RpcError" (.text text)
  | .decode text => .cause "DecodeError" (.text text)
  | .contract text => .cause "ContractError" (.text text)

def SubmissionFailure.toJson : SubmissionFailure → Json
  | .gasEstimation method reason =>
    .cause "GasEstimation" (.ofMembers [("method", .text method), ("reason", .text reason)])
  | .send text => .cause "SendFailed" (.text text)
  | .store text => .cause "StoreError" (.text text)

def RegistrationFailure.toJson : RegistrationFailure → Json
  | .notInitialized => .text "NotInitialized"
  | .alreadyInitialized => .text "AlreadyInitialized"
  | .relayNotFound manager => .cause "RelayNotFound" (.text manager)
  | .ledger failure => .cause "Ledger" failure.toJson
  | .submission failure => .cause "Submission" failure.toJson
  | .invalidConfig text => .cause "InvalidConfig" (.text text)

def SelectionFailure.toJson : SelectionFailure → Json
  | .notInitialized => .text "NotInitialized"
  | .notReady url => .cause "NotReady" (.text url)
  | .filterRejection text => .cause "FilterRejection" (.text text)
  | .transport text => .cause "Transport" (.text text)
  | .directory text => .cause "Directory" (.text text)
  | .invalidConfig text => .cause "InvalidConfig" (.text text)

end TransactionRelay
