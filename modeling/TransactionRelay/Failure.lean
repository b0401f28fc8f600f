namespace TransactionRelay

inductive LedgerFailure
  | rpc (message : String)
  | decode (message : String)
  | contract (message : String)
  deriving DecidableEq, Repr

def LedgerFailure.message : LedgerFailure → String
  | .rpc text => "RPC error: " ++ text
  | .decode text => "Failed to decode event: " ++ text
  | .contract text => "Contract call failed: " ++ text

inductive SubmissionFailure
  | gasEstimation (method reason : String)
  | send (message : String)
  | store (message : String)
  deriving DecidableEq, Repr

def SubmissionFailure.message : SubmissionFailure → String
  | .gasEstimation method reason => "Gas estimation failed for " ++ method ++ ": " ++ reason
  | .send text => "Failed to send transaction: " ++ text
  | .store text => "Transaction store error: " ++ text

inductive SettingsFault
  | url (text : String)
  | address (field value : String)
  | sliceSize (size : Nat)
  | timeout (millis : Nat)
  deriving DecidableEq, Repr

def SettingsFault.message : SettingsFault → String
  | .url text => "Invalid relay url: " ++ text
  | .address field value => "Invalid address for " ++ field ++ ": " ++ value
  | .sliceSize size => "Invalid slice size: " ++ toString size
  | .timeout millis => "Invalid timeout: " ++ toString millis

inductive RegistrationFailure
  | notInitialized
  | alreadyInitialized
  | relayNotFound (manager : String)
  | ledger (cause : LedgerFailure)
  | submission (cause : SubmissionFailure)
  | invalidConfig (message : String)
  deriving DecidableEq, Repr

namespace RegistrationFailure

def message : RegistrationFailure → String
  | .notInitialized => "RegistrationManager not initialized"
  | .alreadyInitialized => "RegistrationManager already initialized"
  | .relayNotFound manager => "No relay found for manager " ++ manager
  | .ledger cause => "Ledger error: " ++ cause.message
  | .submission cause => "Submission error: " ++ cause.message
  | .invalidConfig text => "Invalid configuration: " ++ text

def source : RegistrationFailure → Option String
  | .ledger cause => some cause.message
  | .submission cause => some cause.message
  | _ => none

def ofSettings (fault : SettingsFault) : RegistrationFailure := .invalidConfig fault.message

def messages (failure : RegistrationFailure) : List String :=
  failure.message :: failure.source.toList

end RegistrationFailure

inductive SelectionFailure
  | notInitialized
  | notReady (url : String)
  | filterRejection (message : String)
  | transport (message : String)
  | directory (message : String)
  | invalidConfig (message : String)
  deriving DecidableEq, Repr

namespace SelectionFailure

-- A filter's own message is reported unchanged.
def message : SelectionFailure → String
  | .notInitialized => "RelaySelectionManager not initialized"
  | .notReady url => "Relay not ready: " ++ url
  | .filterRejection text => text
  | .transport text => "Transport error: " ++ text
  | .directory text => "Known relays directory error: " ++ text
  | .invalidConfig text => "Invalid configuration: " ++ text

def ofSettings (fault : SettingsFault) : SelectionFailure := .invalidConfig fault.message

end SelectionFailure

inductive PollFailure
  | initialisation (cause : RegistrationFailure)
  | blockNumber (cause : LedgerFailure)
  | hubEvents (cause : LedgerFailure)
  | cycle (cause : RegistrationFailure)
  deriving DecidableEq, Repr

def PollFailure.messages : PollFailure → List String
  | .initialisation cause => "Failed to initialize registration manager" :: cause.messages
  | .blockNumber cause => ["Failed to read current block", cause.message]
  | .hubEvents cause => ["Failed to fetch hub events", cause.message]
  | .cycle cause => cause.messages

end TransactionRelay
