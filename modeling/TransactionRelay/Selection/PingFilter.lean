import TransactionRelay.Failure
import TransactionRelay.Relay

namespace TransactionRelay

abbrev PingFilter := PingReply → RelayRequest → Except SelectionFailure Unit

namespace PingFilter

def acceptAll : PingFilter := fun _ _ => .ok ()

def gasPrice : PingFilter := fun reply request =>
  match request.gasPrice with
  | some offered =>
    if offered < reply.minGasPrice then
      .error (.filterRejection ("Proposed gas price: " ++ offered.toText ++
        "; relay's minimum gas price: " ++ reply.minGasPrice.toText))
    else .ok ()
  | none => .ok ()

def version : PingFilter := fun reply request =>
  if reply.version.isEmpty then .error (.filterRejection ("unknown version for " ++ request.target))
  else .ok ()

def reject (failure : SelectionFailure) : PingFilter := fun _ _ => .error failure

end PingFilter

def judge (filter : PingFilter) (request : RelayRequest) (relay : RelayRecord) :
    Except SelectionFailure PingReply → Except SelectionFailure RelayInfo
  | .error failure => .error failure
  | .ok reply =>
    if !reply.ready then .error (.notReady relay.url)
    else match filter reply request with
      | .error failure => .error failure
      | .ok () => .ok (RelayInfo.ofPing reply relay)

end TransactionRelay
