import TransactionRelay.Failure
import TransactionRelay.Json.Records

namespace TransactionRelay

structure WebAnswer where
  status : Nat
  body : String
  deriving DecidableEq, Repr

def WebAnswer.hasBody (answer : WebAnswer) : Bool :=
  200 ≤ answer.status && answer.status ≤ 999 && answer.status != 204 && answer.status != 304

-- A relay that closes without an answer has failed as much as one whose answer is a fault.
def PingReply.ofAnswer : Option WebAnswer → Except SelectionFailure PingReply
  | none => .error (.transport "no answer")
  | some answer =>
    if 400 ≤ answer.status ∧ answer.status < 600 then
      .error (.transport ("status " ++ toString answer.status))
    else if !answer.hasBody then .error (.transport "no body")
    else match Json.decodeText PingReply.ofJson answer.body with
      | .ok reply => .ok reply
      | .error _ => .error (.transport "malformed reply")

end TransactionRelay
