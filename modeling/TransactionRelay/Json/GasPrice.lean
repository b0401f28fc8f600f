import TransactionRelay.Json.Decode
import TransactionRelay.Json.Read
import TransactionRelay.Text.Blank

namespace TransactionRelay

namespace GasPrice

def radixOf : List Char → Nat × List Char
  | '0' :: 'x' :: digits => (16, digits)
  | '0' :: 'X' :: digits => (16, digits)
  | digits => (10, digits)

def read (text : List Char) : Except Text.NumberFault GasPrice :=
  let announced := radixOf (Text.trim text)
  (Text.strictBelow announced.1 Text.word128 announced.2).map (BitVec.ofNat 128)

end GasPrice

inductive GasPriceFault
  | unreadable (fault : Text.NumberFault)
  | negative
  | wrongKind (kind : String)
  | grammar
  deriving DecidableEq, Repr

namespace GasPriceFault

def message : GasPriceFault → String
  | .unreadable fault => fault.message
  | .negative => "gas price cannot be negative"
  | .wrongKind kind =>
    "invalid type: " ++ kind ++ ", expected a decimal or hex string, or a non-negative integer"
  | .grammar => ""

def fault : GasPriceFault → Fault
  | .grammar => .grammar
  | _ => .shape

end GasPriceFault

namespace Json

-- An integer that needs more than 64 bits arrives as a floating-point number, and is refused as one.
def gasPrice : Json → Except GasPriceFault GasPrice
  | .text value =>
    match GasPrice.read value.toList with
    | .ok price => .ok price
    | .error fault => .error (.unreadable fault)
  | .number (.integer false value) =>
    if value < Text.word64 then .ok (BitVec.ofNat 128 value) else floating (.integer false value)
  | .number (.integer true value) =>
    if 0 < value ∧ 2 * value ≤ Text.word64 then .error .negative else floating (.integer true value)
  | .number value => floating value
  | .null => .error (.wrongKind "null")
  | .bool true => .error (.wrongKind "boolean `true`")
  | .bool false => .error (.wrongKind "boolean `false`")
  | .array _ => .error (.wrongKind "sequence")
  | .object _ => .error (.wrongKind "map")
  | .illText => .error .grammar
  | .misplaced => .error .grammar
  | .broken => .error .grammar
where
  floating (value : JsonNumber) : Except GasPriceFault GasPrice :=
    if value.tooLarge then .error .grammar else .error (.wrongKind "floating point")

def asReportedPrice (value : Json) : Except Fault GasPrice :=
  match gasPrice value with
  | .ok price => .ok price
  | .error fault => .error fault.fault

def gasPriceOfText (text : String) : Except GasPriceFault GasPrice := gasPrice (read text.toList).1

end Json
end TransactionRelay
