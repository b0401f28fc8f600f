import TransactionRelay.Amount
import TransactionRelay.Json.Basic

namespace TransactionRelay

inductive Fault
  | grammar
  | shape
  deriving DecidableEq, Repr

namespace Json

-- The fault of a value that is not of the kind looked for. A list or an object is refused at its
-- first character, so a break inside it does not count.
def mismatch : Json → Fault
  | .broken => .grammar
  | .misplaced => .grammar
  | .illText => .grammar
  | .number value => if value.tooLarge then .grammar else .shape
  | _ => .shape

def asText : Json → Except Fault String
  | .text value => .ok value
  | other => .error other.mismatch

def asBool : Json → Except Fault Bool
  | .bool value => .ok value
  | other => .error other.mismatch

def asWord64 : Json → Except Fault UInt64
  | .number (.integer false value) =>
    if value < Text.word64 then .ok (UInt64.ofNat value)
    else .error (Json.number (.integer false value)).mismatch
  | other => .error other.mismatch

-- A word of 128 bits is looked for digit by digit, so whatever else stands there breaks the grammar.
def asGasPrice : Json → Except Fault GasPrice
  | .number (.integer false value) =>
    if value < Text.word128 then .ok (BitVec.ofNat 128 value) else .error .grammar
  | _ => .error .grammar

def asWei : Json → Except Fault Wei
  | .text value =>
    match Wei.read value.toList with
    | .ok amount => .ok amount
    | .error _ => .error .shape
  | .number (.integer false value) =>
    if value < Text.word64 then .ok (BitVec.ofNat 256 value)
    else .error (Json.number (.integer false value)).mismatch
  | other => .error other.mismatch

def asOption (decode : Json → Except Fault α) : Json → Except Fault (Option α)
  | .null => .ok none
  | other => (decode other).map some

def asEach (decode : Json → Except Fault α) : List Json → Except Fault (List α)
  | [] => .ok []
  | item :: rest => do
    let first ← decode item
    let others ← asEach decode rest
    return first :: others

-- Items beyond a break are looked for, and their absence is the break's fault.
def asList (decode : Json → Except Fault α) : Json → Except Fault (List α)
  | .array items => asEach decode items
  | other => .error other.mismatch

def isNull : Json → Except Fault Unit
  | .null => .ok ()
  | other => .error other.mismatch

def asPlainName (ofName : String → Option α) (value : Json) : Except Fault α := do
  let name ← value.asText
  (ofName name).elim (.error .shape) .ok

def asName (ofName : String → Option α) : Json → Except Fault α
  | .text name => (ofName name).elim (.error .shape) .ok
  | .object ((some name, value) :: rest) => do
    let found ← (ofName name).elim (.error .shape) .ok
    value.isNull
    if rest.isEmpty then return found else .error .grammar
  | .object ((none, .misplaced) :: _) => .error .shape
  | _ => .error .grammar

def asNameTaken (ofName : String → Option α) : Json → Except Fault α
  | .text name => (ofName name).elim (.error .shape) .ok
  | .object [(some name, .null)] => (ofName name).elim (.error .shape) .ok
  | .object [(some name, .object [])] => (ofName name).elim (.error .shape) .ok
  | _ => .error .shape

structure Field where
  name : String
  check : Json → Except Fault Unit

def Field.of (name : String) (decode : Json → Except Fault α) : Field :=
  ⟨name, fun value => (decode value).map fun _ => ()⟩

-- The known members of an object, checked in order. A second one of a name is refused before its
-- value is looked at.
def knownMembers (fields : List Field) (seen : List String) :
    List (Option String × Json) → Except Fault (List (String × Json))
  | [] => .ok []
  | (none, _) :: _ => .error .grammar
  | (some key, value) :: rest =>
    match fields.find? (·.name == key) with
    | none => if value.intact then knownMembers fields seen rest else .error .grammar
    | some field =>
      if seen.contains key then .error .shape
      else do
        field.check value
        let others ← knownMembers fields (key :: seen) rest
        return (key, value) :: others

def listedMembers : List Field → List Json → Except Fault (List (String × Json))
  | [], [] => .ok []
  | [], _ :: _ => .error .grammar
  | _ :: _, [] => .error .shape
  | field :: fields, value :: rest => do
    field.check value
    let others ← listedMembers fields rest
    return (field.name, value) :: others

def objectMembers (fields : List Field) : Json → Except Fault (List (String × Json))
  | .object members => knownMembers fields [] members
  | other => .error other.mismatch

def recordMembers (fields : List Field) : Json → Except Fault (List (String × Json))
  | .array items => listedMembers fields items
  | other => objectMembers fields other

def required (members : List (String × Json)) (name : String) (decode : Json → Except Fault α) :
    Except Fault α :=
  match members.lookup name with
  | some value => decode value
  | none => .error .shape

def optional (members : List (String × Json)) (name : String) (decode : Json → Except Fault α) :
    Except Fault (Option α) :=
  match members.lookup name with
  | some value => asOption decode value
  | none => .ok none

end Json
end TransactionRelay
