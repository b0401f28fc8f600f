import TransactionRelay.Text.Digits

namespace TransactionRelay

-- A whole number by its value; any other one by its leading digits, as many as a 64-bit word holds,
-- and the power of ten they are multiplied by.
inductive JsonNumber
  | integer (negative : Bool) (value : Nat)
  | decimal (negative : Bool) (leading : Nat) (exponent : Int)
  deriving DecidableEq, Repr

-- A text that leaves the grammar is read up to that point: `broken` is the place, and `misplaced` such a
-- place where a value stands instead of a key. The escapes of an `illText` name no character. A member
-- without a key has an ill key, or no key at all.
inductive Json
  | null
  | bool (value : Bool)
  | number (value : JsonNumber)
  | text (value : String)
  | illText
  | array (items : List Json)
  | object (members : List (Option String × Json))
  | broken
  | misplaced

namespace JsonNumber

def leadingFrom (dropped : Nat) : Nat → Nat → Nat × Nat
  | 0, value => (value, dropped)
  | tries + 1, value =>
    if value < Text.word64 then (value, dropped) else leadingFrom (dropped + 1) tries (value / 10)

def scientific : JsonNumber → Nat × Int
  | .integer _ value =>
    let found := leadingFrom 0 (value.log2 + 1) value
    (found.1, found.2)
  | .decimal _ leading exponent => (leading, exponent)

-- The floating-point number nearest to a whole one, which is whole as well. It has 53 bits before
-- its zeros, and of two that are as near it is the even one.
def nearest (value : Nat) : Nat :=
  let unit := Nat.pow 2 (value.log2 - 52)
  let below := value / unit
  let rest := 2 * (value % unit)
  if unit < rest || (rest == unit && below % 2 == 1) then (below + 1) * unit else below * unit

def floatBound : Nat := Nat.pow 2 1024 - Nat.pow 2 970

-- Beyond the floating-point numbers. The leading digits and the power of ten are both rounded
-- before they are multiplied, and no power above the 308th is taken.
def tooLarge (number : JsonNumber) : Bool :=
  match number.scientific with
  | (leading, .ofNat exponent) =>
    leading != 0 &&
      (308 < exponent || floatBound ≤ nearest leading * nearest (Nat.pow 10 exponent))
  | (_, .negSucc _) => false

def divided (x : Float) (exponent : Nat) : Float :=
  if exponent ≤ 308 then x / Float.ofScientific 1 false exponent
  else if x == 0 then x
  else divided (x / 1e308) (exponent - 308)
termination_by exponent

def toFloat (number : JsonNumber) : Float :=
  let size := match number.scientific with
    | (leading, .ofNat exponent) => Float.ofNat leading * Float.ofScientific 1 false exponent
    | (leading, .negSucc before) => divided (Float.ofNat leading) (before + 1)
  match number with
  | .integer negative _ => if negative then -size else size
  | .decimal negative _ _ => if negative then -size else size

end JsonNumber

namespace Json

def ofMembers (members : List (String × Json)) : Json :=
  .object (members.map fun member => (some member.1, member.2))

def ofNat (value : Nat) : Json := .number (.integer false value)

def ofTexts (texts : List String) : Json := .array (texts.map .text)

def ofOption (write : α → Json) : Option α → Json
  | none => .null
  | some value => write value

mutual

def intact : Json → Bool
  | .broken => false
  | .misplaced => false
  | .array items => intactItems items
  | .object members => intactMembers members
  | _ => true

def intactItems : List Json → Bool
  | [] => true
  | item :: rest => intact item && intactItems rest

def intactMembers : List (Option String × Json) → Bool
  | [] => true
  | (_, value) :: rest => intact value && intactMembers rest

end

mutual

-- Every part can be taken in as a value, and lists and objects nest no deeper than `depth`.
def readable : Nat → Json → Bool
  | _, .broken => false
  | _, .misplaced => false
  | _, .illText => false
  | _, .number value => !value.tooLarge
  | 0, .array _ => false
  | depth + 1, .array items => readableItems depth items
  | 0, .object _ => false
  | depth + 1, .object members => readableMembers depth members
  | _, _ => true

def readableItems : Nat → List Json → Bool
  | _, [] => true
  | depth, item :: rest => readable depth item && readableItems depth rest

def readableMembers : Nat → List (Option String × Json) → Bool
  | _, [] => true
  | depth, (key, value) :: rest => key.isSome && readable depth value && readableMembers depth rest

end

end Json
end TransactionRelay
