import TransactionRelay.Json.Basic
import TransactionRelay.Text.Digits

namespace TransactionRelay.Json

def skipBlank : List Char → List Char
  | c :: rest => if c = ' ' ∨ c = '\n' ∨ c = '\t' ∨ c = '\r' then skipBlank rest else c :: rest
  | [] => []

def readWord (word : List Char) (value : Json) (input : List Char) : Json × List Char :=
  if word.isPrefixOf input then (value, input.drop word.length) else (.broken, [])

def hexUnit (a b c d : Char) : Option Nat := do
  let a ← Text.digitIn 16 a
  let b ← Text.digitIn 16 b
  let c ← Text.digitIn 16 c
  let d ← Text.digitIn 16 d
  return ((a * 16 + b) * 16 + c) * 16 + d

def isHigh (code : Nat) : Bool := 0xD800 ≤ code && code < 0xDC00

def isLow (code : Nat) : Bool := 0xDC00 ≤ code && code < 0xE000

-- Characters from codes. A high and a low half next to each other make one character, and a half
-- by itself makes none.
def joinHalves : List Nat → Option (List Char)
  | [] => some []
  | [code] => if isHigh code || isLow code then none else some [Char.ofNat code]
  | code :: next :: rest =>
    if isHigh code then
      if isLow next then
        (joinHalves rest).map (Char.ofNat (0x10000 + (code - 0xD800) * 0x400 + (next - 0xDC00)) :: ·)
      else none
    else if isLow code then none
    else (joinHalves (next :: rest)).map (Char.ofNat code :: ·)

def shortEscape (c : Char) : Option Char :=
  if c = '"' then some '"'
  else if c = '\\' then some '\\'
  else if c = '/' then some '/'
  else if c = 'b' then some '\x08'
  else if c = 'f' then some '\x0c'
  else if c = 'n' then some '\n'
  else if c = 'r' then some '\r'
  else if c = 't' then some '\t'
  else none

def readCodes : List Char → Option (List Nat × List Char)
  | [] => none
  | '"' :: rest => some ([], rest)
  | '\\' :: 'u' :: a :: b :: c :: d :: rest =>
    match hexUnit a b c d with
    | none => none
    | some code => (readCodes rest).map fun read => (code :: read.1, read.2)
  | '\\' :: c :: rest =>
    match shortEscape c with
    | none => none
    | some meant => (readCodes rest).map fun read => (meant.toNat :: read.1, read.2)
  | c :: rest =>
    if c.toNat < 0x20 ∨ c = '\\' then none
    else (readCodes rest).map fun read => (c.toNat :: read.1, read.2)

def readText (input : List Char) : Option (Option String × List Char) :=
  (readCodes input).map fun read => ((joinHalves read.1).map String.ofList, read.2)

def digits (input : List Char) : List Char × List Char :=
  (input.takeWhile Char.isDigit, input.dropWhile Char.isDigit)

def readFraction : List Char → Option (Option (List Char) × List Char)
  | '.' :: input =>
    if (digits input).1.isEmpty then none
    else some (some (digits input).1, (digits input).2)
  | input => some (none, input)

def readPower (negative : Bool) (input : List Char) : Option (Option Int × List Char) :=
  if (digits input).1.isEmpty then none
  else
    let size : Int := Nat.ofDigitChars 10 (digits input).1 0
    some (some (if negative then -size else size), (digits input).2)

def readExponent : List Char → Option (Option Int × List Char)
  | c :: input =>
    if c = 'e' ∨ c = 'E' then
      match input with
      | '-' :: rest => readPower true rest
      | '+' :: rest => readPower false rest
      | _ => readPower false input
    else some (none, c :: input)
  | [] => some (none, [])

def joinDigits (value : Nat) : List Char → Nat × List Char
  | [] => (value, [])
  | c :: rest =>
    if value * 10 + (c.toNat - '0'.toNat) < Text.word64 then
      joinDigits (value * 10 + (c.toNat - '0'.toNat)) rest
    else (value, c :: rest)

-- The leading digits of a number with a point or a power. Digits left over before the point raise
-- the power, and digits taken after it lower the power.
def decimalOf (negative : Bool) (whole places : List Char) (power : Int) : JsonNumber :=
  let before := joinDigits 0 whole
  let after := joinDigits before.1 places
  .decimal negative after.1 (power + before.2.length - (places.length - after.2.length : Nat))

def readNumber (negative : Bool) (input : List Char) : Option (JsonNumber × List Char) := do
  let (whole, rest) := digits input
  if whole.isEmpty || (whole.head? == some '0' && whole.length != 1) then none
  let (fraction, rest) ← readFraction rest
  let (power, rest) ← readExponent rest
  match fraction, power with
  | none, none => return (.integer negative (Nat.ofDigitChars 10 whole 0), rest)
  | _, _ => return (decimalOf negative whole (fraction.getD []) (power.getD 0), rest)

def misplacedKey : Json → Json
  | .broken => .broken
  | .illText => .broken
  | .number value => if value.tooLarge then .broken else .misplaced
  | _ => .misplaced

def numberOr (read : Option (JsonNumber × List Char)) : Json × List Char :=
  match read with
  | some (value, rest) => (.number value, rest)
  | none => (.broken, [])

mutual

def readValue : Nat → List Char → Json × List Char
  | 0, _ => (.broken, [])
  | fuel + 1, input =>
    match skipBlank input with
    | [] => (.broken, [])
    | 'n' :: rest => readWord ['u', 'l', 'l'] .null rest
    | 't' :: rest => readWord ['r', 'u', 'e'] (.bool true) rest
    | 'f' :: rest => readWord ['a', 'l', 's', 'e'] (.bool false) rest
    | '"' :: rest =>
      match readText rest with
      | none => (.broken, [])
      | some (some found, after) => (.text found, after)
      | some (none, after) => (.illText, after)
    | '[' :: rest =>
      match skipBlank rest with
      | ']' :: after => (.array [], after)
      | _ => let read := readItems fuel rest; (.array read.1, read.2)
    | '\x7b' :: rest =>
      match skipBlank rest with
      | '\x7d' :: after => (.object [], after)
      | _ => let read := readMembers fuel rest; (.object read.1, read.2)
    | '-' :: rest => numberOr (readNumber true rest)
    | c :: rest => numberOr (readNumber false (c :: rest))

def readItems : Nat → List Char → List Json × List Char
  | 0, _ => ([.broken], [])
  | fuel + 1, input =>
    let first := readValue fuel input
    match skipBlank first.2 with
    | ',' :: rest => let others := readItems fuel rest; (first.1 :: others.1, others.2)
    | ']' :: rest => ([first.1], rest)
    | _ => ([first.1, .broken], [])

def readMembers : Nat → List Char → List (Option String × Json) × List Char
  | 0, _ => ([(none, .broken)], [])
  | fuel + 1, input =>
    match skipBlank input with
    | '"' :: rest =>
      match readText rest with
      | none => ([(none, .broken)], [])
      | some (key, afterKey) =>
        match skipBlank afterKey with
        | ':' :: rest =>
          let value := readValue fuel rest
          match skipBlank value.2 with
          | ',' :: rest => let others := readMembers fuel rest; ((key, value.1) :: others.1, others.2)
          | '\x7d' :: rest => ([(key, value.1)], rest)
          | _ => ([(key, value.1), (none, .broken)], [])
        | _ => ([(key, .broken)], [])
    | _ => ([(none, (readValue fuel input).1.misplacedKey)], [])

end

-- Each step of the reader takes a character or leads to one that does.
def read (input : List Char) : Json × List Char := readValue (2 * input.length + 2) input

def ofText? (input : String) : Option Json :=
  let (value, rest) := read input.toList
  if value.intact && (skipBlank rest).isEmpty then some value else none

end TransactionRelay.Json
