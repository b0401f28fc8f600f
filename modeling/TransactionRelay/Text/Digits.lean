namespace TransactionRelay.Text

def digitValue (c : Char) : Option Nat :=
  if '0' ≤ c ∧ c ≤ '9' then some (c.toNat - '0'.toNat)
  else if 'a' ≤ c ∧ c ≤ 'z' then some (c.toNat - 'a'.toNat + 10)
  else if 'A' ≤ c ∧ c ≤ 'Z' then some (c.toNat - 'A'.toNat + 10)
  else none

def digitIn (radix : Nat) (c : Char) : Option Nat :=
  (digitValue c).filter (· < radix)

inductive NumberFault
  | empty
  | badDigit
  | tooLarge
  deriving DecidableEq, Repr

def NumberFault.message : NumberFault → String
  | .empty => "cannot parse integer from empty string"
  | .badDigit => "invalid digit found in string"
  | .tooLarge => "number too large to fit in target type"

-- A character is looked at before the value it makes.
def digitsBelow (radix bound value : Nat) : List Char → Except NumberFault Nat
  | [] => .ok value
  | c :: rest =>
    match digitIn radix c with
    | none => .error .badDigit
    | some digit =>
      if value * radix + digit < bound then digitsBelow radix bound (value * radix + digit) rest
      else .error .tooLarge

def strictBelow (radix bound : Nat) : List Char → Except NumberFault Nat
  | [] => .error .empty
  | ['+'] => .error .badDigit
  | '+' :: digits => digitsBelow radix bound 0 digits
  | digits => digitsBelow radix bound 0 digits

def looseBelow (radix bound : Nat) (text : List Char) : Except NumberFault Nat :=
  digitsBelow radix bound 0 (text.filter (· ≠ '_'))

def word16 : Nat := Nat.pow 2 16
def word32 : Nat := Nat.pow 2 32
def word64 : Nat := Nat.pow 2 64
def word128 : Nat := Nat.pow 2 128
def word256 : Nat := Nat.pow 2 256

def decimal (n : Nat) : List Char := Nat.toDigits 10 n

def hexadecimal (n : Nat) : List Char := Nat.toDigits 16 n

end TransactionRelay.Text
