import TransactionRelay.Text.LowerCase
import TransactionRelay.Text.Digits

namespace TransactionRelay.Address

def stripMark : List Char → List Char
  | '0' :: 'x' :: digits => digits
  | '0' :: 'X' :: digits => digits
  | digits => digits

def padLeft (width : Nat) (fill : Char) (text : List Char) : List Char :=
  List.replicate (width - text.length) fill ++ text

def topicChars (address : List Char) : List Char :=
  ['0', 'x'] ++ padLeft 64 '0' (Text.lower (stripMark address))

def topic (address : String) : String := String.ofList (topicChars address.toList)

def same (a b : String) : Bool :=
  a.toList.map Char.toLower == b.toList.map Char.toLower

def wellFormed (text : String) : Bool :=
  let digits := stripMark text.toList
  digits.length == 40 && digits.all fun c => (Text.digitIn 16 c).isSome

end TransactionRelay.Address
