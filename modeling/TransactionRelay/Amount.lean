import TransactionRelay.Text.Digits

namespace TransactionRelay

-- Sums and products wrap, so a user of them shows that they fit.
abbrev Wei := BitVec 256

abbrev GasPrice := BitVec 128

namespace Wei

def radixOf : List Char → Nat × List Char
  | '0' :: mark :: digits =>
    if mark = 'x' ∨ mark = 'X' then (16, digits)
    else if mark = 'o' ∨ mark = 'O' then (8, digits)
    else if mark = 'b' ∨ mark = 'B' then (2, digits)
    else (10, '0' :: mark :: digits)
  | digits => (10, digits)

def read (text : List Char) : Except Text.NumberFault Wei :=
  (Text.looseBelow (radixOf text).1 Text.word256 (radixOf text).2).map (BitVec.ofNat 256)

def ofText? (text : String) : Option Wei := (read text.toList).toOption

def toText (amount : Wei) : String := String.ofList (Text.decimal amount.toNat)

def toHex (amount : Wei) : String :=
  String.ofList (['0', 'x'] ++ Text.hexadecimal amount.toNat)

def ofGas (gas : UInt64) (price : GasPrice) : Wei :=
  BitVec.ofNat 256 gas.toNat * price.setWidth 256

end Wei

namespace GasPrice

def toText (price : GasPrice) : String := String.ofList (Text.decimal price.toNat)

end GasPrice
end TransactionRelay
