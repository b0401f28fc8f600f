namespace TransactionRelay

structure BlockRange where
  first : UInt64
  last : Option UInt64
  deriving DecidableEq, Repr

namespace BlockRange

def since (scanned current : UInt64) : BlockRange := ⟨scanned + 1, some current⟩

def startingAt (first : UInt64) : BlockRange := ⟨first, none⟩

def holds (range : BlockRange) (block : UInt64) : Bool :=
  decide (range.first ≤ block) && range.last.all fun last => decide (block ≤ last)

end BlockRange
end TransactionRelay
