import TransactionRelay.LogFile.Tree
import TransactionRelay.Text.Digits

namespace TransactionRelay.LogFile

def rolledChars (base date : List Char) (index : Nat) : List Char :=
  Path.withFileName base
    (Path.fileStem base ++ ['-'] ++ date ++ ['.'] ++ Text.decimal index ++ ".log".toList)

def rolled (base date : String) (index : Nat) : String :=
  String.ofList (rolledChars base.toList date.toList index)

def usable (sizeOf : List Char → Option Nat) (base date : List Char) (limit index : Nat) : Bool :=
  match sizeOf (rolledChars base date index) with
  | none => true
  | some size => size ≤ limit

def firstUsable (sizeOf : List Char → Option Nat) (base date : List Char) (limit : Nat) :
    Nat → Nat → Nat
  | 0, index => index
  | tries + 1, index =>
    if usable sizeOf base date limit index then index
    else firstUsable sizeOf base date limit tries (index + 1)

-- Paths of different indices lead to different places, so with `n` nodes in the tree one of the
-- first `n + 1` indices is usable.
def Tree.nextPath (tree : Tree) (base date : List Char) (limit : Nat) : List Char :=
  rolledChars base date (firstUsable tree.sizeOf base date limit (tree.nodes.length + 1) 1)

end TransactionRelay.LogFile
