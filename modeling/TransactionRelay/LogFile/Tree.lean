import TransactionRelay.LogFile.Path
import TransactionRelay.Text.Blank

namespace TransactionRelay.LogFile

inductive Node
  | directory
  | file (size : Nat)
  deriving DecidableEq, Repr

def directorySize : Nat := 4096

def Node.size : Node → Nat
  | .directory => directorySize
  | .file size => size

abbrev Place := List (List Char)

inductive PathFault
  | missing
  | notDirectory
  | taken
  | unusable
  deriving DecidableEq, Repr

def nameFits (name : List Char) : Bool := (String.ofList name).utf8ByteSize ≤ 255

def pathFits (path : List Char) : Bool :=
  (String.ofList path).utf8ByteSize < 4096 && !path.contains '\x00'

-- The root always stands, and is not listed.
structure Tree where
  nodes : List (Place × Node)
  deriving DecidableEq, Repr

namespace Tree

def node? (tree : Tree) (place : Place) : Option Node :=
  if place.isEmpty then some .directory else tree.nodes.lookup place

def put (tree : Tree) (place : Place) (node : Node) : Tree :=
  ⟨tree.nodes.filter (fun held => held.1 != place) ++ [(place, node)]⟩

-- One step of a walk: to stay, up, or to a name. Nothing has to stand at the name yet.
def step (tree : Tree) (place : Place) (segment : List Char) : Except PathFault Place :=
  match tree.node? place with
  | none => .error .missing
  | some (.file _) => .error .notDirectory
  | some .directory =>
    if segment.isEmpty || segment == ['.'] then .ok place
    else if segment == ['.', '.'] then .ok place.dropLast
    else if nameFits segment then .ok (place ++ [segment])
    else .error .unusable

def walk (tree : Tree) : Place → List (List Char) → Except PathFault Place
  | place, [] => .ok place
  | place, segment :: rest =>
    match tree.step place segment with
    | .ok next => tree.walk next rest
    | .error fault => .error fault

def locate (tree : Tree) (path : List Char) : Except PathFault Place :=
  if path.isEmpty then .error .missing
  else if pathFits path then tree.walk [] (Path.segments path)
  else .error .unusable

def find (tree : Tree) (path : List Char) : Option Node :=
  match tree.locate path with
  | .ok place => tree.node? place
  | .error _ => none

def sizeOf (tree : Tree) (path : List Char) : Option Nat := (tree.find path).map Node.size

-- A new directory. Slashes at the end of its path count for nothing, because nothing has to stand
-- there yet.
def makeDirectory (tree : Tree) (path : List Char) : Except PathFault Tree :=
  match tree.locate (Text.dropEnd (· = '/') path) with
  | .error fault => .error fault
  | .ok place =>
    if (tree.node? place).isSome then .error .taken else .ok (tree.put place .directory)

-- Directories in turn; one that stands already is as good as made. After a fault those that were
-- made before it stay.
def makeEach (tree : Tree) : List (List Char) → Tree × Option PathFault
  | [] => (tree, none)
  | path :: rest =>
    match tree.makeDirectory path with
    | .ok made => made.makeEach rest
    | .error fault =>
      if fault = .taken ∧ tree.find path = some .directory then tree.makeEach rest
      else (tree, some fault)

def makeDirectories (tree : Tree) (path : List Char) : Tree × Option PathFault :=
  if pathFits path then tree.makeEach (Path.ways path) else (tree, some .unusable)

def openFile (tree : Tree) (path : List Char) : Option Tree :=
  match tree.locate path with
  | .error _ => none
  | .ok place =>
    match tree.node? place with
    | some .directory => none
    | some (.file _) => some tree
    | none => some (tree.put place (.file 0))

def withFile (tree : Tree) (path : List Char) (size : Nat) : Tree :=
  let above := (tree.makeDirectories (Path.parent path)).1
  match above.locate path with
  | .ok place => above.put place (.file size)
  | .error _ => above

end Tree

end TransactionRelay.LogFile
