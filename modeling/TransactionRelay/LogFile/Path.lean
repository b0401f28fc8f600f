namespace TransactionRelay.Path

def segments : List Char → List (List Char)
  | [] => [[]]
  | c :: rest =>
    if c = '/' then [] :: segments rest
    else match segments rest with
      | [] => [[c]]
      | segment :: more => (c :: segment) :: more

-- Empty segments count for nothing, and neither does a single dot, unless the path begins with it.
def isComponent (first : Bool) (segment : List Char) : Bool :=
  !segment.isEmpty && (segment != ['.'] || first)

def dropIdle : List (List Char) → List (List Char)
  | [] => []
  | segment :: before =>
    if isComponent before.isEmpty segment then segment :: before else dropIdle before

def backwards (path : List Char) : List (List Char) := dropIdle (segments path).reverse

def ofBackwards (back : List (List Char)) : List Char :=
  List.intercalate ['/'] back.reverse

def fileName? (path : List Char) : Option (List Char) :=
  match backwards path with
  | [] => none
  | last :: _ => if last = ['.', '.'] ∨ last = ['.'] then none else some last

def parent (path : List Char) : List Char :=
  let back := dropIdle (backwards path).tail
  if back.isEmpty && path.head? == some '/' then ['/'] else ofBackwards back

def push (path name : List Char) : List Char :=
  if path.isEmpty || path.getLast? == some '/' then path ++ name else path ++ ['/'] ++ name

-- A dot in front does not count.
def stem (name : List Char) : List Char :=
  match name.reverse.dropWhile (· ≠ '.') with
  | [] => name
  | _ :: before => if before.isEmpty then name else before.reverse

def fileStem (path : List Char) : List Char := ((fileName? path).map stem).getD []

def withFileName (path name : List Char) : List Char :=
  push (if (fileName? path).isSome then parent path else path) name

def shortened : List (List Char) → List (List (List Char))
  | [] => []
  | segment :: before =>
    if isComponent before.isEmpty segment then (segment :: before) :: shortened before
    else shortened before

-- The paths on the way to a path, the shortest first, and the path itself as it is written. The
-- root and the empty path are not on the way.
def ways (path : List Char) : List (List Char) :=
  match shortened (backwards path) with
  | [] => []
  | _ :: above => above.reverse.map ofBackwards ++ [path]

end TransactionRelay.Path
