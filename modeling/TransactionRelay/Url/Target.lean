import TransactionRelay.Url

namespace TransactionRelay.Url

def hexByte (byte : UInt8) : List Char :=
  let digit (value : Nat) := if value < 10 then Nat.digitChar value else (Nat.digitChar value).toUpper
  ['%', digit (byte.toNat / 16), digit (byte.toNat % 16)]

def sent (marks : List Char) (c : Char) : List Char :=
  if c.toNat < 0x20 || 0x7E < c.toNat || marks.contains c then
    c.toString.toUTF8.toList.flatMap hexByte
  else [c]

def pathMarks : List Char := [' ', '"', '#', '<', '>', '?', '^', '`', '\x7b', '\x7d']

def queryMarks : List Char := [' ', '"', '#', '<', '>', '\x27']

-- A dot may be spelt as a byte.
def plainDots : List Char → List Char
  | '%' :: '2' :: 'e' :: rest => '.' :: plainDots rest
  | '%' :: '2' :: 'E' :: rest => '.' :: plainDots rest
  | c :: rest => c :: plainDots rest
  | [] => []

def isHere (segment : List Char) : Bool := plainDots segment == ['.']

def isUp (segment : List Char) : Bool := plainDots segment == ['.', '.']

-- The segments that are left once the steps are taken; `kept` is listed from the last one back. A
-- step at the end leaves an empty segment.
def settle (kept : List (List Char)) : List (List Char) → List (List Char)
  | [] => kept.reverse
  | [last] =>
    if isUp last then ([] :: kept.tail).reverse
    else if isHere last then ([] :: kept).reverse
    else (last :: kept).reverse
  | segment :: rest =>
    if isUp segment then settle kept.tail rest
    else if isHere segment then settle kept rest
    else settle (segment :: kept) rest

def isSlash (c : Char) : Bool := c == '/' || c == '\\'

def pieces : List Char → List (List Char)
  | [] => [[]]
  | c :: rest =>
    if isSlash c then [] :: pieces rest
    else match pieces rest with
      | [] => [[c]]
      | piece :: more => (c :: piece) :: more

-- The path and query of a url. Tabs and line ends count for nothing anywhere.
def target (url : List Char) : List Char :=
  let url := url.filter fun c => c ≠ '\t' ∧ c ≠ '\n' ∧ c ≠ '\r'
  let rest := match splitScheme url with
    | some (_, rest) => rest
    | none => url
  let asked := (rest.dropWhile fun c => !isSlash c && c ≠ '?' && c ≠ '#').takeWhile (· ≠ '#')
  let path := asked.takeWhile (· ≠ '?')
  let segments := settle [] (pieces (path.drop 1))
  ['/'] ++ List.intercalate ['/'] (segments.map (List.flatMap (sent pathMarks))) ++
    (asked.dropWhile (· ≠ '?')).flatMap fun c => if c = '?' then [c] else sent queryMarks c

def pingRequest (url : String) : String :=
  String.ofList ("GET ".toList ++ target (ping url).toList)

end TransactionRelay.Url
