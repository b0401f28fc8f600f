import TransactionRelay.Json.Basic
import TransactionRelay.Text.Digits

namespace TransactionRelay.Json

def escapeChar (c : Char) : List Char :=
  if c = '"' then ['\\', '"']
  else if c = '\\' then ['\\', '\\']
  else if c = '\x08' then ['\\', 'b']
  else if c = '\t' then ['\\', 't']
  else if c = '\n' then ['\\', 'n']
  else if c = '\x0c' then ['\\', 'f']
  else if c = '\r' then ['\\', 'r']
  else if c.toNat < 0x20 then
    ['\\', 'u', '0', '0', Nat.digitChar (c.toNat / 16), Nat.digitChar (c.toNat % 16)]
  else [c]

def writeText (text : List Char) : List Char := '"' :: text.flatMap escapeChar ++ ['"']

def writeNumber : JsonNumber → List Char
  | .integer negative value => (if negative then ['-'] else []) ++ Text.decimal value
  | .decimal negative leading exponent =>
    (if negative then ['-'] else []) ++ Text.decimal leading ++ ['e'] ++ (toString exponent).toList

mutual

def write : Json → List Char
  | .null => "null".toList
  | .bool true => "true".toList
  | .bool false => "false".toList
  | .number value => writeNumber value
  | .text value => writeText value.toList
  | .illText => []
  | .array [] => ['[', ']']
  | .array (item :: rest) => '[' :: write item ++ writeItems rest
  | .object [] => ['\x7b', '\x7d']
  | .object (member :: rest) => '\x7b' :: writeMember member ++ writeMembers rest
  | .broken => []
  | .misplaced => []

def writeItems : List Json → List Char
  | [] => [']']
  | item :: rest => ',' :: write item ++ writeItems rest

def writeMember : Option String × Json → List Char
  | (key, value) => writeText (key.getD "").toList ++ ':' :: write value

def writeMembers : List (Option String × Json) → List Char
  | [] => ['\x7d']
  | member :: rest => ',' :: writeMember member ++ writeMembers rest

end

def toText (value : Json) : String := String.ofList (write value)

end TransactionRelay.Json
