import TransactionRelay.Text.Blank
import TransactionRelay.Text.Digits

namespace TransactionRelay.Url

def splitScheme : List Char → Option (List Char × List Char)
  | [] => none
  | ':' :: '/' :: '/' :: rest => some ([], rest)
  | c :: rest => (splitScheme rest).map fun (scheme, after) => (c :: scheme, after)

-- The host has all that stands before the first slash.
structure Parts where
  scheme : List Char
  host : List Char
  path : List Char
  deriving DecidableEq, Repr

def parts (url : List Char) : Parts :=
  let (scheme, rest) := match splitScheme url with
    | some (scheme, rest) => (scheme ++ [':', '/', '/'], rest)
    | none => ([], url)
  ⟨scheme, rest.takeWhile (· ≠ '/'), rest.dropWhile (· ≠ '/')⟩

def dropSlashes (text : List Char) : List Char := Text.dropEnd (· = '/') text

-- The port goes after the host, and slashes at the end of the path go away. A host that holds a
-- colon is taken to name its port, and then nothing changes; neither does it for port zero.
def advertisedChars (port : UInt16) (url : List Char) : List Char :=
  let p := parts url
  if p.host.contains ':' || port == 0 then url
  else p.scheme ++ p.host ++ [':'] ++ Text.decimal port.toNat ++ dropSlashes p.path

def advertised (port : UInt16) (url : String) : String :=
  String.ofList (advertisedChars port url.toList)

def ping (url : String) : String :=
  String.ofList (dropSlashes url.toList ++ "/getaddr".toList)

def isWeb (url : String) : Bool :=
  "http://".toList.isPrefixOf url.toList || "https://".toList.isPrefixOf url.toList

end TransactionRelay.Url
