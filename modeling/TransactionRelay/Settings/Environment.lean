import TransactionRelay.Text.Blank
import TransactionRelay.Text.Digits

namespace TransactionRelay

structure Environment where
  bindings : List (String × ByteArray)

namespace Environment

def text? (env : Environment) (name : String) : Option String :=
  (env.bindings.lookup name).bind String.fromUTF8?

-- A variable read after trimming. Unset or unreadable, it has the default value.
def readOr (env : Environment) (name : String) (default : α) (read : List Char → Option α) : α :=
  ((env.text? name).bind fun text => read (Text.trim text.toList)).getD default

def natOr (env : Environment) (name : String) (default bound : Nat) : Nat :=
  env.readOr name default fun text => (Text.strictBelow 10 bound text).toOption

end Environment
end TransactionRelay
