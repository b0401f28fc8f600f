import TransactionRelay.Amount
import TransactionRelay.Text.Quoted

namespace TransactionRelay

def yesNo (value : Bool) : String := if value then "yes" else "no"

structure Requirement where
  label : String
  minimum : Wei
  current : Wei := 0
  deriving DecidableEq, Repr

namespace Requirement

def satisfied (r : Requirement) : Bool := decide (r.minimum ≤ r.current)

def store (r : Requirement) (amount : Wei) : Requirement := { r with current := amount }

def flips (r : Requirement) (amount : Wei) : Bool := (r.store amount).satisfied != r.satisfied

-- One write, and what the listener made of it. A tracker without a listener hands over
-- `fun _ heard => heard`.
def write (listener : Requirement → σ → σ) (r : Requirement) (amount : Wei) (heard : σ) :
    Requirement × σ :=
  (r.store amount, if r.flips amount then listener (r.store amount) heard else heard)

def writes (listener : Requirement → σ → σ) (r : Requirement) (amounts : List Wei) (heard : σ) :
    Requirement × σ :=
  amounts.foldl (fun state amount => write listener state.1 amount state.2) (r, heard)

@[simp] theorem current_store (r : Requirement) (amount : Wei) : (r.store amount).current = amount := rfl
@[simp] theorem minimum_store (r : Requirement) (amount : Wei) : (r.store amount).minimum = r.minimum := rfl
@[simp] theorem label_store (r : Requirement) (amount : Wei) : (r.store amount).label = r.label := rfl

def flipNotice (r : Requirement) : String :=
  r.label ++ " requirement is " ++ (if r.satisfied then "now" else "no longer") ++ " satisfied"

def padRight (width : Nat) (text : String) : String :=
  text ++ String.ofList (List.replicate (width - text.length) ' ')

def describe (r : Requirement) : String :=
  padRight 14 r.label ++ " | " ++ yesNo r.satisfied ++ " | actual: " ++ r.current.toText ++
    " required: " ++ r.minimum.toText

def diagnostic (r : Requirement) : String :=
  "AmountRequired \x7b label: " ++ Text.quoted r.label ++ ", required_value: " ++ r.minimum.toText ++
    ", current_value: " ++ r.current.toText ++ " \x7d"

end Requirement
end TransactionRelay
