import TransactionRelay.Text.Digits

namespace TransactionRelay

structure RetryPolicy where
  retries : Nat := 5
  initialMillis : UInt64 := 1000
  multiplier : Float := 1.5
  maxMillis : UInt64 := 60000

namespace RetryPolicy

def powerFrom (result base : Float) (exponent : Nat) : Float :=
  let next := if exponent % 2 = 1 then result * base else result
  if h : exponent / 2 = 0 then next
  else powerFrom next (base * base) (exponent / 2)
termination_by exponent
decreasing_by omega

def power (base : Float) (exponent : Int) : Float :=
  let positive := powerFrom 1 base exponent.natAbs
  if exponent < 0 then 1 / positive else positive

-- The exponent for a count of failures: a signed word of 32 bits.
def exponentOf (failures : Nat) : Int := (failures : Int).bmod Text.word32

-- The smaller of two; what is not a number loses.
def smaller (a b : Float) : Float :=
  if a.isNaN then b else if b.isNaN then a else if b < a then b else a

def delay? (policy : RetryPolicy) (failures : Nat) : Option Nat :=
  if policy.retries ≤ failures then none
  else
    let grown := policy.initialMillis.toFloat * power policy.multiplier (exponentOf failures)
    some (smaller grown policy.maxMillis.toFloat).toUInt64.toNat

theorem delay_none_iff (policy : RetryPolicy) (failures : Nat) :
    policy.delay? failures = none ↔ policy.retries ≤ failures := by
  unfold delay?
  split <;> simp_all

end RetryPolicy
end TransactionRelay
