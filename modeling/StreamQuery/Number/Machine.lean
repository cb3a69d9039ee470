/-!
# Machine integers

Integers in words of a machine, and parts of sequences at positions computed in them. An operation
may be checked, and then has no result where that does not fit. What is not checked is left to the
machine: one may wrap around, another one traps.
-/

namespace StreamQuery

namespace Number

/-- Whether an integer fits a signed word. -/
def FitsWord (bits : Nat) (n : Int) : Prop :=
  -(Nat.pow 2 (bits - 1) : Int) ≤ n ∧ n < Nat.pow 2 (bits - 1)

instance (bits : Nat) (n : Int) : Decidable (FitsWord bits n) := by
  unfold FitsWord
  infer_instance

/-- The low bits of an integer as a signed word. -/
def lowWord (bits : Nat) (n : Int) : Int := n.bmod (Nat.pow 2 bits)

/-- The result of a checked operation. -/
def checked (bits : Nat) (n : Int) : Option Int := if FitsWord bits n then some n else none

/-- A checked division, towards zero. -/
def checkedQuotient (bits : Nat) (a b : Int) : Option Int :=
  if b = 0 then none else checked bits (a.tdiv b)

/-- The remainder of a checked division, which has none where the quotient does not fit. -/
def checkedRemainder (bits : Nat) (a b : Int) : Option Int :=
  (checkedQuotient bits a b).map fun _ => a.tmod b

/-- A checked power by squaring: `acc * base ^ exponent`, where every product is checked. -/
def checkedPowerFrom (bits : Nat) (acc base : Int) (exponent : Nat) : Option Int :=
  if exponent = 0 then some acc
  else do
    let acc ← if exponent % 2 = 1 then checked bits (acc * base) else some acc
    if exponent = 1 then return acc
    checkedPowerFrom bits acc (← checked bits (base * base)) (exponent / 2)
termination_by exponent

/-- A checked power. -/
def checkedPower (bits : Nat) (base : Int) (exponent : Nat) : Option Int :=
  checkedPowerFrom bits 1 base exponent

end Number

/-- What a machine makes of operations that are not checked: of a result in a signed word, of a
quotient, of a remainder, and of a part of a sequence that may be missing. -/
structure Machine (m : Type → Type) where
  word (bits : Nat) (n : Int) : m Int
  quotient (bits : Nat) (a b : Int) : m Int
  remainder (a b : Int) : m Int
  present {α : Type} [Inhabited α] (part : Option α) : m α

namespace Machine

open Number

/-- A machine that wraps around, and goes on with a default where a part is missing. -/
def wrapping : Machine Id where
  word bits n := lowWord bits n
  quotient bits a b := lowWord bits (a.tdiv b)
  remainder a b := a.tmod b
  present part := part.getD default

/-- A machine that traps where a result does not fit, where it would divide by zero, and where a
part is missing. -/
def trapping : Machine Option where
  word := checked
  quotient := checkedQuotient
  remainder a b := if b = 0 then none else some (a.tmod b)
  present part := part

/-- A machine with words for all integers. -/
def unbounded : Machine Id where
  word _ n := n
  quotient _ a b := a.tdiv b
  remainder a b := a.tmod b
  present part := part.getD default

end Machine

end StreamQuery
