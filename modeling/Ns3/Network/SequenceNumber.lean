/-!
# Sequence numbers

`SequenceNumber` (`network/utils/sequence-number.h`): numbers of a given number of bits that wrap around, with a
comparison that takes the wrap into account.
-/

namespace Ns3

/-- A number that wraps around. -/
structure SequenceNumber (w : Nat) where
  value : BitVec w
  deriving DecidableEq

/-- A number of 32 bits. -/
abbrev SequenceNumber32 := SequenceNumber 32

namespace SequenceNumber

variable {w : Nat}

/-- `std::numeric_limits<NUMERIC_TYPE>::max () / 2`. -/
def halfMaxValue (w : Nat) : BitVec w := BitVec.allOnes w / 2

/-- `operator++`. -/
def next (a : SequenceNumber w) : SequenceNumber w := ⟨a.value + 1⟩

/-- `operator +`, for another sequence number and for a plain number. -/
def add (a : SequenceNumber w) (delta : BitVec w) : SequenceNumber w := ⟨a.value + delta⟩

variable (a b : SequenceNumber w)

/-- `operator -` for another sequence number: a signed number. -/
def sub : BitVec w :=
  if b.value < a.value then
    let diff := a.value - b.value
    if diff < halfMaxValue w then diff else -(BitVec.allOnes w - a.value + 1 + b.value)
  else
    let diff := b.value - a.value
    if diff < halfMaxValue w then -diff else BitVec.allOnes w - b.value + 1 + a.value

/-- `operator >`. -/
def gt : Bool :=
  (b.value < a.value && a.value - b.value ≤ halfMaxValue w) ||
    (a.value < b.value && b.value - a.value > halfMaxValue w)

/-- `operator <=`. -/
def le : Bool := !a.gt b

/-- `operator >=`. -/
def ge : Bool := a.gt b || a = b

/-- `operator <`. -/
def lt : Bool := !a.gt b && a ≠ b

end SequenceNumber

namespace SequenceNumber32

/-- `SequenceNumber32 (value)`. -/
def ofUInt32 (value : UInt32) : SequenceNumber32 := ⟨value.toBitVec⟩

/-- A sum with a size. -/
def plus (a : SequenceNumber32) (size : UInt32) : SequenceNumber32 := a.add size.toBitVec

/-- A difference that is assigned to a `uint32_t`. -/
def minus (a b : SequenceNumber32) : UInt32 := ⟨a.sub b⟩

end SequenceNumber32

end Ns3
