import Mathlib.Algebra.Group.Nat.Defs
import Mathlib.Data.List.Nodup

/-!
# Type identifiers

The part of `core/model/type-id.cc` that gives types their numbers: a type has the number under which its name
was registered. A name is the octets of its `std::string`.
-/

namespace Ns3

/-- `IidManager`: the names by their numbers, from 1 on. -/
structure IidManager where
  /-- `m_information`, of each type its name. -/
  names : List (List UInt8)
  /-- `AllocateUid` allows no name twice. -/
  nodup : names.Nodup
  /-- `AllocateUid` asserts that the numbers have 16 bits. -/
  length_le : names.length ≤ 0xffff

namespace IidManager

variable (m : IidManager)

/-- One more than the place of the name, or zero. -/
def getUid (name : List UInt8) : ℕ :=
  if name ∈ m.names then m.names.idxOf name + 1 else 0

/-- `GetName`, of a number that `LookupInformation` finds. -/
def getName (uid : ℕ) : Option (List UInt8) :=
  if uid ≤ m.names.length ∧ uid ≠ 0 then m.names[uid - 1]? else none

theorem getUid_eq {uid : ℕ} {name : List UInt8} (h : m.getName uid = some name) :
    m.getUid name = uid := by
  rw [getName] at h
  split_ifs at h with huid
  obtain ⟨hlt, rfl⟩ := List.getElem?_eq_some_iff.mp h
  rw [getUid, if_pos (List.getElem_mem hlt), m.nodup.idxOf_getElem]
  omega

theorem lt_of_getName {uid : ℕ} {name : List UInt8} (h : m.getName uid = some name) :
    0 < uid ∧ uid < 2 ^ 16 := by
  rw [getName] at h
  split_ifs at h with huid
  have hle := m.length_le
  omega

end IidManager

/-- `TypeId::LookupByName`, which asserts that there is such a type. -/
def TypeId.lookupByName (m : IidManager) (name : List UInt8) : Option ℕ :=
  if m.getUid name ≠ 0 then some (m.getUid name) else none

/-- `TypeId::SetUid`, which takes a number of 16 bits, and then `TypeId::GetName`. -/
def TypeId.getName (m : IidManager) (uid : ℕ) : Option (List UInt8) := m.getName (uid % 2 ^ 16)

theorem TypeId.lookupByName_eq (m : IidManager) {uid : ℕ} {name : List UInt8}
    (h : TypeId.getName m uid = some name) : TypeId.lookupByName m name = some (uid % 2 ^ 16) := by
  have hpos := (m.lt_of_getName h).1
  rw [lookupByName, m.getUid_eq h, if_pos (Nat.ne_of_gt hpos)]

end Ns3
