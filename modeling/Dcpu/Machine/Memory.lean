import Std.Data.TreeMap
import Dcpu.Word

/-! # Memory

The memory has a word at each of the 65536 addresses, zero until it is written.
-/

namespace Dcpu

/-- The words that were written, by their addresses. -/
structure Memory where
  words : Std.TreeMap Word Word

namespace Memory

def empty : Memory := ⟨∅⟩

def read (memory : Memory) (address : Word) : Word :=
  memory.words.getD address 0

def write (memory : Memory) (address value : Word) : Memory :=
  ⟨memory.words.insert address value⟩

/-- The addresses with a word other than zero, in ascending order, and their words. -/
def nonzero (memory : Memory) : List (Word × Word) :=
  memory.words.toList.filter (·.2 ≠ 0)

/-- A row of words from an address on, which ends with the memory. -/
def row (memory : Memory) (base : Word) (count : Nat) : List Word :=
  (List.range (min count (UInt16.size - base.toNat))).map fun offset =>
    memory.read (base + UInt16.ofNat offset)

@[simp] theorem read_empty (address : Word) : empty.read address = 0 := by
  simp [read, empty]

/-- A word that was written is read back, and all others stay. -/
@[simp] theorem read_write (memory : Memory) (address value other : Word) :
    (memory.write address value).read other = if address = other then value else memory.read other := by
  simp [read, write, Std.TreeMap.getD_insert]

end Memory

end Dcpu
