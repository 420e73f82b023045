import Dcpu.Slots.Basic
import Mathlib.Tactic.Common

/-! # Addresses in use

The addresses in use are kept as an ascending list. Taking an address into use and giving it back
undo each other, and the first gap of the list is the lowest address of the range that is not in it.
-/

namespace Dcpu.Slots

/-- Addresses in ascending order, each of them once. -/
abbrev Ascending (addresses : List Word) : Prop :=
  addresses.Pairwise (· < ·)

@[simp] theorem mem_insertAscending {address other : Word} {addresses : List Word} :
    other ∈ insertAscending address addresses ↔ other = address ∨ other ∈ addresses := by
  induction addresses with
  | nil => simp [insertAscending]
  | cons head above ih =>
    simp only [insertAscending]
    split
    · simp
    · simp only [List.mem_cons, ih]
      tauto

theorem Ascending.insert {address : Word} {addresses : List Word} (ascending : Ascending addresses)
    (fresh : address ∉ addresses) : Ascending (insertAscending address addresses) := by
  induction addresses with
  | nil => simp [insertAscending]
  | cons head above ih =>
    obtain ⟨headBelow, aboveAscending⟩ := List.pairwise_cons.mp ascending
    simp only [List.mem_cons, not_or] at fresh
    simp only [insertAscending]
    split
    · rename_i below
      refine List.pairwise_cons.mpr ⟨?_, ascending⟩
      intro other member
      rcases List.mem_cons.mp member with rfl | member
      · exact below
      · exact UInt16.lt_trans below (headBelow other member)
    · rename_i notBelow
      refine List.pairwise_cons.mpr ⟨?_, ih aboveAscending fresh.2⟩
      intro other member
      rcases mem_insertAscending.mp member with rfl | member
      · exact UInt16.lt_of_le_of_ne (UInt16.not_lt.mp notBelow) (Ne.symm fresh.1)
      · exact headBelow other member

theorem Ascending.nodup {addresses : List Word} (ascending : Ascending addresses) :
    addresses.Nodup :=
  ascending.imp fun below => UInt16.ne_of_lt below

theorem Ascending.erase {addresses : List Word} (ascending : Ascending addresses)
    (address : Word) : Ascending (addresses.erase address) :=
  ascending.sublist List.erase_sublist

/-- Giving an address back undoes taking it into use. -/
@[simp] theorem erase_insertAscending {address : Word} {addresses : List Word}
    (fresh : address ∉ addresses) : (insertAscending address addresses).erase address = addresses := by
  induction addresses with
  | nil => simp [insertAscending]
  | cons head above ih =>
    simp only [List.mem_cons, not_or] at fresh
    simp only [insertAscending]
    split
    · simp
    · rw [List.erase_cons_tail (by simpa using Ne.symm fresh.1), ih fresh.2]

/-- Taking an address and giving it back changes nothing. -/
theorem release_occupy {slots : Slots} {address : Word} (fresh : address ∉ slots.occupied) :
    (slots.occupy address).release address = slots := by
  simp [release, occupy, fresh]

theorem le_firstGap (start : Nat) (addresses : List Word) : start ≤ firstGap start addresses := by
  induction addresses generalizing start with
  | nil => simp [firstGap]
  | cons head above ih =>
    simp only [firstGap]
    split
    · have := ih (start + 1)
      omega
    · omega

/-- No address of an ascending list is at its first gap. -/
theorem toNat_ne_firstGap {start : Nat} {addresses : List Word} (ascending : Ascending addresses)
    (above : ∀ address ∈ addresses, start ≤ address.toNat) :
    ∀ address ∈ addresses, address.toNat ≠ firstGap start addresses := by
  induction addresses generalizing start with
  | nil => simp
  | cons head rest ih =>
    obtain ⟨headBelow, restAscending⟩ := List.pairwise_cons.mp ascending
    have headAbove := above head (List.mem_cons_self ..)
    intro address member
    simp only [firstGap]
    split
    · rename_i atStart
      have restAbove : ∀ other ∈ rest, start + 1 ≤ other.toNat := by
        intro other otherMember
        have below := UInt16.lt_iff_toNat_lt.mp (headBelow other otherMember)
        omega
      rcases List.mem_cons.mp member with rfl | member
      · have := le_firstGap (start + 1) rest
        omega
      · exact ih restAscending restAbove address member
    · rename_i notAtStart
      rcases List.mem_cons.mp member with rfl | member
      · exact notAtStart
      · have below := UInt16.lt_iff_toNat_lt.mp (headBelow address member)
        omega

/-- Every number below the first gap is an address of the list. -/
theorem exists_mem_of_lt_firstGap {start number : Nat} {addresses : List Word}
    (atLeast : start ≤ number) (below : number < firstGap start addresses) :
    ∃ address ∈ addresses, address.toNat = number := by
  induction addresses generalizing start with
  | nil => simp only [firstGap] at below; omega
  | cons head rest ih =>
    simp only [firstGap] at below
    split at below
    · rename_i atStart
      by_cases same : number = start
      · exact ⟨head, List.mem_cons_self .., by omega⟩
      · obtain ⟨address, member, equal⟩ := ih (by omega) below
        exact ⟨address, List.mem_cons_of_mem _ member, equal⟩
    · omega

/-- The addresses in use are in ascending order and inside the range. -/
structure Ranged (slots : Slots) : Prop where
  ascending : Ascending slots.occupied
  inside : ∀ address ∈ slots.occupied, slots.first ≤ address ∧ address ≤ slots.last

/-- A free address is in the range and not in use, and all lower ones of the range are in use. -/
theorem Ranged.free?_eq_some {slots : Slots} (ranged : slots.Ranged) {address : Word}
    (free : slots.free? = some address) :
    address ∉ slots.occupied ∧ (slots.first ≤ address ∧ address ≤ slots.last) ∧
      ∀ lower, slots.first ≤ lower → lower < address → lower ∈ slots.occupied := by
  have above : ∀ other ∈ slots.occupied, slots.first.toNat ≤ other.toNat := fun other member =>
    UInt16.le_iff_toNat_le.mp (ranged.inside other member).1
  have low := le_firstGap slots.first.toNat slots.occupied
  simp only [free?, Option.ite_none_right_eq_some, Option.some.injEq] at free
  obtain ⟨bound, rfl⟩ := free
  have lastSmall := slots.last.toNat_lt
  have value : (UInt16.ofNat (firstGap slots.first.toNat slots.occupied)).toNat =
      firstGap slots.first.toNat slots.occupied := UInt16.toNat_ofNat_of_lt' (Nat.lt_of_le_of_lt bound lastSmall)
  refine ⟨?_, ⟨?_, ?_⟩, ?_⟩
  · intro member
    exact toNat_ne_firstGap ranged.ascending above _ member value
  · exact UInt16.le_iff_toNat_le.mpr (by omega)
  · exact UInt16.le_iff_toNat_le.mpr (by omega)
  · intro lower atLeast below
    have below := UInt16.lt_iff_toNat_lt.mp below
    rw [value] at below
    obtain ⟨other, member, equal⟩ :=
      exists_mem_of_lt_firstGap (UInt16.le_iff_toNat_le.mp atLeast) below
    exact UInt16.toNat.inj equal ▸ member

/-- No address is free exactly when the whole range is in use. -/
theorem Ranged.free?_eq_none_iff {slots : Slots} (ranged : slots.Ranged) :
    slots.free? = none ↔
      ∀ address, slots.first ≤ address → address ≤ slots.last → address ∈ slots.occupied := by
  constructor
  · intro full address atLeast atMost
    simp only [free?, ite_eq_right_iff, reduceCtorEq, imp_false, Nat.not_le] at full
    have below := Nat.lt_of_le_of_lt (UInt16.le_iff_toNat_le.mp atMost) full
    obtain ⟨other, member, equal⟩ :=
      exists_mem_of_lt_firstGap (UInt16.le_iff_toNat_le.mp atLeast) below
    exact UInt16.toNat.inj equal ▸ member
  · intro full
    cases free : slots.free? with
    | none => rfl
    | some address =>
      obtain ⟨fresh, ⟨atLeast, atMost⟩, _⟩ := ranged.free?_eq_some free
      exact absurd (full address atLeast atMost) fresh

/-- Addresses in use stay in the range when one on offer is taken. -/
theorem Ranged.occupy {slots : Slots} (ranged : slots.Ranged) {address : Word}
    (free : slots.free? = some address) : (slots.occupy address).Ranged := by
  obtain ⟨fresh, inside, _⟩ := ranged.free?_eq_some free
  refine ⟨ranged.ascending.insert fresh, ?_⟩
  intro other member
  rcases mem_insertAscending.mp member with rfl | member
  · exact inside
  · exact ranged.inside other member

theorem Ranged.release {slots : Slots} (ranged : slots.Ranged) (address : Word) :
    (slots.release address).Ranged :=
  ⟨ranged.ascending.erase address, fun other member =>
    ranged.inside other (List.mem_of_mem_erase member)⟩

end Dcpu.Slots
