/-
Module: HftEngine.Lib.SlotBag
Layer: Lib
Purpose: A fixed row of optional slots seen as a bag of its occupants. Writing
  a slot exchanges one occupant for another, an unoccupied slot exists while
  the bag is smaller than the row, and an occupant that alone meets a test is
  found by a scan for it.
Imports: Mathlib
Trusted boundary: none (fully proved)
Main exports: reduceOption_set, exists_free_slot, exists_slot_of_occupant
-/
import Mathlib

namespace HftEngine.SlotBag

variable {α : Type} {slots : List (Option α)} {i : Nat} {occupant : Option α} {a : α}

/-- Writing a slot exchanges its occupant: the others are the same bag before
and after. -/
theorem reduceOption_set (h : slots[i]? = some occupant) : ∃ others : List α,
    slots.reduceOption.Perm (occupant.toList ++ others) ∧
      ∀ next : Option α, (slots.set i next).reduceOption.Perm (next.toList ++ others) := by
  obtain ⟨hi, hoccupant⟩ := List.getElem?_eq_some_iff.mp h
  have hsplit : ∀ slot : Option α, (slots.take i ++ slot :: slots.drop (i + 1)).reduceOption.Perm
      (slot.toList ++ (slots.take i ++ slots.drop (i + 1)).reduceOption) := by
    intro slot
    rw [List.reduceOption_append, List.reduceOption_append]
    cases slot with
    | none =>
        rw [List.reduceOption_cons_of_none]
        exact List.Perm.refl _
    | some value =>
        rw [List.reduceOption_cons_of_some]
        exact List.perm_middle
  refine ⟨(slots.take i ++ slots.drop (i + 1)).reduceOption, ?_, fun next => ?_⟩
  · have hself : slots = slots.take i ++ occupant :: slots.drop (i + 1) := by
      rw [← hoccupant, List.cons_getElem_drop_succ, List.take_append_drop]
    have hperm := hsplit occupant
    rwa [← hself] at hperm
  · rw [List.set_eq_take_append_cons_drop, if_pos hi]
    exact hsplit next

/-- A row with fewer occupants than slots has a free one, and a scan finds
it. -/
theorem exists_free_slot (h : slots.reduceOption.length < slots.length) :
    ∃ i, slots.findIdx? Option.isNone = some i ∧ slots[i]? = some none := by
  have hmem : none ∈ slots := List.reduceOption_length_lt_iff.mp h
  cases hfind : slots.findIdx? Option.isNone with
  | none =>
      have hnone := List.findIdx?_eq_none_iff.mp hfind none hmem
      cases hnone
  | some i =>
      obtain ⟨hi, hfree, _⟩ := List.findIdx?_eq_some_iff_getElem.mp hfind
      refine ⟨i, rfl, ?_⟩
      rw [List.getElem?_eq_getElem hi]
      exact congrArg some (Option.isNone_iff_eq_none.mp hfree)

/-- A scan finds the slot of the occupant that alone meets the test. -/
theorem exists_slot_of_occupant {p : α → Bool} (h : a ∈ slots.reduceOption) (ha : p a = true)
    (halone : ∀ b ∈ slots.reduceOption, p b = true → b = a) :
    ∃ i, slots.findIdx? (fun slot => slot.any p) = some i ∧ slots[i]? = some (some a) := by
  have hmem : some a ∈ slots := List.reduceOption_mem_iff.mp h
  cases hfind : slots.findIdx? fun slot => slot.any p with
  | none =>
      have hnone := List.findIdx?_eq_none_iff.mp hfind (some a) hmem
      rw [Option.any_some, ha] at hnone
      cases hnone
  | some i =>
      obtain ⟨hi, hfound, _⟩ := List.findIdx?_eq_some_iff_getElem.mp hfind
      refine ⟨i, rfl, ?_⟩
      rw [List.getElem?_eq_getElem hi]
      cases hslot : slots[i] with
      | none =>
          rw [hslot] at hfound
          cases hfound
      | some b =>
          rw [hslot, Option.any_some] at hfound
          have hb : b ∈ slots.reduceOption := List.reduceOption_mem_iff.mpr (hslot ▸ List.getElem_mem hi)
          rw [halone b hb hfound]

end HftEngine.SlotBag
