/-
Module: HftEngine.Lib.Allotment
Layer: Lib
Purpose: Greedy allotment of a demand to a list of suppliers of bounded
  capacity, first come first served. The suppliers used are a front part of the
  list, all but the last of them give all they have, and the total is the
  demand or everything there is.
Imports: Mathlib
Trusted boundary: none (fully proved)
Main exports: allot, allot_append, allot_fst, allot_le, allot_pos,
  allot_dropLast, allot_total
-/
import Mathlib

namespace HftEngine.Allotment

variable {α : Type} {capacity : α → Nat} {demand : Nat} {item : α} {items more : List α}

/-- Serves the demand from the front of the list: the suppliers used and what
each of them gives. -/
def allot (capacity : α → Nat) : Nat → List α → List (α × Nat)
  | _, [] => []
  | demand, item :: items =>
      if demand = 0 then [] else (item, min demand (capacity item)) :: allot capacity (demand - capacity item) items

/-- What all suppliers of a list can give. -/
def supply (capacity : α → Nat) (items : List α) : Nat := (items.map capacity).sum

@[simp] theorem supply_nil : supply capacity [] = 0 := rfl

/-- The supply of a list adds up the capacities of its items. -/
@[simp] theorem supply_cons : supply capacity (item :: items) = capacity item + supply capacity items := by
  simp [supply]

@[simp] theorem allot_nil : allot capacity demand [] = [] := rfl

@[simp] theorem allot_zero : allot capacity 0 items = [] := by
  cases items <;> simp [allot]

/-- The first item gives what it can, and the rest of the demand goes to the
items after it. -/
theorem allot_cons (h : demand ≠ 0) : allot capacity demand (item :: items)
    = (item, min demand (capacity item)) :: allot capacity (demand - capacity item) items := by
  rw [allot, if_neg h]

/-- The back of a list serves what its front leaves. -/
theorem allot_append : allot capacity demand (items ++ more)
    = allot capacity demand items ++ allot capacity (demand - supply capacity items) more := by
  induction items generalizing demand with
  | nil => simp
  | cons item items ih =>
      by_cases h : demand = 0
      · simp [h]
      · rw [List.cons_append, allot_cons h, allot_cons h, ih, supply_cons, Nat.sub_sub, List.cons_append]

/-- The suppliers used are a front part of the list. -/
theorem allot_fst : (allot capacity demand items).map Prod.fst = items.take (allot capacity demand items).length := by
  induction items generalizing demand with
  | nil => simp
  | cons item items ih =>
      by_cases h : demand = 0
      · simp [h]
      · rw [allot_cons h, List.map_cons, List.length_cons, List.take_succ_cons, ih]

/-- No supplier gives more than it has. -/
theorem allot_le {given : α × Nat} (h : given ∈ allot capacity demand items) : given.2 ≤ capacity given.1 := by
  induction items generalizing demand with
  | nil => cases h
  | cons item items ih =>
      by_cases hzero : demand = 0
      · simp [hzero] at h
      · rw [allot_cons hzero] at h
        rcases List.mem_cons.mp h with rfl | hrest
        · exact min_le_right _ _
        · exact ih hrest

/-- Suppliers that have something give something. -/
theorem allot_pos (hpositive : ∀ item ∈ items, 0 < capacity item) {given : α × Nat}
    (h : given ∈ allot capacity demand items) : 0 < given.2 := by
  induction items generalizing demand with
  | nil => cases h
  | cons item items ih =>
      by_cases hzero : demand = 0
      · simp [hzero] at h
      · rw [allot_cons hzero] at h
        rcases List.mem_cons.mp h with rfl | hrest
        · exact lt_min (Nat.pos_of_ne_zero hzero) (hpositive item (by simp))
        · exact ih (fun other hother => hpositive other (List.mem_cons_of_mem _ hother)) hrest

/-- Every supplier but the last one used gives all it has. -/
theorem allot_dropLast {given : α × Nat} (h : given ∈ (allot capacity demand items).dropLast) :
    given.2 = capacity given.1 := by
  induction items generalizing demand with
  | nil => cases h
  | cons item items ih =>
      by_cases hzero : demand = 0
      · simp [hzero] at h
      · rw [allot_cons hzero] at h
        -- somebody is served after this one, so it could not meet the demand
        by_cases hlast : allot capacity (demand - capacity item) items = []
        · simp [hlast] at h
        · rw [List.dropLast_cons_of_ne_nil hlast] at h
          rcases List.mem_cons.mp h with rfl | hrest
          · have hmore : demand - capacity item ≠ 0 := by
              intro hmet
              rw [hmet, allot_zero] at hlast
              exact hlast rfl
            exact min_eq_right (by omega)
          · exact ih hrest

/-- The demand is met, or everything is given. -/
theorem allot_total : ((allot capacity demand items).map Prod.snd).sum = min demand (supply capacity items) := by
  induction items generalizing demand with
  | nil => simp
  | cons item items ih =>
      by_cases h : demand = 0
      · simp [h]
      · rw [allot_cons h, List.map_cons, List.sum_cons, ih, supply_cons]
        omega

end HftEngine.Allotment
