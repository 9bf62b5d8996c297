/-
Module: HftEngine.Lib.KeyedList
Layer: Lib
Purpose: Lists searched by a property that at most one member has, and lists
  kept in increasing order of a key. A search of such a list depends on its
  members only, so two arrangements of one content agree.
Imports: Mathlib
Trusted boundary: none (fully proved)
Main exports: Single, find?_of_single, findIdx?_of_single, findIdx?_of_split,
  find?_perm, perm_filterMap, Ascending, insertionSort_eq,
  ascending_insertionSort, binarySearch, binarySearch_eq_some, Ascending.spread
-/
import Mathlib

namespace HftEngine.KeyedList

variable {α : Type} {l l' rest : List α} {p : α → Bool} {a b : α} {i : Nat}

/-- At most one member of the list has the property. -/
def Single (p : α → Bool) (l : List α) : Prop := ∀ a ∈ l, ∀ b ∈ l, p a = true → p b = true → a = b

/-- That at most one element satisfies a property does not depend on the
order. -/
theorem Single.perm (h : Single p l) (hperm : l'.Perm l) : Single p l' := fun a ha b hb =>
  h a (hperm.subset ha) b (hperm.subset hb)

/-- The search finds the only member with the property. -/
theorem find?_of_single (h : Single p l) (ha : a ∈ l) (hp : p a = true) : l.find? p = some a := by
  cases hfind : l.find? p with
  | none => exact absurd hp (List.find?_eq_none.mp hfind a ha)
  | some found =>
      rw [h found (List.mem_of_find?_eq_some hfind) a ha (List.find?_some hfind) hp]

/-- The search for a position finds the place of the only member with the
property. -/
theorem findIdx?_of_single (h : Single p l) (ha : a ∈ l) (hp : p a = true) :
    ∃ i, l.findIdx? p = some i ∧ l[i]? = some a := by
  obtain ⟨i, hi⟩ := Option.isSome_iff_exists.mp (List.findIdx?_isSome ▸ List.any_eq_true.mpr ⟨a, ha, hp⟩)
  obtain ⟨hlt, hpi, _⟩ := List.findIdx?_eq_some_iff_getElem.mp hi
  refine ⟨i, hi, ?_⟩
  rw [List.getElem?_eq_getElem hlt, h l[i] (List.getElem_mem hlt) a ha hpi hp]

/-- The first member with the property, when none before it has it. -/
theorem findIdx?_of_split {before after : List α} (hp : p a = true) (hbefore : ∀ x ∈ before, p x = false) :
    (before ++ a :: after).findIdx? p = some before.length := by
  have hnone : before.findIdx? p = none := List.findIdx?_eq_none_iff.mpr hbefore
  rw [List.findIdx?_append, hnone]
  simp [List.findIdx?_cons, hp]

/-- Two arrangements of one content are searched with the same result. -/
theorem find?_perm (h : Single p l) (hperm : l'.Perm l) : l'.find? p = l.find? p := by
  cases hfind : l.find? p with
  | none =>
      rw [List.find?_eq_none] at hfind ⊢
      exact fun x hx => hfind x (hperm.subset hx)
  | some found =>
      exact find?_of_single (h.perm hperm) (hperm.symm.subset (List.mem_of_find?_eq_some hfind))
        (List.find?_some hfind)

/-- Taking out the element at an index leaves the others. -/
theorem perm_eraseIdx (hperm : l.Perm (a :: rest)) (hi : l[i]? = some a) : (l.eraseIdx i).Perm rest := by
  obtain ⟨hlt, rfl⟩ := List.getElem?_eq_some_iff.mp hi
  exact ((List.getElem_cons_eraseIdx_perm hlt).trans hperm).cons_inv

/-- Overwriting the element at an index replaces it and keeps the others. -/
theorem perm_set (hperm : l.Perm (a :: rest)) (hi : l[i]? = some a) (b : α) :
    (l.set i b).Perm (b :: rest) := by
  have hlt := (List.getElem?_eq_some_iff.mp hi).1
  exact (List.set_perm_cons_eraseIdx hlt b).trans ((perm_eraseIdx hperm hi).cons b)

/-! ### Rewriting the only member with a key -/

section Rewrite

variable {κ : Type} {key : α → κ}

/-- A selection that keeps every other key acts on the one member with this
key. -/
theorem perm_filterMap (hnodup : (l.map key).Nodup) (hperm : l.Perm (a :: rest)) {f : α → Option α}
    (hf : ∀ x, key x ≠ key a → f x = some x) : (l.filterMap f).Perm ((f a).toList ++ rest) := by
  have hkeys := (hperm.map key).nodup_iff.mp hnodup
  rw [List.map_cons, List.nodup_cons] at hkeys
  have hrest : rest.filterMap f = rest := by
    conv_rhs => rw [← List.filterMap_some (l := rest)]
    refine List.filterMap_congr fun x hx => hf x ?_
    exact fun heq => hkeys.1 (heq ▸ List.mem_map_of_mem hx)
  refine (hperm.filterMap f).trans ?_
  rw [List.filterMap_cons, hrest]
  cases f a <;> exact List.Perm.refl _

/-- Rewriting the member with a key. -/
theorem perm_map_key (hnodup : (l.map key).Nodup) (hperm : l.Perm (a :: rest)) {g : α → α}
    (hg : ∀ x, key x ≠ key a → g x = x) : (l.map g).Perm (g a :: rest) := by
  have h := perm_filterMap (f := some ∘ g) hnodup hperm fun x hx => by simp [hg x hx]
  rwa [List.filterMap_eq_map] at h

/-- Removing the member with a key. -/
theorem perm_filter_key [DecidableEq κ] (hnodup : (l.map key).Nodup) (hperm : l.Perm (a :: rest)) :
    (l.filter fun x => decide (key x ≠ key a)).Perm rest := by
  have h := perm_filterMap (f := Option.guard fun x => decide (key x ≠ key a)) hnodup hperm
    fun x hx => by simp [Option.guard, hx]
  simpa [← List.filterMap_eq_filter, Option.guard] using h

end Rewrite

/-! ### Lists in increasing key order -/

section Ascending

variable {κ : Type} [LinearOrder κ] {key : α → κ}

/-- The keys increase along the list. -/
def Ascending (key : α → κ) (l : List α) : Prop := l.Pairwise fun a b => key a < key b

/-- In an ascending list a key determines its element. -/
theorem Ascending.eq_of_key (h : Ascending key l) (ha : a ∈ l) (hb : b ∈ l) (heq : key a = key b) :
    a = b := by
  by_contra hne
  obtain ⟨i, hi, rfl⟩ := List.mem_iff_getElem.mp ha
  obtain ⟨j, hj, rfl⟩ := List.mem_iff_getElem.mp hb
  rw [Ascending, List.pairwise_iff_getElem] at h
  rcases Nat.lt_trichotomy i j with hlt | rfl | hlt
  · exact absurd heq (h i j hi hj hlt).ne
  · exact hne rfl
  · exact absurd heq (h j i hj hi hlt).ne'

/-- No key occurs twice in an ascending list. -/
theorem Ascending.nodup (h : Ascending key l) : (l.map key).Nodup := by
  rw [List.Nodup, List.pairwise_map]
  exact h.imp fun hlt => hlt.ne

/-- Words that ascend by value are distinct. -/
theorem Ascending.nodup_words {n : Nat} {word : α → Fin n} (h : Ascending (fun a => (word a).val) l) :
    (l.map word).Nodup := by
  rw [List.Nodup, List.pairwise_map]
  exact h.imp fun hlt heq => hlt.ne (congrArg Fin.val heq)

theorem Ascending.filter (h : Ascending key l) (p : α → Bool) : Ascending key (l.filter p) :=
  List.Pairwise.sublist List.filter_sublist h

theorem Ascending.map (h : Ascending key l) {g : α → α} (hg : ∀ x, key (g x) = key x) :
    Ascending key (l.map g) := by
  rw [Ascending, List.pairwise_map]
  exact h.imp fun {x y} hlt => by rwa [hg x, hg y]

/-- An element above all others may follow them. -/
theorem Ascending.append (h : Ascending key l) (hlast : ∀ x ∈ l, key x < key a) : Ascending key (l ++ [a]) :=
  List.pairwise_append.mpr ⟨h, List.pairwise_singleton _ _, fun x hx y hy => by
    rw [List.mem_singleton.mp hy]
    exact hlast x hx⟩

/-- Sorting any arrangement of an ascending list gives that list. -/
theorem insertionSort_eq [DecidableRel fun a b : α => key a ≤ key b] (h : Ascending key l)
    (hperm : l'.Perm l) : l'.insertionSort (fun a b => key a ≤ key b) = l := by
  have : Std.Total fun a b : α => key a ≤ key b := ⟨fun a b => le_total (key a) (key b)⟩
  have : IsTrans α fun a b => key a ≤ key b := ⟨fun _ _ _ => le_trans⟩
  refine List.Perm.eq_of_pairwise ?_ (List.pairwise_insertionSort _ l') (h.imp le_of_lt)
    ((List.perm_insertionSort _ l').trans hperm)
  intro a b ha hb hab hba
  have ha' : a ∈ l := hperm.subset ((List.mem_insertionSort _).mp ha)
  exact h.eq_of_key ha' hb (le_antisymm hab hba)

/-- Distinct keys sort into increasing order. -/
theorem ascending_insertionSort [DecidableRel fun a b : α => key a ≤ key b] (h : (l.map key).Nodup) :
    Ascending key (l.insertionSort fun a b => key a ≤ key b) := by
  have : Std.Total fun a b : α => key a ≤ key b := ⟨fun a b => le_total (key a) (key b)⟩
  have : IsTrans α fun a b => key a ≤ key b := ⟨fun _ _ _ => le_trans⟩
  have hnodup := (((List.perm_insertionSort (fun a b => key a ≤ key b) l).map key).nodup_iff).mpr h
  rw [List.Nodup, List.pairwise_map] at hnodup
  exact ((List.pairwise_insertionSort (fun a b => key a ≤ key b) l).and hnodup).imp fun h => lt_of_le_of_ne h.1 h.2

/-! ### Binary search -/

/-- Halves the range `base ≤ i < base + size` until one position is left. -/
def narrow (key : α → κ) (target : κ) (l : List α) : Nat → Nat → Nat → Nat
  | 0, base, _ => base
  | fuel + 1, base, size =>
      if size ≤ 1 then base
      else if (l[base + size / 2]?).any fun a => decide (target < key a) then
        narrow key target l fuel base (size - size / 2)
      else narrow key target l fuel (base + size / 2) (size - size / 2)

/-- The position of the member with a key, by binary search. -/
def binarySearch (key : α → κ) (target : κ) (l : List α) : Option Nat :=
  let base := narrow key target l l.length 0 l.length
  if (l[base]?).any fun a => decide (key a = target) then some base else none

/-- A member with the key that lies in the range is where the search ends. -/
theorem narrow_eq (h : Ascending key l) {target : κ} (hi : i < l.length) (hkey : key l[i] = target) :
    ∀ (fuel base size : Nat), size ≤ fuel → base ≤ i → i < base + size → base + size ≤ l.length →
      narrow key target l fuel base size = i
  | 0, base, size, hfuel, hbase, hsize, hlength => by omega
  | fuel + 1, base, size, hfuel, hbase, hsize, hlength => by
      have hmono := List.pairwise_iff_getElem.mp h
      unfold narrow
      split
      · omega
      · have hmid : base + size / 2 < l.length := by omega
        simp only [List.getElem?_eq_getElem hmid, Option.any_some, decide_eq_true_eq]
        split
        · rename_i hlt
          have hbefore : i < base + size / 2 := by
            by_contra hge
            rcases Nat.lt_or_eq_of_le (Nat.le_of_not_lt hge) with hafter | heq
            · exact absurd (hkey ▸ hlt) (hmono _ _ hmid hi hafter).not_gt
            · subst heq
              exact absurd hkey hlt.ne'
          exact narrow_eq h hi hkey fuel base (size - size / 2) (by omega) hbase (by omega) (by omega)
        · rename_i hge
          have hafter : base + size / 2 ≤ i := by
            by_contra hlt
            exact hge (hkey ▸ hmono _ _ hi hmid (Nat.lt_of_not_le hlt))
          exact narrow_eq h hi hkey fuel (base + size / 2) (size - size / 2) (by omega) hafter (by omega) (by omega)

/-- On an ascending list the binary search finds exactly the member with the
key. -/
theorem binarySearch_eq_some (h : Ascending key l) {target : κ} :
    binarySearch key target l = some i ↔ ∃ a, l[i]? = some a ∧ key a = target := by
  constructor
  · intro hfound
    simp only [binarySearch, Option.ite_none_right_eq_some, Option.some.injEq] at hfound
    obtain ⟨hany, rfl⟩ := hfound
    cases ha : l[narrow key target l l.length 0 l.length]? with
    | none => simp [ha] at hany
    | some a => exact ⟨a, rfl, by simpa [ha] using hany⟩
  · rintro ⟨a, ha, hkey⟩
    obtain ⟨hi, rfl⟩ := List.getElem?_eq_some_iff.mp ha
    have hbase := narrow_eq h hi hkey l.length 0 l.length le_rfl (Nat.zero_le _) (by omega) (by omega)
    simp [binarySearch, hbase, hkey, List.getElem?_eq_getElem hi]

/-- Increasing numbers grow by at least the distance between their
positions. -/
theorem Ascending.spread {key : α → Nat} (h : Ascending key l) {j : Nat} (hij : i ≤ j) (hj : j < l.length) :
    key l[i] + (j - i) ≤ key l[j] := by
  induction j, hij using Nat.le_induction with
  | base => simp
  | succ j hij ih =>
      have hstep := List.pairwise_iff_getElem.mp h j (j + 1) (by omega) hj (Nat.lt_succ_self j)
      have := ih (by omega)
      omega

end Ascending

end HftEngine.KeyedList
