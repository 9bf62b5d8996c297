/-
Module: HftEngine.Lib.OpenAddressing
Layer: Lib
Purpose: Open addressing with linear probing and back-shift deletion, over an
  arbitrary key type, hash and capacity. A table is a fixed vector of optional
  entries. `Probed` is the representation invariant: keys occur once, and the
  cells between an entry's home and its position are occupied. Lookup,
  insertion and deletion are proved against the finite map the cells spell out,
  and the moves that deletion reports are shown to give the final position of
  every entry it relocated.
Imports: HftEngine.Lib.Machine
Trusted boundary: none (fully proved)
Main exports: Table, cell, probe, findSlot, insert, shiftBack, removeAt,
  Probed, findSlot_eq_some_iff, insert_of_absent, removeAt_spec
-/
import HftEngine.Lib.Machine

namespace HftEngine.OpenAddressing

variable {K V W : Type} {C : Nat}

/-- `C` cells, each empty or holding one key with its value. -/
abbrev Table (K V : Type) (C : Nat) := Vector (Option (K × V)) C

/-- The entry of a cell; a cell outside the table reads as empty. -/
def cell (t : Table K V C) (i : Nat) : Option (K × V) := t[i]?.join

/-- Overwrites one cell. -/
def setCell (t : Table K V C) (i : Nat) (entry : Option (K × V)) : Table K V C :=
  t.setIfInBounds i entry

/-- A table in which every probe stops at once. -/
def emptyTable : Table K V C := Vector.replicate C none

/-- Number of forward steps from `home` to `current` around a ring of `C`
cells. -/
def probeDistance (C home current : Nat) : Nat :=
  if home ≤ current then current - home else C - (home - current)

/-- Why a key was not stored. -/
inductive InsertError where
  | full
  | duplicate
deriving DecidableEq, Repr

section Operations

variable [DecidableEq K] (home : K → Nat)

/-- The first cell along the probe path of `key` that is empty or already holds
`key`. The path visits each of the `C` cells at most once. -/
def probe (t : Table K V C) (key : K) : (fuel offset : Nat) → Option Nat
  | 0, _ => none
  | fuel + 1, offset =>
      let i := (home key + offset) % C
      match cell t i with
      | none => some i
      | some (other, _) => if other = key then some i else probe t key fuel (offset + 1)

/-- The cell holding `key`. -/
def findSlot (t : Table K V C) (key : K) : Option Nat :=
  (probe home t key C 0).filter fun i => (cell t i).isSome

/-- The value stored under `key`. -/
def lookup (t : Table K V C) (key : K) : Option V :=
  (findSlot home t key).bind fun i => (cell t i).map Prod.snd

/-- Stores a new key at the first empty cell of its path. Cell numbers from
`limit` on cannot be handed out, so landing there counts as a full table. -/
def insert (limit : Nat) (t : Table K V C) (key : K) (value : V) :
    Except InsertError (Fin limit × Table K V C) :=
  match probe home t key C 0 with
  | none => .error .full
  | some i =>
      if (cell t i).isSome then .error .duplicate
      else if h : i < limit then .ok (⟨i, h⟩, setCell t i (some (key, value)))
      else .error .full

/-- One relocation reported by deletion: the key, its decoded value and its new
cell. -/
structure Move (K W : Type) (limit : Nat) where
  key : K
  value : W
  slot : Fin limit

/-- The hole-closing loop. `hole` holds an entry that is to disappear and
`candidate` walks forward from it. The result is `none` when the loop would not
stop within `fuel` steps or a cell number would not fit; the `Bool` is `false`
when a relocated value does not decode and the walk is abandoned. -/
def shiftBack (limit : Nat) (decode : V → Option W) :
    (fuel : Nat) → Table K V C → (hole candidate : Nat) →
      Option (Bool × Table K V C × List (Move K W limit))
  | 0, _, _, _ => none
  | fuel + 1, t, hole, candidate =>
      match cell t candidate with
      | none => some (true, setCell t hole none, [])
      | some (key, value) =>
          if probeDistance C (home key) hole < probeDistance C (home key) candidate then
            match decode value with
            | none => some (false, t, [])
            | some decoded =>
                if h : hole < limit then do
                  let (closed, t', moves) ←
                    shiftBack limit decode fuel (setCell t hole (some (key, value))) candidate
                      ((candidate + 1) % C)
                  pure (closed, t', ⟨key, decoded, ⟨hole, h⟩⟩ :: moves)
                else none
          else shiftBack limit decode fuel t hole ((candidate + 1) % C)

/-- Removes `key` from the cell `slot`. A stale handle (empty cell, foreign
key, undecodable value) changes nothing and yields `none` as the removed
value. -/
def removeAt (limit : Nat) (decode : V → Option W) (t : Table K V C) (slot : Nat) (key : K) :
    Option (Option W × Table K V C × List (Move K W limit)) :=
  match cell t slot with
  | none => some (none, t, [])
  | some (stored, value) =>
      match decode value with
      | none => some (none, t, [])
      | some decoded =>
          if stored = key then do
            let (closed, t', moves) ← shiftBack home limit decode C t slot ((slot + 1) % C)
            pure (if closed then some decoded else none, t', moves)
          else some (none, t, [])

end Operations

/-! ### Cells -/

section Cells

variable {t : Table K V C} {i j : Nat} {entry : Option (K × V)}

theorem cell_eq_none_of_le (h : C ≤ i) : cell t i = none := by
  simp [cell, Vector.getElem?_eq_none h]

theorem lt_of_cell {e : K × V} (h : cell t i = some e) : i < C := by
  by_contra hge
  rw [cell_eq_none_of_le (by omega)] at h
  cases h

@[simp] theorem cell_emptyTable : cell (emptyTable : Table K V C) i = none := by
  unfold cell emptyTable
  rw [Vector.getElem?_replicate]
  split <;> rfl

/-- A cell reads as it was written last. -/
theorem cell_setCell : cell (setCell t i entry) j = if i = j ∧ i < C then entry else cell t j := by
  unfold cell setCell
  rw [Vector.getElem?_setIfInBounds]
  split
  · rename_i hij
    subst hij
    by_cases hi : i < C
    · simp [hi]
    · simp [hi]
  · rename_i hij
    simp [hij]

theorem cell_setCell_self (hi : i < C) : cell (setCell t i entry) i = entry := by
  simp [cell_setCell, hi]

theorem cell_setCell_of_ne (h : i ≠ j) : cell (setCell t i entry) j = cell t j := by
  simp [cell_setCell, h]

end Cells

/-! ### Ring arithmetic -/

section Ring

variable {h i j d : Nat}

/-- A sum around the ring, for offsets below its length, wraps at most once. -/
theorem ring_add (hh : h < C) (hd : d < C) :
    (h + d) % C = if h + d < C then h + d else h + d - C := by
  split
  · exact Nat.mod_eq_of_lt (by assumption)
  · rw [Nat.mod_eq_sub_mod (by omega), Nat.mod_eq_of_lt (by omega)]

/-- A step around the ring wraps at the last cell only. -/
theorem ring_succ (hi : i < C) : (i + 1) % C = if i + 1 < C then i + 1 else 0 := by
  split
  · exact Nat.mod_eq_of_lt (by assumption)
  · rw [show i + 1 = C by omega, Nat.mod_self]

/-- No cell is further than the length of the ring. -/
theorem probeDistance_lt (hh : h < C) (hi : i < C) : probeDistance C h i < C := by
  unfold probeDistance
  split <;> omega

/-- Walking the distance to a cell from home ends at that cell. -/
theorem add_probeDistance (hh : h < C) (hi : i < C) : (h + probeDistance C h i) % C = i := by
  rw [ring_add hh (probeDistance_lt hh hi)]
  unfold probeDistance
  split <;> split <;> omega

/-- The cell reached by `d` steps is `d` steps away. -/
theorem probeDistance_add (hh : h < C) (hd : d < C) : probeDistance C h ((h + d) % C) = d := by
  rw [ring_add hh hd]
  unfold probeDistance
  split <;> split <;> omega

/-- Two cells at one distance from home are the same cell. -/
theorem probeDistance_inj (hh : h < C) (hi : i < C) (hj : j < C)
    (heq : probeDistance C h i = probeDistance C h j) : i = j := by
  rw [← add_probeDistance hh hi, heq, add_probeDistance hh hj]

@[simp] theorem probeDistance_self : probeDistance C h h = 0 := by simp [probeDistance]

/-- Only home itself is no step away. -/
theorem probeDistance_eq_zero (hh : h < C) (hz : probeDistance C h i = 0) : h = i := by
  unfold probeDistance at hz
  split at hz <;> omega

/-- Distances compose along the ring when the middle point lies on the way. -/
theorem probeDistance_split (hh : h < C) (hi : i < C) (hj : j < C)
    (hle : probeDistance C h i ≤ probeDistance C h j) :
    probeDistance C i j = probeDistance C h j - probeDistance C h i := by
  unfold probeDistance at *
  repeat' split at hle
  all_goals repeat' split
  all_goals omega

/-- What lies between a point and the end of a stretch lies in the stretch. -/
theorem probeDistance_lt_of_between {g : Nat} (hh : h < C) (hi : i < C) (hj : j < C) (hg : g < C)
    (hle : probeDistance C h i ≤ probeDistance C h g) (hlt : probeDistance C i j < probeDistance C i g) :
    probeDistance C h j < probeDistance C h g := by
  by_contra hge
  have hj' := probeDistance_split hh hi hj (by omega)
  have hg' := probeDistance_split hh hi hg hle
  omega

/-- The successor of a cell is one step further away, until the ring closes. -/
theorem probeDistance_succ (hh : h < C) (hi : i < C) (hlt : probeDistance C h i + 1 < C) :
    probeDistance C h ((i + 1) % C) = probeDistance C h i + 1 := by
  rw [ring_succ hi]
  unfold probeDistance at *
  repeat' split at hlt
  all_goals repeat' split
  all_goals omega

end Ring

/-! ### The representation invariant -/

/-- Every key occurs in one cell only, and every cell on the way from an
entry's home to its position is occupied, so a probe for the key reaches it. -/
structure Probed (home : K → Nat) (t : Table K V C) : Prop where
  unique : ∀ {i j : Nat} {key : K} {v w : V},
    cell t i = some (key, v) → cell t j = some (key, w) → i = j
  path : ∀ {i : Nat} {key : K} {v : V}, cell t i = some (key, v) →
    ∀ d < probeDistance C (home key) i, (cell t ((home key + d) % C)).isSome

/-- Every occupied cell has a number below `limit`. -/
def Small (limit : Nat) (t : Table K V C) : Prop :=
  ∀ {i : Nat} {e : K × V}, cell t i = some e → i < limit

/-- An empty table has no entry that could be out of reach. -/
theorem probed_emptyTable (home : K → Nat) : Probed home (emptyTable : Table K V C) :=
  ⟨fun h => by simp at h, fun h => by simp at h⟩

section Lookup

variable [DecidableEq K] {home : K → Nat} {t : Table K V C} {key : K}

/-- A probe stops at the first offset whose cell is empty or holds the key. -/
theorem probe_eq_of {fuel offset d : Nat} (hlow : offset ≤ d) (hhigh : d < offset + fuel)
    (before : ∀ e, offset ≤ e → e < d →
      ∃ other v, cell t ((home key + e) % C) = some (other, v) ∧ other ≠ key)
    (stop : cell t ((home key + d) % C) = none ∨ ∃ v, cell t ((home key + d) % C) = some (key, v)) :
    probe home t key fuel offset = some ((home key + d) % C) := by
  induction fuel generalizing offset with
  | zero => omega
  | succ fuel ih =>
      unfold probe
      by_cases hd : offset = d
      · subst hd
        rcases stop with stop | ⟨v, stop⟩ <;> simp [stop]
      · obtain ⟨other, v, hcell, hne⟩ := before offset (Nat.le_refl _) (by omega)
        simp only [hcell, if_neg hne]
        exact ih (by omega) (by omega) fun e he hlt => before e (by omega) hlt

/-- What a successful probe says about the cells it passed. -/
theorem probe_eq_some {fuel offset i : Nat} (h : probe home t key fuel offset = some i) :
    ∃ d, offset ≤ d ∧ d < offset + fuel ∧ i = (home key + d) % C ∧
      (∀ e, offset ≤ e → e < d → (cell t ((home key + e) % C)).isSome) ∧
      (cell t i = none ∨ ∃ v, cell t i = some (key, v)) := by
  induction fuel generalizing offset with
  | zero => simp [probe] at h
  | succ fuel ih =>
      unfold probe at h
      cases hcell : cell t ((home key + offset) % C) with
      | none =>
          simp only [hcell, Option.some.injEq] at h
          exact ⟨offset, Nat.le_refl _, by omega, h.symm, fun e he hlt => by omega, .inl (h ▸ hcell)⟩
      | some entry =>
          obtain ⟨other, v⟩ := entry
          simp only [hcell] at h
          split at h
          · rename_i heq
            subst heq
            simp only [Option.some.injEq] at h
            exact ⟨offset, Nat.le_refl _, by omega, h.symm, fun e he hlt => by omega,
              .inr ⟨v, h ▸ hcell⟩⟩
          · obtain ⟨d, hlow, hhigh, hi, before, stop⟩ := ih h
            refine ⟨d, by omega, by omega, hi, fun e he hlt => ?_, stop⟩
            by_cases heq : e = offset
            · subst heq
              simp [hcell]
            · exact before e (by omega) hlt

variable (hhome : ∀ key, 0 < C → home key < C)

include hhome in
/-- Looking a key up finds exactly the cell that holds it. -/
theorem findSlot_eq_some_iff (inv : Probed home t) {i : Nat} :
    findSlot home t key = some i ↔ ∃ v, cell t i = some (key, v) := by
  unfold findSlot
  constructor
  · intro h
    rw [Option.filter_eq_some_iff] at h
    obtain ⟨hprobe, hsome⟩ := h
    obtain ⟨_, _, _, _, _, hnone | found⟩ := probe_eq_some hprobe
    · simp [hnone] at hsome
    · exact found
  · rintro ⟨v, hcell⟩
    have hi : i < C := lt_of_cell hcell
    have hh : home key < C := hhome key (by omega)
    have hback := add_probeDistance hh hi
    have hprobe : probe home t key C 0 = some i := by
      rw [← hback]
      refine probe_eq_of (Nat.zero_le _) (by have := probeDistance_lt hh hi; omega) ?_
        (.inr ⟨v, hback.symm ▸ hcell⟩)
      intro e _ he
      obtain ⟨⟨other, w⟩, hother⟩ := Option.isSome_iff_exists.mp (inv.path hcell e he)
      refine ⟨other, w, hother, fun heq => ?_⟩
      subst heq
      have hpos := inv.unique hother hcell
      have := probeDistance_add hh (show e < C by have := probeDistance_lt hh hi; omega)
      rw [hpos] at this
      omega
    rw [Option.filter_eq_some_iff]
    exact ⟨hprobe, by simp [hcell]⟩

include hhome in
/-- A probe finds nothing exactly when the key is nowhere in the table. -/
theorem findSlot_eq_none_iff (inv : Probed home t) :
    findSlot home t key = none ↔ ∀ i v, cell t i ≠ some (key, v) := by
  constructor
  · intro h i v hcell
    rw [(findSlot_eq_some_iff hhome inv).mpr ⟨v, hcell⟩] at h
    cases h
  · intro h
    cases hf : findSlot home t key with
    | none => rfl
    | some i =>
        obtain ⟨v, hcell⟩ := (findSlot_eq_some_iff hhome inv).mp hf
        exact absurd hcell (h i v)

include hhome in
/-- A lookup answers a value exactly when some cell holds it under the key. -/
theorem lookup_eq_some_iff (inv : Probed home t) {v : V} :
    lookup home t key = some v ↔ ∃ i, cell t i = some (key, v) := by
  unfold lookup
  constructor
  · intro h
    obtain ⟨i, hfind, hval⟩ := Option.bind_eq_some_iff.mp h
    obtain ⟨w, hcell⟩ := (findSlot_eq_some_iff hhome inv).mp hfind
    rw [hcell] at hval
    cases hval
    exact ⟨i, hcell⟩
  · rintro ⟨i, hcell⟩
    rw [(findSlot_eq_some_iff hhome inv).mpr ⟨v, hcell⟩]
    simp [hcell]

end Lookup

section Insertion

variable {home : K → Nat} {t : Table K V C} {key : K} {value : V}

/-- Filling the first empty cell of a new key's path keeps the invariant. -/
theorem Probed.setCell_of_path (inv : Probed home t) {i d : Nat} (hh : home key < C)
    (hd : d < C) (hpos : i = (home key + d) % C) (hempty : cell t i = none)
    (absent : ∀ j v, cell t j ≠ some (key, v))
    (before : ∀ e < d, (cell t ((home key + e) % C)).isSome) :
    Probed home (setCell t i (some (key, value))) := by
  have hdist : probeDistance C (home key) i = d := by rw [hpos, probeDistance_add hh hd]
  have keeps : ∀ j, (cell t j).isSome → (cell (setCell t i (some (key, value))) j).isSome := by
    intro j hj
    rw [cell_setCell]
    split <;> simp_all
  constructor
  · intro a b k v w ha hb
    rw [cell_setCell] at ha hb
    split at ha <;> split at hb
    · omega
    · cases ha
      exact absurd hb (absent b w)
    · cases hb
      exact absurd ha (absent a v)
    · exact inv.unique ha hb
  · intro a k v ha e he
    rw [cell_setCell] at ha
    split at ha
    · rename_i hia
      obtain ⟨rfl, -⟩ := hia
      cases ha
      exact keeps _ (before e (by omega))
    · exact keeps _ (inv.path ha e he)

variable [DecidableEq K] (hhome : ∀ key, 0 < C → home key < C)

include hhome in
/-- A key that is present cannot be inserted again. -/
theorem insert_of_present (inv : Probed home t) {limit i : Nat} {v : V}
    (hcell : cell t i = some (key, v)) : insert home limit t key value = .error .duplicate := by
  have hfind := (findSlot_eq_some_iff hhome inv).mpr ⟨v, hcell⟩
  unfold findSlot at hfind
  obtain ⟨hprobe, -⟩ := Option.filter_eq_some_iff.mp hfind
  unfold insert
  simp [hprobe, hcell]

include hhome in
/-- A table with an empty cell gives an absent key the first empty cell of its
path; the result keeps the invariant, and the only way to fail is a cell number
the handle type cannot hold. -/
theorem insert_of_absent (inv : Probed home t) {z : Nat} (hz : z < C) (hempty : cell t z = none)
    (absent : ∀ j v, cell t j ≠ some (key, v)) (value : V) (limit : Nat) :
    ∃ i, i < C ∧ cell t i = none ∧ Probed home (setCell t i (some (key, value))) ∧
      insert home limit t key value =
        if h : i < limit then .ok (⟨i, h⟩, setCell t i (some (key, value))) else .error .full := by
  have hh : home key < C := hhome key (by omega)
  -- the least offset whose cell is empty
  have hex : ∃ d, cell t ((home key + d) % C) = none :=
    ⟨probeDistance C (home key) z, by rw [add_probeDistance hh hz]; exact hempty⟩
  classical
  let d := Nat.find hex
  have hd : cell t ((home key + d) % C) = none := Nat.find_spec hex
  have hdC : d < C := by
    have hle : d ≤ probeDistance C (home key) z :=
      Nat.find_min' hex (by rw [add_probeDistance hh hz]; exact hempty)
    have := probeDistance_lt hh hz
    omega
  have before : ∀ e < d, (cell t ((home key + e) % C)).isSome := fun e he =>
    Option.isSome_iff_ne_none.mpr (Nat.find_min hex he)
  have hprobe : probe home t key C 0 = some ((home key + d) % C) := by
    refine probe_eq_of (Nat.zero_le _) (by omega) ?_ (.inl hd)
    intro e _ he
    obtain ⟨⟨other, v⟩, hother⟩ := Option.isSome_iff_exists.mp (before e he)
    exact ⟨other, v, hother, fun heq => absent _ v (heq ▸ hother)⟩
  have hiC : (home key + d) % C < C := Nat.mod_lt _ (by omega)
  refine ⟨(home key + d) % C, hiC, hd,
    inv.setCell_of_path hh hdC rfl hd absent before, ?_⟩
  unfold insert
  simp [hprobe, hd]

end Insertion

/-! ### Deletion

The loop carries a hole whose stored entry is stale. Every other entry still has a fully occupied path;
the entries between the hole and the candidate (`settled`) have a path that avoids the hole, so they may
stay where they are once the hole becomes empty. -/

/-- Invariant of the hole-closing loop; `gap` is some empty cell the candidate
has not passed yet. -/
structure Closing (home : K → Nat) (t : Table K V C) (hole candidate gap : Nat) : Prop where
  hole_lt : hole < C
  candidate_lt : candidate < C
  gap_lt : gap < C
  gap_empty : cell t gap = none
  ahead : 1 ≤ probeDistance C hole candidate
  behind : probeDistance C hole candidate ≤ probeDistance C hole gap
  run : ∀ e < probeDistance C hole candidate, (cell t ((hole + e) % C)).isSome
  unique : ∀ {i j : Nat} {key : K} {v w : V}, i ≠ hole → j ≠ hole →
    cell t i = some (key, v) → cell t j = some (key, w) → i = j
  path : ∀ {i : Nat} {key : K} {v : V}, i ≠ hole → cell t i = some (key, v) →
    ∀ d < probeDistance C (home key) i, (cell t ((home key + d) % C)).isSome
  settled : ∀ {i : Nat} {key : K} {v : V}, i ≠ hole → cell t i = some (key, v) →
    probeDistance C hole i < probeDistance C hole candidate →
    ∀ d < probeDistance C (home key) i, (home key + d) % C ≠ hole

/-- What closing the hole achieves: `t'` holds the entries of `t` outside the
hole, the moves name the final cell of every relocated entry, which was in
another cell before, and all other entries stay in place. -/
structure Closed (home : K → Nat) (decode : V → Option W) {limit : Nat} (t t' : Table K V C)
    (hole gap : Nat) (moves : List (Move K W limit)) : Prop where
  probed : Probed home t'
  entries : ∀ key v, (∃ j, cell t' j = some (key, v)) ↔ ∃ j, j ≠ hole ∧ cell t j = some (key, v)
  moved : ∀ m ∈ moves, ∃ v, decode v = some m.value ∧ cell t' m.slot = some (m.key, v)
  kept : ∀ {j : Nat} {key : K} {v : V}, cell t' j = some (key, v) →
    (∃ m ∈ moves, m.key = key ∧ m.slot.val = j) ∨ (j ≠ hole ∧ cell t j = some (key, v))
  frame : ∀ j, probeDistance C hole gap ≤ probeDistance C hole j → cell t' j = cell t j
  occupied : ∀ {j : Nat}, (cell t' j).isSome → (cell t j).isSome
  origin : ∀ m ∈ moves, ∃ i v, cell t i = some (m.key, v) ∧ i ≠ hole ∧ i ≠ m.slot.val ∧
    probeDistance C hole i < probeDistance C hole gap

section Removal

variable {home : K → Nat} {t : Table K V C} {hole candidate gap : Nat}

namespace Closing

variable (inv : Closing home t hole candidate gap)

include inv

/-- The walk has not come round to the hole. -/
theorem candidate_ne_hole : candidate ≠ hole := by
  intro heq
  have := inv.ahead
  simp [heq] at this

/-- The hole still holds the entry that is to disappear. -/
theorem hole_occupied : (cell t hole).isSome := by
  have := inv.run 0 inv.ahead
  rwa [Nat.add_zero, Nat.mod_eq_of_lt inv.hole_lt] at this

/-- The empty cell that ends the walk is not the hole. -/
theorem gap_ne_hole : gap ≠ hole := by
  rintro rfl
  have := inv.hole_occupied
  simp [inv.gap_empty] at this

/-- An occupied candidate lies strictly before the empty cell. -/
theorem before_gap {e : K × V} (hcell : cell t candidate = some e) :
    probeDistance C hole candidate < probeDistance C hole gap := by
  refine Nat.lt_of_le_of_ne inv.behind fun heq => ?_
  rw [probeDistance_inj inv.hole_lt inv.candidate_lt inv.gap_lt heq, inv.gap_empty] at hcell
  cases hcell

/-- Once the candidate is empty, no remaining entry has the hole on its
path. -/
theorem path_avoids_hole (hhome : ∀ key, 0 < C → home key < C) (hempty : cell t candidate = none)
    {i d : Nat} {key : K} {v : V} (hi : i ≠ hole) (hcell : cell t i = some (key, v))
    (hd : d < probeDistance C (home key) i) : (home key + d) % C ≠ hole := by
  intro hpos
  have hiC := lt_of_cell hcell
  have hh : home key < C := hhome key (by omega)
  have hDC := probeDistance_lt hh hiC
  have hdist : probeDistance C (home key) hole = d := by rw [← hpos, probeDistance_add hh (by omega)]
  have hsplit := probeDistance_split hh inv.hole_lt hiC (by omega)
  refine inv.settled hi hcell ?_ d hd hpos
  by_contra hge
  -- otherwise the empty candidate would sit on the path of the entry
  have hne : probeDistance C hole candidate ≠ probeDistance C hole i := by
    intro heq
    rw [probeDistance_inj inv.hole_lt inv.candidate_lt hiC heq, hcell] at hempty
    cases hempty
  have hon := inv.path hi hcell (d + probeDistance C hole candidate) (by omega)
  rw [← Nat.add_assoc, Nat.add_mod, hpos, Nat.mod_eq_of_lt (probeDistance_lt inv.hole_lt
    inv.candidate_lt), add_probeDistance inv.hole_lt inv.candidate_lt, hempty] at hon
  cases hon

/-- The loop is done: emptying the hole restores the invariant. -/
theorem finish (hhome : ∀ key, 0 < C → home key < C) (decode : V → Option W) {limit : Nat}
    (hempty : cell t candidate = none) :
    Closed home decode t (setCell t hole none) hole gap ([] : List (Move K W limit)) := by
  have hcell : ∀ {j e}, cell (setCell t hole none) j = some e → j ≠ hole ∧ cell t j = some e := by
    intro j e hj
    rw [cell_setCell] at hj
    split at hj
    · cases hj
    · rename_i hne
      have := inv.hole_lt
      exact ⟨fun heq => hne ⟨heq.symm, this⟩, hj⟩
  refine ⟨⟨?_, ?_⟩, ?_, by simp, fun hj => .inr (hcell hj), ?_, ?_, by simp⟩
  · intro i j key v w hi hj
    exact inv.unique (hcell hi).1 (hcell hj).1 (hcell hi).2 (hcell hj).2
  · intro i key v hi d hd
    obtain ⟨hne, hi⟩ := hcell hi
    rw [cell_setCell_of_ne (inv.path_avoids_hole hhome hempty hne hi hd).symm]
    exact inv.path hne hi d hd
  · intro key v
    constructor
    · rintro ⟨j, hj⟩
      exact ⟨j, hcell hj⟩
    · rintro ⟨j, hne, hj⟩
      exact ⟨j, by rw [cell_setCell_of_ne hne.symm]; exact hj⟩
  · intro j hj
    refine cell_setCell_of_ne fun heq => ?_
    subst heq
    have := inv.ahead
    have := inv.behind
    simp at hj
    omega
  · intro j hj
    obtain ⟨e, he⟩ := Option.isSome_iff_exists.mp hj
    simp [(hcell he).2]

/-- The candidate's path avoids the hole, so it stays and the walk goes on. -/
theorem skip {key : K} {v : V} (hcell : cell t candidate = some (key, v)) (hh : home key < C)
    (hstay : ¬probeDistance C (home key) hole < probeDistance C (home key) candidate) :
    Closing home t hole ((candidate + 1) % C) gap := by
  have hlt := inv.before_gap hcell
  have hgapC := probeDistance_lt inv.hole_lt inv.gap_lt
  have hsucc := probeDistance_succ inv.hole_lt inv.candidate_lt (by omega)
  refine ⟨inv.hole_lt, Nat.mod_lt _ (by omega), inv.gap_lt, inv.gap_empty, by omega, by omega, ?_,
    inv.unique, inv.path, ?_⟩
  · intro e he
    by_cases hlast : e = probeDistance C hole candidate
    · subst hlast
      rw [add_probeDistance inv.hole_lt inv.candidate_lt]
      simp [hcell]
    · exact inv.run e (by omega)
  · intro i other w hi hother hdist d hd
    by_cases hlast : probeDistance C hole i = probeDistance C hole candidate
    · have heq := probeDistance_inj inv.hole_lt (lt_of_cell hother) inv.candidate_lt hlast
      subst heq
      rw [hcell] at hother
      cases hother
      intro hpos
      have hdC := probeDistance_lt hh inv.candidate_lt
      have := probeDistance_add hh (show d < C by omega)
      rw [hpos] at this
      omega
    · exact inv.settled hi hother (by omega) d hd

/-- The hole lies on the candidate's path: the candidate moves into it and
leaves a new hole. -/
theorem advance {key : K} {v : V} (hcell : cell t candidate = some (key, v))
    (hmove : probeDistance C (home key) hole < probeDistance C (home key) candidate) :
    Closing home (setCell t hole (some (key, v))) candidate ((candidate + 1) % C) gap := by
  have hne := inv.candidate_ne_hole
  have hlt := inv.before_gap hcell
  have hgapC := probeDistance_lt inv.hole_lt inv.gap_lt
  have hahead := inv.ahead
  have hsucc : probeDistance C candidate ((candidate + 1) % C) = 1 := by
    rw [probeDistance_succ inv.candidate_lt inv.candidate_lt (by simp; omega)]
    simp
  have hsplit := probeDistance_split inv.hole_lt inv.candidate_lt inv.gap_lt inv.behind
  have keeps : ∀ j, (cell t j).isSome → (cell (setCell t hole (some (key, v))) j).isSome := by
    intro j hj
    rw [cell_setCell]
    split <;> simp_all
  have hread : ∀ {j e}, cell (setCell t hole (some (key, v))) j = some e →
      (j = hole ∧ e = (key, v)) ∨ (j ≠ hole ∧ cell t j = some e) := by
    intro j e hj
    rw [cell_setCell] at hj
    split at hj
    · rename_i heq
      cases hj
      exact .inl ⟨heq.1.symm, rfl⟩
    · rename_i hnot
      have := inv.hole_lt
      exact .inr ⟨fun heq => hnot ⟨heq.symm, this⟩, hj⟩
  refine ⟨inv.candidate_lt, Nat.mod_lt _ (by omega), inv.gap_lt, ?_, by omega, by omega, ?_, ?_, ?_,
    ?_⟩
  · rw [cell_setCell_of_ne inv.gap_ne_hole.symm]
    exact inv.gap_empty
  · intro e he
    rw [hsucc] at he
    rw [show e = 0 by omega, Nat.add_zero, Nat.mod_eq_of_lt inv.candidate_lt]
    exact keeps _ (by simp [hcell])
  · intro i j k a b hi hj hia hjb
    rcases hread hia with ⟨hih, heq⟩ | ⟨hi', hold⟩ <;> rcases hread hjb with ⟨hjh, heq'⟩ | ⟨hj', hold'⟩
    · rw [hih, hjh]
    · cases heq
      exact absurd (inv.unique hne hj' hcell hold') hj.symm
    · cases heq'
      exact absurd (inv.unique hne hi' hcell hold) hi.symm
    · exact inv.unique hi' hj' hold hold'
  · intro i k a hi hia d hd
    rcases hread hia with ⟨rfl, heq⟩ | ⟨hi', hia⟩
    · cases heq
      exact keeps _ (inv.path hne hcell d (by omega))
    · exact keeps _ (inv.path hi' hia d hd)
  · intro i k a hi hia hdist
    have hzero : probeDistance C candidate i = 0 := by omega
    have hiC : i < C := lt_of_cell hia
    exact absurd (probeDistance_eq_zero inv.candidate_lt hzero).symm hi

end Closing

/-- Moving the candidate and closing the rest closes the original hole. -/
theorem Closed.of_advance (inv : Closing home t hole candidate gap) {decode : V → Option W}
    {limit : Nat} {key : K} {v : V} {decoded : W} {t' : Table K V C}
    {moves : List (Move K W limit)} (hcell : cell t candidate = some (key, v))
    (hdecode : decode v = some decoded) (hlimit : hole < limit)
    (rest : Closed home decode (setCell t hole (some (key, v))) t' candidate gap moves) :
    Closed home decode t t' hole gap (⟨key, decoded, ⟨hole, hlimit⟩⟩ :: moves) := by
  have hne := inv.candidate_ne_hole
  have hsplit := probeDistance_split inv.hole_lt inv.candidate_lt inv.gap_lt inv.behind
  have hself : cell (setCell t hole (some (key, v))) hole = some (key, v) :=
    cell_setCell_self inv.hole_lt
  have hother : ∀ {j}, j ≠ hole → cell (setCell t hole (some (key, v))) j = cell t j :=
    fun hj => cell_setCell_of_ne hj.symm
  have hgapC := probeDistance_lt inv.hole_lt inv.gap_lt
  have hback : probeDistance C candidate hole = C - probeDistance C hole candidate := by
    have h1 := inv.hole_lt
    have h2 := inv.candidate_lt
    unfold probeDistance
    repeat' split
    all_goals omega
  -- the relocated entry sits outside the stretch the rest of the loop touches
  have hplaced : cell t' hole = some (key, v) := by
    rw [rest.frame hole (by omega), hself]
  refine ⟨rest.probed, ?_, ?_, ?_, ?_, ?_, ?_⟩
  · intro k a
    rw [rest.entries]
    constructor
    · rintro ⟨j, hj, hja⟩
      by_cases heq : j = hole
      · subst heq
        rw [hself] at hja
        cases hja
        exact ⟨candidate, hne, hcell⟩
      · exact ⟨j, heq, by rwa [hother heq] at hja⟩
    · rintro ⟨j, hj, hja⟩
      by_cases heq : j = candidate
      · subst heq
        rw [hcell] at hja
        cases hja
        exact ⟨hole, hne.symm, hself⟩
      · exact ⟨j, heq, by rwa [hother hj]⟩
  · intro m hm
    rcases List.mem_cons.mp hm with rfl | hm
    · exact ⟨v, hdecode, hplaced⟩
    · exact rest.moved m hm
  · intro j k a hj
    rcases rest.kept hj with ⟨m, hm, hk, hs⟩ | ⟨hjc, hja⟩
    · exact .inl ⟨m, List.mem_cons_of_mem _ hm, hk, hs⟩
    · by_cases heq : j = hole
      · subst heq
        rw [hself] at hja
        cases hja
        exact .inl ⟨_, List.mem_cons_self, rfl, rfl⟩
      · exact .inr ⟨heq, by rwa [hother heq] at hja⟩
  · intro j hj
    have hahead := inv.ahead
    have hbehind := inv.behind
    have hjhole : j ≠ hole := by
      rintro rfl
      simp at hj
      omega
    by_cases hjC : j < C
    · have := probeDistance_split inv.hole_lt inv.candidate_lt hjC (by omega)
      rw [rest.frame j (by omega), hother hjhole]
    · have hout : ∀ s : Table K V C, cell s j = none := fun s => cell_eq_none_of_le (by omega)
      rw [hout, hout]
  · intro j hj
    have := rest.occupied hj
    by_cases heq : j = hole
    · subst heq
      exact inv.hole_occupied
    · rwa [hother heq] at this
  · intro m hm
    rcases List.mem_cons.mp hm with rfl | hm
    · exact ⟨candidate, v, hcell, hne, hne, inv.before_gap hcell⟩
    · obtain ⟨i, w, hi, _, hslot, hlt⟩ := rest.origin m hm
      have hbetween := probeDistance_lt_of_between inv.hole_lt inv.candidate_lt (lt_of_cell hi) inv.gap_lt
        inv.behind hlt
      have hihole : i ≠ hole := by
        rintro rfl
        omega
      exact ⟨i, w, by rwa [hother hihole] at hi, hihole, hslot, hbetween⟩

variable (hhome : ∀ key, 0 < C → home key < C) {limit : Nat} {decode : V → Option W}

include hhome in
/-- The loop stops before it meets the hole again and closes it. -/
theorem shiftBack_spec {fuel : Nat} (inv : Closing home t hole candidate gap) (small : Small limit t)
    (decodes : ∀ i e, cell t i = some e → (decode e.2).isSome)
    (hfuel : probeDistance C candidate gap < fuel) :
    ∃ t' moves, shiftBack home limit decode fuel t hole candidate = some (true, t', moves) ∧
      Closed home decode t t' hole gap moves := by
  induction fuel generalizing t hole candidate with
  | zero => omega
  | succ fuel ih =>
      cases hcell : cell t candidate with
      | none =>
          refine ⟨setCell t hole none, [], ?_, inv.finish hhome decode hcell⟩
          simp [shiftBack, hcell]
      | some entry =>
          obtain ⟨key, v⟩ := entry
          have hh : home key < C := hhome key (by have := inv.hole_lt; omega)
          have hlt := inv.before_gap hcell
          have hgapC := probeDistance_lt inv.hole_lt inv.gap_lt
          have hsucc := probeDistance_succ inv.hole_lt inv.candidate_lt (by omega)
          have hnext : (candidate + 1) % C < C := Nat.mod_lt _ (by omega)
          -- the distance left to the empty cell shrinks by one
          have hleft := probeDistance_split inv.hole_lt inv.candidate_lt inv.gap_lt inv.behind
          have hleft' := probeDistance_split inv.hole_lt hnext inv.gap_lt (by omega)
          unfold shiftBack
          simp only [hcell]
          split
          · rename_i hmove
            obtain ⟨decoded, hdecode⟩ := Option.isSome_iff_exists.mp (decodes _ _ hcell)
            obtain ⟨e, hhole⟩ := Option.isSome_iff_exists.mp inv.hole_occupied
            have hlimit : hole < limit := small hhole
            have small' : Small limit (setCell t hole (some (key, v))) := by
              intro j e' hj
              rw [cell_setCell] at hj
              split at hj
              · omega
              · exact small hj
            have decodes' : ∀ i e, cell (setCell t hole (some (key, v))) i = some e →
                (decode e.2).isSome := by
              intro j e' hj
              rw [cell_setCell] at hj
              split at hj
              · cases hj
                exact decodes _ _ hcell
              · exact decodes _ _ hj
            obtain ⟨t', moves, hrun, hclosed⟩ :=
              ih (inv.advance hcell hmove) small' decodes' (by omega)
            refine ⟨t', _, ?_, Closed.of_advance inv hcell hdecode hlimit hclosed⟩
            simp [hdecode, hlimit, hrun]
          · rename_i hstay
            exact ih (inv.skip hcell hh hstay) small decodes (by omega)

include hhome in
/-- Deletion of a key from the cell it sits in, in a table with an empty
cell. -/
theorem removeAt_spec [DecidableEq K] (inv : Probed home t) (small : Small limit t)
    (decodes : ∀ i e, cell t i = some e → (decode e.2).isSome) {slot : Nat} {key : K} {v : V} {w : W}
    (hcell : cell t slot = some (key, v)) (hdecode : decode v = some w) (hgap : gap < C)
    (hempty : cell t gap = none) :
    ∃ t' moves, removeAt home limit decode t slot key = some (some w, t', moves) ∧
      Closed home decode t t' slot gap moves := by
  have hslot := lt_of_cell hcell
  have hne : slot ≠ gap := by
    rintro rfl
    rw [hcell] at hempty
    cases hempty
  have hnext : probeDistance C slot ((slot + 1) % C) = 1 := by
    rw [probeDistance_succ hslot hslot (by simp; omega)]
    simp
  have hgapdist : 1 ≤ probeDistance C slot gap := by
    by_contra hzero
    exact hne (probeDistance_eq_zero hslot (by omega))
  have closing : Closing home t slot ((slot + 1) % C) gap := by
    refine ⟨hslot, Nat.mod_lt _ (by omega), hgap, hempty, by omega, by omega, ?_,
      fun _ _ => inv.unique, fun _ => inv.path, ?_⟩
    · intro e he
      rw [show e = 0 by omega, Nat.add_zero, Nat.mod_eq_of_lt hslot]
      simp [hcell]
    · intro i k a hi _ hdist
      exact absurd (probeDistance_eq_zero hslot (by omega)).symm hi
  have hnextC : (slot + 1) % C < C := Nat.mod_lt _ (by omega)
  obtain ⟨t', moves, hrun, hclosed⟩ :=
    shiftBack_spec hhome closing small decodes (probeDistance_lt hnextC hgap)
  exact ⟨t', moves, by simp [removeAt, hcell, hdecode, hrun], hclosed⟩

end Removal

end HftEngine.OpenAddressing
