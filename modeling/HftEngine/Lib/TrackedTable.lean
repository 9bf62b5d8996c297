/-
Module: HftEngine.Lib.TrackedTable
Layer: Lib
Purpose: Open-addressed tables whose owner stores, beside every value, the
  number of the cell that refers to it. `Tracks` states that the cells of a
  table are exactly the graph of the owner's handle function, and insertion and
  deletion are shown to keep it. Which cells are occupied is shown to depend on
  the key set alone, so even a refusal for lack of representable cell numbers
  is a function of the logical content (`Fits`), not of the history of the
  table.
Imports: HftEngine.Lib.OpenAddressing
Trusted boundary: none (fully proved)
Main exports: occupied_of_keys, Fits, fits_of_card, Fits.mono, Tracks,
  relocate, relocateAll, Tracks.lookup_iff, Tracks.insert_spec,
  Tracks.removeAt_spec
-/
import HftEngine.Lib.OpenAddressing

namespace HftEngine.OpenAddressing

variable {K V W : Type} {C : Nat}

/-! ### Occupancy

Which cells are occupied depends only on the set of keys, not on the order of insertions and deletions
that led there. -/

section Occupancy

variable {home : K → Nat} {t s : Table K V C} (hhome : ∀ key, 0 < C → home key < C)

/-- Going back from an occupied cell `c` there is a stretch of `len` occupied
cells ending at `c` whose predecessor is empty. -/
theorem exists_run {c : Nat} (hc : c < C) (hgap : ∃ z < C, cell t z = none) (hocc : (cell t c).isSome) :
    ∃ start len, start < C ∧ 0 < len ∧ len < C ∧ (start + len) % C = c ∧ cell t start = none ∧
      ∀ e, 0 < e → e ≤ len → (cell t ((start + e) % C)).isSome := by
  obtain ⟨z, hz, hempty⟩ := hgap
  -- the empty cell nearest to `c` when walking backwards
  have hex : ∃ n, 0 < n ∧ n < C ∧ cell t ((c + (C - n)) % C) = none := by
    have hne : z ≠ c := by
      rintro rfl
      simp [hempty] at hocc
    have hlt := probeDistance_lt hz hc
    have hpos : 0 < probeDistance C z c := by
      by_contra hzero
      exact hne (probeDistance_eq_zero hz (by omega))
    refine ⟨probeDistance C z c, hpos, hlt, ?_⟩
    have hback : (c + (C - probeDistance C z c)) % C = z := by
      rw [ring_add hc (by omega)]
      unfold probeDistance at *
      repeat' split at hlt
      all_goals repeat' split
      all_goals omega
    rw [hback]
    exact hempty
  classical
  obtain ⟨hpos, hlt, hnone⟩ := Nat.find_spec hex
  generalize hn : Nat.find hex = n at hpos hlt hnone
  have hback : ∀ e ≤ n, ((c + (C - n)) % C + e) % C = (c + (C - (n - e))) % C := by
    intro e he
    rw [Nat.mod_add_mod]
    congr 1
    omega
  refine ⟨(c + (C - n)) % C, n, Nat.mod_lt _ (by omega), hpos, hlt, ?_, hnone, ?_⟩
  · rw [hback n (Nat.le_refl _), Nat.sub_self, Nat.sub_zero, Nat.add_mod_right, Nat.mod_eq_of_lt hc]
  · intro e hepos hele
    rw [hback e hele]
    by_cases hend : e = n
    · subst hend
      rw [Nat.sub_self, Nat.sub_zero, Nat.add_mod_right, Nat.mod_eq_of_lt hc]
      exact hocc
    · by_contra hnot
      refine Nat.find_min hex (m := n - e) (by omega) ⟨by omega, by omega, ?_⟩
      simpa using hnot

include hhome in
/-- The home of an entry inside a run that starts after an empty cell lies in
the run, no later than the entry itself. -/
theorem home_mem_run (inv : Probed home t) {start e : Nat} {key : K} {v : V} (hstart : start < C)
    (hempty : cell t start = none) (hpos : 0 < e) (he : e < C)
    (hcell : cell t ((start + e) % C) = some (key, v)) :
    0 < probeDistance C start (home key) ∧ probeDistance C start (home key) ≤ e := by
  have hh : home key < C := hhome key (by omega)
  have hp := lt_of_cell hcell
  have hdist := probeDistance_add hstart he
  generalize (start + e) % C = p at hcell hp hdist
  -- the path from home to the entry cannot contain the empty cell
  have avoid : ∀ d < probeDistance C (home key) p, (home key + d) % C ≠ start := by
    intro d hd heq
    have := inv.path hcell d hd
    rw [heq, hempty] at this
    cases this
  have hback := add_probeDistance hh hstart
  have hbackC := probeDistance_lt hh hstart
  have hnot : ¬probeDistance C (home key) start < probeDistance C (home key) p :=
    fun hlt => avoid _ hlt hback
  have hne : p ≠ start := by
    rintro rfl
    simp at hdist
    omega
  clear hback avoid
  unfold probeDistance at *
  repeat' split at hnot
  all_goals repeat' split at hdist
  all_goals repeat' split
  all_goals omega

include hhome in
/-- Two tables over the same keys occupy the same cells. -/
theorem occupied_of_keys (inv : Probed home t) (inv' : Probed home s)
    (keys : ∀ key, (∃ i v, cell t i = some (key, v)) → ∃ i v, cell s i = some (key, v))
    (hgap : ∃ z < C, cell t z = none) {c : Nat} (hocc : (cell t c).isSome) : (cell s c).isSome := by
  by_contra hnot
  obtain ⟨⟨someKey, someValue⟩, hsome⟩ := Option.isSome_iff_exists.mp hocc
  have : Nonempty K := ⟨someKey⟩
  have : Nonempty V := ⟨someValue⟩
  have hc : c < C := lt_of_cell hsome
  have hnone : cell s c = none := by simpa using hnot
  obtain ⟨start, len, hstart, hlen, hlenC, hend, hempty, hrun⟩ := exists_run hc hgap hocc
  -- every key of the run sits, in `s`, at a distance from `start` below `len`
  have place : ∀ e, 0 < e → e ≤ len → ∃ key v q w, cell t ((start + e) % C) = some (key, v) ∧
      cell s q = some (key, w) ∧ 0 < probeDistance C start q ∧ probeDistance C start q < len := by
    intro e hpos hle
    obtain ⟨⟨key, v⟩, hcell⟩ := Option.isSome_iff_exists.mp (hrun e hpos hle)
    obtain ⟨q, w, hq⟩ := keys key ⟨_, v, hcell⟩
    obtain ⟨hlow, hhigh⟩ := home_mem_run hhome inv hstart hempty hpos (by omega) hcell
    refine ⟨key, v, q, w, hcell, hq, ?_⟩
    have hh : home key < C := hhome key (by omega)
    have hqC := lt_of_cell hq
    have hcdist : probeDistance C start c = len := by rw [← hend, probeDistance_add hstart hlenC]
    have hsplit := probeDistance_split hstart hh hc (by omega)
    have hshort : probeDistance C (home key) q < probeDistance C (home key) c := by
      by_contra hge
      rcases Nat.lt_or_eq_of_le (Nat.le_of_not_lt hge) with hlt | heq
      · have := inv'.path hq _ hlt
        rw [add_probeDistance hh hc, hnone] at this
        cases this
      · rw [← probeDistance_inj hh hc hqC heq, hnone] at hq
        cases hq
    have hqdist : probeDistance C start q =
        probeDistance C start (home key) + probeDistance C (home key) q := by
      have hq' : (start + (probeDistance C start (home key) + probeDistance C (home key) q)) % C
          = q := by
        rw [← Nat.add_assoc, Nat.add_mod, add_probeDistance hstart hh,
          Nat.mod_eq_of_lt (probeDistance_lt hh hqC), add_probeDistance hh hqC]
      rw [← hq', probeDistance_add hstart (by omega), hq']
    omega
  choose! key v q w hcell hq hlow hhigh using place
  obtain ⟨a, ha, b, hb, hab, heq⟩ := Finset.exists_ne_map_eq_of_card_lt_of_maps_to
    (s := Finset.Icc 1 len) (t := Finset.Ico 1 len)
    (f := fun e => probeDistance C start (q e)) (by simp; omega) (by
      intro e he
      rw [Finset.mem_coe, Finset.mem_Icc] at he
      rw [Finset.mem_coe, Finset.mem_Ico]
      exact ⟨hlow e he.1 he.2, hhigh e he.1 he.2⟩)
  rw [Finset.mem_Icc] at ha hb
  have hqa := hq a ha.1 ha.2
  have hqb := hq b hb.1 hb.2
  have hpos := probeDistance_inj hstart (lt_of_cell hqa) (lt_of_cell hqb) heq
  rw [hpos, hqb] at hqa
  have hkey : key b = key a := congrArg Prod.fst (Option.some.inj hqa)
  have hta := hcell a ha.1 ha.2
  rw [← hkey] at hta
  have hsame := inv.unique hta (hcell b hb.1 hb.2)
  have hda := probeDistance_add hstart (show a < C by omega)
  have hdb := probeDistance_add hstart (show b < C by omega)
  rw [hsame] at hda
  omega

/-- A key set fits a handle limit when some table over it occupies only cells
below the limit. -/
def Fits (home : K → Nat) (limit : Nat) (V : Type) (C : Nat) (keys : K → Prop) : Prop :=
  ∃ t : Table K V C, Probed home t ∧ Small limit t ∧
    ∀ key, (∃ i v, cell t i = some (key, v)) ↔ keys key

end Occupancy

/-- A table over fewer keys than cells has an empty cell. -/
theorem exists_gap_of_keys [DecidableEq K] {t : Table K V C} {keys : Finset K} {home : K → Nat}
    (inv : Probed home t) (hkeys : ∀ {i key v}, cell t i = some (key, v) → key ∈ keys) (hcard : keys.card < C) :
    ∃ z < C, cell t z = none := by
  by_contra hfull
  push Not at hfull
  have entry : ∀ i : Fin C, ∃ key v, cell t i.val = some (key, v) := by
    intro i
    obtain ⟨⟨key, v⟩, hcell⟩ := Option.ne_none_iff_exists'.mp (hfull i i.isLt)
    exact ⟨key, v, hcell⟩
  choose key v hcell using entry
  have hinj : Function.Injective key := by
    intro a b hab
    have ha := hcell a
    rw [hab] at ha
    exact Fin.ext (inv.unique ha (hcell b))
  have := Finset.card_le_card_of_injOn (s := Finset.univ) key (fun i _ => hkeys (hcell i)) hinj.injOn
  simp at this
  omega

/-- Some table holds any set of at most as many keys as cells. -/
theorem exists_table_of_card [DecidableEq K] [Inhabited V] {home : K → Nat}
    (hhome : ∀ key, 0 < C → home key < C) (keys : Finset K) (hcard : keys.card ≤ C) :
    ∃ t : Table K V C, Probed home t ∧ ∀ key, (∃ i v, cell t i = some (key, v)) ↔ key ∈ keys := by
  induction keys using Finset.induction_on with
  | empty => exact ⟨emptyTable, probed_emptyTable home, by simp⟩
  | insert key keys hnew ih =>
      rw [Finset.card_insert_of_notMem hnew] at hcard
      obtain ⟨t, hprobed, hkeys⟩ := ih (by omega)
      obtain ⟨z, hz, hempty⟩ := exists_gap_of_keys hprobed
        (fun {i key v} hcell => (hkeys key).mp ⟨i, v, hcell⟩) (by omega)
      obtain ⟨i, hi, hnone, hprobed', _⟩ := insert_of_absent hhome hprobed hz hempty
        (fun j v hcell => hnew ((hkeys key).mp ⟨j, v, hcell⟩)) default C
      refine ⟨_, hprobed', fun other => ?_⟩
      rw [Finset.mem_insert, ← hkeys]
      constructor
      · rintro ⟨j, v, hcell⟩
        rw [cell_setCell] at hcell
        split at hcell
        · cases hcell
          exact .inl rfl
        · exact .inr ⟨j, v, hcell⟩
      · rintro (rfl | ⟨j, v, hcell⟩)
        · exact ⟨i, default, cell_setCell_self hi⟩
        · refine ⟨j, v, ?_⟩
          rw [cell_setCell_of_ne, hcell]
          rintro rfl
          rw [hnone] at hcell
          cases hcell

/-- When every cell number can be handed out, every set of at most as many keys
as cells fits. -/
theorem fits_of_card [DecidableEq K] [Inhabited V] {home : K → Nat} {limit : Nat}
    (hhome : ∀ key, 0 < C → home key < C) (hlimit : C ≤ limit) (keys : Finset K) (hcard : keys.card ≤ C) :
    Fits home limit V C (· ∈ keys) := by
  obtain ⟨t, hprobed, hkeys⟩ := exists_table_of_card (V := V) hhome keys hcard
  refine ⟨t, hprobed, ?_, hkeys⟩
  intro i e hcell
  have := lt_of_cell hcell
  omega

/-- Fewer keys than fit, fit. -/
theorem Fits.mono [DecidableEq K] [Inhabited V] {home : K → Nat} {limit : Nat} {keys keys' : K → Prop}
    (hhome : ∀ key, 0 < C → home key < C) (h : Fits home limit V C keys) (hsub : ∀ key, keys' key → keys key)
    (bound : Finset K) (hbound : ∀ key, keys' key → key ∈ bound) (hcard : bound.card < C) :
    Fits home limit V C keys' := by
  classical
  obtain ⟨t, hprobed, hsmall, hkeys⟩ := h
  have hcard' : (bound.filter keys').card ≤ C := (Finset.card_filter_le _ _).trans hcard.le
  obtain ⟨s, hprobed', hkeys'⟩ := exists_table_of_card (V := V) hhome (bound.filter keys') hcard'
  have hmem : ∀ key, key ∈ bound.filter keys' ↔ keys' key := by
    intro key
    rw [Finset.mem_filter, and_iff_right_iff_imp]
    exact hbound key
  refine ⟨s, hprobed', ?_, fun key => (hkeys' key).trans (hmem key)⟩
  intro i e hcell
  have hgap := exists_gap_of_keys hprobed' (fun {i key v} hcell => (hkeys' key).mp ⟨i, v, hcell⟩)
    ((Finset.card_filter_le _ _).trans_lt hcard)
  have hocc := occupied_of_keys hhome hprobed' hprobed
    (fun key hkey => (hkeys key).mpr (hsub key ((hmem key).mp ((hkeys' key).mp hkey)))) hgap
    (by rw [hcell]; rfl)
  obtain ⟨e', he'⟩ := Option.isSome_iff_exists.mp hocc
  exact hsmall he'

/-! ### Tracked tables

The users of a table keep, beside each stored value, the number of the cell that refers to it. A handle
function gives for every location the key living there and that cell number; `Tracks` says that the cells
are exactly the graph of the handle function. -/

/-- Cell `i` holds `key` with the encoding of location `w` exactly when the
handle of `w` is `(key, i)`. -/
structure Tracks (home : K → Nat) {limit : Nat} (encode : W → V) (decode : V → Option W)
    (t : Table K V C) (handle : W → Option (K × Fin limit)) : Prop where
  probed : Probed home t
  graph : ∀ (i : Nat) (key : K) (v : V), cell t i = some (key, v) ↔
    ∃ (w : W) (slot : Fin limit), slot.val = i ∧ v = encode w ∧ handle w = some (key, slot)
  decodes : ∀ (w : W), (handle w).isSome → decode (encode w) = some w

/-- An empty table tracks an owner that stores nothing. -/
theorem tracks_emptyTable {home : K → Nat} {limit : Nat} {encode : W → V} {decode : V → Option W}
    {handle : W → Option (K × Fin limit)} (h : ∀ w, handle w = none) :
    Tracks home encode decode (emptyTable : Table K V C) handle := by
  refine ⟨probed_emptyTable home, ?_, ?_⟩
  · intro i key v
    simp [h]
  · intro w hw
    simp [h] at hw

/-- The owner of the stored values rewrites the handle of each relocated
key. -/
def relocate [DecidableEq K] [DecidableEq W] {limit : Nat} (handle : W → Option (K × Fin limit))
    (m : Move K W limit) : W → Option (K × Fin limit) :=
  fun w => if w = m.value ∧ (handle w).map Prod.fst = some m.key then some (m.key, m.slot) else handle w

/-- All relocations of one deletion, in the order they are reported. -/
def relocateAll [DecidableEq K] [DecidableEq W] {limit : Nat} (handle : W → Option (K × Fin limit))
    (moves : List (Move K W limit)) : W → Option (K × Fin limit) :=
  moves.foldl relocate handle

section Tracking

variable {home : K → Nat} {limit : Nat} {encode : W → V} {decode : V → Option W} {t : Table K V C}
  {handle : W → Option (K × Fin limit)} {key : K} {slot : Fin limit} {w : W}

namespace Tracks

/-- Every entry sits in a cell whose number can be handed out. -/
theorem small (inv : Tracks home encode decode t handle) : Small limit t := by
  intro i e hcell
  obtain ⟨_, slot, hslot, _⟩ := (inv.graph i e.1 e.2).mp hcell
  exact hslot ▸ slot.isLt

/-- A handle names the cell of its value. -/
theorem cell_of_handle (inv : Tracks home encode decode t handle)
    (h : handle w = some (key, slot)) : cell t slot = some (key, encode w) :=
  (inv.graph _ _ _).mpr ⟨w, slot, rfl, rfl, h⟩

/-- A key lives at one location only. -/
theorem unique (inv : Tracks home encode decode t handle) {w' : W} {slot' : Fin limit}
    (h : handle w = some (key, slot)) (h' : handle w' = some (key, slot')) : w = w' ∧ slot = slot' := by
  have hcell := inv.cell_of_handle h
  have hcell' := inv.cell_of_handle h'
  have hpos := inv.probed.unique hcell hcell'
  rw [hpos, hcell'] at hcell
  have henc : encode w' = encode w := congrArg Prod.snd (Option.some.inj hcell)
  have hd := inv.decodes w (by simp [h])
  rw [← henc, inv.decodes w' (by simp [h'])] at hd
  exact ⟨(Option.some.inj hd).symm, Fin.ext hpos⟩

/-- Every stored value decodes, so a relocation can be reported. -/
theorem entry_decodes (inv : Tracks home encode decode t handle) (i : Nat) (e : K × V)
    (h : cell t i = some e) : (decode e.2).isSome := by
  obtain ⟨w, slot, _, hv, hw⟩ := (inv.graph i e.1 e.2).mp h
  rw [hv, inv.decodes w (by simp [hw])]
  rfl

/-- A table with more cells than locations in use has an empty cell. -/
theorem exists_gap (inv : Tracks home encode decode t handle) {S : Finset W}
    (inside : ∀ w, (handle w).isSome → w ∈ S) (hcard : S.card < C) : ∃ z < C, cell t z = none := by
  classical
  by_contra hfull
  push Not at hfull
  have owner : ∀ i : Fin C, ∃ w ∈ S, ∃ key slot, slot.val = i.val ∧ handle w = some (key, slot) := by
    intro i
    obtain ⟨⟨key, v⟩, hcell⟩ := Option.ne_none_iff_exists'.mp (hfull i i.isLt)
    obtain ⟨w, slot, hslot, _, hw⟩ := (inv.graph i key v).mp hcell
    exact ⟨w, inside w (by simp [hw]), key, slot, hslot, hw⟩
  choose f hmem key slot hslot hf using owner
  have hinj : Function.Injective f := by
    intro a b hab
    have ha := hf a
    rw [hab, hf b] at ha
    have := congrArg Prod.snd (Option.some.inj ha)
    apply Fin.ext
    rw [← hslot a, ← hslot b, show slot b = slot a from this]
  have := Finset.card_le_card_of_injOn (s := Finset.univ) f (fun i _ => hmem i) hinj.injOn
  simp at this
  omega

variable [DecidableEq K] (hhome : ∀ key, 0 < C → home key < C)

include hhome in
/-- A lookup answers exactly the values that some handle records under the
key. -/
theorem lookup_iff (inv : Tracks home encode decode t handle) {v : V} :
    lookup home t key = some v ↔ ∃ w slot, v = encode w ∧ handle w = some (key, slot) := by
  rw [lookup_eq_some_iff hhome inv.probed]
  constructor
  · rintro ⟨i, hcell⟩
    obtain ⟨w, slot, _, hv, hw⟩ := (inv.graph i key v).mp hcell
    exact ⟨w, slot, hv, hw⟩
  · rintro ⟨w, slot, rfl, hw⟩
    exact ⟨slot, inv.cell_of_handle hw⟩

include hhome in
/-- A lookup fails exactly when no handle has the key. -/
theorem lookup_eq_none_iff (inv : Tracks home encode decode t handle) :
    lookup home t key = none ↔ ∀ w slot, handle w ≠ some (key, slot) := by
  rw [Option.eq_none_iff_forall_ne_some]
  constructor
  · intro h w slot hw
    exact h (encode w) ((inv.lookup_iff hhome).mpr ⟨w, slot, rfl, hw⟩)
  · intro h v hv
    obtain ⟨w, slot, _, hw⟩ := (inv.lookup_iff hhome).mp hv
    exact h w slot hw

include hhome in
/-- Inserting a fresh key for an unused location, and recording the cell it
received, keeps the table tracked. Success depends only on whether the enlarged
key set fits the handle limit. -/
theorem insert_spec [DecidableEq W] (inv : Tracks home encode decode t handle)
    (hfree : handle w = none) (absent : ∀ w' slot, handle w' ≠ some (key, slot))
    (hdec : decode (encode w) = some w) {S : Finset W}
    (inside : ∀ w', (handle w').isSome → w' ∈ S) (hw : w ∈ S) (hcard : S.card < C) :
    (∃ slot t', insert home limit t key (encode w) = .ok (slot, t') ∧
        Tracks home encode decode t' (Function.update handle w (some (key, slot))) ∧
        Fits home limit V C (fun k => k = key ∨ ∃ w' slot, handle w' = some (k, slot))) ∨
      (insert home limit t key (encode w) = .error .full ∧
        ¬Fits home limit V C (fun k => k = key ∨ ∃ w' slot, handle w' = some (k, slot))) := by
  obtain ⟨z, hz, hempty⟩ := inv.exists_gap inside hcard
  have absentCell : ∀ j v, cell t j ≠ some (key, v) := by
    intro j v hcell
    obtain ⟨w', slot, _, _, hw'⟩ := (inv.graph j key v).mp hcell
    exact absent w' slot hw'
  obtain ⟨i, hi, hnone, hprobed, hinsert⟩ :=
    insert_of_absent hhome inv.probed hz hempty absentCell (encode w) limit
  have hread : ∀ j k v, cell (setCell t i (some (key, encode w))) j = some (k, v) ↔
      (j = i ∧ k = key ∧ v = encode w) ∨ (j ≠ i ∧ cell t j = some (k, v)) := by
    intro j k v
    rw [cell_setCell]
    by_cases hij : i = j
    · subst hij
      simp [hi, eq_comm]
    · simp [hij, Ne.symm hij]
  have hkeys : ∀ k, (∃ j v, cell (setCell t i (some (key, encode w))) j = some (k, v)) ↔
      k = key ∨ ∃ w' slot, handle w' = some (k, slot) := by
    intro k
    constructor
    · rintro ⟨j, v, hj⟩
      rcases (hread j k v).mp hj with ⟨_, rfl, _⟩ | ⟨_, hj⟩
      · exact .inl rfl
      · obtain ⟨w', slot, _, _, hw'⟩ := (inv.graph j k v).mp hj
        exact .inr ⟨w', slot, hw'⟩
    · rintro (rfl | ⟨w', slot, hw'⟩)
      · exact ⟨i, encode w, (hread _ _ _).mpr (.inl ⟨rfl, rfl, rfl⟩)⟩
      · have hcell := inv.cell_of_handle hw'
        refine ⟨slot, encode w', (hread _ _ _).mpr (.inr ⟨fun heq => ?_, hcell⟩)⟩
        rw [heq, hnone] at hcell
        cases hcell
  by_cases hlimit : i < limit
  · left
    refine ⟨⟨i, hlimit⟩, _, by rw [hinsert, dif_pos hlimit], ?_, _, hprobed, ?_, hkeys⟩
    · refine ⟨hprobed, ?_, ?_⟩
      · intro j k v
        rw [hread]
        constructor
        · rintro (⟨rfl, rfl, rfl⟩ | ⟨hne, hcell⟩)
          · exact ⟨w, ⟨j, hlimit⟩, rfl, rfl, by simp⟩
          · obtain ⟨w', slot, hslot, hv, hw'⟩ := (inv.graph j k v).mp hcell
            refine ⟨w', slot, hslot, hv, ?_⟩
            rw [Function.update_of_ne, hw']
            rintro rfl
            rw [hfree] at hw'
            cases hw'
        · rintro ⟨w', slot, rfl, rfl, hw'⟩
          by_cases heq : w' = w
          · subst heq
            rw [Function.update_self] at hw'
            cases hw'
            exact .inl ⟨rfl, rfl, rfl⟩
          · rw [Function.update_of_ne heq] at hw'
            have hcell := inv.cell_of_handle hw'
            refine .inr ⟨fun hpos => ?_, hcell⟩
            rw [hpos, hnone] at hcell
            cases hcell
      · intro w' hw'
        by_cases heq : w' = w
        · subst heq
          exact hdec
        · rw [Function.update_of_ne heq] at hw'
          exact inv.decodes w' hw'
    · intro j e hj
      rcases (hread j e.1 e.2).mp hj with ⟨rfl, _, _⟩ | ⟨_, hj⟩
      · exact hlimit
      · exact inv.small hj
  · right
    refine ⟨by rw [hinsert, dif_neg hlimit], ?_⟩
    rintro ⟨s, hs, hsmall, hskeys⟩
    -- the enlarged table and the witness occupy the same cells
    have hgap : ∃ z < C, cell (setCell t i (some (key, encode w))) z = none := by
      by_contra hfull
      push Not at hfull
      classical
      have owner : ∀ j : Fin C, ∃ w' ∈ S, (j.val = i ∧ w' = w) ∨
          (j.val ≠ i ∧ ∃ k slot, slot.val = j.val ∧ handle w' = some (k, slot)) := by
        intro j
        obtain ⟨⟨k, v⟩, hcell⟩ := Option.ne_none_iff_exists'.mp (hfull j j.isLt)
        rcases (hread _ _ _).mp hcell with ⟨heq, _, _⟩ | ⟨hne, hcell⟩
        · exact ⟨w, hw, .inl ⟨heq, rfl⟩⟩
        · obtain ⟨w', slot, hslot, _, hw'⟩ := (inv.graph _ _ _).mp hcell
          exact ⟨w', inside w' (by simp [hw']), .inr ⟨hne, k, slot, hslot, hw'⟩⟩
      choose f hmem hf using owner
      have hinj : Function.Injective f := by
        intro a b hab
        apply Fin.ext
        rcases hf a with ⟨ha, hfa⟩ | ⟨ha, k, slot, hslot, hfa⟩ <;>
          rcases hf b with ⟨hb, hfb⟩ | ⟨hb, k', slot', hslot', hfb⟩
        · rw [ha, hb]
        · rw [← hab, hfa, hfree] at hfb
          cases hfb
        · rw [hab, hfb, hfree] at hfa
          cases hfa
        · rw [hab, hfb] at hfa
          have := congrArg Prod.snd (Option.some.inj hfa)
          rw [← hslot, ← hslot', show slot' = slot from this]
      have := Finset.card_le_card_of_injOn (s := Finset.univ) f (fun j _ => hmem j) hinj.injOn
      simp at this
      omega
    have hocc := occupied_of_keys hhome hprobed hs
      (fun k hk => (hskeys k).mpr ((hkeys k).mp hk)) hgap
      (c := i) (by rw [cell_setCell_self hi]; rfl)
    obtain ⟨e, he⟩ := Option.isSome_iff_exists.mp hocc
    exact hlimit (hsmall he)

end Tracks

section Relocation

variable [DecidableEq K] [DecidableEq W]

/-- A value that no move names keeps its handle. -/
theorem relocateAll_of_not_mem {moves : List (Move K W limit)}
    (h : ∀ m ∈ moves, m.value ≠ w) : relocateAll handle moves w = handle w := by
  induction moves generalizing handle with
  | nil => rfl
  | cons m moves ih =>
      have hm : w ≠ m.value := fun heq => h m List.mem_cons_self heq.symm
      rw [relocateAll, List.foldl_cons, ← relocateAll, ih fun m' hm' => h m' (List.mem_cons_of_mem _ hm')]
      simp [relocate, hm]

/-- A value that moves ends at the cell its moves agree on. -/
theorem relocateAll_of_mem {moves : List (Move K W limit)} {old : Fin limit}
    (hw : handle w = some (key, old)) (hex : ∃ m ∈ moves, m.value = w)
    (h : ∀ m ∈ moves, m.value = w → m.key = key ∧ m.slot = slot) :
    relocateAll handle moves w = some (key, slot) := by
  induction moves generalizing handle old with
  | nil => simp at hex
  | cons m moves ih =>
      rw [relocateAll, List.foldl_cons, ← relocateAll]
      by_cases hm : m.value = w
      · obtain ⟨hk, hs⟩ := h m List.mem_cons_self hm
        have hstep : relocate handle m w = some (key, slot) := by simp [relocate, hm, hw, hk, hs]
        by_cases hlater : ∃ m' ∈ moves, m'.value = w
        · exact ih hstep hlater fun m' hm' => h m' (List.mem_cons_of_mem _ hm')
        · push Not at hlater
          rw [relocateAll_of_not_mem hlater, hstep]
      · obtain ⟨m', hm', hv⟩ := hex
        rcases List.mem_cons.mp hm' with rfl | hm'
        · exact absurd hv hm
        · have hstep : relocate handle m w = some (key, old) := by simp [relocate, Ne.symm hm, hw]
          exact ih hstep ⟨m', hm', hv⟩ fun m'' hm'' => h m'' (List.mem_cons_of_mem _ hm'')

/-- Deleting a location's own entry relocates other locations only. -/
theorem relocateAll_update_comm {moves : List (Move K W limit)} {x : Option (K × Fin limit)}
    (h : ∀ m ∈ moves, m.value ≠ w) :
    relocateAll (Function.update handle w x) moves = Function.update (relocateAll handle moves) w x := by
  induction moves generalizing handle with
  | nil => rfl
  | cons m moves ih =>
      have hm : m.value ≠ w := h m List.mem_cons_self
      have hstep : relocate (Function.update handle w x) m = Function.update (relocate handle m) w x := by
        funext y
        by_cases hy : y = w
        · subst hy
          simp [relocate, Ne.symm hm]
        · simp [relocate, Function.update_of_ne hy]
      rw [relocateAll, List.foldl_cons, hstep, ← relocateAll,
        ih fun m' hm' => h m' (List.mem_cons_of_mem _ hm')]
      rfl

end Relocation

namespace Tracks

variable [DecidableEq K] [DecidableEq W] (hhome : ∀ key, 0 < C → home key < C)

include hhome in
/-- Deleting the entry of a location and rewriting the relocated handles keeps
the table tracked. -/
theorem removeAt_spec (inv : Tracks home encode decode t handle) (hw : handle w = some (key, slot))
    {S : Finset W} (inside : ∀ w', (handle w').isSome → w' ∈ S) (hcard : S.card < C) :
    ∃ t' moves, removeAt home limit decode t slot key = some (some w, t', moves) ∧
      (∀ m ∈ moves, m.value ≠ w) ∧
      (∀ m ∈ moves, ∃ old, handle m.value = some (m.key, old)) ∧
      Tracks home encode decode t' (relocateAll (Function.update handle w none) moves) := by
  obtain ⟨z, hz, hempty⟩ := inv.exists_gap inside hcard
  have hcell := inv.cell_of_handle hw
  obtain ⟨t', moves, hrun, closed⟩ := OpenAddressing.removeAt_spec hhome inv.probed inv.small
    inv.entry_decodes hcell (inv.decodes w (by simp [hw])) hz hempty
  -- what a surviving entry was before
  have origin : ∀ {j k v}, cell t' j = some (k, v) → ∃ w' old, w' ≠ w ∧ v = encode w' ∧
      handle w' = some (k, old) ∧ decode v = some w' := by
    intro j k v hj
    obtain ⟨i, hne, hi⟩ := (closed.entries k v).mp ⟨j, hj⟩
    obtain ⟨w', old, hold, hv, hw'⟩ := (inv.graph i k v).mp hi
    refine ⟨w', old, ?_, hv, hw', by rw [hv, inv.decodes w' (by simp [hw'])]⟩
    rintro rfl
    rw [hw] at hw'
    cases hw'
    exact hne hold.symm
  have target : ∀ m ∈ moves, m.value ≠ w ∧ ∃ old, handle m.value = some (m.key, old) ∧
      cell t' m.slot = some (m.key, encode m.value) := by
    intro m hm
    obtain ⟨v, hdec, hm'⟩ := closed.moved m hm
    obtain ⟨w', old, hne, hv, hw', hdec'⟩ := origin hm'
    rw [hdec] at hdec'
    cases hdec'
    exact ⟨hne, old, hw', hv ▸ hm'⟩
  -- the final handle of a surviving location names its cell in the new table
  have final : ∀ {w' k old}, w' ≠ w → handle w' = some (k, old) →
      ∃ s, relocateAll (Function.update handle w none) moves w' = some (k, s) ∧
        cell t' s = some (k, encode w') := by
    intro w' k old hne hw'
    have hstart : Function.update handle w none w' = some (k, old) := by
      rw [Function.update_of_ne hne, hw']
    by_cases hex : ∃ m ∈ moves, m.value = w'
    · obtain ⟨m, hm, rfl⟩ := hex
      obtain ⟨_, _, hkey, hplace⟩ := target m hm
      rw [hw'] at hkey
      cases hkey
      refine ⟨m.slot, relocateAll_of_mem hstart ⟨m, hm, rfl⟩ ?_, hplace⟩
      intro m' hm' hval
      obtain ⟨_, _, hkey', hplace'⟩ := target m' hm'
      rw [hval, hw'] at hkey'
      have hk : m.key = m'.key := congrArg Prod.fst (Option.some.inj hkey')
      rw [hval, ← hk] at hplace'
      exact ⟨hk.symm, Fin.ext (closed.probed.unique hplace' hplace)⟩
    · push Not at hex
      refine ⟨old, by rw [relocateAll_of_not_mem hex, hstart], ?_⟩
      have hold := inv.cell_of_handle hw'
      have hslot : old.val ≠ slot.val := by
        intro heq
        have hsame : old = slot := Fin.ext heq
        rw [hsame, hcell] at hold
        have hk : key = k := congrArg Prod.fst (Option.some.inj hold)
        subst hk
        exact hne (inv.unique hw' hw).1
      obtain ⟨j, hj⟩ := (closed.entries k (encode w')).mpr ⟨old, hslot, hold⟩
      rcases closed.kept hj with ⟨m, hm, hk, hs⟩ | ⟨_, hj'⟩
      · obtain ⟨_, _, hkey, hplace⟩ := target m hm
        rw [hk] at hkey
        exact absurd (inv.unique hkey hw').1 (hex m hm)
      · rwa [inv.probed.unique hj' hold] at hj
  refine ⟨t', moves, hrun, fun m hm => (target m hm).1, fun m hm => ?_, closed.probed, ?_, ?_⟩
  · obtain ⟨_, old, hold, _⟩ := target m hm
    exact ⟨old, hold⟩
  · intro i k v
    constructor
    · intro hi
      obtain ⟨w', old, hne, hv, hw', _⟩ := origin hi
      obtain ⟨s, hs, hplace⟩ := final hne hw'
      exact ⟨w', s, closed.probed.unique hplace hi, hv, hs⟩
    · rintro ⟨w', s, rfl, rfl, hs⟩
      by_cases heq : w' = w
      · subst heq
        rw [relocateAll_of_not_mem fun m hm => (target m hm).1, Function.update_self] at hs
        cases hs
      · cases hw' : handle w' with
        | none =>
            have hnot : ∀ m ∈ moves, m.value ≠ w' := by
              rintro m hm rfl
              obtain ⟨_, _, hold, _⟩ := target m hm
              rw [hw'] at hold
              cases hold
            rw [relocateAll_of_not_mem hnot, Function.update_of_ne heq, hw'] at hs
            cases hs
        | some entry =>
            obtain ⟨k', old⟩ := entry
            obtain ⟨s', hs', hplace⟩ := final heq hw'
            rw [hs] at hs'
            cases hs'
            exact hplace
  · intro w' hw'
    refine inv.decodes w' ?_
    by_cases heq : w' = w
    · subst heq
      simp [hw]
    · by_cases hex : ∃ m ∈ moves, m.value = w'
      · obtain ⟨m, hm, rfl⟩ := hex
        obtain ⟨_, _, hold, _⟩ := target m hm
        simp [hold]
      · push Not at hex
        rwa [relocateAll_of_not_mem hex, Function.update_of_ne heq] at hw'

end Tracks

end Tracking

end HftEngine.OpenAddressing
