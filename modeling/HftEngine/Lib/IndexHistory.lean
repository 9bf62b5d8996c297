/-
Module: HftEngine.Lib.IndexHistory
Layer: Lib
Purpose: Histories of an index that stores values under keys in numbered slots.
  A history keeps, beside the index, the value of every key's last insertion
  and the slot its user has tracked from the insertions' results and the
  deletions' reports. `FiniteMap` says that lookups and slots of the index
  agree with the history; an index over an open-addressed table is shown to be
  one.
Imports: HftEngine.Lib.OpenAddressing
Trusted boundary: none (fully proved)
Main exports: IndexOps, History, FiniteMap, tableOps, tableOps_finiteMap
-/
import HftEngine.Lib.OpenAddressing

namespace HftEngine.OpenAddressing

/-- The operations of an index, with the values it can store. `none` as the
result of a deletion means that it does not return. -/
structure IndexOps (T K W E : Type) (limit : Nat) where
  empty : T
  capacity : Nat
  entries : T → Nat
  storable : W → Prop
  findSlot : T → K → Option Nat
  lookup : T → K → Option W
  insert : T → K → W → Except E (Fin limit × T)
  removeAt : T → Fin limit → K → Option (Option W × T × List (Move K W limit))

section Histories

variable {T K W E : Type} {limit : Nat} [DecidableEq K]

/-- The tracked slots after the reports of a deletion. -/
def trackMoves (slot : K → Option (Fin limit)) (moves : List (Move K W limit)) : K → Option (Fin limit) :=
  moves.foldl (fun slot move => Function.update slot move.key (some move.slot)) slot

/-- The index that some sequence of insertions and deletions leads to, with the
value and the tracked slot of every key. Deletions name the slot where the key
sits and meet fewer entries than the capacity. -/
inductive History (ops : IndexOps T K W E limit) : T → (K → Option W) → (K → Option (Fin limit)) → Prop where
  | empty : History ops ops.empty (fun _ => none) (fun _ => none)
  | inserted {index index' : T} {value : K → Option W} {slot : K → Option (Fin limit)} {key : K} {stored : W}
      {position : Fin limit} (history : History ops index value slot)
      (hinsert : ops.insert index key stored = .ok (position, index')) :
      History ops index' (Function.update value key (some stored)) (Function.update slot key (some position))
  | removed {index index' : T} {value : K → Option W} {slot : K → Option (Fin limit)} {key : K}
      {position : Fin limit} {result : Option W} {moves : List (Move K W limit)}
      (history : History ops index value slot) (hposition : ops.findSlot index key = some position.val)
      (hentries : ops.entries index < ops.capacity)
      (hremove : ops.removeAt index position key = some (result, index', moves)) :
      History ops index' (Function.update value key none) (trackMoves (Function.update slot key none) moves)

/-- An index that is a finite map through all of its histories. With no more
cells than the slot type can number, an insertion is taken exactly for an
absent key, a value that can be stored and an index that is not full. -/
structure FiniteMap (ops : IndexOps T K W E limit) : Prop where
  lookup : ∀ {index value slot}, History ops index value slot → ∀ key, ops.lookup index key = value key
  position : ∀ {index value slot}, History ops index value slot → ∀ key,
    (slot key).map Fin.val = ops.findSlot index key
  duplicate : ∀ {index value slot}, History ops index value slot → ∀ key stored, (value key).isSome →
    ∃ error, ops.insert index key stored = .error error
  insert : ops.capacity ≤ limit → ∀ {index value slot}, History ops index value slot → ∀ key stored,
    (∃ position index', ops.insert index key stored = .ok (position, index')) ↔
      value key = none ∧ ops.storable stored ∧ ops.entries index < ops.capacity
  remove : ∀ {index value slot}, History ops index value slot → ∀ (key : K) (position : Fin limit),
    slot key = some position → ops.entries index < ops.capacity →
    ∃ stored index' moves, ops.removeAt index position key = some (some stored, index', moves) ∧
      value key = some stored ∧
      (∀ other, ops.lookup index' other = if other = key then none else ops.lookup index other) ∧
      (∀ move ∈ moves, ops.lookup index move.key = some move.value) ∧
      ∀ (other : K) (target : Fin limit), (∃ move ∈ moves, move.key = other ∧ move.slot = target) ↔
        other ≠ key ∧ ops.findSlot index' other = some target.val ∧ ops.findSlot index other ≠ some target.val
  stale : ∀ {index value slot}, History ops index value slot → ∀ (key : K) (position : Fin limit),
    slot key ≠ some position → ops.removeAt index position key = some (none, index, [])

/-- A key that no move names keeps its recorded cell. -/
theorem trackMoves_of_not_mem {slot : K → Option (Fin limit)} {moves : List (Move K W limit)} {key : K}
    (h : ∀ move ∈ moves, move.key ≠ key) : trackMoves slot moves key = slot key := by
  induction moves generalizing slot with
  | nil => rfl
  | cons move moves ih =>
      rw [trackMoves, List.foldl_cons, ← trackMoves, ih fun other hmem => h other (by simp [hmem]),
        Function.update_of_ne (h move (by simp)).symm]

/-- Reports that agree on a key's slot leave it there. -/
theorem trackMoves_of_mem {slot : K → Option (Fin limit)} {moves : List (Move K W limit)} {key : K}
    {position : Fin limit} (hmem : ∃ move ∈ moves, move.key = key)
    (hsame : ∀ move ∈ moves, move.key = key → move.slot = position) :
    trackMoves slot moves key = some position := by
  induction moves generalizing slot with
  | nil => simp at hmem
  | cons move moves ih =>
      rw [trackMoves, List.foldl_cons, ← trackMoves]
      by_cases hlater : ∃ later ∈ moves, later.key = key
      · exact ih hlater fun other hother => hsame other (by simp [hother])
      · push Not at hlater
        obtain ⟨found, hfound, rfl⟩ := hmem
        rcases List.mem_cons.mp hfound with rfl | hfound
        · rw [trackMoves_of_not_mem hlater, Function.update_self, hsame found (by simp) rfl]
        · exact absurd rfl (hlater found hfound)

end Histories

/-! ### Open-addressed tables -/

/-- The number of occupied cells. -/
def occupied {K V : Type} {C : Nat} (t : Table K V C) : Nat := t.toList.countP Option.isSome

/-- Fewer entries than cells leave an empty cell. -/
theorem exists_gap_of_occupied {K V : Type} {C : Nat} {t : Table K V C} (h : occupied t < C) :
    ∃ z < C, cell t z = none := by
  by_contra hfull
  push Not at hfull
  have hall : ∀ entry ∈ t.toList, Option.isSome entry = true := by
    intro entry hmem
    obtain ⟨i, hi, rfl⟩ := List.mem_iff_getElem.mp hmem
    have hi' : i < C := by simpa using hi
    have := hfull i hi'
    rw [cell, Vector.getElem?_eq_getElem hi', Option.join_some] at this
    simpa [Option.isSome_iff_ne_none] using this
  have hcount := List.countP_eq_length.mpr hall
  rw [occupied, hcount, Vector.length_toList] at h
  omega

/-- An empty cell leaves room for an entry. -/
theorem occupied_lt_of_gap {K V : Type} {C z : Nat} {t : Table K V C} (hz : z < C) (hempty : cell t z = none) :
    occupied t < C := by
  have hle : occupied t ≤ C := by
    have := List.countP_le_length (p := Option.isSome) (l := t.toList)
    rwa [Vector.length_toList] at this
  refine lt_of_le_of_ne hle fun hall => ?_
  have hsome := List.countP_eq_length.mp (hall.trans Vector.length_toList.symm) t[z] (by simp)
  rw [cell, Vector.getElem?_eq_getElem hz, Option.join_some] at hempty
  rw [hempty] at hsome
  cases hsome

section TableOps

variable {K V W E : Type} {C limit : Nat} [DecidableEq K]

/-- The index over a table, with its own encoding of values and its own
refusals. -/
def tableOps (home : K → Nat) (encode : W → Option V) (decode : V → Option W) (refuse : Option InsertError → E) :
    IndexOps (Table K V C) K W E limit where
  empty := emptyTable
  capacity := C
  entries := occupied
  storable stored := (encode stored).isSome = true
  findSlot := findSlot home
  lookup t key := (lookup home t key).bind decode
  insert t key stored :=
    match encode stored with
    | none => .error (refuse none)
    | some v =>
        match insert home limit t key v with
        | .ok result => .ok result
        | .error error => .error (refuse (some error))
  removeAt t position key := removeAt home limit decode t position key

/-- The cells hold exactly the history's entries, in the tracked slots. -/
structure Agrees (home : K → Nat) (encode : W → Option V) (decode : V → Option W) (t : Table K V C)
    (value : K → Option W) (slot : K → Option (Fin limit)) : Prop where
  probed : Probed home t
  cells : ∀ (i : Nat) (key : K) (v : V), cell t i = some (key, v) ↔
    ∃ (position : Fin limit) (stored : W), position.val = i ∧ slot key = some position ∧
      value key = some stored ∧ encode stored = some v
  paired : ∀ key, (slot key).isSome = (value key).isSome
  encoded : ∀ key stored, value key = some stored → (encode stored).isSome

/-- A successful insertion found the key absent and some cell empty. -/
theorem insert_eq_ok {home : K → Nat} (hhome : ∀ key, 0 < C → home key < C) {t t' : Table K V C}
    (inv : Probed home t) {key : K} {v : V} {position : Fin limit}
    (h : insert home limit t key v = .ok (position, t')) :
    (∀ j w, cell t j ≠ some (key, w)) ∧ position.val < C ∧ cell t position = none ∧ Probed home t' ∧
      t' = setCell t position (some (key, v)) := by
  have habsent : ∀ j w, cell t j ≠ some (key, w) := by
    intro j w hcell
    rw [insert_of_present hhome inv hcell] at h
    cases h
  obtain ⟨z, hz, hempty⟩ : ∃ z < C, cell t z = none := by
    unfold insert at h
    split at h
    · cases h
    · rename_i i hprobe
      split at h
      · cases h
      · rename_i hnone
        obtain ⟨d, _, _, hi, _⟩ := probe_eq_some hprobe
        have hC : 0 < C := by omega
        exact ⟨i, by rw [hi]; exact Nat.mod_lt _ hC, by simpa using hnone⟩
  obtain ⟨i, hi, hnone, hprobed, hinsert⟩ := insert_of_absent hhome inv hz hempty habsent v limit
  rw [hinsert] at h
  split at h
  · cases h
    exact ⟨habsent, hi, hnone, hprobed, rfl⟩
  · cases h

variable {home : K → Nat} {encode : W → Option V} {decode : V → Option W} {refuse : Option InsertError → E}
  {t : Table K V C} {value : K → Option W} {slot : K → Option (Fin limit)}

namespace Agrees

omit [DecidableEq K] in
/-- The cells of a table that agrees with a map can all be handed out. -/
theorem small (h : Agrees home encode decode t value slot) : Small limit t := by
  intro i entry hcell
  obtain ⟨position, _, rfl, _⟩ := (h.cells i entry.1 entry.2).mp hcell
  exact position.isLt

omit [DecidableEq K] in
/-- What is stored under a key, and where. -/
theorem cell_of_slot (h : Agrees home encode decode t value slot) {key : K} {position : Fin limit}
    (hslot : slot key = some position) :
    ∃ stored v, value key = some stored ∧ encode stored = some v ∧ cell t position = some (key, v) := by
  have hsome : (value key).isSome := by
    rw [← h.paired, hslot]
    rfl
  obtain ⟨stored, hvalue⟩ := Option.isSome_iff_exists.mp hsome
  obtain ⟨v, hencode⟩ := Option.isSome_iff_exists.mp (h.encoded key stored hvalue)
  exact ⟨stored, v, hvalue, hencode, (h.cells _ _ _).mpr ⟨position, stored, rfl, hslot, hvalue, hencode⟩⟩

variable (hhome : ∀ key, 0 < C → home key < C)

include hhome in
/-- The table finds a key in the cell the history records for it. -/
theorem findSlot_eq (h : Agrees home encode decode t value slot) (key : K) :
    findSlot home t key = (slot key).map Fin.val := by
  cases hslot : slot key with
  | none =>
      refine (findSlot_eq_none_iff hhome h.probed).mpr fun i v hcell => ?_
      obtain ⟨position, _, _, hsome, _⟩ := (h.cells i key v).mp hcell
      rw [hslot] at hsome
      cases hsome
  | some position =>
      obtain ⟨_, v, _, _, hcell⟩ := h.cell_of_slot hslot
      exact (findSlot_eq_some_iff hhome h.probed).mpr ⟨v, hcell⟩

include hhome in
/-- The table answers with the value the history records. -/
theorem lookup_eq (hdecode : ∀ stored v, encode stored = some v → decode v = some stored)
    (h : Agrees home encode decode t value slot) (key : K) : (lookup home t key).bind decode = value key := by
  cases hslot : slot key with
  | none =>
      have hvalue : value key = none := by
        have := h.paired key
        rw [hslot] at this
        exact Option.isNone_iff_eq_none.mp (by simpa using this.symm)
      have hlookup : lookup home t key = none := by
        rw [lookup, h.findSlot_eq hhome, hslot]
        rfl
      rw [hlookup, hvalue]
      rfl
  | some position =>
      obtain ⟨stored, v, hvalue, hencode, hcell⟩ := h.cell_of_slot hslot
      rw [(lookup_eq_some_iff hhome h.probed).mpr ⟨position, hcell⟩, hvalue]
      exact hdecode stored v hencode

include hhome in
/-- Storing a value under an absent key and noting the slot. -/
theorem inserted (h : Agrees home encode decode t value slot) {t' : Table K V C} {key : K} {stored : W} {v : V}
    {position : Fin limit} (hencode : encode stored = some v)
    (hinsert : insert home limit t key v = .ok (position, t')) :
    Agrees home encode decode t' (Function.update value key (some stored))
      (Function.update slot key (some position)) := by
  obtain ⟨habsent, hlt, hnone, hprobed, rfl⟩ := insert_eq_ok hhome h.probed hinsert
  refine ⟨hprobed, ?_, ?_, ?_⟩
  · intro i other w
    rw [cell_setCell]
    by_cases hkey : other = key
    · subst hkey
      simp only [Function.update_self, Option.some.injEq]
      split
      · rename_i hi
        constructor
        · intro hentry
          cases hentry
          exact ⟨position, stored, hi.1, rfl, rfl, hencode⟩
        · rintro ⟨_, _, _, _, rfl, hw⟩
          rw [hencode] at hw
          cases hw
          rfl
      · rename_i hi
        refine iff_of_false (habsent i w) ?_
        rintro ⟨_, _, rfl, rfl, _⟩
        exact hi ⟨rfl, hlt⟩
    · simp only [Function.update_of_ne hkey]
      split
      · rename_i hi
        refine iff_of_false (fun hentry => hkey (congrArg Prod.fst (Option.some.inj hentry)).symm) ?_
        rintro ⟨place, _, hplace, hslot, _⟩
        obtain ⟨_, _, _, _, hcell⟩ := h.cell_of_slot hslot
        rw [show place = position from Fin.ext (hplace.trans hi.1.symm), hnone] at hcell
        cases hcell
      · exact h.cells i other w
  · intro other
    by_cases hkey : other = key
    · subst hkey
      simp
    · simp only [Function.update_of_ne hkey]
      exact h.paired other
  · intro other kept hkept
    by_cases hkey : other = key
    · subst hkey
      rw [Function.update_self] at hkept
      cases hkept
      rw [hencode]
      rfl
    · rw [Function.update_of_ne hkey] at hkept
      exact h.encoded other kept hkept

/-- A present key is not stored again. -/
theorem duplicate (h : Agrees home encode decode t value slot) (hhome : ∀ key, 0 < C → home key < C) {key : K}
    (hpresent : (value key).isSome) (v : V) : insert home limit t key v = .error .duplicate := by
  rw [← h.paired] at hpresent
  obtain ⟨position, hslot⟩ := Option.isSome_iff_exists.mp hpresent
  obtain ⟨_, _, _, _, hcell⟩ := h.cell_of_slot hslot
  exact insert_of_present hhome h.probed hcell

omit [DecidableEq K] in
/-- A key without a value is in no cell. -/
theorem absent (h : Agrees home encode decode t value slot) {key : K} (hnone : value key = none) (i : Nat) (v : V) :
    cell t i ≠ some (key, v) := by
  intro hcell
  obtain ⟨_, _, _, _, hvalue, _⟩ := (h.cells i key v).mp hcell
  rw [hnone] at hvalue
  cases hvalue

/-- While every cell has a number in the slot type, an absent key is stored
exactly when some cell is free. -/
theorem insert_iff (h : Agrees home encode decode t value slot) (hhome : ∀ key, 0 < C → home key < C)
    (hlimit : C ≤ limit) (key : K) (v : V) :
    (∃ result, insert home limit t key v = .ok result) ↔ value key = none ∧ occupied t < C := by
  constructor
  · rintro ⟨⟨position, t'⟩, hinsert⟩
    obtain ⟨_, hlt, hfree, _⟩ := insert_eq_ok hhome h.probed hinsert
    refine ⟨?_, occupied_lt_of_gap hlt hfree⟩
    by_contra hpresent
    rw [h.duplicate hhome (Option.isSome_iff_ne_none.mpr hpresent) v] at hinsert
    cases hinsert
  · rintro ⟨hnone, hroom⟩
    obtain ⟨z, hz, hempty⟩ := exists_gap_of_occupied hroom
    obtain ⟨i, hi, _, _, hinsert⟩ := insert_of_absent hhome h.probed hz hempty (h.absent hnone) v limit
    rw [dif_pos (lt_of_lt_of_le hi hlimit)] at hinsert
    exact ⟨_, hinsert⟩

/-- A deletion by any other slot than the key's own changes nothing. -/
theorem stale (h : Agrees home encode decode t value slot) {key : K} {position : Fin limit}
    (hstale : slot key ≠ some position) : removeAt home limit decode t position key = some (none, t, []) := by
  unfold removeAt
  cases hcell : cell t position with
  | none => rfl
  | some entry =>
      obtain ⟨other, v⟩ := entry
      dsimp only
      cases decode v with
      | none => rfl
      | some stored =>
          dsimp only
          rw [if_neg]
          rintro rfl
          obtain ⟨place, _, hplace, hslot, _⟩ := (h.cells _ _ _).mp hcell
          rw [Fin.ext hplace] at hslot
          exact hstale hslot

omit [DecidableEq K] in
/-- What is stored in a cell, read the other way. -/
theorem slot_of_cell (h : Agrees home encode decode t value slot) {i : Nat} {key : K} {v : V}
    (hcell : cell t i = some (key, v)) : ∃ position : Fin limit, position.val = i ∧ slot key = some position := by
  obtain ⟨position, _, hi, hslot, _⟩ := (h.cells i key v).mp hcell
  exact ⟨position, hi, hslot⟩

section Removal

variable {t' : Table K V C} {key : K} {position : Fin limit} {gap : Nat} {moves : List (Move K W limit)}

omit [DecidableEq K] in
/-- Every reported entry was stored elsewhere, under another key than the
deleted one. -/
theorem move_origin (h : Agrees home encode decode t value slot) (hslot : slot key = some position)
    (closed : Closed home decode t t' position gap moves) {move : Move K W limit} (hmove : move ∈ moves) :
    move.key ≠ key ∧ ∃ old, slot move.key = some old ∧ old ≠ move.slot := by
  obtain ⟨i, v, hcell, hhole, hne, _⟩ := closed.origin move hmove
  obtain ⟨old, rfl, hold⟩ := h.slot_of_cell hcell
  refine ⟨?_, old, hold, fun heq => hne (congrArg Fin.val heq)⟩
  intro heq
  rw [heq, hslot] at hold
  cases hold
  exact hhole rfl

/-- The tracked slot of a surviving key names its cell in the new table. -/
theorem tracked_of_closed (h : Agrees home encode decode t value slot) (hslot : slot key = some position)
    (closed : Closed home decode t t' position gap moves) {other : K} {old : Fin limit} (hne : other ≠ key)
    (hold : slot other = some old) :
    ∃ target v, trackMoves (Function.update slot key none) moves other = some target ∧
      cell t' target = some (other, v) ∧ cell t old = some (other, v) := by
  obtain ⟨_, v, _, _, hcell⟩ := h.cell_of_slot hold
  have hapart : old.val ≠ position.val := by
    intro heq
    obtain ⟨_, w, _, _, hkey⟩ := h.cell_of_slot hslot
    rw [← heq, hcell] at hkey
    exact hne (congrArg Prod.fst (Option.some.inj hkey))
  obtain ⟨j, hj⟩ := (closed.entries other v).mpr ⟨old, hapart, hcell⟩
  by_cases hmoved : ∃ move ∈ moves, move.key = other
  · obtain ⟨move, hmem, rfl⟩ := hmoved
    have hplace : ∀ move' ∈ moves, move'.key = move.key → move'.slot = move.slot := by
      intro move' hmem' heq
      obtain ⟨_, _, hcell'⟩ := closed.moved move' hmem'
      obtain ⟨_, _, hcell''⟩ := closed.moved move hmem
      rw [heq] at hcell'
      exact Fin.ext (closed.probed.unique hcell' hcell'')
    obtain ⟨w, _, hw⟩ := closed.moved move hmem
    refine ⟨move.slot, v, trackMoves_of_mem ⟨move, hmem, rfl⟩ hplace, ?_, hcell⟩
    rw [closed.probed.unique hw hj]
    exact hj
  · push Not at hmoved
    refine ⟨old, v, ?_, ?_, hcell⟩
    · rw [trackMoves_of_not_mem hmoved, Function.update_of_ne hne, hold]
    · rcases closed.kept hj with ⟨move, hmem, hkey, _⟩ | ⟨_, hj'⟩
      · exact absurd hkey (hmoved move hmem)
      · rwa [h.probed.unique hj' hcell] at hj

/-- Closing the hole of a deleted entry and following the reports keeps the
agreement. -/
theorem removed (h : Agrees home encode decode t value slot) (hslot : slot key = some position)
    (closed : Closed home decode t t' position gap moves) :
    Agrees home encode decode t' (Function.update value key none)
      (trackMoves (Function.update slot key none) moves) := by
  have hkey : trackMoves (Function.update slot key none) moves key = none := by
    rw [trackMoves_of_not_mem fun move hmem => (h.move_origin hslot closed hmem).1, Function.update_self]
  have hfree : ∀ other, slot other = none → trackMoves (Function.update slot key none) moves other = none := by
    intro other hnone
    by_cases heq : other = key
    · rw [heq, hkey]
    · rw [trackMoves_of_not_mem, Function.update_of_ne heq, hnone]
      rintro move hmem rfl
      obtain ⟨_, _, hold, _⟩ := h.move_origin hslot closed hmem
      rw [hnone] at hold
      cases hold
  have hsurvives : ∀ {i other w}, cell t' i = some (other, w) → other ≠ key ∧ ∃ old, slot other = some old := by
    intro i other w hcell
    obtain ⟨j, hj, hbefore⟩ := (closed.entries other w).mp ⟨i, hcell⟩
    obtain ⟨old, rfl, hold⟩ := h.slot_of_cell hbefore
    refine ⟨?_, old, hold⟩
    rintro rfl
    rw [hslot] at hold
    cases hold
    exact hj rfl
  refine ⟨closed.probed, ?_, ?_, ?_⟩
  · intro i other w
    constructor
    · intro hcell
      obtain ⟨hne, old, hold⟩ := hsurvives hcell
      obtain ⟨target, v, htarget, hplace, hbefore⟩ := h.tracked_of_closed hslot closed hne hold
      have hi : target.val = i := closed.probed.unique hplace hcell
      rw [hi, hcell] at hplace
      cases hplace
      obtain ⟨_, stored, _, _, hvalue, hencode⟩ := (h.cells _ _ _).mp hbefore
      exact ⟨target, stored, hi, htarget, by rw [Function.update_of_ne hne, hvalue], hencode⟩
    · rintro ⟨target, stored, rfl, htarget, hvalue, hencode⟩
      have hne : other ≠ key := by
        rintro rfl
        rw [hkey] at htarget
        cases htarget
      rw [Function.update_of_ne hne] at hvalue
      cases hold : slot other with
      | none =>
          rw [hfree other hold] at htarget
          cases htarget
      | some old =>
          obtain ⟨target', v, htarget', hplace, hbefore⟩ := h.tracked_of_closed hslot closed hne hold
          rw [htarget] at htarget'
          cases htarget'
          obtain ⟨_, stored', _, _, hvalue', hencode'⟩ := (h.cells _ _ _).mp hbefore
          rw [hvalue] at hvalue'
          cases hvalue'
          rw [hencode] at hencode'
          cases hencode'
          exact hplace
  · intro other
    by_cases hne : other = key
    · rw [hne, hkey, Function.update_self]
      rfl
    · rw [Function.update_of_ne hne, ← h.paired]
      cases hold : slot other with
      | none => rw [hfree other hold]
      | some old =>
          obtain ⟨target, _, htarget, _⟩ := h.tracked_of_closed hslot closed hne hold
          rw [htarget]
          rfl
  · intro other stored hvalue
    by_cases hne : other = key
    · rw [hne, Function.update_self] at hvalue
      cases hvalue
    · rw [Function.update_of_ne hne] at hvalue
      exact h.encoded other stored hvalue

/-- The reports are exactly the entries that changed their slot. -/
theorem moves_iff (h : Agrees home encode decode t value slot) (hslot : slot key = some position)
    (closed : Closed home decode t t' position gap moves) (other : K) (target : Fin limit) :
    (∃ move ∈ moves, move.key = other ∧ move.slot = target) ↔
      other ≠ key ∧ trackMoves (Function.update slot key none) moves other = some target ∧
        slot other ≠ some target := by
  constructor
  · rintro ⟨move, hmem, rfl, rfl⟩
    obtain ⟨hne, old, hold, hchanged⟩ := h.move_origin hslot closed hmem
    refine ⟨hne, ?_, fun hsame => ?_⟩
    · obtain ⟨target, v, htarget, hplace, _⟩ := h.tracked_of_closed hslot closed hne hold
      obtain ⟨w, _, hw⟩ := closed.moved move hmem
      rw [htarget, Fin.ext (closed.probed.unique hplace hw)]
    · rw [hold] at hsame
      exact hchanged (Option.some.inj hsame)
  · rintro ⟨hne, htarget, hchanged⟩
    by_contra hnone
    by_cases hmoved : ∃ move ∈ moves, move.key = other
    · obtain ⟨move, hmem, rfl⟩ := hmoved
      obtain ⟨_, old, hold, _⟩ := h.move_origin hslot closed hmem
      obtain ⟨target', v, htarget', hplace, _⟩ := h.tracked_of_closed hslot closed hne hold
      rw [htarget] at htarget'
      cases htarget'
      obtain ⟨w, _, hw⟩ := closed.moved move hmem
      exact hnone ⟨move, hmem, rfl, Fin.ext (closed.probed.unique hw hplace)⟩
    · push Not at hmoved
      rw [trackMoves_of_not_mem hmoved, Function.update_of_ne hne] at htarget
      exact hchanged htarget

end Removal

section Runs

variable (hhome : ∀ key, 0 < C → home key < C) (hdecode : ∀ stored v, encode stored = some v → decode v = some stored)

include hhome hdecode in
/-- A deletion by the key's own slot returns, and closes the hole. -/
theorem removeAt_closed (h : Agrees home encode decode t value slot) {key : K} {position : Fin limit}
    (hslot : slot key = some position) (hentries : occupied t < C) :
    ∃ stored t' moves gap, removeAt home limit decode t position key = some (some stored, t', moves) ∧
      value key = some stored ∧ Closed home decode t t' position gap moves := by
  obtain ⟨gap, hgap, hempty⟩ := exists_gap_of_occupied hentries
  obtain ⟨stored, v, hvalue, hencode, hcell⟩ := h.cell_of_slot hslot
  have hdecodes : ∀ i entry, cell t i = some entry → (decode entry.2).isSome := by
    intro i entry hentry
    obtain ⟨_, kept, _, _, _, hkept⟩ := (h.cells i entry.1 entry.2).mp hentry
    rw [hdecode kept entry.2 hkept]
    rfl
  obtain ⟨t', moves, hrun, hclosed⟩ := removeAt_spec hhome h.probed h.small hdecodes hcell
    (hdecode stored v hencode) hgap hempty
  exact ⟨stored, t', moves, gap, hrun, hvalue, hclosed⟩

include hhome hdecode in
/-- The agreement holds through every history. -/
theorem of_history (history : History (tableOps home encode decode refuse) t value slot) :
    Agrees home encode decode t value slot := by
  induction history with
  | empty =>
      refine ⟨probed_emptyTable home, fun i key v => ?_, fun key => rfl, fun key stored hvalue => by cases hvalue⟩
      simp [tableOps]
  | inserted history hinsert ih =>
      rename_i stored position
      simp only [tableOps] at hinsert
      split at hinsert
      · cases hinsert
      · rename_i v hencode
        split at hinsert
        · rename_i result hresult
          cases hinsert
          exact ih.inserted hhome hencode hresult
        · cases hinsert
  | removed history hposition hentries hremove ih =>
      rename_i key position result moves
      have hslot := ih.findSlot_eq hhome key
      rw [show findSlot home _ key = some position.val from hposition] at hslot
      obtain ⟨place, hplace, heq⟩ := Option.map_eq_some_iff.mp hslot.symm
      obtain rfl : place = position := Fin.ext heq
      obtain ⟨stored, t', moves', gap, hrun, _, hclosed⟩ := ih.removeAt_closed hhome hdecode hplace hentries
      rw [show removeAt home _ decode _ place key = some (result, _, moves) from hremove] at hrun
      cases hrun
      exact ih.removed hplace hclosed

end Runs

end Agrees

/-- An index over an open-addressed table is a finite map, for every hash and
every capacity. -/
theorem tableOps_finiteMap (hhome : ∀ key, 0 < C → home key < C)
    (hdecode : ∀ stored v, encode stored = some v → decode v = some stored) :
    FiniteMap (tableOps home encode decode refuse : IndexOps (Table K V C) K W E limit) where
  lookup history key := (Agrees.of_history hhome hdecode history).lookup_eq hhome hdecode key
  position history key := ((Agrees.of_history hhome hdecode history).findSlot_eq hhome key).symm
  duplicate := by
    intro t value slot history key stored hpresent
    have h := Agrees.of_history hhome hdecode history
    simp only [tableOps]
    cases encode stored with
    | none => exact ⟨_, rfl⟩
    | some v =>
        dsimp only
        rw [h.duplicate hhome hpresent v]
        exact ⟨_, rfl⟩
  insert := by
    intro hlimit t value slot history key stored
    have h := Agrees.of_history hhome hdecode history
    simp only [tableOps]
    cases encode stored with
    | none => simp
    | some v =>
        have hroom := h.insert_iff hhome hlimit key v
        simp only [Option.isSome_some, true_and]
        rw [← hroom]
        rcases insert home limit t key v with error | ⟨position, t'⟩
        · simp
        · simp
  remove := by
    intro t value slot history key position hslot hentries
    have h := Agrees.of_history hhome hdecode history
    obtain ⟨stored, t', moves, gap, hrun, hvalue, hclosed⟩ := h.removeAt_closed hhome hdecode hslot hentries
    have h' := h.removed hslot hclosed
    refine ⟨stored, t', moves, hrun, hvalue, ?_, ?_, ?_⟩
    · intro other
      simp only [tableOps]
      rw [h'.lookup_eq hhome hdecode, h.lookup_eq hhome hdecode, Function.update_apply]
    · intro move hmem
      obtain ⟨v, hv, hplace⟩ := hclosed.moved move hmem
      have hlookup := h'.lookup_eq hhome hdecode move.key
      rw [(lookup_eq_some_iff hhome h'.probed).mpr ⟨_, hplace⟩,
        Function.update_of_ne (h.move_origin hslot hclosed hmem).1, Option.bind_some, hv] at hlookup
      exact (h.lookup_eq hhome hdecode move.key).trans hlookup.symm
    · intro other target
      simp only [tableOps]
      rw [h.moves_iff hslot hclosed, h'.findSlot_eq hhome, h.findSlot_eq hhome]
      simp only [Option.map_eq_some_iff, Fin.val_inj, exists_eq_right, ne_eq]
  stale history key position hstale := (Agrees.of_history hhome hdecode history).stale hstale

end TableOps

end HftEngine.OpenAddressing
