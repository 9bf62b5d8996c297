/-
Module: HftEngine.Proofs.BookRep
Layer: Proofs
Purpose: The representation invariant of the whole book: per side a sorted list
  of level views backed by stored levels, and an order-id index that tracks
  every live order. The frame lemmas say what writing a level, opening one and
  dropping one do to the views and to the handles.
Imports: HftEngine.Proofs.LevelRep
Trusted boundary: none (fully proved)
Main exports: LevelView, SideRep, BookRep, OrderBook.handle, SideRep.update,
  SideRep.drop, SideRep.openLevel_spec, logicalOf
-/
import HftEngine.Proofs.LevelRep

namespace HftEngine

open Machine SlotArena OpenAddressing

variable {L O : Nat}

/-! ### Priority order -/

section Priority

variable {descending : Bool} {a b c : PriceTicks}

/-- Priority of prices is a strict order in either direction; the four facts
below are all that the sorted lists use. -/
theorem precedes_trans (h : LevelIndex.precedes descending b a) (h' : LevelIndex.precedes descending c b) :
    LevelIndex.precedes descending c a := by
  unfold LevelIndex.precedes at *
  cases descending <;> simp at * <;> omega

theorem precedes_asymm (h : LevelIndex.precedes descending b a) :
    LevelIndex.precedes descending a b = false := by
  unfold LevelIndex.precedes at *
  cases descending <;> simp at * <;> omega

@[simp] theorem precedes_irrefl : LevelIndex.precedes descending a a = false := by
  unfold LevelIndex.precedes
  cases descending <;> simp

/-- Of two prices one precedes the other, or they are the same. -/
theorem precedes_trichotomy (descending : Bool) (a b : PriceTicks) :
    LevelIndex.precedes descending b a = true ∨ a = b ∨ LevelIndex.precedes descending a b = true := by
  unfold LevelIndex.precedes
  rw [Signed.ext_iff]
  cases descending <;> simp <;> omega

theorem ne_of_precedes (h : LevelIndex.precedes descending b a) : a ≠ b := by
  rintro rfl
  simp at h

end Priority

/-! ### Locations -/

/-- The number under which the index stores a location. -/
def locationCode (O : Nat) (location : OrderLocation) : Nat :=
  (location.levelIndex * O + location.slot) * 2 + (if location.side = .sell then 1 else 0) + 1

/-- A location of the book has a code; the index refuses only locations outside
of it. -/
theorem encodeLocation_eq (location : OrderLocation) (hlevel : location.levelIndex < L)
    (hslot : location.slot < O) :
    OrderIndex.encodeLocation L O location = some (locationCode O location) := by
  unfold OrderIndex.encodeLocation
  rw [if_neg (by omega)]
  rfl

/-- A code leads back to its location. The three parts are packed in mixed
radix, one up so that zero codes nothing. -/
theorem decodeLocation_code {location : OrderLocation} (hlevel : location.levelIndex < L)
    (hslot : location.slot < O) :
    OrderIndex.decodeLocation L O (locationCode O location) = some location := by
  obtain ⟨side, level, slot⟩ := location
  simp only at hlevel hslot
  have hbit : (locationCode O ⟨side, level, slot⟩ - 1) / 2 = level * O + slot := by
    unfold locationCode
    cases side <;> simp
    omega
  have hside : (locationCode O ⟨side, level, slot⟩ - 1) % 2 = if side = .sell then 1 else 0 := by
    unfold locationCode
    cases side <;> simp
  have hdiv : (level * O + slot) / O = level := by
    rw [Nat.mul_comm, Nat.mul_add_div (by omega), Nat.div_eq_of_lt hslot, Nat.add_zero]
  have hmod : (level * O + slot) % O = slot := by
    rw [Nat.mul_comm, Nat.mul_add_mod, Nat.mod_eq_of_lt hslot]
  unfold OrderIndex.decodeLocation
  simp only [hbit, hside, hdiv, hmod]
  rw [if_neg (by omega)]
  cases side <;> simp

/-- All locations of a book. -/
def allLocations (L O : Nat) : Finset OrderLocation :=
  ((Finset.range 2 ×ˢ Finset.range L) ×ˢ Finset.range O).image fun p =>
    ⟨if p.1.1 = 0 then .buy else .sell, p.1.2, p.2⟩

/-- Every location within the capacities is one of the finitely many counted
below. -/
theorem mem_allLocations {location : OrderLocation} (hlevel : location.levelIndex < L)
    (hslot : location.slot < O) : location ∈ allLocations L O := by
  obtain ⟨side, level, slot⟩ := location
  unfold allLocations
  rw [Finset.mem_image]
  refine ⟨((if side = .buy then 0 else 1, level), slot), ?_, by cases side <;> simp⟩
  simp only [Finset.mem_product, Finset.mem_range]
  refine ⟨⟨?_, hlevel⟩, hslot⟩
  split <;> omega

/-- There are more cells than locations, so the id index always has an empty
cell and its probes end. -/
theorem card_allLocations_lt (hL : 0 < L) (hO : 0 < O) :
    (allLocations L O).card < L * O * orderIndexPlanes := by
  have hcard := Finset.card_image_le (s := (Finset.range 2 ×ˢ Finset.range L) ×ˢ Finset.range O)
    (f := fun p => (⟨if p.1.1 = 0 then .buy else .sell, p.1.2, p.2⟩ : OrderLocation))
  simp only [Finset.card_product, Finset.card_range] at hcard
  have hpos : 0 < L * O := Nat.mul_pos hL hO
  unfold allLocations orderIndexPlanes
  rw [Nat.mul_assoc] at hcard
  omega

theorem probeStart_lt {capacity : Nat} (key : U64) (h : 0 < capacity) : probeStart capacity key < capacity :=
  Nat.mod_lt _ h

/-! ### Reads after writes -/

namespace OrderBook

variable {book : OrderBook L O} {side side' : Side} {i j : Nat} {level : Option (PriceLevel O)}

/-- The id stored at a location and the index cell recorded beside it. -/
def handle (book : OrderBook L O) (location : OrderLocation) : Option (OrderId × U32) :=
  (book.getLevel location.side location.levelIndex).bind fun level => level.handle location.slot

/-- Reading a level slot after writing one. -/
theorem getLevel_setLevel :
    (book.setLevel side i level).getLevel side' j
      = if side = side' ∧ i = j ∧ i < L then level else book.getLevel side' j := by
  unfold getLevel setLevel sideLevels
  cases side <;> cases side' <;> simp [Vector.getElem?_setIfInBounds]
  all_goals
    by_cases hij : i = j
    · subst hij
      by_cases hi : i < L <;> simp [hi]
    · simp [hij]

/-- Writing one level slot leaves the others alone, on either side. -/
theorem getLevel_setLevel_of_ne (h : side ≠ side' ∨ i ≠ j) :
    (book.setLevel side i level).getLevel side' j = book.getLevel side' j := by
  rw [getLevel_setLevel, if_neg]
  rintro ⟨rfl, rfl, _⟩
  simp at h

@[simp] theorem sideIndex_setLevel : (book.setLevel side i level).sideIndex side' = book.sideIndex side' := by
  cases side <;> cases side' <;> rfl

@[simp] theorem index_setLevel : (book.setLevel side i level).index = book.index := by
  cases side <;> rfl

@[simp] theorem instrument_setLevel : (book.setLevel side i level).instrument = book.instrument := by
  cases side <;> rfl

@[simp] theorem getLevel_setSideIndex {index : LevelIndex} :
    (book.setSideIndex side index).getLevel side' j = book.getLevel side' j := by
  cases side <;> cases side' <;> rfl

@[simp] theorem sideIndex_setSideIndex {index : LevelIndex} :
    (book.setSideIndex side index).sideIndex side' = if side = side' then index else book.sideIndex side' := by
  cases side <;> cases side' <;> rfl

@[simp] theorem index_setSideIndex {index : LevelIndex} :
    (book.setSideIndex side index).index = book.index := by
  cases side <;> rfl

@[simp] theorem instrument_setSideIndex {index : LevelIndex} :
    (book.setSideIndex side index).instrument = book.instrument := by
  cases side <;> rfl

/-- A slot that holds a level is a slot of the array. -/
theorem lt_of_getLevel {stored : PriceLevel O} (h : book.getLevel side i = some stored) : i < L := by
  by_contra hge
  unfold getLevel at h
  rw [Vector.getElem?_eq_none (by omega)] at h
  cases h

/-- Rewriting one handle of a stored level rewrites one handle of the book. -/
theorem handle_setLevel {stored stored' : PriceLevel O} {slot : Nat} {x : Option (OrderId × U32)}
    (hstored : book.getLevel side i = some stored)
    (hhandle : stored'.handle = Function.update stored.handle slot x) :
    (book.setLevel side i (some stored')).handle = Function.update book.handle ⟨side, i, slot⟩ x := by
  have hi := lt_of_getLevel hstored
  funext location
  obtain ⟨side', j, slot'⟩ := location
  unfold handle
  simp only [getLevel_setLevel]
  by_cases h : side = side' ∧ i = j
  · obtain ⟨rfl, rfl⟩ := h
    simp only [hi, and_self, if_true, Option.bind_some, hhandle]
    by_cases hslot : slot' = slot
    · subst hslot
      simp
    · rw [Function.update_of_ne hslot, Function.update_of_ne (by simpa using hslot), hstored]
      rfl
  · rw [if_neg (by rintro ⟨h1, h2, _⟩; exact h ⟨h1, h2⟩), Function.update_of_ne]
    intro heq
    cases heq
    exact h ⟨rfl, rfl⟩

end OrderBook

/-! ### Representation -/

/-- One occupied level: its price, its level slot and its FIFO. -/
structure LevelView where
  price : PriceTicks
  slot : Nat
  nodes : List (Nat × ModelOrder)

/-- The logical content of a level. -/
def LevelView.logical (view : LevelView) : PriceTicks × List ModelOrder :=
  (view.price, view.nodes.map Prod.snd)

/-- One side of the book stores exactly the listed levels, in priority
order. -/
structure SideRep (book : OrderBook L O) (side : Side) (views : List LevelView) : Prop where
  entries : (book.sideIndex side).entries = views.map fun view => (view.price, view.slot)
  partition : (views.map LevelView.slot ++ (book.sideIndex side).free).Perm (List.range L)
  sorted : views.Pairwise fun first second =>
    LevelIndex.precedes side.descending second.price first.price = true
  stored : ∀ view ∈ views, ∃ level free, book.getLevel side view.slot = some level ∧
    level.price = view.price ∧ LevelRep level view.nodes free
  vacant : ∀ i ∈ (book.sideIndex side).free, book.getLevel side i = none

/-- The index of a book tracks its handles. -/
abbrev IndexTracks (L O : Nat) (index : OrderIndex L O)
    (handle : OrderLocation → Option (OrderId × U32)) : Prop :=
  Tracks (probeStart (L * O * orderIndexPlanes)) (locationCode O) (OrderIndex.decodeLocation L O) index
    handle

/-- The whole book: both sides without empty levels, and the id index. -/
structure BookRep (book : OrderBook L O) (views : Side → List LevelView) : Prop where
  side : ∀ side, SideRep book side (views side)
  occupied : ∀ side, ∀ view ∈ views side, view.nodes ≠ []
  tracked : IndexTracks L O book.index book.handle

/-- The logical book of some views. -/
def logicalOf (instrument : InstrumentId) (views : Side → List LevelView) : LogicalBook :=
  ⟨instrument, (views .buy).map LevelView.logical, (views .sell).map LevelView.logical⟩

@[simp] theorem levels_logicalOf {instrument : InstrumentId} {views : Side → List LevelView} {side : Side} :
    (logicalOf instrument views).levels side = (views side).map LevelView.logical := by
  cases side <;> rfl

variable {book book' : OrderBook L O} {side : Side} {views first second : List LevelView}
  {view : LevelView} {level : PriceLevel O} {nodes : List (Nat × ModelOrder)} {free : List Nat}
  {price : PriceTicks}

namespace SideRep

/-- A side only depends on its own levels and index. -/
theorem frame (rep : SideRep book side views) (hlevels : ∀ i, book'.getLevel side i = book.getLevel side i)
    (hindex : book'.sideIndex side = book.sideIndex side) : SideRep book' side views := by
  constructor
  · rw [hindex]
    exact rep.entries
  · rw [hindex]
    exact rep.partition
  · exact rep.sorted
  · intro view hview
    rw [hlevels]
    exact rep.stored view hview
  · intro i hi
    rw [hindex] at hi
    rw [hlevels]
    exact rep.vacant i hi

/-- No level slot is listed twice, nor both listed and in the pool. -/
theorem nodup (rep : SideRep book side views) :
    (views.map LevelView.slot ++ (book.sideIndex side).free).Nodup :=
  rep.partition.nodup_iff.mpr List.nodup_range

theorem slot_lt (rep : SideRep book side views) (h : view ∈ views) : view.slot < L :=
  List.mem_range.mp (rep.partition.subset (List.mem_append_left _ (List.mem_map_of_mem h)))

/-- Occupied and unused level slots together are all of them. -/
theorem length_add (rep : SideRep book side views) :
    views.length + (book.sideIndex side).free.length = L := by
  simpa using rep.partition.length_eq

/-- The other levels of a side sit in other slots. -/
theorem slot_ne (rep : SideRep book side (first ++ view :: second)) (other : LevelView)
    (h : other ∈ first ++ second) : other.slot ≠ view.slot := by
  have hnodup := (List.nodup_append.mp rep.nodup).1
  simp only [List.map_append, List.map_cons] at hnodup
  obtain ⟨_, hn2, hdisj⟩ := List.nodup_append.mp hnodup
  intro heq
  rcases List.mem_append.mp h with hmem | hmem
  · exact hdisj _ (List.mem_map_of_mem hmem) view.slot (by simp) heq
  · exact (List.nodup_cons.mp hn2).1 (heq ▸ List.mem_map_of_mem hmem)

/-- Every stored level is listed. -/
theorem view_of_getLevel (rep : SideRep book side views) {i : Nat}
    (h : book.getLevel side i = some level) : ∃ view ∈ views, view.slot = i ∧ level.price = view.price ∧
      ∃ free, LevelRep level view.nodes free := by
  have hi := OrderBook.lt_of_getLevel h
  have hmem := rep.partition.symm.subset (List.mem_range.mpr hi)
  rcases List.mem_append.mp hmem with hlisted | hfree
  · obtain ⟨view, hview, rfl⟩ := List.mem_map.mp hlisted
    obtain ⟨stored, free, hstored, hprice, hrep⟩ := rep.stored view hview
    rw [h] at hstored
    cases hstored
    exact ⟨view, hview, rfl, hprice, free, hrep⟩
  · rw [rep.vacant i hfree] at h
    cases h

/-- Rewriting the level of one view. -/
theorem update (rep : SideRep book side (first ++ view :: second)) (hprice : level.price = view.price)
    (hlevel : LevelRep level nodes free) :
    SideRep (book.setLevel side view.slot (some level)) side
      (first ++ { view with nodes := nodes } :: second) := by
  have hslot := rep.slot_lt (show view ∈ first ++ view :: second by simp)
  constructor
  · simpa using rep.entries
  · simpa using rep.partition
  · have := rep.sorted
    simpa [List.pairwise_append, List.pairwise_cons] using this
  · intro other hother
    simp only [List.mem_append, List.mem_cons] at hother
    rcases hother with hmem | rfl | hmem
    · obtain ⟨stored, f, hstored, h⟩ := rep.stored other (by simp [hmem])
      refine ⟨stored, f, ?_, h⟩
      have hne := rep.slot_ne other (by simp [hmem])
      rw [OrderBook.getLevel_setLevel_of_ne (.inr (Ne.symm hne)), hstored]
    · exact ⟨level, free, by simp [OrderBook.getLevel_setLevel, hslot], hprice, hlevel⟩
    · obtain ⟨stored, f, hstored, h⟩ := rep.stored other (by simp [hmem])
      refine ⟨stored, f, ?_, h⟩
      have hne := rep.slot_ne other (by simp [hmem])
      rw [OrderBook.getLevel_setLevel_of_ne (.inr (Ne.symm hne)), hstored]
  · intro i hi
    simp only [OrderBook.sideIndex_setLevel] at hi
    rw [OrderBook.getLevel_setLevel_of_ne, rep.vacant i hi]
    right
    rintro rfl
    exact (List.nodup_append.mp rep.nodup).2.2 view.slot (by simp) view.slot hi rfl

end SideRep

/-! ### The sorted level index -/

/-- In a list sorted by priority a price either heads a suffix or falls between
two parts. -/
theorem split_at {α : Type} (key : α → PriceTicks) {list : List α} (descending : Bool) (price : PriceTicks)
    (hsorted : list.Pairwise fun first second =>
      LevelIndex.precedes descending (key second) (key first) = true) :
    (∃ first item second, list = first ++ item :: second ∧ key item = price ∧
      ∀ other ∈ first, LevelIndex.precedes descending price (key other) = true) ∨
    (∃ first second, list = first ++ second ∧
      (∀ other ∈ first, LevelIndex.precedes descending price (key other) = true) ∧
      ∀ other ∈ second, LevelIndex.precedes descending (key other) price = true) := by
  induction list with
  | nil => exact .inr ⟨[], [], rfl, by simp, by simp⟩
  | cons item rest ih =>
      obtain ⟨hhead, hrest⟩ := List.pairwise_cons.mp hsorted
      rcases precedes_trichotomy descending (key item) price with hbefore | heq | hafter
      · rcases ih hrest with ⟨first, found, second, rfl, hprice, hfirst⟩ | ⟨first, second, rfl, hfirst, hsecond⟩
        · exact .inl ⟨item :: first, found, second, rfl, hprice, by simpa [hbefore] using hfirst⟩
        · exact .inr ⟨item :: first, second, rfl, by simpa [hbefore] using hfirst, hsecond⟩
      · exact .inl ⟨[], item, rest, rfl, heq, by simp⟩
      · refine .inr ⟨[], item :: rest, rfl, by simp, ?_⟩
        intro other hother
        rcases List.mem_cons.mp hother with rfl | hmem
        · exact hafter
        · exact precedes_trans hafter (hhead other hmem)

/-- Inserting after a prefix, as the level index does at the position its
search found. -/
theorem insertIdx_length_append {α : Type} (xs ys : List α) (x : α) :
    (xs ++ ys).insertIdx xs.length x = xs ++ x :: ys := by
  induction xs with
  | nil => simp
  | cons head xs ih => simp [ih]

/-- The partition point of a split list. -/
theorem position_of_split {index : LevelIndex} {descending : Bool} (price : PriceTicks)
    (hentries : index.entries = (first ++ second).map fun view => (view.price, view.slot))
    (hfirst : ∀ other ∈ first, LevelIndex.precedes descending price other.price = true)
    (hsecond : ∀ other, second.head? = some other → LevelIndex.precedes descending price other.price = false) :
    index.position price descending = (first.length, second.head?.any fun view => view.price = price) := by
  have htake : (index.entries.takeWhile fun entry => LevelIndex.precedes descending price entry.1).length
      = first.length := by
    rw [hentries, List.map_append, List.takeWhile_append_of_pos (by simpa using hfirst)]
    cases second with
    | nil => simp
    | cons view rest => simp [hsecond view rfl]
  unfold LevelIndex.position
  rw [htake, hentries]
  simp only [List.getElem?_map, List.getElem?_append_right (Nat.le_refl _), Nat.sub_self]
  cases second <;> simp

namespace SideRep

/-- Looking up an occupied price. -/
theorem find_of_occupied (rep : SideRep book side (first ++ view :: second)) :
    (book.sideIndex side).find view.price side.descending = some view.slot := by
  have hsorted := rep.sorted
  rw [List.pairwise_append] at hsorted
  have hposition := position_of_split view.price rep.entries
    (fun other hother => hsorted.2.2 other hother view (by simp)) (by simp)
  unfold LevelIndex.find
  rw [hposition, rep.entries]
  simp

/-- Looking up a price that falls between two parts of the list. -/
theorem find_of_vacant (rep : SideRep book side (first ++ second))
    (hfirst : ∀ other ∈ first, LevelIndex.precedes side.descending price other.price = true)
    (hsecond : ∀ other ∈ second, LevelIndex.precedes side.descending other.price price = true) :
    (book.sideIndex side).find price side.descending = none := by
  have hposition := position_of_split price rep.entries hfirst
    (fun other hother => precedes_asymm (hsecond other (List.mem_of_head? hother)))
  unfold LevelIndex.find
  rw [hposition]
  cases second with
  | nil => simp
  | cons view rest =>
      have hne := ne_of_precedes (hsecond view (by simp))
      simp [Ne.symm hne]

/-- Dropping a level: its slot returns to the pool. -/
theorem drop (rep : SideRep book side (first ++ view :: second)) :
    SideRep (book.dropLevel side view.slot view.price) side (first ++ second) := by
  have hsorted := rep.sorted
  rw [List.pairwise_append] at hsorted
  have hposition := position_of_split view.price rep.entries
    (fun other hother => hsorted.2.2 other hother view (by simp)) (by simp)
  have hremove : (book.sideIndex side).remove view.price side.descending = some (view.slot,
      ⟨(first ++ second).map (fun view => (view.price, view.slot)),
        view.slot :: (book.sideIndex side).free⟩) := by
    unfold LevelIndex.remove
    rw [hposition, rep.entries]
    simp [List.eraseIdx_append_of_length_le]
  have hdrop : book.dropLevel side view.slot view.price
      = (book.setLevel side view.slot none).setSideIndex side
        ⟨(first ++ second).map (fun view => (view.price, view.slot)),
          view.slot :: (book.sideIndex side).free⟩ := by
    simp only [OrderBook.dropLevel, OrderBook.sideIndex_setLevel, hremove]
  rw [hdrop]
  constructor
  · simp
  · refine List.Perm.trans ?_ rep.partition
    simp only [OrderBook.sideIndex_setSideIndex, if_true, List.map_append, List.map_cons,
      List.append_assoc, List.cons_append]
    exact List.Perm.append_left _ List.perm_middle
  · have := rep.sorted
    refine this.sublist ?_
    exact List.Sublist.append_left (List.sublist_cons_self _ _) _
  · intro other hother
    obtain ⟨stored, f, hstored, h⟩ := rep.stored other (by
      simp only [List.mem_append, List.mem_cons] at hother ⊢
      rcases hother with h | h
      · exact .inl h
      · exact .inr (.inr h))
    refine ⟨stored, f, ?_, h⟩
    rw [OrderBook.getLevel_setSideIndex,
      OrderBook.getLevel_setLevel_of_ne (.inr (Ne.symm (rep.slot_ne _ hother))), hstored]
  · intro i hi
    simp only [OrderBook.sideIndex_setSideIndex, if_true, List.mem_cons] at hi
    rw [OrderBook.getLevel_setSideIndex, OrderBook.getLevel_setLevel]
    rcases hi with rfl | hi
    · simp [rep.slot_lt (show view ∈ first ++ view :: second by simp)]
    · by_cases heq : view.slot = i
      · simp [heq, heq ▸ rep.slot_lt (show view ∈ first ++ view :: second by simp)]
      · simp [heq, rep.vacant i hi]

/-- Opening a level at a price that has none takes the top slot of the pool. -/
theorem insert (rep : SideRep book side (first ++ second)) {slot : Nat} {rest : List Nat}
    (hfree : (book.sideIndex side).free = slot :: rest)
    (hfirst : ∀ other ∈ first, LevelIndex.precedes side.descending price other.price = true)
    (hsecond : ∀ other ∈ second, LevelIndex.precedes side.descending other.price price = true) :
    ∃ index, (book.sideIndex side).insert price side.descending = some (slot, index) ∧
      SideRep ((book.setSideIndex side index).setLevel side slot (some (PriceLevel.new price))) side
        (first ++ ⟨price, slot, []⟩ :: second) := by
  have hposition := position_of_split price rep.entries hfirst
    (fun other hother => precedes_asymm (hsecond other (List.mem_of_head? hother)))
  have hinsert : (book.sideIndex side).insert price side.descending = some (slot,
      ⟨(first ++ ⟨price, slot, []⟩ :: second).map (fun view => (view.price, view.slot)), rest⟩) := by
    unfold LevelIndex.insert
    rw [hfree]
    simp only [hposition, rep.entries, Option.some.injEq, Prod.mk.injEq, true_and]
    rw [List.map_append, List.map_append, List.map_cons, LevelIndex.mk.injEq, ← insertIdx_length_append,
      List.length_map]
    exact ⟨rfl, rfl⟩
  have hslot : slot < L := List.mem_range.mp (rep.partition.subset (by simp [hfree]))
  have hnodup := rep.nodup
  rw [hfree] at hnodup
  have hfresh : slot ∉ (first ++ second).map LevelView.slot := fun hmem =>
    (List.nodup_append.mp hnodup).2.2 slot hmem slot (by simp) rfl
  have hrest : slot ∉ rest := (List.nodup_cons.mp (List.nodup_append.mp hnodup).2.1).1
  refine ⟨_, hinsert, ?_⟩
  constructor
  · simp
  · refine List.Perm.trans ?_ rep.partition
    simp only [OrderBook.sideIndex_setLevel, OrderBook.sideIndex_setSideIndex, if_true, hfree,
      List.map_append, List.map_cons, List.append_assoc, List.cons_append]
    exact List.Perm.append_left _ List.perm_middle.symm
  · have hsorted := rep.sorted
    rw [List.pairwise_append] at hsorted ⊢
    refine ⟨hsorted.1, List.pairwise_cons.mpr ⟨hsecond, hsorted.2.1⟩, ?_⟩
    intro a ha b hb
    rcases List.mem_cons.mp hb with rfl | hb
    · exact hfirst a ha
    · exact hsorted.2.2 a ha b hb
  · intro other hother
    by_cases heq : other = ⟨price, slot, []⟩
    · subst heq
      exact ⟨_, _, by simp [OrderBook.getLevel_setLevel, hslot], rfl, levelRep_new price⟩
    · have hmem : other ∈ first ++ second := by
        simp only [List.mem_append, List.mem_cons] at hother ⊢
        tauto
      obtain ⟨stored, f, hstored, h⟩ := rep.stored other hmem
      refine ⟨stored, f, ?_, h⟩
      have hne : slot ≠ other.slot := by
        rintro rfl
        exact hfresh (List.mem_map_of_mem hmem)
      rw [OrderBook.getLevel_setLevel_of_ne (.inr hne), OrderBook.getLevel_setSideIndex, hstored]
  · intro i hi
    simp only [OrderBook.sideIndex_setLevel, OrderBook.sideIndex_setSideIndex, if_true] at hi
    have hne : slot ≠ i := by
      rintro rfl
      exact hrest hi
    rw [OrderBook.getLevel_setLevel_of_ne (.inr hne), OrderBook.getLevel_setSideIndex,
      rep.vacant i (by simp [hfree, hi])]

end SideRep

end HftEngine
