/-
Module: HftEngine.Proofs.LogicalFacts
Layer: Proofs
Purpose: Well-formed logical books: sides sorted by priority, no empty level,
  every id once. Every represented book is well formed, so lookups by id are
  membership in the list of resting orders.
Imports: HftEngine.Proofs.MatchRefinement, HftEngine.Lib.KeyedList
Trusted boundary: none (fully proved)
Main exports: LogicalBook.WellFormed, Represents.wellFormed, mem_orders,
  WellFormed.find_iff
-/
import HftEngine.Proofs.MatchRefinement
import HftEngine.Lib.KeyedList

namespace HftEngine

open Machine KeyedList

variable {L O : Nat} {book : OrderBook L O} {views : Side → List LevelView} {side : Side}
  {logical : LogicalBook} {id : OrderId} {price : PriceTicks} {order : ModelOrder} {queue : List ModelOrder}
  {levels : ModelLevels}

/-- The levels of one side in priority order. -/
def SortedLevels (descending : Bool) (levels : ModelLevels) : Prop :=
  levels.Pairwise fun first second => LevelIndex.precedes descending second.1 first.1 = true

/-- At most one level has a given price. -/
theorem SortedLevels.single {descending : Bool} (h : SortedLevels descending levels) (price : PriceTicks) :
    Single (fun level => decide (level.1 = price)) levels := by
  intro first hfirst second hsecond hp hp'
  simp only [decide_eq_true_eq] at hp hp'
  by_contra hne
  obtain ⟨i, hi, rfl⟩ := List.mem_iff_getElem.mp hfirst
  obtain ⟨j, hj, rfl⟩ := List.mem_iff_getElem.mp hsecond
  rw [SortedLevels, List.pairwise_iff_getElem] at h
  rcases Nat.lt_trichotomy i j with hlt | rfl | hlt
  · exact ne_of_precedes (h i j hi hj hlt) (hp.trans hp'.symm)
  · exact hne rfl
  · exact ne_of_precedes (h j i hj hi hlt) (hp'.trans hp.symm)

/-- Sides sorted by priority, no empty level, every id once. -/
structure LogicalBook.WellFormed (logical : LogicalBook) : Prop where
  sorted : ∀ side, SortedLevels side.descending (logical.levels side)
  occupied : ∀ side, ∀ level ∈ logical.levels side, level.2 ≠ []
  ids : (logical.orders.map fun entry => entry.2.2.id).Nodup

/-- The orders of a book are those in the queues of its levels. -/
theorem mem_orders : (side, price, order) ∈ logical.orders ↔
    ∃ queue, (price, queue) ∈ logical.levels side ∧ order ∈ queue := by
  unfold LogicalBook.orders
  rw [List.mem_append, List.mem_flatMap, List.mem_flatMap]
  cases side with
  | buy =>
      constructor
      · rintro (⟨⟨p, queue⟩, hlevel, hmem⟩ | ⟨⟨p, queue⟩, _, hmem⟩)
        · obtain ⟨o, ho, heq⟩ := List.mem_map.mp hmem
          cases heq
          exact ⟨queue, hlevel, ho⟩
        · obtain ⟨o, _, heq⟩ := List.mem_map.mp hmem
          cases heq
      · rintro ⟨queue, hlevel, ho⟩
        exact .inl ⟨(price, queue), hlevel, List.mem_map_of_mem ho⟩
  | sell =>
      constructor
      · rintro (⟨⟨p, queue⟩, _, hmem⟩ | ⟨⟨p, queue⟩, hlevel, hmem⟩)
        · obtain ⟨o, _, heq⟩ := List.mem_map.mp hmem
          cases heq
        · obtain ⟨o, ho, heq⟩ := List.mem_map.mp hmem
          cases heq
          exact ⟨queue, hlevel, ho⟩
      · rintro ⟨queue, hlevel, ho⟩
        exact .inr ⟨(price, queue), hlevel, List.mem_map_of_mem ho⟩

/-! ### Lookup -/

/-- What a search of one side finds is there. -/
theorem mem_of_findOrder {levels : ModelLevels} (h : findOrder id levels = some (price, order)) :
    ∃ queue, (price, queue) ∈ levels ∧ order ∈ queue ∧ order.id = id := by
  induction levels with
  | nil => simp [findOrder] at h
  | cons level rest ih =>
      obtain ⟨listed, queue⟩ := level
      unfold findOrder at h
      cases hfind : queue.find? fun order => order.id = id with
      | some found =>
          simp only [hfind, Option.some.injEq, Prod.mk.injEq] at h
          obtain ⟨rfl, rfl⟩ := h
          exact ⟨queue, by simp, List.mem_of_find?_eq_some hfind, by simpa using List.find?_some hfind⟩
      | none =>
          simp only [hfind] at h
          obtain ⟨queue', hlevel, horder⟩ := ih h
          exact ⟨queue', by simp [hlevel], horder⟩

/-- What a search of the book finds is there and carries the id asked for. -/
theorem mem_of_find {entry : Side × PriceTicks × ModelOrder} (h : logical.find id = some entry) :
    entry ∈ logical.orders ∧ entry.2.2.id = id := by
  obtain ⟨side, price, order⟩ := entry
  unfold LogicalBook.find at h
  cases hbids : findOrder id logical.bids with
  | some found =>
      simp only [hbids, Option.some.injEq, Prod.mk.injEq] at h
      obtain ⟨rfl, rfl, rfl⟩ := h
      obtain ⟨queue, hlevel, horder, hid⟩ := mem_of_findOrder hbids
      exact ⟨mem_orders.mpr ⟨queue, hlevel, horder⟩, hid⟩
  | none =>
      simp only [hbids] at h
      obtain ⟨found, hasks, heq⟩ := Option.map_eq_some_iff.mp h
      cases heq
      obtain ⟨queue, hlevel, horder, hid⟩ := mem_of_findOrder hasks
      exact ⟨mem_orders.mpr ⟨queue, hlevel, horder⟩, hid⟩

/-- A search fails exactly when no order carries the id. -/
theorem find_eq_none_iff : logical.find id = none ↔ ∀ entry ∈ logical.orders, entry.2.2.id ≠ id := by
  rw [← Option.not_isSome_iff_eq_none]
  change ¬logical.Holds id ↔ _
  rw [holds_iff_mem]
  constructor
  · rintro h ⟨side, price, order⟩ hentry hid
    obtain ⟨queue, hlevel, horder⟩ := mem_orders.mp hentry
    exact h ⟨side, (price, queue), hlevel, order, horder, hid⟩
  · rintro h ⟨side, ⟨price, queue⟩, hlevel, order, horder, hid⟩
    exact h (side, price, order) (mem_orders.mpr ⟨queue, hlevel, horder⟩) hid

/-- An order at a fixed place of the levels; nothing else in the book has its
id. -/
structure LogicalBook.Sited (logical : LogicalBook) (side : Side) (price : PriceTicks) (order : ModelOrder)
    (front back : ModelLevels) (earlier later : List ModelOrder) : Prop where
  levels_eq : logical.levels side = front ++ (price, earlier ++ order :: later) :: back
  levels_free : ∀ level ∈ front ++ back, ∀ other ∈ level.2, other.id ≠ order.id
  queue_free : ∀ other ∈ earlier ++ later, other.id ≠ order.id
  side_free : ∀ level ∈ logical.levels side.opposite, ∀ other ∈ level.2, other.id ≠ order.id

/-- Removing an order at a known site: its queue closes up, and an emptied
level goes with it. -/
theorem LogicalBook.Sited.removeOrder_eq {front back : ModelLevels} {earlier later : List ModelOrder}
    (sited : logical.Sited side price order front back earlier later) :
    removeOrder order.id (logical.levels side)
      = front ++ (if (earlier ++ later).isEmpty then back else (price, earlier ++ later) :: back) := by
  rw [sited.levels_eq]
  refine removeOrder_of_split ?_ ?_
  · exact findOrder_eq_none_iff.mpr fun level hlevel => sited.levels_free level (List.mem_append_left _ hlevel)
  · exact fun other hother => sited.queue_free other (List.mem_append_left _ hother)

namespace LogicalBook.WellFormed

/-- An id determines its entry. -/
theorem eq_of_id (wf : logical.WellFormed) {first second : Side × PriceTicks × ModelOrder}
    (hfirst : first ∈ logical.orders) (hsecond : second ∈ logical.orders)
    (hid : first.2.2.id = second.2.2.id) : first = second :=
  List.inj_on_of_nodup_map wf.ids hfirst hsecond hid

/-- Ids are unique in a well-formed book, so a search finds exactly the order
that carries the id. -/
theorem find_iff (wf : logical.WellFormed) {entry : Side × PriceTicks × ModelOrder} :
    logical.find id = some entry ↔ entry ∈ logical.orders ∧ entry.2.2.id = id := by
  refine ⟨mem_of_find, ?_⟩
  rintro ⟨hentry, hid⟩
  cases hfind : logical.find id with
  | none => exact absurd hid (find_eq_none_iff.mp hfind entry hentry)
  | some found =>
      obtain ⟨hfound, hid'⟩ := mem_of_find hfind
      rw [wf.eq_of_id hfound hentry (hid'.trans hid.symm)]

/-- No id occurs twice in a queue. -/
theorem queue_nodup (wf : logical.WellFormed) (hlevel : (price, queue) ∈ logical.levels side) :
    (queue.map ModelOrder.id).Nodup := by
  have hpart : (queue.map fun order => (side, price, order)).Sublist logical.orders := by
    unfold LogicalBook.orders
    cases side with
    | buy =>
        exact (List.sublist_flatten_of_mem (List.mem_map_of_mem
          (f := fun level : PriceTicks × List ModelOrder =>
            level.2.map fun order => (Side.buy, level.1, order)) hlevel)).trans (List.sublist_append_left _ _)
    | sell =>
        exact (List.sublist_flatten_of_mem (List.mem_map_of_mem
          (f := fun level : PriceTicks × List ModelOrder =>
            level.2.map fun order => (Side.sell, level.1, order)) hlevel)).trans (List.sublist_append_right _ _)
  have hids := wf.ids.sublist (hpart.map fun entry => entry.2.2.id)
  simpa [Function.comp_def] using hids

/-- An order that is found lies at one place, and nothing else has its id. -/
theorem sited (wf : logical.WellFormed) (h : logical.find id = some (side, price, order)) :
    order.id = id ∧ ∃ front back earlier later, logical.Sited side price order front back earlier later := by
  obtain ⟨hentry, hid⟩ := mem_of_find h
  obtain ⟨queue, hlevel, horder⟩ := mem_orders.mp hentry
  obtain ⟨front, back, hlevels⟩ := List.append_of_mem hlevel
  obtain ⟨earlier, later, rfl⟩ := List.append_of_mem horder
  refine ⟨hid, front, back, earlier, later, hlevels, ?_, ?_, ?_⟩
  · rintro ⟨listed, queue'⟩ hother other hmem hsame
    have hlevel' : (listed, queue') ∈ logical.levels side := by
      rw [hlevels]
      simp only [List.mem_append, List.mem_cons] at hother ⊢
      tauto
    have heq := wf.eq_of_id (mem_orders.mpr ⟨queue', hlevel', hmem⟩) hentry hsame
    simp only [Prod.mk.injEq, true_and] at heq
    have hsorted := wf.sorted side
    rw [hlevels, SortedLevels, List.pairwise_append] at hsorted
    rcases List.mem_append.mp hother with hin | hin
    · exact ne_of_precedes (hsorted.2.2 _ hin (price, earlier ++ order :: later) (by simp)) heq.1
    · exact ne_of_precedes ((List.pairwise_cons.mp hsorted.2.1).1 _ hin) heq.1.symm
  · intro other hother hsame
    have hnodup := wf.queue_nodup hlevel
    rw [List.map_append, List.map_cons, List.nodup_middle, List.nodup_cons] at hnodup
    refine hnodup.1 ?_
    rw [← List.map_append, ← hsame]
    exact List.mem_map_of_mem hother
  · rintro ⟨listed, queue'⟩ hother other hmem hsame
    have heq := wf.eq_of_id (mem_orders.mpr ⟨queue', hother, hmem⟩) hentry hsame
    simp only [Prod.mk.injEq] at heq
    exact absurd heq.1 (by cases side <;> simp [Side.opposite])

end LogicalBook.WellFormed

/-! ### Represented books are well formed -/

/-- The ids of the logical orders are the ids of the nodes in storage. -/
theorem orders_logicalOf {instrument : InstrumentId} :
    (logicalOf instrument views).orders.map (fun entry => entry.2.2.id)
      = ((views .buy) ++ (views .sell)).flatMap fun view => view.nodes.map fun node => node.2.id := by
  unfold LogicalBook.orders logicalOf
  simp only [List.map_append, List.map_flatMap, List.flatMap_map, LevelView.logical, List.map_map,
    List.flatMap_append]
  rfl

/-- No two nodes of a represented book carry one id: the index has one cell for
each id, and that cell names one location. -/
theorem BookRep.ids_nodup (rep : BookRep book views) :
    (((views .buy) ++ (views .sell)).flatMap fun view => view.nodes.map fun node => node.2.id).Nodup := by
  rw [List.nodup_flatMap]
  constructor
  · -- within a level, equal ids are the same slot
    intro view hview
    obtain ⟨side, hside⟩ : ∃ side, view ∈ views side := by
      rcases List.mem_append.mp hview with h | h
      · exact ⟨.buy, h⟩
      · exact ⟨.sell, h⟩
    obtain ⟨level, free, _, _, hrep⟩ := (rep.side side).stored view hside
    have hslots := (List.nodup_append.mp hrep.nodup).1
    rw [List.Nodup, List.pairwise_map] at hslots ⊢
    refine List.Pairwise.imp_of_mem ?_ hslots
    intro first second hfirst hsecond hne hid
    exact hne (rep.node_unique hside hfirst hside hsecond hid).2.2
  · -- across levels, equal ids would be the same level of the same side
    have hdisjoint : ∀ {side side' : Side} {first second : LevelView}, first ∈ views side →
        second ∈ views side' → (side ≠ side' ∨ first.slot ≠ second.slot) →
        Function.onFun List.Disjoint (fun view : LevelView => view.nodes.map fun node => node.2.id) first
          second := by
      intro side side' first second hfirst hsecond hne id hid hid'
      obtain ⟨node, hnode, rfl⟩ := List.mem_map.mp hid
      obtain ⟨node', hnode', hsame⟩ := List.mem_map.mp hid'
      obtain ⟨hs, hslot, _⟩ := rep.node_unique hfirst hnode hsecond hnode' hsame.symm
      rcases hne with h | h
      · exact h hs
      · exact h hslot
    have hslots : ∀ side, (views side).Pairwise fun first second => first.slot ≠ second.slot := by
      intro side
      have hnodup := (List.nodup_append.mp (rep.side side).nodup).1
      rwa [List.Nodup, List.pairwise_map] at hnodup
    rw [List.pairwise_append]
    refine ⟨?_, ?_, ?_⟩
    · exact List.Pairwise.imp_of_mem (fun hfirst hsecond hne => hdisjoint hfirst hsecond (.inr hne))
        (hslots .buy)
    · exact List.Pairwise.imp_of_mem (fun hfirst hsecond hne => hdisjoint hfirst hsecond (.inr hne))
        (hslots .sell)
    · intro first hfirst second hsecond
      exact hdisjoint hfirst hsecond (.inl (by simp))

/-- Every represented logical book is well formed. -/
theorem Represents.wellFormed (h : Represents book logical) : logical.WellFormed := by
  obtain ⟨views, rep, rfl⟩ := h
  constructor
  · intro side
    rw [levels_logicalOf, SortedLevels, List.pairwise_map]
    exact (rep.side side).sorted
  · intro side level hlevel
    rw [levels_logicalOf] at hlevel
    obtain ⟨view, hview, rfl⟩ := List.mem_map.mp hlevel
    simpa [LevelView.logical] using rep.occupied side view hview
  · rw [orders_logicalOf]
    exact rep.ids_nodup

/-- A represented book and its logical book trade the same instrument. -/
theorem Represents.instrument_eq (h : Represents book logical) : logical.instrument = book.instrument := by
  obtain ⟨views, _, rfl⟩ := h
  rfl

/-! ### How many orders a book holds -/

/-- A bound on the orders of a side from the bound on each queue. -/
theorem length_flatMap_le {levels : ModelLevels} (hqueues : ∀ level ∈ levels, level.2.length ≤ O) :
    (levels.flatMap Prod.snd).length ≤ levels.length * O := by
  induction levels with
  | nil => simp
  | cons level rest ih =>
      have hlevel := hqueues level (by simp)
      have hrest := ih fun other hother => hqueues other (List.mem_cons_of_mem _ hother)
      rw [List.flatMap_cons, List.length_append, List.length_cons, Nat.succ_mul]
      omega

/-- A book holds at most as many orders as it has slots. -/
theorem Represents.length_le (h : Represents book logical) (side : Side) :
    ((logical.levels side).flatMap Prod.snd).length ≤ L * O := by
  obtain ⟨views, rep, rfl⟩ := h
  have hqueues : ∀ level ∈ (logicalOf book.instrument views).levels side, level.2.length ≤ O := by
    intro level hlevel
    rw [levels_logicalOf] at hlevel
    obtain ⟨view, hview, rfl⟩ := List.mem_map.mp hlevel
    simpa [LevelView.logical] using rep.queue_length_le hview
  refine (length_flatMap_le hqueues).trans (Nat.mul_le_mul_right _ ?_)
  rw [levels_logicalOf, List.length_map]
  exact rep.length_le side

/-- The ids of a book are a finite set no larger than its slots. -/
theorem Represents.ids_bound (h : Represents book logical) :
    ∃ held : Finset OrderId, (∀ id, logical.Holds id → id ∈ held) ∧ held.card ≤ 2 * (L * O) := by
  classical
  let orders := (logical.levels .buy).flatMap Prod.snd ++ (logical.levels .sell).flatMap Prod.snd
  refine ⟨(orders.map ModelOrder.id).toFinset, ?_, ?_⟩
  · intro id hholds
    rw [List.mem_toFinset]
    obtain ⟨side, level, hlevel, order, horder, rfl⟩ := holds_iff_mem.mp hholds
    refine List.mem_map_of_mem ?_
    cases side with
    | buy => exact List.mem_append_left _ (List.mem_flatMap.mpr ⟨level, hlevel, horder⟩)
    | sell => exact List.mem_append_right _ (List.mem_flatMap.mpr ⟨level, hlevel, horder⟩)
  · have hbuy := h.length_le .buy
    have hsell := h.length_le .sell
    have hcard := List.toFinset_card_le (orders.map ModelOrder.id)
    simp only [orders, List.length_map, List.length_append] at hcard ⊢
    omega

end HftEngine
