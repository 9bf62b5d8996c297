/-
Module: HftEngine.Proofs.LogicalOrders
Layer: Proofs
Purpose: The logical operations seen as operations on the list of resting
  orders: resting adds an entry, removing filters one out, an amend in place
  rewrites a quantity, and a match applies its fills one after another. Each
  effect is stated by id alone, so that a ledger kept by id can follow it.
Imports: HftEngine.Proofs.LogicalFacts
Trusted boundary: none (fully proved)
Main exports: fillEntry, fillEntries, orders_rest, orders_remove,
  orders_setQuantity, orders_match
-/
import HftEngine.Proofs.LogicalFacts

namespace HftEngine

open Machine

/-- A resting order with its side and price. -/
abbrev BookEntry := Side × PriceTicks × ModelOrder

variable {side : Side} {logical : LogicalBook} {id : OrderId} {price : PriceTicks} {order : ModelOrder}
  {queue : List ModelOrder} {levels : ModelLevels}

/-- The entries of one side. -/
def entriesOf (side : Side) (levels : ModelLevels) : List BookEntry :=
  levels.flatMap fun level => level.2.map fun order => (side, level.1, order)

/-- The orders of a book, side by side. -/
theorem orders_eq : logical.orders = entriesOf .buy (logical.levels .buy) ++ entriesOf .sell (logical.levels .sell) :=
  rfl

@[simp] theorem entriesOf_nil : entriesOf side [] = [] := rfl

@[simp] theorem entriesOf_cons :
    entriesOf side ((price, queue) :: levels)
      = (queue.map fun order => (side, price, order)) ++ entriesOf side levels := rfl

@[simp] theorem entriesOf_append {more : ModelLevels} :
    entriesOf side (levels ++ more) = entriesOf side levels ++ entriesOf side more :=
  List.flatMap_append

/-- An empty level holds no orders, so leaving it out changes nothing. -/
theorem entriesOf_drop_empty :
    entriesOf side (if queue.isEmpty then levels else (price, queue) :: levels)
      = (queue.map fun order => (side, price, order)) ++ entriesOf side levels := by
  cases queue <;> simp

/-- The entries of some levels are the orders of their queues with side and
price. -/
theorem mem_entriesOf {entry : BookEntry} : entry ∈ entriesOf side levels ↔
    entry.1 = side ∧ ∃ queue, (entry.2.1, queue) ∈ levels ∧ entry.2.2 ∈ queue := by
  obtain ⟨side', price, order⟩ := entry
  unfold entriesOf
  simp only [List.mem_flatMap, List.mem_map, Prod.mk.injEq, Prod.exists]
  constructor
  · rintro ⟨listed, queue, hlevel, found, hfound, rfl, rfl, rfl⟩
    exact ⟨rfl, queue, hlevel, hfound⟩
  · rintro ⟨rfl, queue, hlevel, hfound⟩
    exact ⟨price, queue, hlevel, order, hfound, rfl, rfl, rfl⟩

/-- What a change of one side does to the entries, when it does nothing to the
other side. -/
theorem orders_setLevels_eq {f : List BookEntry → List BookEntry} (happend : ∀ a b, f (a ++ b) = f a ++ f b)
    (hside : entriesOf side levels = f (entriesOf side (logical.levels side)))
    (hother : f (entriesOf side.opposite (logical.levels side.opposite))
      = entriesOf side.opposite (logical.levels side.opposite)) :
    (logical.setLevels side levels).orders = f logical.orders := by
  rw [orders_eq, orders_eq, happend]
  cases side with
  | buy =>
      simp only [Side.opposite] at hother
      simp [hside, hother]
  | sell =>
      simp only [Side.opposite] at hother
      simp [hside, hother]

/-! ### Resting -/

/-- Adding an order adds its entry, somewhere. -/
theorem entriesOf_addOrder (descending : Bool) :
    (entriesOf side (addOrder descending price order levels)).Perm
      ((side, price, order) :: entriesOf side levels) := by
  induction levels with
  | nil => simp [addOrder]
  | cons level rest ih =>
      obtain ⟨listed, queue⟩ := level
      unfold addOrder
      split
      · rename_i heq
        subst heq
        simp only [entriesOf_cons, List.map_append, List.map_cons, List.map_nil, List.append_assoc]
        exact List.perm_middle
      · split
        · simp only [entriesOf_cons]
          exact (ih.append_left _).trans List.perm_middle
        · simp

/-- Resting an order adds its entry. -/
theorem orders_rest (side : Side) (price : PriceTicks) (order : ModelOrder) :
    (logical.rest side price order).orders.Perm ((side, price, order) :: logical.orders) := by
  unfold LogicalBook.rest
  rw [orders_eq, orders_eq]
  cases side with
  | buy =>
      simp only [LogicalBook.levels_setLevels, if_true, reduceCtorEq, if_false]
      exact (entriesOf_addOrder _).append_right _
  | sell =>
      simp only [LogicalBook.levels_setLevels, if_true, reduceCtorEq, if_false]
      exact ((entriesOf_addOrder _).append_left _).trans List.perm_middle

/-! ### Removing and rewriting -/

/-- Removing an order filters its id out. -/
theorem orders_remove (wf : logical.WellFormed) (hfind : logical.find id = some (side, price, order)) :
    (logical.remove side id).orders = logical.orders.filter fun entry => decide (entry.2.2.id ≠ id) := by
  obtain ⟨rfl, front, back, earlier, later, sited⟩ := wf.sited hfind
  have hkeep : ∀ (other : Side) {levels : ModelLevels},
      (∀ level ∈ levels, ∀ resting ∈ level.2, resting.id ≠ order.id) →
      (entriesOf other levels).filter (fun entry => decide (entry.2.2.id ≠ order.id)) = entriesOf other levels := by
    intro other levels hfree
    rw [List.filter_eq_self]
    intro entry hentry
    obtain ⟨_, queue, hlevel, hmem⟩ := mem_entriesOf.mp hentry
    simpa using hfree _ hlevel _ hmem
  have hqueue : ∀ {orders : List ModelOrder}, (∀ resting ∈ orders, resting.id ≠ order.id) →
      (orders.map fun order => (side, price, order)).filter (fun entry => decide (entry.2.2.id ≠ order.id))
        = orders.map fun order => (side, price, order) := by
    intro orders hfree
    rw [List.filter_eq_self]
    intro entry hentry
    obtain ⟨resting, hresting, rfl⟩ := List.mem_map.mp hentry
    simpa using hfree resting hresting
  have hfront := hkeep side fun level hlevel => sited.levels_free level (List.mem_append_left back hlevel)
  have hback := hkeep side fun level hlevel => sited.levels_free level (List.mem_append_right front hlevel)
  have hearlier := hqueue fun other hother => sited.queue_free other (List.mem_append_left later hother)
  have hlater := hqueue fun other hother => sited.queue_free other (List.mem_append_right earlier hother)
  refine orders_setLevels_eq (fun a b => List.filter_append a b) ?_ (hkeep _ sited.side_free)
  rw [sited.removeOrder_eq, sited.levels_eq]
  simp only [entriesOf_append, entriesOf_drop_empty, entriesOf_cons, List.map_append, List.map_cons,
    List.filter_append, List.filter_cons, hfront, hback, hearlier, hlater, ne_eq, not_true_eq_false,
    decide_false, Bool.false_eq_true, if_false]

/-- The entry with its quantity rewritten, when it has the id. -/
def setEntry (id : OrderId) (quantity : Quantity) (entry : BookEntry) : BookEntry :=
  if entry.2.2.id = id then (entry.1, entry.2.1, { entry.2.2 with quantity := quantity }) else entry

/-- Setting a quantity rewrites one entry in place. -/
theorem entriesOf_setQuantity (quantity : Quantity) :
    entriesOf side (setQuantity id quantity levels) = (entriesOf side levels).map (setEntry id quantity) := by
  induction levels with
  | nil => rfl
  | cons level rest ih =>
      obtain ⟨price, queue⟩ := level
      change entriesOf side ((price, _) :: setQuantity id quantity rest) = _
      rw [entriesOf_cons, entriesOf_cons, ih, List.map_append, List.map_map, List.map_map]
      congr 1
      refine List.map_congr_left fun order _ => ?_
      simp only [Function.comp_apply, setEntry]
      split <;> rfl

/-- Rewriting a quantity in place rewrites the entry of that id. -/
theorem orders_setQuantity (wf : logical.WellFormed) (hfind : logical.find id = some (side, price, order))
    (quantity : Quantity) :
    (logical.setLevels side (setQuantity id quantity (logical.levels side))).orders
      = logical.orders.map (setEntry id quantity) := by
  obtain ⟨rfl, front, back, earlier, later, sited⟩ := wf.sited hfind
  refine orders_setLevels_eq (fun a b => List.map_append) (entriesOf_setQuantity quantity) ?_
  conv_rhs => rw [← List.map_id (entriesOf side.opposite _)]
  refine List.map_congr_left fun entry hentry => ?_
  obtain ⟨_, queue, hlevel, hmem⟩ := mem_entriesOf.mp hentry
  rw [setEntry, if_neg (sited.side_free _ hlevel _ hmem)]
  rfl

/-! ### Matching -/

/-- What a fill leaves of an entry: a whole fill removes it. -/
def fillEntry (fill : ModelFill) (entry : BookEntry) : Option BookEntry :=
  if entry.2.2.id = fill.makerOrderId then
    if entry.2.2.quantity = fill.quantity then none
    else some (entry.1, entry.2.1, { entry.2.2 with quantity := satSub entry.2.2.quantity fill.quantity })
  else some entry

/-- The entries after a list of fills, applied one after another. -/
def fillEntries (fills : List ModelFill) (entries : List BookEntry) : List BookEntry :=
  fills.foldl (fun entries fill => entries.filterMap (fillEntry fill)) entries

@[simp] theorem fillEntries_nil {entries : List BookEntry} : fillEntries [] entries = entries := rfl

@[simp] theorem fillEntries_cons {fill : ModelFill} {fills : List ModelFill} {entries : List BookEntry} :
    fillEntries (fill :: fills) entries = fillEntries fills (entries.filterMap (fillEntry fill)) := rfl

/-- Fills act on every entry for itself. -/
theorem fillEntries_append (fills : List ModelFill) (first second : List BookEntry) :
    fillEntries fills (first ++ second) = fillEntries fills first ++ fillEntries fills second := by
  induction fills generalizing first second with
  | nil => rfl
  | cons fill fills ih => simp [ih]

/-- Two runs of fills, one after the other. -/
theorem fillEntries_fills_append (fills more : List ModelFill) (entries : List BookEntry) :
    fillEntries (fills ++ more) entries = fillEntries more (fillEntries fills entries) :=
  List.foldl_append

/-- Fills leave the entries of other ids alone. -/
theorem fillEntries_of_disjoint (fills : List ModelFill) {entries : List BookEntry}
    (h : ∀ entry ∈ entries, ∀ fill ∈ fills, entry.2.2.id ≠ fill.makerOrderId) :
    fillEntries fills entries = entries := by
  induction fills with
  | nil => rfl
  | cons fill fills ih =>
      have hkeep : entries.filterMap (fillEntry fill) = entries := by
        conv_rhs => rw [← List.filterMap_some (l := entries)]
        refine List.filterMap_congr fun entry hentry => ?_
        rw [fillEntry, if_neg (h entry hentry fill (by simp))]
      rw [fillEntries_cons, hkeep, ih fun entry hentry other hother =>
        h entry hentry other (List.mem_cons_of_mem _ hother)]

/-- Every fill of a queue names one of its orders as the maker. -/
theorem matchQueue_fill_ids {remaining : Quantity} {fill : ModelFill}
    (h : fill ∈ (matchQueue price queue remaining).2.2) : ∃ order ∈ queue, fill.makerOrderId = order.id := by
  induction queue generalizing remaining with
  | nil => simp [matchQueue] at h
  | cons maker rest ih =>
      unfold matchQueue at h
      split at h
      · simp at h
      · split at h
        · simp only [List.mem_singleton] at h
          exact ⟨maker, by simp, by rw [h]⟩
        · rcases List.mem_cons.mp h with rfl | hrest
          · exact ⟨maker, by simp, rfl⟩
          · obtain ⟨order, horder, hid⟩ := ih hrest
            exact ⟨order, by simp [horder], hid⟩

/-- Trading against a queue applies the fills to its entries. -/
theorem fillEntries_matchQueue (side : Side) (price : PriceTicks)
    (hnodup : (queue.map ModelOrder.id).Nodup) (remaining : Quantity) :
    fillEntries (matchQueue price queue remaining).2.2 (queue.map fun order => (side, price, order))
      = (matchQueue price queue remaining).2.1.map fun order => (side, price, order) := by
  induction queue generalizing remaining with
  | nil => rfl
  | cons maker rest ih =>
      rw [List.map_cons, List.nodup_cons] at hnodup
      have hrest : ∀ fill : ModelFill, fill.makerOrderId = maker.id →
          (rest.map fun order => (side, price, order)).filterMap (fillEntry fill)
            = rest.map fun order => (side, price, order) := by
        intro fill hfill
        refine fillEntries_of_disjoint [fill] fun entry hentry other hother => ?_
        obtain ⟨order, horder, rfl⟩ := List.mem_map.mp hentry
        rw [List.mem_singleton.mp hother, hfill]
        intro heq
        exact hnodup.1 (heq ▸ List.mem_map_of_mem horder)
      unfold matchQueue
      by_cases hzero : remaining.val = 0
      · simp [hzero]
      by_cases hpart : remaining.val < maker.quantity.val
      · have hne : maker.quantity ≠ remaining := by
          rintro rfl
          omega
        rw [if_neg hzero, if_pos hpart]
        simp [fillEntry, hne, hrest ⟨maker.id, price, remaining⟩ rfl]
      · rw [if_neg hzero, if_neg hpart]
        simp [fillEntry, hrest ⟨maker.id, price, maker.quantity⟩ rfl, ih hnodup.2]

/-- Trading against the levels applies the fills to their entries. -/
theorem fillEntries_matchLevels (taker : Side) (limit : PriceTicks)
    (hnodup : ((entriesOf side levels).map fun entry => entry.2.2.id).Nodup) (remaining : Quantity) :
    fillEntries (matchLevels taker limit levels remaining).2.2 (entriesOf side levels)
        = entriesOf side (matchLevels taker limit levels remaining).2.1 ∧
      ∀ fill ∈ (matchLevels taker limit levels remaining).2.2,
        ∃ entry ∈ entriesOf side levels, fill.makerOrderId = entry.2.2.id := by
  induction levels generalizing remaining with
  | nil => simp [matchLevels]
  | cons level rest ih =>
      obtain ⟨price, queue⟩ := level
      rw [entriesOf_cons, List.map_append, List.nodup_append] at hnodup
      obtain ⟨hqueue, hrest, hdisjoint⟩ := hnodup
      rw [List.map_map] at hqueue hdisjoint
      unfold matchLevels
      by_cases hstop : remaining.val = 0 ∨ crosses taker limit price = false
      · rw [if_pos hstop]
        simp
      · rw [if_neg hstop]
        obtain ⟨hfills, hids⟩ := ih hrest (matchQueue price queue remaining).1
        have hfirst := fillEntries_matchQueue side price hqueue remaining
        have hqueueIds : ∀ fill ∈ (matchQueue price queue remaining).2.2, ∃ order ∈ queue,
            fill.makerOrderId = order.id := fun fill => matchQueue_fill_ids
        constructor
        · simp only [entriesOf_drop_empty, entriesOf_cons, fillEntries_append, fillEntries_fills_append]
          have hlater : fillEntries (matchQueue price queue remaining).2.2 (entriesOf side rest)
              = entriesOf side rest := by
            refine fillEntries_of_disjoint _ fun entry hentry fill hfill heq => ?_
            obtain ⟨order, horder, hid⟩ := hqueueIds fill hfill
            exact hdisjoint order.id (List.mem_map.mpr ⟨order, horder, rfl⟩) entry.2.2.id
              (List.mem_map_of_mem hentry) (hid.symm.trans heq.symm)
          rw [hfirst, hlater, hfills, fillEntries_of_disjoint]
          -- the fills of later levels have other ids
          intro entry hentry fill hfill heq
          obtain ⟨order, horder, rfl⟩ := List.mem_map.mp hentry
          obtain ⟨other, hother, hid⟩ := hids fill hfill
          obtain ⟨old, hold, hsame⟩ := matchQueue_ids _ _ order horder
          refine hdisjoint order.id ?_ other.2.2.id (List.mem_map_of_mem hother) (heq.trans hid)
          rw [← hsame]
          exact List.mem_map.mpr ⟨old, hold, rfl⟩
        · intro fill hfill
          rcases List.mem_append.mp hfill with hmem | hmem
          · obtain ⟨order, horder, hid⟩ := hqueueIds fill hmem
            exact ⟨(side, price, order), by simp [horder], hid⟩
          · obtain ⟨entry, hentry, hid⟩ := hids fill hmem
            exact ⟨entry, by simp [hentry], hid⟩

/-- A match applies its fills to the resting orders. -/
theorem orders_match (wf : logical.WellFormed) (side taker : Side) (limit : PriceTicks) (remaining : Quantity) :
    (logical.setLevels side (matchLevels taker limit (logical.levels side) remaining).2.1).orders
      = fillEntries (matchLevels taker limit (logical.levels side) remaining).2.2 logical.orders := by
  have hids := wf.ids
  rw [orders_eq, List.map_append, List.nodup_append] at hids
  have hown : ((entriesOf side (logical.levels side)).map fun entry => entry.2.2.id).Nodup := by
    cases side
    · exact hids.1
    · exact hids.2.1
  obtain ⟨hfills, hmakers⟩ := fillEntries_matchLevels taker limit hown remaining
  refine orders_setLevels_eq (fillEntries_append _) hfills.symm (fillEntries_of_disjoint _ ?_)
  intro entry hentry fill hfill heq
  obtain ⟨other, hother, hid⟩ := hmakers fill hfill
  have hmem : other.2.2.id ∈ (entriesOf side (logical.levels side)).map fun entry => entry.2.2.id :=
    List.mem_map_of_mem hother
  have hmem' : entry.2.2.id ∈ (entriesOf side.opposite (logical.levels side.opposite)).map
      fun entry => entry.2.2.id := List.mem_map_of_mem hentry
  cases side
  · exact hids.2.2 _ hmem _ hmem' (hid.symm.trans heq.symm)
  · exact hids.2.2 _ hmem' _ hmem (heq.trans hid)

end HftEngine
