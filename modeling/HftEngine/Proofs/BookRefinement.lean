/-
Module: HftEngine.Proofs.BookRefinement
Layer: Proofs
Purpose: The book refines the logical book: on a represented book `cancel`,
  `replace` and `submit` return what their logical counterparts return and
  leave a represented book. The two-phase match is related to the one-pass
  logical match by its list of planned fills.
Imports: HftEngine.Proofs.BookOps
Trusted boundary: none (fully proved)
Main exports: Represents, represents_new, cancel_refines, replace_refines,
  submit_refines
-/
import HftEngine.Proofs.BookOps

namespace HftEngine

open Machine SlotArena OpenAddressing

variable {L O N : Nat} {book book' : OrderBook L O} {views : Side → List LevelView} {side : Side}
  {first second : List LevelView} {view : LevelView} {before after : List (Nat × ModelOrder)} {slot : Nat}
  {data : ModelOrder} {id : OrderId} {logical : LogicalBook} {instrument : InstrumentId}

/-- The book stores exactly the logical book. -/
def Represents (book : OrderBook L O) (logical : LogicalBook) : Prop :=
  ∃ views, BookRep book views ∧ logicalOf book.instrument views = logical

/-- A new book is empty. -/
theorem represents_new (instrument : InstrumentId) :
    Represents (OrderBook.new instrument : OrderBook L O) (LogicalBook.new instrument) := by
  have hlevel : ∀ side i, (OrderBook.new instrument : OrderBook L O).getLevel side i = none := by
    intro side i
    cases side <;> simp [OrderBook.getLevel, OrderBook.new, OrderBook.sideLevels, Vector.getElem?_replicate]
    all_goals split <;> rfl
  have hindex : ∀ side, (OrderBook.new instrument : OrderBook L O).sideIndex side = LevelIndex.new L := by
    intro side
    cases side <;> rfl
  refine ⟨fun _ => [], ⟨fun side => ?_, by simp, ?_⟩, rfl⟩
  · constructor
    · simp [hindex, LevelIndex.new]
    · simp [hindex, LevelIndex.new]
    · exact List.Pairwise.nil
    · simp
    · intro i _
      exact hlevel side i
  · have hhandle : ∀ w, (OrderBook.new instrument : OrderBook L O).handle w = none := by
      intro w
      simp [OrderBook.handle, hlevel]
    exact tracks_emptyTable hhandle

/-! ### Logical effect of the storage operations -/

@[simp] theorem logicalOf_update {replaced : List LevelView} :
    logicalOf instrument (Function.update views side replaced)
      = (logicalOf instrument views).setLevels side (replaced.map LevelView.logical) := by
  cases side <;> simp [logicalOf, LogicalBook.setLevels]

section Logical

variable {front back : ModelLevels} {price : PriceTicks} {earlier later : List ModelOrder}
  {order : ModelOrder}

/-- Removing an order takes it out of its queue, and its level out of the side
when the queue ends empty. -/
theorem removeOrder_of_split (hfront : findOrder order.id front = none)
    (hearlier : ∀ other ∈ earlier, other.id ≠ order.id) :
    removeOrder order.id (front ++ (price, earlier ++ order :: later) :: back)
      = front ++ (if (earlier ++ later).isEmpty then back else (price, earlier ++ later) :: back) := by
  induction front with
  | nil =>
      have herase : (earlier ++ order :: later).eraseP (fun other => decide (other.id = order.id))
          = earlier ++ later := by
        rw [List.eraseP_append_right _ (by simpa using hearlier)]
        simp
      simp only [List.nil_append, removeOrder, herase]
      rw [if_pos (by simp)]
  | cons level rest ih =>
      obtain ⟨listed, queue⟩ := level
      have hall := findOrder_eq_none_iff.mp hfront
      have hqueue : (queue.any fun other => decide (other.id = order.id)) = false := by
        simpa using hall (listed, queue) (by simp)
      have hrest : findOrder order.id rest = none :=
        findOrder_eq_none_iff.mpr fun level hlevel => hall level (List.mem_cons_of_mem _ hlevel)
      simp only [List.cons_append, removeOrder, hqueue, Bool.false_eq_true, if_false, ih hrest]

/-- Rewriting the quantity of an order touches that order only. -/
theorem setQuantity_of_split (price : PriceTicks) (quantity : Quantity)
    (hothers : ∀ level ∈ front ++ back, ∀ other ∈ level.2, other.id ≠ order.id)
    (hqueue : ∀ other ∈ earlier ++ later, other.id ≠ order.id) :
    setQuantity order.id quantity (front ++ (price, earlier ++ order :: later) :: back)
      = front ++ (price, earlier ++ { order with quantity := quantity } :: later) :: back := by
  have hkeep : ∀ orders : List ModelOrder, (∀ other ∈ orders, other.id ≠ order.id) →
      orders.map (fun other => if other.id = order.id then { other with quantity := quantity } else other)
        = orders := by
    intro orders h
    conv_rhs => rw [← List.map_id orders]
    refine List.map_congr_left fun other hother => ?_
    rw [if_neg (h other hother)]
    rfl
  have hlevels : ∀ levels : ModelLevels,
      (∀ level ∈ levels, ∀ other ∈ level.2, other.id ≠ order.id) →
      setQuantity order.id quantity levels = levels := by
    intro levels h
    unfold setQuantity
    conv_rhs => rw [← List.map_id levels]
    refine List.map_congr_left fun level hlevel => ?_
    rw [hkeep level.2 (h level hlevel)]
    rfl
  have hfront := hlevels front fun level hlevel => hothers level (List.mem_append_left _ hlevel)
  have hback := hlevels back fun level hlevel => hothers level (List.mem_append_right _ hlevel)
  have hearlier := hkeep earlier fun other hother => hqueue other (List.mem_append_left _ hother)
  have hlater := hkeep later fun other hother => hqueue other (List.mem_append_right _ hother)
  unfold setQuantity at hfront hback ⊢
  rw [List.map_append, List.map_cons, hfront, hback]
  simp only [List.map_append, List.map_cons, hearlier, hlater, if_true]

end Logical

namespace BookRep

variable (rep : BookRep book views)
include rep

/-- Requeueing a level without one of its nodes is the removal of that
order. -/
theorem logical_remove (placed : Placed views side first view second before slot data after) :
    (requeue first view second (before ++ after)).map LevelView.logical
      = removeOrder data.id ((views side).map LevelView.logical) := by
  rw [placed.views_eq, List.map_append, List.map_cons, LevelView.logical, placed.nodes_eq, List.map_append,
    List.map_cons, removeOrder_of_split]
  · unfold requeue
    by_cases hempty : before ++ after = []
    · rw [if_pos (by simp [hempty]), if_pos (by simpa using hempty)]
      simp
    · rw [if_neg (by simpa using hempty), if_neg (by simpa using hempty)]
      simp [LevelView.logical]
  · rw [findOrder_eq_none_iff]
    intro level hlevel order horder
    obtain ⟨other, hother, rfl⟩ := List.mem_map.mp hlevel
    exact rep.level_ids placed (List.mem_append_left _ hother) horder
  · intro other hother
    exact rep.queue_ids placed (by simp only [List.map_append, List.mem_append]; exact .inl hother)

/-- Writing a new quantity into a node sets the quantity of that order. -/
theorem logical_setQuantity (placed : Placed views side first view second before slot data after)
    (quantity : Quantity) :
    (first ++ { view with nodes := before ++ (slot, { data with quantity := quantity }) :: after } ::
        second).map LevelView.logical
      = setQuantity data.id quantity ((views side).map LevelView.logical) := by
  have hviews : (views side).map LevelView.logical = first.map LevelView.logical ++
      (view.price, before.map Prod.snd ++ data :: after.map Prod.snd) :: second.map LevelView.logical := by
    rw [placed.views_eq, List.map_append, List.map_cons, LevelView.logical, placed.nodes_eq]
    simp
  rw [hviews, setQuantity_of_split]
  · simp [LevelView.logical]
  · intro level hlevel other hother
    rw [← List.map_append] at hlevel
    obtain ⟨view', hview', rfl⟩ := List.mem_map.mp hlevel
    exact rep.level_ids placed hview' hother
  · intro other hother
    rw [← List.map_append] at hother
    exact rep.queue_ids placed hother

end BookRep

/-! ### Cancelling -/

/-- A cancel of the book returns and does what the logical cancel does. -/
theorem cancel_refines (h : Represents book logical) (cancel : CancelOrder) :
    ∃ book', book.cancel cancel = some ((logical.cancel cancel).1, book') ∧
      Represents book' (logical.cancel cancel).2 ∧ book'.instrument = book.instrument := by
  obtain ⟨views, rep, rfl⟩ := h
  unfold OrderBook.cancel LogicalBook.cancel
  have hinstrument : (logicalOf book.instrument views).instrument = book.instrument := rfl
  rw [hinstrument]
  by_cases hother : cancel.instrumentId ≠ book.instrument
  · simp only [if_pos hother]
    exact ⟨book, rfl, ⟨views, rep, rfl⟩, rfl⟩
  · simp only [if_neg hother]
    rcases rep.lookup book.instrument cancel.orderId with
      ⟨side, first, view, second, before, slot, data, after, placed, hid, hlocate, _, hfind⟩ |
      ⟨_, hlocate, _, hfind⟩
    · simp only [hlocate, hfind]
      by_cases howner : data.account ≠ cancel.accountId
      · simp only [if_pos howner]
        exact ⟨book, rfl, ⟨views, rep, rfl⟩, rfl⟩
      · simp only [if_neg howner]
        obtain ⟨level, order, level', book', hlevel, hunlink, hview, hremove, hrep', hsame, _⟩ :=
          rep.remove_spec placed
        rw [hid] at hremove
        refine ⟨book', ?_, ⟨_, hrep', ?_⟩, hsame⟩
        · simp only [hlevel, hunlink, hremove, Option.bind_eq_bind, Option.bind_some]
          rw [← hview]
          rfl
        · rw [hsame, logicalOf_update, rep.logical_remove placed, hid]
          unfold LogicalBook.remove
          rw [levels_logicalOf]
    · simp only [hlocate, hfind]
      exact ⟨book, rfl, ⟨views, rep, rfl⟩, rfl⟩

/-! ### Amending -/

/-- Some order of the levels carries the id. -/
theorem holds_iff_mem : logical.Holds id ↔ ∃ side, ∃ level ∈ logical.levels side, ∃ order ∈ level.2,
    order.id = id := by
  have hside : ∀ levels : ModelLevels, (findOrder id levels).isSome ↔
      ∃ level ∈ levels, ∃ order ∈ level.2, order.id = id := by
    intro levels
    rw [Option.isSome_iff_ne_none, Ne, findOrder_eq_none_iff]
    push Not
    rfl
  unfold LogicalBook.Holds LogicalBook.find
  constructor
  · intro h
    cases hbids : findOrder id logical.bids with
    | some found => exact ⟨.buy, (hside logical.bids).mp (by simp [hbids])⟩
    | none =>
        rw [hbids] at h
        exact ⟨.sell, (hside logical.asks).mp (by simpa using h)⟩
  · rintro ⟨side, h⟩
    have hfound := (hside _).mpr h
    cases side with
    | buy =>
        obtain ⟨found, hfound⟩ := Option.isSome_iff_exists.mp hfound
        simp only [LogicalBook.levels] at hfound
        simp [hfound]
    | sell =>
        simp only [LogicalBook.levels] at hfound
        cases hbids : findOrder id logical.bids <;> simp [hfound]

/-- The logical book holds an id exactly when a node of some level carries
it. -/
theorem holds_iff_node : (logicalOf instrument views).Holds id ↔ ∃ side, ∃ view ∈ views side,
    ∃ node ∈ view.nodes, node.2.id = id := by
  rw [holds_iff_mem]
  simp only [levels_logicalOf, List.mem_map, LevelView.logical]
  constructor
  · rintro ⟨side, _, ⟨view, hview, rfl⟩, order, horder, hid⟩
    obtain ⟨node, hnode, rfl⟩ := List.mem_map.mp horder
    exact ⟨side, view, hview, node, hnode, hid⟩
  · rintro ⟨side, view, hview, node, hnode, hid⟩
    exact ⟨side, _, ⟨view, hview, rfl⟩, node.2, List.mem_map_of_mem hnode, hid⟩

/-- The ids held before a removal are the removed one and those held after
it. -/
theorem Placed.holds_iff (placed : Placed views side first view second before slot data after) :
    (logicalOf instrument views).Holds id ↔ id = data.id ∨
      (logicalOf instrument (Function.update views side (requeue first view second (before ++ after)))).Holds
        id := by
  rw [holds_iff_node, holds_iff_node]
  constructor
  · rintro ⟨side', view', hview', node, hnode, hid⟩
    by_cases hside : side' = side
    · subst hside
      rw [placed.views_eq, List.mem_append, List.mem_cons] at hview'
      by_cases hself : view' = view
      · subst hself
        rw [placed.nodes_eq, List.mem_append, List.mem_cons] at hnode
        by_cases hdata : node = (slot, data)
        · left
          rw [← hid, hdata]
        · right
          have hmem : node ∈ before ++ after := by
            rw [List.mem_append]
            tauto
          refine ⟨side', { view' with nodes := before ++ after }, ?_, node, hmem, hid⟩
          rw [Function.update_self, requeue, if_neg (by simp; rintro rfl rfl; simp at hmem)]
          simp
      · right
        refine ⟨side', view', ?_, node, hnode, hid⟩
        rw [Function.update_self, requeue]
        split <;> simp only [List.mem_append, List.mem_cons] <;> tauto
    · right
      exact ⟨side', view', by rwa [Function.update_of_ne hside], node, hnode, hid⟩
  · rintro (rfl | ⟨side', view', hview', node, hnode, hid⟩)
    · exact ⟨side, view, placed.mem_views, (slot, data), placed.mem_nodes, rfl⟩
    · by_cases hside : side' = side
      · subst hside
        rw [Function.update_self, requeue] at hview'
        have hold : view' ∈ first ++ second ∨ view' = { view with nodes := before ++ after } := by
          split at hview'
          · exact .inl hview'
          · simp only [List.mem_append, List.mem_cons] at hview' ⊢
            tauto
        rcases hold with hmem | rfl
        · refine ⟨side', view', ?_, node, hnode, hid⟩
          rw [placed.views_eq]
          simp only [List.mem_append, List.mem_cons] at hmem ⊢
          tauto
        · refine ⟨side', view, placed.mem_views, node, ?_, hid⟩
          rw [placed.nodes_eq]
          simp only [List.mem_append, List.mem_cons] at hnode ⊢
          tauto
      · rw [Function.update_of_ne hside] at hview'
        exact ⟨side', view', hview', node, hnode, hid⟩

namespace BookRep

variable (rep : BookRep book views)
include rep

/-- The ids a book stores can be indexed. -/
theorem fitsIndex (instrument : InstrumentId) : FitsIndex L O (logicalOf instrument views).Holds := by
  refine ⟨book.index, rep.tracked.probed, rep.tracked.small, fun key => ?_⟩
  rw [rep.holds_iff instrument]
  constructor
  · rintro ⟨i, v, hcell⟩
    obtain ⟨w, cell, _, _, hw⟩ := (rep.tracked.graph i key v).mp hcell
    exact ⟨w, cell, hw⟩
  · rintro ⟨w, cell, hw⟩
    exact ⟨cell, _, rep.tracked.cell_of_handle hw⟩

/-- No queue is longer than the order arena of its level. -/
theorem queue_length_le {view : LevelView} (hview : view ∈ views side) : view.nodes.length ≤ O := by
  obtain ⟨level, free, _, _, hrep⟩ := (rep.side side).stored view hview
  have := hrep.length_add
  omega

/-- The level of a price, in storage and logically. -/
theorem find_level (side : Side) (price : PriceTicks) :
    (∃ view ∈ views side, view.price = price ∧
      (book.sideIndex side).find price side.descending = some view.slot ∧
      ((views side).map LevelView.logical).find? (fun level => decide (level.1 = price)) = some view.logical ∧
      ∃ level free, book.getLevel side view.slot = some level ∧ level.price = price ∧
        LevelRep level view.nodes free) ∨
    ((book.sideIndex side).find price side.descending = none ∧
      ((views side).map LevelView.logical).find? (fun level => decide (level.1 = price)) = none) := by
  have hside := rep.side side
  rcases split_at LevelView.price side.descending price hside.sorted with
    ⟨first, view, second, hviews, rfl, hfirst⟩ | ⟨first, second, hviews, hfirst, hsecond⟩
  · left
    rw [hviews] at hside
    refine ⟨view, by simp [hviews], rfl, hside.find_of_occupied, ?_, hside.stored view (by simp)⟩
    rw [hviews, List.map_append, List.map_cons, LevelView.logical,
      find?_of_occupied (logical_precedes hfirst)]
  · right
    rw [hviews] at hside
    refine ⟨hside.find_of_vacant hfirst hsecond, ?_⟩
    rw [hviews, List.map_append]
    exact find?_of_vacant (logical_precedes hfirst) (logical_follows hsecond)

/-- The best price crosses in storage exactly when it does logically. -/
theorem bestCrosses_eq (instrument : InstrumentId) (side : Side) (limit : PriceTicks) :
    book.bestCrosses side limit = (logicalOf instrument views).bestCrosses side limit := by
  unfold OrderBook.bestCrosses LogicalBook.bestCrosses
  rw [(rep.side side.opposite).entries, levels_logicalOf]
  cases views side.opposite <;> simp [LevelView.logical]

end BookRep

/-- Requeueing a level does not change what is found at another price. -/
theorem find?_requeue_of_ne {price : PriceTicks} {nodes : List (Nat × ModelOrder)} (h : price ≠ view.price) :
    ((requeue first view second nodes).map LevelView.logical).find? (fun level => decide (level.1 = price))
      = ((first ++ view :: second).map LevelView.logical).find? (fun level => decide (level.1 = price)) := by
  unfold requeue
  split <;> simp [List.find?_append, LevelView.logical, Ne.symm h]

namespace BookRep

variable (rep : BookRep book views)
include rep

/-- The levels of a side have different prices. -/
theorem price_ne (hviews : views side = first ++ view :: second) {other : LevelView}
    (hother : other ∈ first ++ second) : other.price ≠ view.price := by
  have hsorted := (rep.side side).sorted
  rw [hviews, List.pairwise_append, List.pairwise_cons] at hsorted
  rcases List.mem_append.mp hother with hmem | hmem
  · exact ne_of_precedes (hsorted.2.2 other hmem view (by simp))
  · exact (ne_of_precedes (hsorted.2.1.1 other hmem)).symm

/-- No side has more levels than the level arena. -/
theorem length_le (side : Side) : (views side).length ≤ L := by
  have := (rep.side side).length_add
  omega

/-- The side index and the logical search agree about an occupied price. -/
theorem find_own (hviews : views side = first ++ view :: second) :
    (book.sideIndex side).find view.price side.descending = some view.slot ∧
      ((views side).map LevelView.logical).find? (fun level => decide (level.1 = view.price))
        = some view.logical := by
  have hside := rep.side side
  have hsorted := hside.sorted
  rw [hviews] at hside
  rw [hviews, List.pairwise_append] at hsorted
  refine ⟨hside.find_of_occupied, ?_⟩
  rw [hviews, List.map_append, List.map_cons, LevelView.logical]
  exact find?_of_occupied (logical_precedes fun other hother => hsorted.2.2 other hother view (by simp))

/-- The checks of an amend in storage are the logical ones. -/
theorem replaceChecks_eq (instrument : InstrumentId)
    (placed : Placed views side first view second before slot data after)
    (replace : ReplaceOrder) :
    book.replaceChecks replace ⟨side, view.slot, slot⟩ view.price
      = some ((logicalOf instrument views).replaceChecks L O replace side view.price) := by
  obtain ⟨hown, hownLogical⟩ := rep.find_own placed.views_eq
  unfold OrderBook.replaceChecks LogicalBook.replaceChecks
  rw [← rep.bestCrosses_eq instrument]
  by_cases hcross : replace.price ≠ view.price ∧ book.bestCrosses side replace.price
  · simp only [if_pos hcross]
  · simp only [if_neg hcross]
    unfold OrderBook.replaceCapacity
    rw [levels_logicalOf]
    rcases rep.find_level side replace.price with
      ⟨found, hfound, hprice, hfind, hlogical, level, free, hlevel, _, hrep⟩ | ⟨hfind, hlogical⟩
    · -- the destination exists; at an unchanged price it is the order's own level
      have hsame : replace.price = view.price → found.slot = view.slot := by
        intro heq
        rw [heq, hown] at hfind
        exact (Option.some.inj hfind).symm
      simp only [hfind, hlogical, hlevel, Option.bind_eq_bind, Option.bind_some, LevelView.logical, hrep.len,
        List.length_map]
      by_cases hfull : found.nodes.length = O
      · by_cases heq : replace.price = view.price
        · simp [hfull, heq, hsame heq]
        · simp [hfull, heq]
      · simp [hfull]
    · obtain ⟨source, free, hsource, _, hrep⟩ := (rep.side side).stored view placed.mem_views
      have hlength := rep.length_le side
      simp only [hfind, hlogical, hsource, Option.bind_eq_bind, Option.bind_some, hownLogical,
        (rep.side side).entries, List.length_map, hrep.len, LevelView.logical, Option.any_some,
        guardedSub_of_le hlength]
      by_cases hfull : (views side).length = L
      · by_cases halone : view.nodes.length = 1
        · simp [hfull, halone]
        · simp [hfull, halone]
      · rw [if_neg (by omega), if_neg (by simp [hfull])]
        rfl

/-- An amend that passed its checks finds room once the order has been taken
out. -/
theorem room_of_replaceChecks (placed : Placed views side first view second before slot data after)
    {replace : ReplaceOrder}
    (hchecks : (logicalOf instrument views).replaceChecks L O replace side view.price = .ok ()) :
    RoomAt L O ((requeue first view second (before ++ after)).map LevelView.logical) replace.price := by
  have hlength := rep.length_le side
  have hnodes := rep.queue_length_le placed.mem_views
  rw [placed.nodes_eq] at hnodes
  rw [placed.views_eq] at hlength
  simp only [List.length_append, List.length_cons] at hlength hnodes
  unfold RoomAt
  by_cases hprice : replace.price = view.price
  · -- back to its own price: one order fewer there, or one level fewer
    rw [hprice]
    by_cases hempty : before ++ after = []
    · have hnone : ((first ++ second).map LevelView.logical).find?
          (fun level => decide (level.1 = view.price)) = none := by
        rw [List.find?_eq_none]
        intro level hlevel
        obtain ⟨other, hother, rfl⟩ := List.mem_map.mp hlevel
        simp [LevelView.logical, rep.price_ne placed.views_eq hother]
      rw [requeue, if_pos (by simp [hempty]), hnone]
      simp
      omega
    · have hsorted := (rep.side side).sorted
      rw [placed.views_eq, List.pairwise_append] at hsorted
      have hsome : ((first ++ { view with nodes := before ++ after } :: second).map LevelView.logical).find?
          (fun level => decide (level.1 = view.price)) = some (view.price, (before ++ after).map Prod.snd) := by
        rw [List.map_append, List.map_cons, LevelView.logical]
        exact find?_of_occupied
          (logical_precedes fun other hother => hsorted.2.2 other hother view (by simp))
      rw [requeue, if_neg (by simpa using hempty), hsome]
      simp
      omega
  · rw [find?_requeue_of_ne hprice, ← placed.views_eq]
    unfold LogicalBook.replaceChecks at hchecks
    obtain ⟨_, hownLogical⟩ := rep.find_own placed.views_eq
    split at hchecks
    · cases hchecks
    · rcases rep.find_level side replace.price with
        ⟨found, hfound, _, _, hlogical, _⟩ | ⟨_, hlogical⟩
      · rw [levels_logicalOf, hlogical] at hchecks
        have hle := rep.queue_length_le hfound
        rw [hlogical]
        simp only [LevelView.logical, List.length_map, ne_eq, hprice, not_false_eq_true, and_true] at hchecks ⊢
        split at hchecks
        · cases hchecks
        · omega
      · rw [levels_logicalOf, hlogical, hownLogical] at hchecks
        rw [hlogical]
        simp only [LevelView.logical, List.length_map, Option.any_some, placed.nodes_eq, placed.views_eq,
          List.length_append, List.length_cons, decide_eq_true_eq] at hchecks ⊢
        split at hchecks
        · cases hchecks
        · rename_i hroom
          unfold requeue
          split
          · simp
            omega
          · rename_i hempty
            have hpos : 0 < (before ++ after).length := by
              rw [List.length_pos_iff]
              simpa using hempty
            simp at hpos hroom ⊢
            omega

end BookRep

/-- An amend of the book returns and does what the logical amend does, in place
or at the end of its new level. -/
theorem replace_refines (h : Represents book logical) (replace : ReplaceOrder) :
    ∃ book', book.replace replace = some ((logical.replace L O replace).1, book') ∧
      Represents book' (logical.replace L O replace).2 ∧ book'.instrument = book.instrument := by
  obtain ⟨views, rep, rfl⟩ := h
  have hstay : Represents book (logicalOf book.instrument views) := ⟨views, rep, rfl⟩
  have hinstrument : (logicalOf book.instrument views).instrument = book.instrument := rfl
  unfold OrderBook.replace LogicalBook.replace
  rw [hinstrument]
  by_cases hother : replace.instrumentId ≠ book.instrument
  · simp only [if_pos hother]
    exact ⟨book, rfl, hstay, rfl⟩
  simp only [if_neg hother]
  rcases rep.lookup book.instrument replace.orderId with
    ⟨side, first, view, second, before, slot, data, after, placed, hid, hlocate, _, hfind⟩ |
    ⟨_, hlocate, _, hfind⟩
  swap
  · simp only [hlocate, hfind]
    exact ⟨book, rfl, hstay, rfl⟩
  simp only [hlocate, hfind]
  by_cases howner : data.account ≠ replace.accountId
  · simp only [if_pos howner]
    exact ⟨book, rfl, hstay, rfl⟩
  by_cases hprice : replace.price.val ≤ 0
  · simp only [if_neg howner, if_pos hprice]
    exact ⟨book, rfl, hstay, rfl⟩
  by_cases hquantity : replace.quantity.val = 0
  · simp only [if_neg howner, if_neg hprice, if_pos hquantity]
    exact ⟨book, rfl, hstay, rfl⟩
  simp only [if_neg howner, if_neg hprice, if_neg hquantity]
  obtain ⟨level, old, hlevel, hlevelPrice, hlive, hview, _⟩ := rep.stored_of_placed placed
  have holdQuantity : old.quantity = data.quantity := by
    rw [← hview]
    rfl
  simp only [hlevel, hlive, Option.bind_eq_bind, Option.bind_some, hlevelPrice, holdQuantity]
  by_cases hkeep : replace.price = view.price ∧ replace.quantity.val < data.quantity.val
  · -- in-place reduction
    simp only [if_pos hkeep]
    obtain ⟨level₂, order₂, level', hlevel₂, _, _, _, hreduce, hrep'⟩ :=
      rep.reduce_spec placed (satSub data.quantity replace.quantity) (by simp)
    rw [hlevel] at hlevel₂
    cases hlevel₂
    have hleft : satSub data.quantity (satSub data.quantity replace.quantity) = replace.quantity := by
      apply Fin.ext
      simp
      omega
    rw [hleft] at hrep'
    refine ⟨book.setLevel side view.slot (some level'), by simp [hreduce], ⟨_, hrep', ?_⟩, by simp⟩
    rw [logicalOf_update, rep.logical_setQuantity placed, hid, levels_logicalOf, OrderBook.instrument_setLevel]
  · simp only [if_neg hkeep]
    have hchecks := rep.replaceChecks_eq book.instrument placed replace
    cases hresult : (logicalOf book.instrument views).replaceChecks L O replace side view.price with
    | error reason =>
        rw [hresult] at hchecks
        simp only [hchecks, Option.bind_some]
        exact ⟨book, rfl, hstay, rfl⟩
    | ok _ =>
        rw [hresult] at hchecks
        have hroom := rep.room_of_replaceChecks placed hresult
        obtain ⟨level₂, order₂, level', book₁, hlevel₂, hunlink, _, hremove, hrep₁, hinst₁, habsent⟩ :=
          rep.remove_spec placed
        rw [hlevel] at hlevel₂
        cases hlevel₂
        have hroom₁ : RoomAt L O ((Function.update views side
            (requeue first view second (before ++ after)) side).map LevelView.logical) replace.price := by
          rwa [Function.update_self]
        rw [hid] at hremove habsent
        rcases hrep₁.restAtTail_spec book.instrument
          { id := replace.orderId
            accountId := replace.accountId
            indexSlot := 0
            quantity := replace.quantity
            sequence := replace.sequence
            prev := none
            next := none } habsent hroom₁ with
          ⟨book₂, views₂, hrest, hrep₂, hinst₂, hlogical, _⟩ | ⟨_, hfits⟩
        · refine ⟨book₂, ?_, ⟨views₂, hrep₂, ?_⟩, hinst₂.trans hinst₁⟩
          · simp only [hchecks, OrderBook.moveOrder, hlevel, hunlink, hremove, hrest, Option.bind_eq_bind,
              Option.bind_some]
            rfl
          · rw [hinst₂, hinst₁, hlogical, logicalOf_update, rep.logical_remove placed, hid]
            unfold LogicalBook.remove
            rw [levels_logicalOf]
            rfl
        · -- the ids are those the book held before, so they still fit
          exfalso
          refine hfits ?_
          have hsame := rep.fitsIndex book.instrument
          have hids : (logicalOf book.instrument views).Holds = fun id => id = replace.orderId ∨
              (logicalOf book.instrument (Function.update views side
                (requeue first view second (before ++ after)))).Holds id := by
            funext key
            rw [placed.holds_iff, hid]
          rwa [hids] at hsame

end HftEngine
