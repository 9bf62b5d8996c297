/-
Module: HftEngine.Proofs.BookRestore
Layer: Proofs
Purpose: Export and restore of the book. The exported state is a function of
  the logical book alone; validation is read back as plain conditions on the
  state; and restoring a validated state rebuilds its levels one order at a
  time, failing only when its ids cannot be indexed.
Imports: HftEngine.Proofs.LogicalOrders, HftEngine.Core.BookState
Trusted boundary: none (fully proved)
Main exports: LogicalBook.state, BookState.content, exportState_eq, StateValid,
  validateState_ok_iff, represents_of_fromState, fromState_of_valid
-/
import HftEngine.Proofs.LogicalOrders
import HftEngine.Core.BookState

namespace HftEngine

open Machine KeyedList OpenAddressing

variable {L O : Nat} {book : OrderBook L O} {side : Side} {logical : LogicalBook} {price : PriceTicks}

/-! ### Canonical padding -/

section Padding

variable {α : Type} {n : Nat} {padding : α} {items : List α}

/-- A padded array is its items and then the padding. -/
theorem toList_padTo (h : items.length ≤ n) :
    (padTo n padding items).toList = items ++ List.replicate (n - items.length) padding := by
  refine List.ext_getElem? fun i => ?_
  unfold padTo
  by_cases hi : i < n
  · by_cases hitem : i < items.length
    · simp [hi, hitem, List.getElem?_append_left hitem]
    · have hrest : i - items.length < n - items.length := by omega
      simp [hi, List.getElem?_append_right (by omega : items.length ≤ i), hrest,
        List.getElem?_eq_none (by omega : items.length ≤ i)]
  · have hrest : ¬i - items.length < n - items.length := by omega
    simp [hi, List.getElem?_append_right (by omega : items.length ≤ i), hrest]

/-- The part in use of a padded array is what was written into it. -/
theorem activePart_padTo (padding : α) (h : items.length ≤ n) :
    activePart (padTo n padding items) items.length = items := by
  rw [activePart, toList_padTo h, List.take_left]

/-- The rest of a padded array is padding throughout. -/
theorem paddingPart_padTo (h : items.length ≤ n) :
    paddingPart (padTo n padding items) items.length = List.replicate (n - items.length) padding := by
  rw [paddingPart, toList_padTo h, List.drop_left]

/-- What stands behind the count of a padded array is the padding value. -/
theorem eq_padding_of_padTo {count : Nat} (hcount : items.length = count) (h : count ≤ n) {item : α}
    (hitem : item ∈ paddingPart (padTo n padding items) count) : item = padding := by
  subst hcount
  rw [paddingPart_padTo h] at hitem
  exact List.eq_of_mem_replicate hitem

theorem length_activePart (array : Vector α n) {count : Nat} (h : count ≤ n) :
    (activePart array count).length = count := by
  simp [activePart, h]

/-- An array that is padded behind its entries in use is those entries,
padded. -/
theorem padTo_activePart {array : Vector α n} {count : Nat}
    (h : ∀ item ∈ paddingPart array count, item = padding) : padTo n padding (activePart array count) = array := by
  apply Vector.ext
  intro i hi
  have hlength : array.toList.length = n := by simp
  simp only [padTo, activePart, Vector.getElem_ofFn, List.getD_eq_getElem?_getD, List.getElem?_take]
  by_cases hused : i < count
  · simp [hused, hi]
  · rw [if_neg hused]
    have hmem : array[i] ∈ paddingPart array count := by
      rw [paddingPart, List.mem_drop_iff_getElem]
      exact ⟨i - count, by omega, by simp [show count + (i - count) = i by omega]⟩
    simpa using (h _ hmem).symm

end Padding

/-! ### The state of a logical book -/

/-- A resting order of the logical book as the export writes it. -/
def orderState (side : Side) (price : PriceTicks) (order : ModelOrder) : BookOrderState :=
  ⟨order.id, order.account, side, price, order.quantity, order.sequence⟩

/-- A level of the logical book as the export writes it. -/
def levelState (O : Nat) (side : Side) (level : PriceTicks × List ModelOrder) : BookLevelState O :=
  ⟨side, level.1, level.2.length, padTo O emptyBookOrderState (level.2.map (orderState side level.1))⟩

/-- The canonical state of a logical book, for the capacities of a real one. -/
def LogicalBook.state (L O : Nat) (logical : LogicalBook) : BookState L O where
  instrument := logical.instrument
  bidLevelCount := logical.bids.length
  bids := padTo L (emptyBookLevelState O) (logical.bids.map (levelState O .buy))
  askLevelCount := logical.asks.length
  asks := padTo L (emptyBookLevelState O) (logical.asks.map (levelState O .sell))

/-- A stored order as an order of the logical book; side and price are those of
its level. -/
def BookOrderState.view (order : BookOrderState) : ModelOrder :=
  ⟨order.orderId, order.accountId, order.quantity, order.sequence⟩

/-- A stored level as a level of the logical book. -/
def BookLevelState.view (level : BookLevelState O) : PriceTicks × List ModelOrder :=
  (level.price, level.active.map BookOrderState.view)

/-- The logical book a state describes. -/
def BookState.content (state : BookState L O) : LogicalBook :=
  ⟨state.instrument, state.activeBids.map BookLevelState.view, state.activeAsks.map BookLevelState.view⟩

/-- The book is within the capacities of a real one. -/
structure LogicalBook.Bounded (L O : Nat) (logical : LogicalBook) : Prop where
  levels : ∀ side, (logical.levels side).length ≤ L
  queues : ∀ side, ∀ level ∈ logical.levels side, level.2.length ≤ O

/-- A represented book fits the capacities. -/
theorem Represents.bounded (h : Represents book logical) : logical.Bounded L O := by
  obtain ⟨views, rep, rfl⟩ := h
  constructor
  · intro side
    rw [levels_logicalOf, List.length_map]
    exact rep.length_le side
  · intro side level hlevel
    rw [levels_logicalOf] at hlevel
    obtain ⟨view, hview, rfl⟩ := List.mem_map.mp hlevel
    simpa [LevelView.logical] using rep.queue_length_le hview

/-- What a book exports depends on its logical content only. -/
theorem exportState_eq (h : Represents book logical) : book.exportState = logical.state L O := by
  obtain ⟨views, rep, rfl⟩ := h
  have hside : ∀ side, book.exportSide side
      = ((logicalOf book.instrument views).levels side).map (levelState O side) := by
    intro side
    unfold OrderBook.exportSide
    rw [(rep.side side).entries, levels_logicalOf, List.filterMap_map, List.map_map]
    refine (List.filterMap_congr (g := some ∘ (levelState O side ∘ LevelView.logical)) ?_).trans
      (by rw [List.filterMap_eq_map])
    intro view hview
    obtain ⟨level, free, hlevel, hprice, hrep⟩ := (rep.side side).stored view hview
    have horders : level.liveOrders.map (OrderBook.exportOrder side view.price)
        = (view.nodes.map Prod.snd).map (orderState side view.price) := by
      rw [← hrep.liveOrders_eq, List.map_map]
      rfl
    simp [hlevel, OrderBook.exportLevel, horders, levelState, LevelView.logical]
  unfold OrderBook.exportState LogicalBook.state
  rw [hside .buy, hside .sell]
  simp [logicalOf, LogicalBook.levels]

/-- The orders in use of an exported level. -/
theorem active_levelState {level : PriceTicks × List ModelOrder} (h : level.2.length ≤ O) :
    (levelState O side level).active = level.2.map (orderState side level.1) := by
  have hlength : (level.2.map (orderState side level.1)).length ≤ O := by simpa using h
  have hactive := activePart_padTo emptyBookOrderState hlength
  rwa [List.length_map] at hactive

/-- Reading back an exported level gives the level. -/
theorem view_levelState {level : PriceTicks × List ModelOrder} (h : level.2.length ≤ O) :
    (levelState O side level).view = level := by
  rw [BookLevelState.view, active_levelState h, List.map_map]
  have hview : BookOrderState.view ∘ orderState side level.1 = id := rfl
  rw [hview, List.map_id]
  rfl

/-- The active levels of one side of a state. -/
def BookState.activeSide (state : BookState L O) : Side → List (BookLevelState O)
  | .buy => state.activeBids
  | .sell => state.activeAsks

/-- The logical content of a state, side by side. -/
theorem levels_content {state : BookState L O} :
    state.content.levels side = (state.activeSide side).map BookLevelState.view := by
  cases side <;> rfl

/-- The levels in use of an exported side. -/
theorem activeSide_state (h : logical.Bounded L O) :
    (logical.state L O).activeSide side = (logical.levels side).map (levelState O side) := by
  have hbound : ((logical.levels side).map (levelState O side)).length ≤ L := by
    simpa using h.levels side
  have hactive := activePart_padTo (emptyBookLevelState O) hbound
  rw [List.length_map] at hactive
  cases side <;> exact hactive

/-- A logical book is read back from its state. -/
theorem content_state (h : logical.Bounded L O) : (logical.state L O).content = logical := by
  have hside : ∀ side, (logical.state L O).content.levels side = logical.levels side := by
    intro side
    rw [levels_content, activeSide_state h, List.map_map]
    conv_rhs => rw [← List.map_id (logical.levels side)]
    exact List.map_congr_left fun level hlevel => view_levelState (h.queues side level hlevel)
  exact LogicalBook.ext rfl (hside .buy) (hside .sell)

/-! ### Validation -/

/-- The validator compares neighbouring prices with code of its own, which
decides priority as the level index does. -/
theorem levelOrdered_eq {prior : PriceTicks} :
    OrderBook.levelOrdered side prior price = LevelIndex.precedes side.descending price prior := by
  cases side <;> simp [OrderBook.levelOrdered, LevelIndex.precedes, Side.descending]

/-- The loop over the orders of a level accepts exactly the levels whose orders
all agree with it. -/
theorem validateOrders_ok_iff {orders : List BookOrderState} :
    OrderBook.validateOrders side price orders = .ok () ↔ ∀ order ∈ orders,
      order.side = side ∧ order.price = price ∧ order.quantity.val ≠ 0 ∧ order.sequence.val ≠ 0 := by
  induction orders with
  | nil => simp [OrderBook.validateOrders]
  | cons order rest ih =>
      unfold OrderBook.validateOrders
      rw [List.forall_mem_cons, ← ih]
      split
      · rename_i h
        simp [h]
      · split
        · rename_i h
          simp [h]
        · split
          · rename_i h
            simp [h]
          · split
            · rename_i h
              simp [h]
            · simp_all

/-- A level of a state that passes every check of its own. -/
structure LevelValid (side : Side) (level : BookLevelState O) : Prop where
  side_eq : level.side = side
  price_pos : 0 < level.price.val
  count_ne : level.orderCount ≠ 0
  count_le : level.orderCount ≤ O
  orders : ∀ order ∈ level.active,
    order.side = side ∧ order.price = level.price ∧ order.quantity.val ≠ 0 ∧ order.sequence.val ≠ 0
  sequences : level.active.IsChain fun first second => first.sequence.val < second.sequence.val
  padding : ∀ order ∈ paddingPart level.orders level.orderCount, order = emptyBookOrderState

/-- The checks of one level. The place after the previous level is the only one
that is not about the level itself. -/
theorem validateLevel_ok_iff {prior : Option PriceTicks} {level : BookLevelState O} :
    OrderBook.validateLevel side prior level = .ok () ↔ LevelValid side level ∧
      ∀ before ∈ prior, LevelIndex.precedes side.descending level.price before = true := by
  unfold OrderBook.validateLevel
  have hprior : (prior.any fun before => !OrderBook.levelOrdered side before level.price) = true ↔
      ¬∀ before ∈ prior, LevelIndex.precedes side.descending level.price before = true := by
    cases prior <;> simp [levelOrdered_eq]
  constructor
  · intro h
    split at h
    · cases h
    · rename_i hside
      split at h
      · cases h
      · rename_i hprice
        split at h
        · cases h
        · rename_i hcount
          split at h
          · cases h
          · rename_i horder
            obtain ⟨_, horders, hrest⟩ := bind_eq_ok.mp h
            split at hrest
            · cases hrest
            · rename_i hchain
              split at hrest
              · cases hrest
              · rename_i hpadding
                rw [hprior, not_not] at horder
                refine ⟨⟨by simpa using hside, by omega, by omega, by omega, validateOrders_ok_iff.mp horders,
                  by simpa using hchain, by simpa using hpadding⟩, horder⟩
  · rintro ⟨valid, hbefore⟩
    have hside := valid.side_eq
    have hprice := valid.price_pos
    have hcount := valid.count_ne
    have hcount' := valid.count_le
    rw [if_neg (by simpa using hside), if_neg (by omega), if_neg (by omega),
      if_neg (by rw [hprior, not_not]; exact hbefore), bind_eq_ok]
    refine ⟨(), validateOrders_ok_iff.mpr valid.orders, ?_⟩
    rw [if_neg (by simpa using valid.sequences), if_neg (by simpa using valid.padding)]

/-- The loop over a side accepts exactly the sides of valid levels in strict
priority order. -/
theorem validateSide_ok_iff {prior : Option PriceTicks} {levels : List (BookLevelState O)} :
    OrderBook.validateSide side prior levels = .ok () ↔ (∀ level ∈ levels, LevelValid side level) ∧
      (prior.toList ++ levels.map BookLevelState.price).IsChain fun first second =>
        LevelIndex.precedes side.descending second first = true := by
  induction levels generalizing prior with
  | nil => cases prior <;> simp [OrderBook.validateSide]
  | cons level rest ih =>
      unfold OrderBook.validateSide
      rw [bind_eq_ok]
      constructor
      · rintro ⟨_, hlevel, hrest⟩
        obtain ⟨valid, hbefore⟩ := validateLevel_ok_iff.mp hlevel
        obtain ⟨hvalid, hchain⟩ := ih.mp hrest
        refine ⟨List.forall_mem_cons.mpr ⟨valid, hvalid⟩, ?_⟩
        cases prior with
        | none => simpa using hchain
        | some before => simpa using ⟨by simpa using hbefore, by simpa using hchain⟩
      · rintro ⟨hvalid, hchain⟩
        obtain ⟨valid, hvalid⟩ := List.forall_mem_cons.mp hvalid
        cases prior with
        | none => exact ⟨(), validateLevel_ok_iff.mpr ⟨valid, by simp⟩, ih.mpr ⟨hvalid, by simpa using hchain⟩⟩
        | some before =>
            simp only [Option.toList_some, List.map_cons, List.cons_append, List.nil_append,
              List.isChain_cons_cons] at hchain
            exact ⟨(), validateLevel_ok_iff.mpr ⟨valid, by simpa using hchain.1⟩,
              ih.mpr ⟨hvalid, by simpa using hchain.2⟩⟩

/-- Counting each id and each sequence number to one is the same as having no
duplicates. -/
theorem validateUniqueIds_ok_iff {state : BookState L O} :
    OrderBook.validateUniqueIds state state.orders = .ok () ↔
      (state.orders.map BookOrderState.orderId).Nodup ∧ (state.orders.map BookOrderState.sequence).Nodup := by
  have honce : ∀ {κ : Type} [DecidableEq κ] (key : BookOrderState → κ), (state.orders.map key).Nodup ↔
      ∀ order ∈ state.orders, (state.orders.filter fun other => decide (key other = key order)).length = 1 := by
    intro κ _ key
    rw [List.nodup_iff_count_eq_one]
    simp only [List.forall_mem_map, List.count, List.countP_map, ← List.countP_eq_length_filter]
    rfl
  have hloop : ∀ orders : List BookOrderState, OrderBook.validateUniqueIds state orders = .ok () ↔
      ∀ order ∈ orders, (state.orders.filter (·.orderId = order.orderId)).length = 1 ∧
        (state.orders.filter (·.sequence = order.sequence)).length = 1 := by
    intro orders
    induction orders with
    | nil => simp [OrderBook.validateUniqueIds]
    | cons order rest ih =>
        unfold OrderBook.validateUniqueIds
        rw [List.forall_mem_cons, ← ih]
        split
        · rename_i h
          simp [h]
        · split
          · rename_i h
            simp [h]
          · simp_all
  rw [hloop, honce, honce]
  exact ⟨fun h => ⟨fun order horder => (h order horder).1, fun order horder => (h order horder).2⟩,
    fun h order horder => ⟨h.1 order horder, h.2 order horder⟩⟩

/-- A state that passes validation. -/
structure StateValid (state : BookState L O) : Prop where
  bidCount : state.bidLevelCount ≤ L
  askCount : state.askLevelCount ≤ L
  levels : ∀ side, ∀ level ∈ state.activeSide side, LevelValid side level
  sorted : ∀ side, SortedLevels side.descending ((state.activeSide side).map BookLevelState.view)
  bidPadding : ∀ level ∈ paddingPart state.bids state.bidLevelCount, level = emptyBookLevelState O
  askPadding : ∀ level ∈ paddingPart state.asks state.askLevelCount, level = emptyBookLevelState O
  uncrossed : OrderBook.crossedState state = false
  ids : (state.orders.map BookOrderState.orderId).Nodup
  sequences : (state.orders.map BookOrderState.sequence).Nodup

/-- Neighbours in priority order make the whole side sorted. -/
theorem isChain_prices_iff {levels : List (BookLevelState O)} {descending : Bool} :
    (levels.map BookLevelState.price).IsChain
        (fun first second => LevelIndex.precedes descending second first = true) ↔
      SortedLevels descending (levels.map BookLevelState.view) := by
  have htrans : IsTrans PriceTicks fun first second => LevelIndex.precedes descending second first = true :=
    ⟨fun _ _ _ h h' => precedes_trans h h'⟩
  rw [List.isChain_iff_pairwise, SortedLevels, List.pairwise_map, List.pairwise_map]
  rfl

/-- The validator accepts exactly the valid states. -/
theorem validateState_ok_iff {state : BookState L O} :
    OrderBook.validateState state = .ok () ↔ StateValid state := by
  unfold OrderBook.validateState
  constructor
  · intro h
    split at h
    · cases h
    · rename_i hcounts
      obtain ⟨_, hbids, h⟩ := bind_eq_ok.mp h
      obtain ⟨_, hasks, h⟩ := bind_eq_ok.mp h
      obtain ⟨hbidLevels, hbidChain⟩ := validateSide_ok_iff.mp hbids
      obtain ⟨haskLevels, haskChain⟩ := validateSide_ok_iff.mp hasks
      split at h
      · cases h
      · rename_i hpadding
        split at h
        · cases h
        · rename_i hcrossed
          obtain ⟨hids, hsequences⟩ := validateUniqueIds_ok_iff.mp h
          have hpads : (∀ level ∈ paddingPart state.bids state.bidLevelCount, level = emptyBookLevelState O) ∧
              ∀ level ∈ paddingPart state.asks state.askLevelCount, level = emptyBookLevelState O := by
            simpa using hpadding
          refine ⟨by omega, by omega, ?_, ?_, hpads.1, hpads.2, by simpa using hcrossed, hids, hsequences⟩
          · intro side
            cases side
            · exact hbidLevels
            · exact haskLevels
          · intro side
            cases side
            · exact isChain_prices_iff.mp (by simpa [BookState.activeSide] using hbidChain)
            · exact isChain_prices_iff.mp (by simpa [BookState.activeSide] using haskChain)
  · intro valid
    have hbid := valid.bidCount
    have hask := valid.askCount
    rw [if_neg (by omega), bind_eq_ok]
    refine ⟨(), validateSide_ok_iff.mpr ⟨valid.levels .buy, ?_⟩, ?_⟩
    · simpa [BookState.activeSide] using isChain_prices_iff.mpr (valid.sorted .buy)
    rw [bind_eq_ok]
    refine ⟨(), validateSide_ok_iff.mpr ⟨valid.levels .sell, ?_⟩, ?_⟩
    · simpa [BookState.activeSide] using isChain_prices_iff.mpr (valid.sorted .sell)
    rw [if_neg (by simpa using ⟨valid.bidPadding, valid.askPadding⟩), if_neg (by simpa using valid.uncrossed)]
    exact validateUniqueIds_ok_iff.mpr ⟨valid.ids, valid.sequences⟩

/-! ### Rebuilding the levels -/

/-- The order record a restore appends. -/
def BookOrderState.resting (order : BookOrderState) : RestingOrder where
  id := order.orderId
  accountId := order.accountId
  indexSlot := 0
  quantity := order.quantity
  sequence := order.sequence
  prev := none
  next := none

/-- Appends several orders at one price. -/
def restAll (side : Side) (price : PriceTicks) : List BookOrderState → OrderBook L O → Option (OrderBook L O)
  | [], book => some book
  | order :: rest, book => (book.restAtTail side price order.resting).bind (restAll side price rest)

/-- Restoring one order, with the resting order that it builds named. -/
theorem restoreOrder_eq {opened : OrderBook L O} {levelIndex : Nat} {order : BookOrderState} :
    OrderBook.restoreOrder side levelIndex opened order
      = match (opened.getLevel side levelIndex).bind (·.pushTail order.resting) with
        | none => .error .orderCapacity
        | some (slot, level) =>
            match opened.index.insert order.resting.id ⟨side, levelIndex, slot⟩ with
            | .error _ => .error .duplicateOrderId
            | .ok (indexSlot, index) =>
                match level.getLive slot with
                | none => .error .orderCapacity
                | some _ =>
                    .ok { opened.setLevel side levelIndex (some (level.setIndexSlot slot indexSlot)) with
                      index := index } :=
  rfl

/-- Restoring an order into an opened level is resting it. -/
theorem restoreOrder_toOption {opened : OrderBook L O} {levelIndex : Nat} {order : BookOrderState}
    (hopen : book.openLevel side price = some (levelIndex, opened)) :
    (OrderBook.restoreOrder side levelIndex opened order).toOption
      = book.restAtTail side price order.resting := by
  rw [restoreOrder_eq]
  unfold OrderBook.restAtTail
  simp only [hopen, Option.bind_eq_bind, Option.bind_some]
  cases hlevel : opened.getLevel side levelIndex with
  | none => rfl
  | some level =>
      simp only [Option.bind_some]
      cases hpush : level.pushTail order.resting with
      | none => rfl
      | some pushed =>
          obtain ⟨slot, level'⟩ := pushed
          simp only [Option.bind_some]
          cases hinsert : opened.index.insert order.resting.id ⟨side, levelIndex, slot⟩ with
          | error e => rfl
          | ok inserted =>
              simp only [Except.toOption, Option.bind_some]
              cases level'.getLive slot <;> rfl

/-- Restoring an order leaves the level indices alone; its level is
already open. -/
theorem restoreOrder_sideIndex {book' : OrderBook L O} {levelIndex : Nat} {order : BookOrderState}
    (h : OrderBook.restoreOrder side levelIndex book order = .ok book') (other : Side) :
    book'.sideIndex other = book.sideIndex other := by
  unfold OrderBook.restoreOrder at h
  simp only at h
  split at h
  · cases h
  · split at h
    · cases h
    · split at h
      · cases h
      · cases h
        exact OrderBook.sideIndex_setLevel

/-- Restoring a level that was just opened is resting its first order and then
appending the others. -/
theorem restoreOrders_toOption {opened : OrderBook L O} {levelIndex : Nat} {orders : List BookOrderState}
    (hsome : orders ≠ []) (hopen : book.openLevel side price = some (levelIndex, opened))
    (hfound : (opened.sideIndex side).find price side.descending = some levelIndex) :
    (OrderBook.restoreOrders side levelIndex orders opened).toOption = restAll side price orders book := by
  induction orders generalizing book opened with
  | nil => exact absurd rfl hsome
  | cons order rest ih =>
      unfold OrderBook.restoreOrders restAll
      rw [← restoreOrder_toOption hopen]
      cases hrestore : OrderBook.restoreOrder side levelIndex opened order with
      | error e => rfl
      | ok next =>
          change (OrderBook.restoreOrders side levelIndex rest next).toOption = restAll side price rest next
          cases rest with
          | nil => rfl
          | cons second rest =>
              have hnext : (next.sideIndex side).find price side.descending = some levelIndex := by
                rw [restoreOrder_sideIndex hrestore, hfound]
              refine ih (by simp) ?_ hnext
              simp [OrderBook.openLevel, hnext]

/-- Restoring a level at a new price is resting its orders there. -/
theorem restoreLevel_toOption (h : Represents book logical) {level : BookLevelState O}
    (hsome : level.active ≠ [])
    (hvacant : (logical.levels level.side).find? (fun other => decide (other.1 = level.price)) = none)
    (hroom : (logical.levels level.side).length < L) :
    (book.restoreLevel level).toOption = restAll level.side level.price level.active book := by
  obtain ⟨views, rep, rfl⟩ := h
  rw [levels_logicalOf] at hvacant hroom
  have hfind : (book.sideIndex level.side).find level.price level.side.descending = none := by
    rcases rep.find_level level.side level.price with ⟨view, _, _, _, hsome, _⟩ | ⟨hnone, _⟩
    · rw [hvacant] at hsome
      cases hsome
    · exact hnone
  have hroomAt : RoomAt L O ((views level.side).map LevelView.logical) level.price := by
    unfold RoomAt
    rw [hvacant]
    exact hroom
  obtain ⟨first, view, second, opened, hopen, hopened, _⟩ := rep.sides.openLevel_spec hroomAt
  have hside := hopened.sides level.side
  rw [Function.update_self] at hside
  have hfound := hside.find_of_occupied
  rw [hopened.price_eq] at hfound
  rw [← restoreOrders_toOption hsome hopen hfound]
  unfold OrderBook.openLevel at hopen
  rw [hfind] at hopen
  unfold OrderBook.restoreLevel
  cases hinsert : (book.sideIndex level.side).insert level.price level.side.descending with
  | none => simp [hinsert] at hopen
  | some inserted =>
      obtain ⟨levelIndex, index⟩ := inserted
      simp only [hinsert, Option.bind_eq_bind, Option.bind_some, Option.pure_def, Option.some.injEq,
        Prod.mk.injEq] at hopen
      obtain ⟨rfl, rfl⟩ := hopen
      rfl

/-- Resting an order adds its id. -/
theorem holds_rest {id : OrderId} {order : ModelOrder} :
    (logical.rest side price order).Holds id ↔ id = order.id ∨ logical.Holds id := by
  have hholds : ∀ {book : LogicalBook}, book.Holds id ↔ ∃ entry ∈ book.orders, entry.2.2.id = id := by
    intro book
    rw [LogicalBook.Holds, Option.isSome_iff_ne_none, Ne, find_eq_none_iff]
    simp
  rw [hholds, hholds]
  constructor
  · rintro ⟨entry, hentry, hid⟩
    rcases List.mem_cons.mp ((orders_rest side price order).subset hentry) with rfl | hmem
    · exact .inl hid.symm
    · exact .inr ⟨entry, hmem, hid⟩
  · rintro (rfl | ⟨entry, hentry, hid⟩)
    · exact ⟨_, (orders_rest side price order).symm.subset List.mem_cons_self, rfl⟩
    · exact ⟨entry, (orders_rest side price order).symm.subset (List.mem_cons_of_mem _ hentry), hid⟩

/-- Resting a new order where there is room succeeds exactly when the enlarged
id set can be indexed. -/
theorem Represents.restAtTail_spec (h : Represents book logical) (resting : RestingOrder)
    (hnew : ¬logical.Holds resting.id) (hroom : RoomAt L O (logical.levels side) price) :
    (∃ book', book.restAtTail side price resting = some book' ∧
        Represents book' (logical.rest side price resting.view)) ∨
      (book.restAtTail side price resting = none ∧
        ¬FitsIndex L O fun id => id = resting.id ∨ logical.Holds id) := by
  obtain ⟨views, rep, rfl⟩ := h
  have habsent : ∀ location cell, book.handle location ≠ some (resting.id, cell) := by
    intro location cell hhandle
    exact hnew ((rep.holds_iff book.instrument).mpr ⟨location, cell, hhandle⟩)
  rw [levels_logicalOf] at hroom
  rcases rep.restAtTail_spec book.instrument resting habsent hroom with
    ⟨book', views', hrest, hrep, hinstr, hlogical, _⟩ | ⟨hrest, hfits⟩
  · exact .inl ⟨book', hrest, views', hrep, by rw [hinstr, hlogical]⟩
  · exact .inr ⟨hrest, hfits⟩

/-- Within the ids of a book and at most a side more, a subset of an indexable
set is indexable. -/
theorem Represents.fitsIndex_mono (h : Represents book logical) (hL : 0 < L) (hO : 0 < O)
    {ids ids' : OrderId → Prop} (hfits : FitsIndex L O ids) (hsub : ∀ other, ids' other → ids other)
    (extra : List OrderId) (hextra : extra.length ≤ L * O)
    (hids : ∀ other, ids' other → other ∈ extra ∨ logical.Holds other) : FitsIndex L O ids' := by
  classical
  obtain ⟨held, hheld, hcount⟩ := h.ids_bound
  have hslots : 0 < L * O := Nat.mul_pos hL hO
  have hcard := Finset.card_union_le extra.toFinset held
  have hmore := List.toFinset_card_le extra
  refine Fits.mono (fun key => probeStart_lt key) hfits hsub (extra.toFinset ∪ held) ?_ ?_
  · intro other hother
    rw [Finset.mem_union, List.mem_toFinset]
    exact (hids other hother).imp_right (hheld other)
  · rw [orderIndexPlanes]
    omega

/-- Appending orders at the end of a side, one after another: the first opens
the last level or finds it. -/
theorem restAll_spec (h : Represents book logical) {order : BookOrderState} {rest : List BookOrderState}
    {front : ModelLevels} {queue : List ModelOrder}
    (hadd : ∀ resting, addOrder side.descending price resting (logical.levels side)
      = front ++ [(price, queue ++ [resting])])
    (hfront : ∀ level ∈ front, LevelIndex.precedes side.descending price level.1 = true)
    (hat : RoomAt L O (logical.levels side) price) (hL : 0 < L)
    (hroom : queue.length + (order :: rest).length ≤ O)
    (hnodup : ((order :: rest).map BookOrderState.orderId).Nodup)
    (hnew : ∀ other ∈ order :: rest, ¬logical.Holds other.orderId) :
    (∃ book', restAll side price (order :: rest) book = some book' ∧ Represents book'
        (logical.setLevels side (front ++ [(price, queue ++ (order :: rest).map BookOrderState.view)]))) ∨
      (restAll side price (order :: rest) book = none ∧
        ¬FitsIndex L O fun id => id ∈ (order :: rest).map BookOrderState.orderId ∨ logical.Holds id) := by
  induction rest generalizing book logical queue order with
  | nil =>
      rcases h.restAtTail_spec order.resting (hnew order (by simp)) hat with
        ⟨book', hrest, hrep⟩ | ⟨hrest, hfits⟩
      · refine .inl ⟨book', by simp [restAll, hrest], ?_⟩
        rwa [LogicalBook.rest, hadd] at hrep
      · exact .inr ⟨by simp [restAll, hrest], by simpa [BookOrderState.resting] using hfits⟩
  | cons second rest ih =>
      rw [List.map_cons, List.nodup_cons] at hnodup
      rw [List.length_cons] at hroom
      rcases h.restAtTail_spec order.resting (hnew order (by simp)) hat with
        ⟨book', hrest, hrep⟩ | ⟨hrest, hfits⟩
      · have hadded : logical.rest side price order.resting.view
            = logical.setLevels side (front ++ [(price, queue ++ [order.view])]) := by
          rw [LogicalBook.rest, hadd]
          rfl
        have hnext : (logical.rest side price order.resting.view).levels side
            = front ++ [(price, queue ++ [order.view])] := by
          rw [hadded]
          simp
        have hids : ∀ id, (logical.rest side price order.resting.view).Holds id ↔
            id = order.orderId ∨ logical.Holds id := fun id => holds_rest
        have hfresh : ∀ other ∈ second :: rest,
            ¬(logical.rest side price order.resting.view).Holds other.orderId := by
          intro other hother hholds
          rcases (hids _).mp hholds with heq | hheld
          · exact hnodup.1 (heq ▸ List.mem_map_of_mem hother)
          · exact hnew other (List.mem_cons_of_mem _ hother) hheld
        have hcount : (queue ++ [order.view]).length + (second :: rest).length ≤ O := by
          rw [List.length_append, List.length_singleton]
          omega
        rcases ih hrep (fun resting => by rw [hnext, addOrder_of_occupied hfront])
          (by unfold RoomAt; rw [hnext, find?_of_occupied hfront]; simp only [List.length_cons] at hcount ⊢; omega)
          hcount hnodup.2 hfresh with ⟨last, hall, hlast⟩ | ⟨hall, hfits⟩
        · refine .inl ⟨last, by rw [restAll, hrest]; exact hall, ?_⟩
          have hset : (logical.setLevels side (front ++ [(price, queue ++ [order.view])])).setLevels side
              (front ++ [(price, (queue ++ [order.view]) ++ (second :: rest).map BookOrderState.view)])
              = logical.setLevels side
                (front ++ [(price, queue ++ (order :: second :: rest).map BookOrderState.view)]) := by
            rw [List.append_assoc]
            cases side <;> rfl
          rwa [hadded, hset] at hlast
        · refine .inr ⟨by rw [restAll, hrest]; exact hall, ?_⟩
          have hsame : (fun id => id ∈ (order :: second :: rest).map BookOrderState.orderId ∨ logical.Holds id)
              = fun id => id ∈ (second :: rest).map BookOrderState.orderId ∨
                  (logical.rest side price order.resting.view).Holds id := by
            funext id
            rw [hids, List.map_cons, List.mem_cons, eq_iff_iff]
            tauto
          rwa [hsame]
      · refine .inr ⟨by simp [restAll, hrest], fun hall => hfits ?_⟩
        refine h.fitsIndex_mono hL (by omega) hall ?_ [order.orderId]
          (Nat.mul_pos hL (by omega : 0 < O)) ?_
        · rintro other (rfl | hholds)
          · exact .inl (by simp [BookOrderState.resting])
          · exact .inr hholds
        · exact fun other hother => hother.imp_left List.mem_singleton.mpr

/-- Restoring a level behind the levels already there. -/
theorem restoreLevel_spec (h : Represents book logical) {level : BookLevelState O}
    (hsome : level.active ≠ []) (hcount : level.active.length ≤ O)
    (hfront : ∀ other ∈ logical.levels level.side,
      LevelIndex.precedes level.side.descending level.price other.1 = true)
    (hroom : (logical.levels level.side).length < L)
    (hnodup : (level.active.map BookOrderState.orderId).Nodup)
    (hnew : ∀ order ∈ level.active, ¬logical.Holds order.orderId) :
    (∃ book', book.restoreLevel level = .ok book' ∧
        Represents book' (logical.setLevels level.side (logical.levels level.side ++ [level.view]))) ∨
      ((∃ e, book.restoreLevel level = .error e) ∧
        ¬FitsIndex L O fun id => id ∈ level.active.map BookOrderState.orderId ∨ logical.Holds id) := by
  have hvacant : (logical.levels level.side).find? (fun other => decide (other.1 = level.price)) = none := by
    rw [List.find?_eq_none]
    intro other hother
    simpa using ne_of_precedes (hfront other hother)
  have hat : RoomAt L O (logical.levels level.side) level.price := by
    unfold RoomAt
    rw [hvacant]
    exact hroom
  have hadd : ∀ resting, addOrder level.side.descending level.price resting (logical.levels level.side)
      = logical.levels level.side ++ [(level.price, [] ++ [resting])] := by
    intro resting
    rw [← List.append_nil (logical.levels level.side), addOrder_of_vacant hfront (by simp), List.append_nil]
    rfl
  have hoption := restoreLevel_toOption h hsome hvacant hroom
  rw [BookLevelState.view]
  cases hactive : level.active with
  | nil => exact absurd hactive hsome
  | cons order rest =>
      rw [hactive] at hnodup hnew hcount hoption
      rcases restAll_spec h hadd hfront hat (by omega) (by simpa using hcount) hnodup hnew with
        ⟨book', hall, hrep⟩ | ⟨hall, hfits⟩
      · left
        rw [hall] at hoption
        cases hlevel : book.restoreLevel level with
        | error e =>
            rw [hlevel] at hoption
            cases hoption
        | ok restored =>
            rw [hlevel] at hoption
            cases hoption
            exact ⟨_, rfl, hrep⟩
      · right
        rw [hall] at hoption
        cases hlevel : book.restoreLevel level with
        | error e => exact ⟨⟨e, rfl⟩, hfits⟩
        | ok restored =>
            rw [hlevel] at hoption
            cases hoption

/-- The order ids of some levels of a state. -/
def levelIds (levels : List (BookLevelState O)) : List OrderId :=
  (levels.flatMap BookLevelState.active).map BookOrderState.orderId

@[simp] theorem levelIds_cons {level : BookLevelState O} {levels : List (BookLevelState O)} :
    levelIds (level :: levels) = level.active.map BookOrderState.orderId ++ levelIds levels := by
  simp [levelIds]

theorem active_length {level : BookLevelState O} (valid : LevelValid side level) :
    level.active.length = level.orderCount :=
  length_activePart level.orders valid.count_le

/-- The ids a book holds after a level was put behind one of its sides. -/
theorem holds_append_level {level : BookLevelState O} {id : OrderId} :
    (logical.setLevels level.side (logical.levels level.side ++ [level.view])).Holds id ↔
      id ∈ level.active.map BookOrderState.orderId ∨ logical.Holds id := by
  rw [holds_iff_mem, holds_iff_mem]
  constructor
  · rintro ⟨side, other, hother, order, horder, rfl⟩
    rw [LogicalBook.levels_setLevels] at hother
    by_cases hside : level.side = side
    · subst hside
      rw [if_pos rfl] at hother
      rcases List.mem_append.mp hother with hmem | hmem
      · exact .inr ⟨_, other, hmem, order, horder, rfl⟩
      · rw [List.mem_singleton] at hmem
        subst hmem
        obtain ⟨state, hstate, rfl⟩ := List.mem_map.mp horder
        exact .inl (List.mem_map_of_mem hstate)
    · rw [if_neg hside] at hother
      exact .inr ⟨side, other, hother, order, horder, rfl⟩
  · rintro (hmem | ⟨side, other, hother, order, horder, rfl⟩)
    · obtain ⟨state, hstate, rfl⟩ := List.mem_map.mp hmem
      refine ⟨level.side, level.view, by simp, state.view, List.mem_map_of_mem hstate, rfl⟩
    · refine ⟨side, other, ?_, order, horder, rfl⟩
      rw [LogicalBook.levels_setLevels]
      split
      · rename_i hside
        subst hside
        exact List.mem_append_left _ hother
      · exact hother

/-- Restoring valid levels of one side behind the levels already there. -/
theorem restoreLevels_spec (h : Represents book logical) (levels : List (BookLevelState O))
    (hvalid : ∀ level ∈ levels, LevelValid side level)
    (hsorted : SortedLevels side.descending (logical.levels side ++ levels.map BookLevelState.view))
    (hcount : (logical.levels side).length + levels.length ≤ L) (hnodup : (levelIds levels).Nodup)
    (hnew : ∀ id ∈ levelIds levels, ¬logical.Holds id) :
    (∃ book', OrderBook.restoreLevels levels book = .ok book' ∧ Represents book'
        (logical.setLevels side (logical.levels side ++ levels.map BookLevelState.view))) ∨
      ((∃ e, OrderBook.restoreLevels levels book = .error e) ∧
        ¬FitsIndex L O fun id => id ∈ levelIds levels ∨ logical.Holds id) := by
  induction levels generalizing book logical with
  | nil =>
      refine .inl ⟨book, rfl, ?_⟩
      have hsame : logical.setLevels side (logical.levels side) = logical := by cases side <;> rfl
      simpa [hsame] using h
  | cons level rest ih =>
      have valid := hvalid level (by simp)
      obtain rfl := valid.side_eq
      have hlength := active_length valid
      have hne := valid.count_ne
      have hle := valid.count_le
      simp only [levelIds_cons, List.nodup_append] at hnodup
      simp only [List.length_cons] at hcount
      have hsome : level.active ≠ [] := by
        intro hempty
        rw [hempty] at hlength
        exact hne hlength.symm
      have hfront : ∀ other ∈ logical.levels level.side,
          LevelIndex.precedes level.side.descending level.price other.1 = true := by
        intro other hother
        rw [SortedLevels, List.pairwise_append] at hsorted
        exact hsorted.2.2 other hother level.view (by simp)
      rcases restoreLevel_spec h hsome (by omega) hfront (by omega) hnodup.1
        (fun order horder => hnew _ (by simp only [levelIds_cons, List.mem_append]; exact .inl (List.mem_map_of_mem horder)))
        with ⟨book', hrestore, hrep⟩ | ⟨⟨e, hrestore⟩, hfits⟩
      · have hlevels : (logical.setLevels level.side (logical.levels level.side ++ [level.view])).levels level.side
            = logical.levels level.side ++ [level.view] := by simp
        rcases ih hrep (fun other hother => hvalid other (by simp [hother]))
          (by rw [hlevels]; simpa using hsorted) (by rw [hlevels]; simp; omega) hnodup.2.1
          (by
            intro id hid hholds
            rcases holds_append_level.mp hholds with hmem | hheld
            · exact hnodup.2.2 id hmem id hid rfl
            · exact hnew id (by simp [hid]) hheld) with ⟨last, hall, hlast⟩ | ⟨⟨e, hall⟩, hfits⟩
        · refine .inl ⟨last, by rw [OrderBook.restoreLevels, hrestore]; exact hall, ?_⟩
          have hset : ∀ first second, (logical.setLevels level.side first).setLevels level.side second
              = logical.setLevels level.side second := by
            intro first second
            cases level.side <;> rfl
          rw [hlevels, hset] at hlast
          simpa using hlast
        · refine .inr ⟨⟨e, by rw [OrderBook.restoreLevels, hrestore]; exact hall⟩, ?_⟩
          have hsame : (fun id => id ∈ levelIds (level :: rest) ∨ logical.Holds id) = fun id => id ∈ levelIds rest ∨
              (logical.setLevels level.side (logical.levels level.side ++ [level.view])).Holds id := by
            funext id
            rw [holds_append_level, levelIds_cons, List.mem_append, eq_iff_iff]
            tauto
          rwa [hsame]
      · refine .inr ⟨⟨e, by rw [OrderBook.restoreLevels, hrestore]; rfl⟩, fun hall => hfits ?_⟩
        have hone : O ≤ L * O := Nat.le_mul_of_pos_left O (by omega)
        refine h.fitsIndex_mono (by omega) (by omega) hall ?_ _ (by rw [List.length_map]; omega) fun other => id
        rintro other (hmem | hholds)
        · exact .inl (by simp only [levelIds_cons, List.mem_append]; exact .inl hmem)
        · exact .inr hholds

/-! ### Restoring a state -/

/-- The ids of a state, side by side. -/
theorem levelIds_activeSide {state : BookState L O} :
    state.orders.map BookOrderState.orderId = levelIds (state.activeSide .buy) ++ levelIds (state.activeSide .sell) := by
  simp [BookState.orders, levelIds, BookState.activeSide]

/-- An id of the stored levels is an id of their logical content. -/
theorem mem_levelIds {levels : List (BookLevelState O)} {id : OrderId} :
    (∃ level ∈ levels.map BookLevelState.view, ∃ order ∈ level.2, order.id = id) ↔ id ∈ levelIds levels := by
  rw [levelIds]
  constructor
  · rintro ⟨_, hlevel, order, horder, rfl⟩
    obtain ⟨level, hmem, rfl⟩ := List.mem_map.mp hlevel
    obtain ⟨stored, hstored, rfl⟩ := List.mem_map.mp horder
    exact List.mem_map.mpr ⟨stored, List.mem_flatMap.mpr ⟨level, hmem, hstored⟩, rfl⟩
  · intro hmem
    obtain ⟨stored, hstored, rfl⟩ := List.mem_map.mp hmem
    obtain ⟨level, hlevel, hactive⟩ := List.mem_flatMap.mp hstored
    exact ⟨level.view, List.mem_map_of_mem hlevel, stored.view, List.mem_map_of_mem hactive, rfl⟩

/-- The ids of a book given by the levels of two states' sides. -/
theorem holds_levels {instrument : InstrumentId} {bids asks : List (BookLevelState O)} {id : OrderId} :
    (⟨instrument, bids.map BookLevelState.view, asks.map BookLevelState.view⟩ : LogicalBook).Holds id ↔
      id ∈ levelIds bids ∨ id ∈ levelIds asks := by
  rw [holds_iff_mem]
  constructor
  · rintro ⟨side, h⟩
    cases side with
    | buy => exact .inl (mem_levelIds.mp h)
    | sell => exact .inr (mem_levelIds.mp h)
  · rintro (h | h)
    · exact ⟨.buy, mem_levelIds.mpr h⟩
    · exact ⟨.sell, mem_levelIds.mpr h⟩

/-- Restoring two lists of levels, one after the other. -/
theorem restoreLevels_append {first second : List (BookLevelState O)} :
    OrderBook.restoreLevels (first ++ second) book
      = OrderBook.restoreLevels first book >>= OrderBook.restoreLevels second := by
  induction first generalizing book with
  | nil => rfl
  | cons level rest ih =>
      simp only [List.cons_append, OrderBook.restoreLevels]
      cases book.restoreLevel level with
      | error e => rfl
      | ok next => exact ih

/-- A bound on the number of ids of a side from its capacities. -/
theorem levelIds_length_le {levels : List (BookLevelState O)} (hvalid : ∀ level ∈ levels, LevelValid side level) :
    (levelIds levels).length ≤ levels.length * O := by
  induction levels with
  | nil => simp [levelIds]
  | cons level rest ih =>
      have hlevel := active_length (hvalid level (by simp))
      have hcount := (hvalid level (by simp)).count_le
      have hrest := ih fun other hother => hvalid other (List.mem_cons_of_mem _ hother)
      rw [levelIds_cons, List.length_append, List.length_map, List.length_cons, Nat.succ_mul]
      omega

/-- A valid state uses no more levels than there are. -/
theorem activeSide_length_le {state : BookState L O} (valid : StateValid state) (side : Side) :
    (state.activeSide side).length ≤ L := by
  have hbid := valid.bidCount
  have hask := valid.askCount
  cases side <;> simp [BookState.activeSide, BookState.activeBids, BookState.activeAsks, activePart]

/-- Restoring a valid state gives a book with the logical content of the state,
unless its ids cannot be indexed. -/
theorem restore_spec {state : BookState L O} (valid : StateValid state) :
    (∃ book : OrderBook L O, OrderBook.restoreLevels (state.activeBids ++ state.activeAsks)
        (OrderBook.new state.instrument) = .ok book ∧ Represents book state.content) ∨
      ((∃ e, OrderBook.restoreLevels (state.activeBids ++ state.activeAsks)
          (OrderBook.new state.instrument : OrderBook L O) = .error e) ∧
        ¬FitsIndex L O state.content.Holds) := by
  have hids := valid.ids
  rw [levelIds_activeSide, List.nodup_append] at hids
  have hbidLength := activeSide_length_le valid .buy
  have haskLength := activeSide_length_le valid .sell
  have hempty : ∀ id, ¬(LogicalBook.new state.instrument).Holds id := by
    intro id
    simp [LogicalBook.Holds, LogicalBook.find, LogicalBook.new, findOrder]
  rw [restoreLevels_append]
  rcases restoreLevels_spec (represents_new (L := L) (O := O) state.instrument) (state.activeSide .buy)
    (valid.levels .buy) (valid.sorted .buy) (by simpa [LogicalBook.new, LogicalBook.levels] using hbidLength)
    hids.1 (fun id _ => hempty id) with ⟨middle, hbids, hmiddle⟩ | ⟨⟨e, hbids⟩, hfits⟩
  · have hheld : ∀ id, ((LogicalBook.new state.instrument).setLevels .buy
        ((LogicalBook.new state.instrument).levels .buy ++ (state.activeSide .buy).map BookLevelState.view)).Holds id
          ↔ id ∈ levelIds (state.activeSide .buy) := by
      intro id
      have hlevels := @holds_levels O state.instrument (state.activeSide .buy) [] id
      refine hlevels.trans ?_
      simp [levelIds]
    rcases restoreLevels_spec hmiddle (state.activeSide .sell) (valid.levels .sell) (valid.sorted .sell)
      (by simpa [LogicalBook.new, LogicalBook.levels, LogicalBook.setLevels] using haskLength) hids.2.1
      (fun id hid hholds => hids.2.2 id ((hheld id).mp hholds) id hid rfl) with
      ⟨last, hasks, hlast⟩ | ⟨⟨e, hasks⟩, hfits⟩
    · refine .inl ⟨last, bind_eq_ok.mpr ⟨middle, hbids, hasks⟩, hlast⟩
    · refine .inr ⟨⟨e, ?_⟩, ?_⟩
      · change OrderBook.restoreLevels (state.activeSide .buy) _ >>= OrderBook.restoreLevels (state.activeSide .sell)
          = _
        rw [hbids]
        exact hasks
      · have hsame : state.content.Holds = fun id => id ∈ levelIds (state.activeSide .sell) ∨
            ((LogicalBook.new state.instrument).setLevels .buy ((LogicalBook.new state.instrument).levels .buy ++
              (state.activeSide .buy).map BookLevelState.view)).Holds id := by
          funext id
          rw [hheld, eq_iff_iff, or_comm]
          exact holds_levels
        rwa [hsame]
  · refine .inr ⟨⟨e, ?_⟩, fun hall => hfits ?_⟩
    · change OrderBook.restoreLevels (state.activeSide .buy) _ >>= _ = _
      rw [hbids]
      rfl
    · -- a failing bid side has a level with orders
      have hvalid := valid.levels .buy
      have hlength := levelIds_length_le hvalid
      obtain ⟨level, hlevel⟩ : ∃ level, level ∈ state.activeSide .buy := by
        refine List.exists_mem_of_ne_nil _ fun hnil => ?_
        rw [hnil] at hbids
        cases hbids
      have hO := (hvalid level hlevel).count_ne
      have hO' := (hvalid level hlevel).count_le
      have hL := List.length_pos_of_mem hlevel
      refine (represents_new (L := L) (O := O) state.instrument).fitsIndex_mono (by omega) (by omega) hall ?_ _
        (hlength.trans (Nat.mul_le_mul_right O hbidLength)) fun other => id
      rintro other (hmem | hholds)
      · exact holds_levels.mpr (.inl hmem)
      · exact absurd hholds (hempty other)

/-- A successful restore went through validation and represents the content of
the state. -/
theorem represents_of_fromState {instrument : InstrumentId} {state : BookState L O}
    (h : OrderBook.fromState instrument state = .ok book) :
    state.instrument = instrument ∧ StateValid state ∧ Represents book state.content := by
  unfold OrderBook.fromState at h
  split at h
  · cases h
  · rename_i hinstrument
    obtain rfl : state.instrument = instrument := by simpa using hinstrument
    obtain ⟨_, hvalid, hrestore⟩ := bind_eq_ok.mp h
    have valid := validateState_ok_iff.mp hvalid
    rcases restore_spec valid with ⟨restored, hok, hrep⟩ | ⟨⟨e, herror⟩, _⟩
    · rw [hrestore] at hok
      cases hok
      exact ⟨rfl, valid, hrep⟩
    · rw [hrestore] at herror
      cases herror

/-- A valid state whose ids can be indexed is restored. -/
theorem fromState_of_valid {state : BookState L O} (valid : StateValid state)
    (hfits : FitsIndex L O state.content.Holds) :
    ∃ book : OrderBook L O, OrderBook.fromState state.instrument state = .ok book ∧
      Represents book state.content := by
  rcases restore_spec valid with ⟨restored, hok, hrep⟩ | ⟨_, hnot⟩
  · refine ⟨restored, ?_, hrep⟩
    unfold OrderBook.fromState
    rw [if_neg (by simp), bind_eq_ok]
    exact ⟨(), validateState_ok_iff.mpr valid, hok⟩
  · exact absurd hfits hnot

/-- A level that passes is the state of its content. -/
theorem LevelValid.state_view {level : BookLevelState O} (valid : LevelValid side level) :
    levelState O side level.view = level := by
  have horders : (level.active.map BookOrderState.view).map (orderState side level.price) = level.active := by
    rw [List.map_map]
    conv_rhs => rw [← List.map_id level.active]
    refine List.map_congr_left fun order horder => ?_
    obtain ⟨hside, hprice, _⟩ := valid.orders order horder
    simp only [Function.comp_apply, orderState, BookOrderState.view, id, ← hside, ← hprice]
  have hpad := padTo_activePart valid.padding
  obtain ⟨levelSide, price, count, orders⟩ := level
  have hlength := active_length valid
  obtain rfl : levelSide = side := valid.side_eq
  simp only [levelState, BookLevelState.view] at horders hlength ⊢
  rw [horders, List.length_map, hlength]
  exact congrArg _ hpad

/-- A state that passes is the state of its content. -/
theorem StateValid.state_content {state : BookState L O} (valid : StateValid state) :
    state.content.state L O = state := by
  have hlevels : ∀ side, ((state.activeSide side).map BookLevelState.view).map (levelState O side)
      = state.activeSide side := by
    intro side
    rw [List.map_map]
    conv_rhs => rw [← List.map_id (state.activeSide side)]
    exact List.map_congr_left fun level hlevel => (valid.levels side level hlevel).state_view
  have hbids := padTo_activePart valid.bidPadding
  have hasks := padTo_activePart valid.askPadding
  have hbidLength := length_activePart state.bids valid.bidCount
  have haskLength := length_activePart state.asks valid.askCount
  obtain ⟨instrument, bidCount, bids, askCount, asks⟩ := state
  have hbuy := hlevels .buy
  have hsell := hlevels .sell
  simp only [BookState.activeSide, BookState.activeBids, BookState.activeAsks] at hbuy hsell
  simp only [LogicalBook.state, BookState.content, BookState.activeBids, BookState.activeAsks, List.length_map, hbuy,
    hsell, hbids, hasks, hbidLength, haskLength]

end HftEngine
