/-
Module: HftEngine.Proofs.PriceTime
Layer: Proofs
Purpose: Price-time priority and time in force. An accepted order trades with
  the opposing orders within its limit as a greedy allotment of its quantity,
  best price first and FIFO within a price; what is left over rests or is
  discarded only when nothing crossing is left; everybody else keeps quantity
  and place.
Imports: HftEngine.Proofs.BookCalls, HftEngine.Lib.Allotment
Trusted boundary: none (fully proved)
Main exports: OrderBook.queueOf, OrderBook.crossing, PriceTime,
  matchLevels_allot, price_time_priority
-/
import HftEngine.Proofs.BookCalls
import HftEngine.Lib.Allotment

namespace HftEngine

open Machine Transition Allotment

variable {L O N : Nat} {book book' : OrderBook L O} {logical logical' : LogicalBook} {side : Side}
  {price limit : PriceTicks} {levels : ModelLevels} {entries : List BookEntry} {fills : List ModelFill}

/-! ### Matching as an allotment -/

/-- What an entry can give. -/
def entryQuantity (entry : BookEntry) : Nat := entry.2.2.quantity.val

/-- Who gives, at which price and how much. -/
def givenOf (given : BookEntry × Nat) : OrderId × PriceTicks × Nat := (given.1.2.2.id, given.1.2.1, given.2)

/-- The same of a fill. -/
def fillGiven (fill : ModelFill) : OrderId × PriceTicks × Nat := (fill.makerOrderId, fill.price, fill.quantity.val)

/-- Trading against a queue allots the quantity to its orders. -/
theorem matchQueue_allot (side : Side) (price : PriceTicks) (queue : List ModelOrder) (remaining : Quantity) :
    (matchQueue price queue remaining).2.2.map fillGiven
        = (allot entryQuantity remaining.val (queue.map fun order => (side, price, order))).map givenOf ∧
      (matchQueue price queue remaining).1.val
        = remaining.val - supply entryQuantity (queue.map fun order => (side, price, order)) := by
  induction queue generalizing remaining with
  | nil => simp [matchQueue]
  | cons maker rest ih =>
      unfold matchQueue
      by_cases hzero : remaining.val = 0
      · simp [hzero]
      · rw [List.map_cons, allot_cons hzero, supply_cons]
        by_cases hpart : remaining.val < maker.quantity.val
        · have hgiven : min remaining.val (entryQuantity (side, price, maker)) = remaining.val :=
            min_eq_left hpart.le
          have hmet : remaining.val - entryQuantity (side, price, maker) = 0 := Nat.sub_eq_zero_of_le hpart.le
          rw [if_neg hzero, if_pos hpart, hgiven, hmet]
          refine ⟨by simp [fillGiven, givenOf], ?_⟩
          simp only [Fin.val_zero]
          omega
        · obtain ⟨hfills, hleft⟩ := ih (satSub remaining maker.quantity)
          have hgiven : min remaining.val (entryQuantity (side, price, maker)) = maker.quantity.val :=
            min_eq_right (not_lt.mp hpart)
          rw [if_neg hzero, if_neg hpart, hgiven]
          refine ⟨?_, ?_⟩
          · rw [List.map_cons, List.map_cons, hfills]
            rfl
          · rw [hleft, satSub_val, Nat.sub_sub]
            rfl

/-- The entries of sorted levels that cross: none behind a level that does
not. -/
theorem filter_crosses_of_sorted (taker : Side) {queue : List ModelOrder}
    (hsorted : SortedLevels taker.opposite.descending ((price, queue) :: levels))
    (h : crosses taker limit price = false) :
    (entriesOf side ((price, queue) :: levels)).filter (fun entry => crosses taker limit entry.2.1) = [] := by
  rw [List.filter_eq_nil_iff]
  intro entry hentry
  obtain ⟨_, listed, hlevel, _⟩ := mem_entriesOf.mp hentry
  rcases List.mem_cons.mp hlevel with heq | hmem
  · rw [(Prod.mk.inj heq).1, h]
    simp
  · rw [crosses_of_precedes ((List.pairwise_cons.mp hsorted).1 _ hmem) h]
    simp

/-- Trading against sorted levels allots the quantity to the entries within the
limit. -/
theorem matchLevels_allot (taker : Side) (limit : PriceTicks) (levels : ModelLevels)
    (hsorted : SortedLevels taker.opposite.descending levels) (remaining : Quantity) :
    (matchLevels taker limit levels remaining).2.2.map fillGiven
      = (allot entryQuantity remaining.val
          ((entriesOf side levels).filter fun entry => crosses taker limit entry.2.1)).map givenOf := by
  induction levels generalizing remaining with
  | nil => simp [matchLevels]
  | cons level rest ih =>
      obtain ⟨price, queue⟩ := level
      unfold matchLevels
      by_cases hcross : crosses taker limit price = false
      · rw [if_pos (.inr hcross), filter_crosses_of_sorted taker hsorted hcross]
        simp
      by_cases hzero : remaining.val = 0
      · rw [if_pos (.inl hzero), hzero]
        simp
      rw [if_neg (by simp [hzero, hcross])]
      obtain ⟨hfills, hleft⟩ := matchQueue_allot side price queue remaining
      have hrest := ih (List.pairwise_cons.mp hsorted).2 (matchQueue price queue remaining).1
      have hwhole : (queue.map fun order => (side, price, order)).filter
          (fun entry => crosses taker limit entry.2.1) = queue.map fun order => (side, price, order) := by
        rw [List.filter_eq_self]
        intro entry hentry
        obtain ⟨order, _, rfl⟩ := List.mem_map.mp hentry
        exact Bool.of_not_eq_false hcross
      rw [entriesOf_cons, List.filter_append, hwhole, allot_append, List.map_append, List.map_append, hfills, hrest,
        hleft]

/-! ### Bystanders -/

section Bystanders

variable {keep : OrderId → Bool} {order : ModelOrder}

/-- Fills change nothing about the entries of other ids. -/
theorem filter_fillEntries (h : ∀ fill ∈ fills, keep fill.makerOrderId = false) (entries : List BookEntry) :
    (fillEntries fills entries).filter (fun entry => keep entry.2.2.id)
      = entries.filter fun entry => keep entry.2.2.id := by
  induction fills generalizing entries with
  | nil => rfl
  | cons fill fills ih =>
      have hfill := h fill (by simp)
      have hone : (entries.filterMap (fillEntry fill)).filter (fun entry => keep entry.2.2.id)
          = entries.filter fun entry => keep entry.2.2.id := by
        induction entries with
        | nil => rfl
        | cons entry entries ih =>
            by_cases hid : entry.2.2.id = fill.makerOrderId
            · by_cases hwhole : entry.2.2.quantity = fill.quantity
              · simp [fillEntry, hid, hwhole, hfill, ih]
              · simp [fillEntry, hid, hwhole, hfill, ih]
            · simp [fillEntry, hid, List.filter_cons, ih]
      rw [fillEntries_cons, ih (fun other hother => h other (List.mem_cons_of_mem _ hother)), hone]

/-- An order is added between entries that keep their places. -/
theorem filter_addOrder (descending : Bool) (h : keep order.id = false) :
    (entriesOf side (addOrder descending price order levels)).filter (fun entry => keep entry.2.2.id)
      = (entriesOf side levels).filter fun entry => keep entry.2.2.id := by
  induction levels with
  | nil => simp [addOrder, h]
  | cons level rest ih =>
      obtain ⟨listed, queue⟩ := level
      unfold addOrder
      split
      · simp [h]
      · split
        · rw [entriesOf_cons, entriesOf_cons, List.filter_append, List.filter_append, ih]
        · simp [h]

theorem filter_rest (h : keep order.id = false) :
    (logical.rest side price order).orders.filter (fun entry => keep entry.2.2.id)
      = logical.orders.filter fun entry => keep entry.2.2.id := by
  unfold LogicalBook.rest
  rw [orders_eq, orders_eq, List.filter_append, List.filter_append]
  cases side with
  | buy => simp [filter_addOrder _ h]
  | sell => simp [filter_addOrder _ h]

/-- The remainder rests on its own side, between entries that keep their
places. -/
theorem filter_restRemainder {order : NewOrder} {resting : Quantity}
    (hrest : logical.restRemainder L O order resting = some logical') (h : keep order.orderId = false) :
    logical'.orders.filter (fun entry => keep entry.2.2.id)
        = logical.orders.filter (fun entry => keep entry.2.2.id) ∧
      logical'.levels order.side.opposite = logical.levels order.side.opposite := by
  unfold LogicalBook.restRemainder at hrest
  split at hrest
  · cases hrest
    exact ⟨rfl, rfl⟩
  · split at hrest
    · cases hrest
      refine ⟨filter_rest h, ?_⟩
      rw [LogicalBook.rest, LogicalBook.levels_setLevels, if_neg (ne_opposite order.side)]
    · cases hrest

end Bystanders

/-! ### The exported queues -/

/-- The resting orders of one side in priority order: best price first, FIFO
within a price. -/
def OrderBook.queueOf (book : OrderBook L O) (side : Side) : List BookOrderState :=
  (book.exportState.activeSide side).flatMap BookLevelState.active

/-- The opposing orders within the limit of an incoming order, in priority
order. -/
def OrderBook.crossing (book : OrderBook L O) (order : NewOrder) : List BookOrderState :=
  (book.queueOf order.side.opposite).filter fun resting => crosses order.side order.price resting.price

theorem queueOf_eq (h : Represents book logical) (side : Side) :
    book.queueOf side = (entriesOf side (logical.levels side)).map entryState := by
  rw [OrderBook.queueOf, exportState_eq h, sideOrders_state h.bounded]

theorem crossing_eq (h : Represents book logical) (order : NewOrder) :
    book.crossing order = ((entriesOf order.side.opposite (logical.levels order.side.opposite)).filter fun entry =>
      crosses order.side order.price entry.2.1).map entryState := by
  rw [OrderBook.crossing, queueOf_eq h, List.filter_map]
  rfl

/-- A resting price that is at least as good for an incoming order as
another. -/
def AtLeastAsGood : Side → PriceTicks → PriceTicks → Prop
  | .buy, first, second => second.val ≤ first.val
  | .sell, first, second => first.val ≤ second.val

/-- The entries of sorted levels stand best price first. -/
theorem entriesOf_sorted (hsorted : SortedLevels side.descending levels) :
    (entriesOf side levels).Pairwise fun first second => AtLeastAsGood side first.2.1 second.2.1 := by
  induction levels with
  | nil => simp
  | cons level rest ih =>
      obtain ⟨price, queue⟩ := level
      obtain ⟨hfirst, hrest⟩ := List.pairwise_cons.mp hsorted
      rw [entriesOf_cons, List.pairwise_append]
      refine ⟨?_, ih hrest, ?_⟩
      · rw [List.pairwise_map]
        refine List.pairwise_of_forall fun first second => ?_
        cases side <;> exact le_refl _
      · intro first hmem second hlater
        obtain ⟨order, _, rfl⟩ := List.mem_map.mp hmem
        obtain ⟨_, listed, hlevel, _⟩ := mem_entriesOf.mp hlater
        have hprecedes := hfirst _ hlevel
        cases side <;> simp [LevelIndex.precedes, Side.descending, AtLeastAsGood] at hprecedes ⊢ <;> omega

/-! ### Accepted orders -/

/-- A trade of an incoming order with a maker, at the maker's price. -/
structure Prints (order : NewOrder) (trade : ExecutionReport) (resting : BookOrderState) : Prop where
  maker : trade.makerOrderId = resting.orderId
  price : trade.price = resting.price
  positive : 0 < trade.quantity.val
  covered : trade.quantity.val ≤ resting.quantity.val
  taker : trade.takerOrderId = order.orderId
  instrument : trade.instrumentId = order.instrumentId
  sequence : trade.sequence = order.sequence

/-- What a trade leaves of a resting order. -/
def afterTrade (trade : ExecutionReport) (resting : BookOrderState) : Option BookOrderState :=
  if resting.orderId = trade.makerOrderId then
    if resting.quantity = trade.quantity then none
    else some { resting with quantity := satSub resting.quantity trade.quantity }
  else some resting

/-- The orders that take no part in a match. -/
def uninvolved (order : NewOrder) (trades : List ExecutionReport) (resting : BookOrderState) : Bool :=
  decide (resting.orderId ≠ order.orderId ∧ resting.orderId ∉ trades.map ExecutionReport.makerOrderId)

/-- Price-time priority of an accepted order and its trades, in order: they are
with the first of the crossing orders, all but the last of which are filled
completely; what is not filled rests or is discarded by time in force, and only
when nothing crossing is left; nobody else changes quantity or place. -/
structure PriceTime (book : OrderBook L O) (order : NewOrder) (summary : MatchSummary)
    (trades : List ExecutionReport) (book' : OrderBook L O) : Prop where
  sorted : (book.queueOf order.side.opposite).Pairwise fun first second =>
    AtLeastAsGood order.side.opposite first.price second.price
  prints : List.Forall₂ (Prints order) trades ((book.crossing order).take trades.length)
  complete : List.Forall₂ (fun trade maker => trade.quantity = maker.quantity) trades.dropLast
    ((book.crossing order).take (trades.length - 1))
  total : (trades.map fun trade => trade.quantity.val).sum = summary.filledQuantity.val
  split : summary.filledQuantity.val + summary.restingQuantity.val + summary.discardedQuantity.val
    = order.quantity.val
  cleared : summary.restingQuantity.val ≠ 0 ∨ summary.discardedQuantity.val ≠ 0 → book'.crossing order = []
  ioc : order.timeInForce = .ioc → summary.restingQuantity.val = 0
  fok : order.timeInForce = .fok → summary.filledQuantity = order.quantity
  postOnly : order.timeInForce = .postOnly → trades = []
  depleted : book'.queueOf order.side.opposite
    = trades.foldl (fun queue trade => queue.filterMap (afterTrade trade)) (book.queueOf order.side.opposite)
  bystanders : book'.exportState.orders.filter (uninvolved order trades)
    = book.exportState.orders.filter (uninvolved order trades)

/-- The trades of a list of fills against the entries they were allotted to. -/
theorem forall₂_of_allotted {order : NewOrder} {demand : Nat}
    (hkey : fills.map fillGiven = (allot entryQuantity demand entries).map givenOf)
    (hpositive : ∀ entry ∈ entries, 0 < entryQuantity entry) :
    List.Forall₂ (Prints order) (fills.map (reportOf order)) ((entries.map entryState).take fills.length) ∧
      List.Forall₂ (fun trade maker => trade.quantity = maker.quantity) (fills.map (reportOf order)).dropLast
        ((entries.map entryState).take (fills.length - 1)) := by
  have hlength : fills.length = (allot entryQuantity demand entries).length := by
    simpa using congrArg List.length hkey
  have hpairs : List.Forall₂ (fun fill given => fillGiven fill = givenOf given) fills
      (allot entryQuantity demand entries) := by
    have heq : List.Forall₂ Eq (fills.map fillGiven) ((allot entryQuantity demand entries).map givenOf) := by
      rw [List.forall₂_eq_eq_eq]
      exact hkey
    exact List.forall₂_map_right_iff.mp (List.forall₂_map_left_iff.mp heq)
  have hmakers : ∀ count, (entries.map entryState).take (min count fills.length)
      = (((allot entryQuantity demand entries).take count).map Prod.fst).map entryState := by
    intro count
    rw [List.map_take, allot_fst, List.take_take, hlength, List.map_take]
  constructor
  · have htake := hmakers fills.length
    rw [min_self, List.take_of_length_le hlength.ge] at htake
    rw [htake, List.forall₂_map_left_iff, List.forall₂_map_right_iff, List.forall₂_map_right_iff,
      List.forall₂_iff_zip]
    refine ⟨hlength, fun {fill given} hmem => ?_⟩
    have hgiven := (List.forall₂_iff_zip.mp hpairs).2 hmem
    have hserved := (List.of_mem_zip hmem).2
    simp only [fillGiven, givenOf, Prod.mk.injEq] at hgiven
    obtain ⟨hid, hprice, hquantity⟩ := hgiven
    refine ⟨hid, hprice, ?_, ?_, rfl, rfl, rfl⟩
    · exact hquantity.symm ▸ allot_pos hpositive hserved
    · exact hquantity.symm ▸ allot_le hserved
  · have htake := hmakers (fills.length - 1)
    rw [min_eq_left (Nat.sub_le _ _)] at htake
    rw [htake, ← List.map_dropLast, List.forall₂_map_left_iff, List.forall₂_map_right_iff,
      List.forall₂_map_right_iff, List.dropLast_eq_take]
    have hfront := List.forall₂_take (fills.length - 1) hpairs
    rw [List.forall₂_iff_zip] at hfront ⊢
    refine ⟨hfront.1, fun {fill given} hmem => ?_⟩
    have hgiven := hfront.2 hmem
    have hserved := (List.of_mem_zip hmem).2
    rw [hlength, ← List.dropLast_eq_take] at hserved
    simp only [fillGiven, givenOf, Prod.mk.injEq] at hgiven
    apply Fin.ext
    exact hgiven.2.2.trans (allot_dropLast hserved)

/-- The exported entries after the fills are the exported entries after the
trades. -/
theorem map_fillEntries (order : NewOrder) (fills : List ModelFill) (entries : List BookEntry) :
    (fillEntries fills entries).map entryState
      = (fills.map (reportOf order)).foldl (fun queue trade => queue.filterMap (afterTrade trade))
          (entries.map entryState) := by
  induction fills generalizing entries with
  | nil => rfl
  | cons fill fills ih =>
      rw [fillEntries_cons, ih, List.map_cons, List.foldl_cons]
      congr 1
      rw [List.map_filterMap, List.filterMap_map]
      refine List.filterMap_congr fun entry _ => ?_
      by_cases hid : entry.2.2.id = fill.makerOrderId
      · by_cases hwhole : entry.2.2.quantity = fill.quantity
        · simp [fillEntry, afterTrade, reportOf, entryState, orderState, hid, hwhole]
        · simp [fillEntry, afterTrade, reportOf, entryState, orderState, hid, hwhole]
      · simp [fillEntry, afterTrade, reportOf, entryState, orderState, hid]

/-- What crosses, in total. -/
theorem supply_crossing (h : Represents book logical) (order : NewOrder) :
    ((book.crossing order).map fun resting => resting.quantity.val).sum
      = supply entryQuantity ((entriesOf order.side.opposite (logical.levels order.side.opposite)).filter fun entry =>
          crosses order.side order.price entry.2.1) := by
  rw [crossing_eq h, List.map_map]
  rfl

/-- An accepted order respects price-time priority. -/
theorem priceTime_of_matched (h : Represents book logical) (sound : logical.Sound) (hrep : Represents book' logical')
    {order : NewOrder} {summary : MatchSummary} {capacity : Nat}
    (hsubmit : logical.submit L O order capacity = some (.ok (summary, fills), logical')) :
    PriceTime book order summary (fills.map (reportOf order)) book' := by
  have wf := h.wellFormed
  have hsorted := wf.sorted order.side.opposite
  obtain ⟨remaining, makers, matched⟩ := submit_matched hsubmit
  have hkey := @matchLevels_allot order.side.opposite order.side order.price _ hsorted order.quantity
  have htotal := matchLevels_total order.side order.price (logical.levels order.side.opposite) order.quantity
  have hclear := matchLevels_clear order.price (logical.levels order.side.opposite) order.quantity hsorted
  have hfilled := (fillEntries_matchLevels order.side order.price (nodup_entriesOf wf order.side.opposite)
    order.quantity).1
  have horders := orders_match wf order.side.opposite order.side order.price order.quantity
  rw [matched.matched] at hkey htotal hclear hfilled horders
  simp only at hkey htotal hclear hfilled horders
  -- the opposing side after the match is what the fills leave: the remainder rests on the other side
  let keep : OrderId → Bool := fun id =>
    decide (id ≠ order.orderId ∧ id ∉ (fills.map (reportOf order)).map ExecutionReport.makerOrderId)
  have htaker : keep order.orderId = false := by simp [keep]
  have hinvolved : ∀ fill ∈ fills, keep fill.makerOrderId = false := by
    intro fill hfill
    have hmaker : fill.makerOrderId ∈ (fills.map (reportOf order)).map ExecutionReport.makerOrderId := by
      rw [List.map_map]
      exact List.mem_map_of_mem (f := ExecutionReport.makerOrderId ∘ reportOf order) hfill
    exact decide_eq_false fun hout => hout.2 hmaker
  obtain ⟨hbystanders, hopposite⟩ := filter_restRemainder matched.rested htaker
  rw [LogicalBook.levels_setLevels, if_pos rfl] at hopposite
  have hpositive : ∀ entry ∈ (entriesOf order.side.opposite (logical.levels order.side.opposite)).filter
      (fun entry => crosses order.side order.price entry.2.1), 0 < entryQuantity entry := fun entry hentry =>
    Nat.pos_of_ne_zero (sound.quantities entry (entriesOf_subset_orders (List.mem_filter.mp hentry).1))
  obtain ⟨hprints, hcomplete⟩ := @forall₂_of_allotted _ fills order _ hkey hpositive
  rw [← crossing_eq h, ← List.length_map (f := reportOf order)] at hprints hcomplete
  obtain ⟨resting, discarded, submitted⟩ := submit_effect wf hsubmit
  have hsplit := submitted.split
  have hsummary := submitted.summary_eq
  constructor
  · rw [queueOf_eq h, List.pairwise_map]
    exact entriesOf_sorted hsorted
  · exact hprints
  · exact hcomplete
  · rw [hsummary, List.map_map]
    change fillTotal fills = order.quantity.val - resting.val - discarded.val
    omega
  · rw [hsummary]
    change order.quantity.val - resting.val - discarded.val + resting.val + discarded.val = order.quantity.val
    omega
  · intro hleft
    have hremaining : remaining.val ≠ 0 := by
      rw [matched.summary_eq] at hleft
      simp only [LogicalBook.summary] at hleft
      split at hleft <;> simpa using hleft
    rw [crossing_eq hrep, hopposite, List.map_eq_nil_iff, List.filter_eq_nil_iff]
    intro entry hentry
    obtain ⟨_, queue, hlevel, _⟩ := mem_entriesOf.mp hentry
    rw [hclear hremaining _ hlevel]
    simp
  · intro hioc
    rw [matched.summary_eq]
    simp [LogicalBook.summary, hioc]
  · intro hfok
    have hchecked := matched.checked
    have hnone : remaining.val = 0 := by
      by_contra hsome
      simp [ModelBook.remainderCheck, hfok, Nat.pos_of_ne_zero hsome] at hchecked
    rw [matched.summary_eq]
    apply Fin.ext
    simp [LogicalBook.summary, hfok, hnone]
  · intro hpost
    have hnothing := @matchLevels_of_best order.side order.price _ order.quantity (matched.passive hpost)
    rw [matched.matched] at hnothing
    rw [(Prod.mk.inj (Prod.mk.inj hnothing).2).2, List.map_nil]
  · rw [queueOf_eq hrep, hopposite, ← hfilled, map_fillEntries order, queueOf_eq h]
  · rw [horders, filter_fillEntries hinvolved] at hbystanders
    rw [orders_exportState hrep, orders_exportState h, List.filter_map, List.filter_map]
    change (logical'.orders.filter fun entry => keep entry.2.2.id).map entryState = _
    rw [hbystanders]
    rfl

/-! ### Refused orders -/

/-- The check of the remainder refuses for liquidity, a fill-or-kill order
only, or for want of room. -/
theorem remainderCheck_error {order : NewOrder} {remaining : Quantity} {reason : RejectReason}
    (h : ModelBook.remainderCheck levels order remaining L O = .error reason) :
    (reason = .insufficientLiquidity ∧ order.timeInForce = .fok ∧ remaining.val ≠ 0) ∨
      reason = .priceLevelOrderCapacity ∨ reason = .priceLevelCapacity := by
  by_cases hrests : (order.timeInForce = .gtc ∨ order.timeInForce = .postOnly) ∧ 0 < remaining.val
  · rw [remainderCheck_rests hrests.1 hrests.2] at h
    exact .inr (roomCheck_error h)
  · unfold ModelBook.remainderCheck at h
    split at h
    · rename_i hfok
      split at h
      · rename_i hpos
        cases h
        exact .inl ⟨rfl, hfok, Nat.pos_iff_ne_zero.mp hpos⟩
      · cases h
    · cases h
    · rename_i hgtc
      rw [if_neg fun hpos => hrests ⟨.inl hgtc, hpos⟩] at h
      cases h
    · rename_i hpost
      rw [if_neg fun hpos => hrests ⟨.inr hpost, hpos⟩] at h
      cases h

/-- What was filled of an allotted demand. -/
theorem fillTotal_allot {demand : Nat} (hkey : fills.map fillGiven = (allot entryQuantity demand entries).map givenOf) :
    fillTotal fills = min demand (supply entryQuantity entries) := by
  have hquantities := congrArg (List.map fun given : OrderId × PriceTicks × Nat => given.2.2) hkey
  rw [List.map_map, List.map_map] at hquantities
  rw [fillTotal, ← allot_total]
  exact congrArg List.sum hquantities

/-- Only a fill-or-kill order is refused for liquidity, and only when something
of it could not be filled; only a post-only order is refused for trading, and
only when the best opposing price crosses. -/
theorem submit_refusals {order : NewOrder} {capacity : Nat} {reason : RejectReason}
    (h : logical.submit L O order capacity = some (.error reason, logical')) :
    (reason = .insufficientLiquidity → order.timeInForce = .fok ∧
      (matchLevels order.side order.price (logical.levels order.side.opposite) order.quantity).1.val ≠ 0) ∧
    (reason = .postOnlyWouldTrade → order.timeInForce = .postOnly ∧
      logical.bestCrosses order.side order.price = true) := by
  unfold LogicalBook.submit at h
  split at h
  · cases h
    simp
  split at h
  · cases h
    simp
  split at h
  · cases h
    simp
  split at h
  · cases h
    simp
  split at h
  · rename_i hpassive
    cases h
    exact ⟨by simp, fun _ => hpassive⟩
  generalize matchLevels order.side order.price (logical.levels order.side.opposite) order.quantity = matched at h ⊢
  obtain ⟨remaining, makers, fills⟩ := matched
  simp only at h ⊢
  split at h
  · cases h
    simp
  cases hcheck : ModelBook.remainderCheck (logical.levels order.side) order remaining L O with
  | error refusal =>
      rw [hcheck] at h
      cases h
      rcases remainderCheck_error hcheck with ⟨rfl, hfok, hleft⟩ | rfl | rfl
      · exact ⟨fun _ => ⟨hfok, hleft⟩, by simp⟩
      · simp
      · simp
  | ok _ =>
      rw [hcheck] at h
      obtain ⟨_, _, heq⟩ := Option.map_eq_some_iff.mp h
      cases heq

end HftEngine
