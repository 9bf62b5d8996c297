/-
Module: HftEngine.Core.Book
Layer: Core
Purpose: The single-instrument price-time order book: planning and applying a
  match, amending and cancelling resting orders. Functions that contain an
  `expect`, `unreachable!`, array index or subtraction return `none` where the
  source would panic.
Imports: HftEngine.Core.Level
Trusted boundary: translates `OrderBook::submit`, `replace` and `cancel` of the
  crate `hft-book`
Main exports: OrderBook, MatchPlan, OrderBook.submit, OrderBook.replace,
  OrderBook.cancel
-/
import HftEngine.Core.Level

namespace HftEngine

open Machine SlotArena

/-- What a cancel took off the book. -/
structure CancelledOrder where
  orderId : OrderId
  accountId : AccountId
  quantity : Quantity
deriving DecidableEq, Repr

/-- Outcome of an owned replace. `priorityLost` is false only for same-price
quantity reductions. -/
structure ReplacedOrder where
  orderId : OrderId
  accountId : AccountId
  oldQuantity : Quantity
  newQuantity : Quantity
  price : PriceTicks
  priorityLost : Bool
deriving DecidableEq, Repr

/-- A single planned fill: the maker's location and the traded quantity. -/
structure FillEntry where
  levelIndex : Nat
  slot : Nat
  orderId : OrderId
  price : PriceTicks
  quantity : Quantity
deriving DecidableEq, Repr

/-- The fills of one match, bounded by the report capacity available when it is
planned. -/
structure MatchPlan where
  fills : List FillEntry
  capacity : Nat
  makerSide : Side
  restingQuantity : Quantity
  discarded : Quantity
deriving DecidableEq, Repr

namespace MatchPlan

/-- A plan without fills. It has room for as many as both the plan and the
report buffer can take. -/
def new (fills : Nat) (makerSide : Side) (reportCapacity : Nat) : MatchPlan :=
  ⟨[], min reportCapacity fills, makerSide, 0, 0⟩

/-- Plans one more fill, or refuses the order when the reports would not
suffice. -/
def pushFill (plan : MatchPlan) (fill : FillEntry) : Except RejectReason MatchPlan :=
  if plan.capacity ≤ plan.fills.length then .error .reportCapacity
  else .ok { plan with fills := plan.fills ++ [fill] }

end MatchPlan

/-- Fixed-capacity book with `L` levels a side and `O` orders a level. -/
structure OrderBook (L O : Nat) where
  instrument : InstrumentId
  bids : Vector (Option (PriceLevel O)) L
  asks : Vector (Option (PriceLevel O)) L
  index : OrderIndex L O
  bidLevels : LevelIndex
  askLevels : LevelIndex
deriving DecidableEq

/-- Whether a resting price lies within the limit of an incoming order. -/
def crosses (side : Side) (limit resting : PriceTicks) : Bool :=
  match side with
  | .buy => decide (resting.val ≤ limit.val)
  | .sell => decide (limit.val ≤ resting.val)

/-- Bids sort by price descending, asks ascending. -/
def Side.descending (side : Side) : Bool := decide (side = .buy)

namespace OrderBook

variable {L O N : Nat}

/-- An empty book: every level slot is in the pool and the id index is
empty. -/
def new (instrument : InstrumentId) : OrderBook L O where
  instrument := instrument
  bids := Vector.replicate L none
  asks := Vector.replicate L none
  index := OrderIndex.new
  bidLevels := LevelIndex.new L
  askLevels := LevelIndex.new L

/-- The level array of a side, occupied and free slots alike. -/
def sideLevels (book : OrderBook L O) : Side → Vector (Option (PriceLevel O)) L
  | .buy => book.bids
  | .sell => book.asks

/-- The sorted level index of a side. -/
def sideIndex (book : OrderBook L O) : Side → LevelIndex
  | .buy => book.bidLevels
  | .sell => book.askLevels

def setSideIndex (book : OrderBook L O) (side : Side) (index : LevelIndex) : OrderBook L O :=
  match side with
  | .buy => { book with bidLevels := index }
  | .sell => { book with askLevels := index }

/-- The level stored in a level slot. -/
def getLevel (book : OrderBook L O) (side : Side) (levelIndex : Nat) : Option (PriceLevel O) :=
  (book.sideLevels side)[levelIndex]?.join

/-- Writes one level slot. The level index is left alone, so the caller keeps
the two in step. -/
def setLevel (book : OrderBook L O) (side : Side) (levelIndex : Nat) (level : Option (PriceLevel O)) :
    OrderBook L O :=
  match side with
  | .buy => { book with bids := book.bids.setIfInBounds levelIndex level }
  | .sell => { book with asks := book.asks.setIfInBounds levelIndex level }

/-- The live order at a location. -/
def liveOrder (book : OrderBook L O) (location : OrderLocation) : Option RestingOrder :=
  (book.getLevel location.side location.levelIndex).bind fun level => level.getLive location.slot

/-- Whether the id index knows an order. -/
def containsOrder (book : OrderBook L O) (orderId : OrderId) : Bool :=
  (book.index.location orderId).isSome

/-- Resolves an order id to its location and owner, failing closed when the
index entry is stale. -/
def locate (book : OrderBook L O) (orderId : OrderId) : Option (OrderLocation × AccountId) := do
  let location ← book.index.location orderId
  let order ← book.liveOrder location
  if order.id ≠ orderId then none else pure (location, order.accountId)

/-- The callback of an index removal: stores the new index slot of a relocated
order. -/
def updateReverseSlot (book : OrderBook L O)
    (move : OpenAddressing.Move OrderId OrderLocation indexLimit) : OrderBook L O :=
  match book.getLevel move.value.side move.value.levelIndex with
  | none => book
  | some level =>
      match level.getLive move.value.slot with
      | none => book
      | some resting =>
          if resting.id ≠ move.key then book
          else book.setLevel move.value.side move.value.levelIndex
            (some (level.setIndexSlot move.value.slot move.slot))

/-- Takes an id out of the index by its back-pointer and writes the new cells
of relocated entries back to their orders. -/
def removeIndexEntry (book : OrderBook L O) (indexSlot : U32) (orderId : OrderId) :
    Option (Option OrderLocation × OrderBook L O) := do
  let (removed, index, moves) ← book.index.removeAt indexSlot orderId
  pure (removed, moves.foldl updateReverseSlot { book with index := index })

/-- Empties a level slot and takes its price out of the level index. -/
def dropLevel (book : OrderBook L O) (side : Side) (levelIndex : Nat) (price : PriceTicks) :
    OrderBook L O :=
  let book := book.setLevel side levelIndex none
  match (book.sideIndex side).remove price side.descending with
  | none => book
  | some (_, index) => book.setSideIndex side index

/-- Stores a level after one of its orders left, or drops it when it became
empty. -/
def storeOrDrop (book : OrderBook L O) (side : Side) (levelIndex : Nat) (level : PriceLevel O) :
    OrderBook L O :=
  if level.len = 0 then book.dropLevel side levelIndex level.price
  else book.setLevel side levelIndex (some level)

/-- The level of `price`, created when the side has none yet. -/
def openLevel (book : OrderBook L O) (side : Side) (price : PriceTicks) :
    Option (Nat × OrderBook L O) :=
  match (book.sideIndex side).find price side.descending with
  | some levelIndex => some (levelIndex, book)
  | none => do
      let (levelIndex, index) ← (book.sideIndex side).insert price side.descending
      pure (levelIndex, (book.setSideIndex side index).setLevel side levelIndex
        (some (PriceLevel.new price)))

/-- Appends one already-validated resting order at the side tail and indexes
it. -/
def restAtTail (book : OrderBook L O) (side : Side) (price : PriceTicks) (resting : RestingOrder) :
    Option (OrderBook L O) := do
  let (levelIndex, book) ← book.openLevel side price
  let level ← book.getLevel side levelIndex
  let (slot, level) ← level.pushTail resting
  let (indexSlot, index) ← (book.index.insert resting.id ⟨side, levelIndex, slot⟩).toOption
  let _ ← level.getLive slot
  pure { book.setLevel side levelIndex (some (level.setIndexSlot slot indexSlot)) with index := index }

/-! ### Submitting an order -/

/-- The inner walk of the plan: the FIFO of one crossing level, while something
remains to fill. -/
def walkLevel (level : PriceLevel O) (levelIndex : Nat) (price : PriceTicks) :
    (fuel : Nat) → (cursor : Option Nat) → (remaining : Quantity) → MatchPlan →
      Option (Except RejectReason (Quantity × MatchPlan))
  | _, none, remaining, plan => some (.ok (remaining, plan))
  | 0, some _, remaining, plan => if remaining.val = 0 then some (.ok (remaining, plan)) else none
  | fuel + 1, some cursor, remaining, plan =>
      if remaining.val = 0 then some (.ok (remaining, plan))
      else
        match level.getLive cursor with
        | none => none
        | some maker =>
            let traded := minWord remaining maker.quantity
            match plan.pushFill ⟨levelIndex, cursor, maker.id, price, traded⟩ with
            | .error reason => some (.error reason)
            | .ok plan => walkLevel level levelIndex price fuel maker.next (satSub remaining traded) plan

/-- The outer walk: levels best to worst. The first level that does not cross
ends it. -/
def walkLevels (book : OrderBook L O) (order : NewOrder) :
    List (PriceTicks × Nat) → (remaining : Quantity) → MatchPlan →
      Option (Except RejectReason (Quantity × MatchPlan))
  | [], remaining, plan => some (.ok (remaining, plan))
  | (price, levelIndex) :: rest, remaining, plan =>
      if remaining.val = 0 then some (.ok (remaining, plan))
      else if !crosses order.side order.price price then some (.ok (remaining, plan))
      else
        match book.getLevel order.side.opposite levelIndex with
        | none => none
        | some level =>
            match walkLevel level levelIndex price O level.head remaining plan with
            | none => none
            | some (.error reason) => some (.error reason)
            | some (.ok (remaining, plan)) => walkLevels book order rest remaining plan

/-- Resting capacity preflight for the remainder of a GTC or post-only
order. -/
def restCapacity (book : OrderBook L O) (order : NewOrder) : Option (Except RejectReason Unit) :=
  match (book.sideIndex order.side).find order.price order.side.descending with
  | some levelIndex =>
      match book.getLevel order.side levelIndex with
      | none => none
      | some level =>
          if level.len = O then some (.error .priceLevelOrderCapacity) else some (.ok ())
  | none =>
      if (book.sideIndex order.side).isFull then some (.error .priceLevelCapacity) else some (.ok ())

/-- What happens to the unfilled remainder, by time in force. -/
def finishPlan (book : OrderBook L O) (order : NewOrder) (remaining : Quantity) (plan : MatchPlan) :
    Option (Except RejectReason MatchPlan) :=
  match order.timeInForce with
  | .fok =>
      if 0 < remaining.val then some (.error .insufficientLiquidity)
      else some (.ok { plan with restingQuantity := remaining, discarded := 0 })
  | .ioc => some (.ok { plan with restingQuantity := 0, discarded := remaining })
  | .gtc | .postOnly =>
      if 0 < remaining.val then
        match book.restCapacity order with
        | none => none
        | some (.error reason) => some (.error reason)
        | some (.ok ()) => some (.ok { plan with restingQuantity := remaining, discarded := 0 })
      else some (.ok { plan with restingQuantity := remaining, discarded := 0 })

/-- Whether the best opposing price crosses. The sorted index puts the best
level first. -/
def bestCrosses (book : OrderBook L O) (side : Side) (limit : PriceTicks) : Bool :=
  (book.sideIndex side.opposite).entries.head?.any fun entry => crosses side limit entry.1

/-- Walks crossing levels once, preflighting validation, duplicates, report
capacity and resting capacity against the unchanged book. -/
def buildPlan (book : OrderBook L O) (N : Nat) (order : NewOrder) (reportCapacity : Nat) :
    Option (Except RejectReason MatchPlan) :=
  if order.instrumentId ≠ book.instrument then some (.error .invalidInstrument)
  else if order.price.val ≤ 0 then some (.error .invalidPrice)
  else if order.quantity.val = 0 then some (.error .invalidQuantity)
  else if book.containsOrder order.orderId then some (.error .duplicateOrderId)
  else if order.timeInForce = .postOnly ∧ book.bestCrosses order.side order.price then
    some (.error .postOnlyWouldTrade)
  else
    match book.walkLevels order (book.sideIndex order.side.opposite).entries order.quantity
      (MatchPlan.new N order.side.opposite reportCapacity) with
    | none => none
    | some (.error reason) => some (.error reason)
    | some (.ok (remaining, plan)) => book.finishPlan order remaining plan

/-- Executes one planned fill and emits its report. -/
def applyFill (book : OrderBook L O) (order : NewOrder) (makerSide : Side) (fill : FillEntry)
    (reports : ReportBuffer N) : Option (OrderBook L O × ReportBuffer N) := do
  let level ← book.getLevel makerSide fill.levelIndex
  let maker ← level.getLive fill.slot
  let reports ← (reports.push
    { makerOrderId := fill.orderId
      takerOrderId := order.orderId
      instrumentId := order.instrumentId
      price := fill.price
      quantity := fill.quantity
      sequence := order.sequence }).toOption
  if maker.quantity = fill.quantity then
    let (_, book) ← book.removeIndexEntry maker.indexSlot fill.orderId
    let level ← book.getLevel makerSide fill.levelIndex
    let (_, level) ← level.unlink fill.slot
    pure (book.storeOrDrop makerSide fill.levelIndex level, reports)
  else
    let level ← level.reduceQuantity fill.slot fill.quantity
    pure (book.setLevel makerSide fill.levelIndex (some level), reports)

/-- Executes the planned fills in order. -/
def applyFills (order : NewOrder) (makerSide : Side) :
    List FillEntry → OrderBook L O → ReportBuffer N → Option (OrderBook L O × ReportBuffer N)
  | [], book, reports => some (book, reports)
  | fill :: rest, book, reports => do
      let (book, reports) ← book.applyFill order makerSide fill reports
      applyFills order makerSide rest book reports

/-- Lets a remainder rest at the tail of its price, opening the level when
there is none. -/
def rest (book : OrderBook L O) (order : NewOrder) (quantity : Quantity) : Option (OrderBook L O) :=
  book.restAtTail order.side order.price
    { id := order.orderId
      accountId := order.accountId
      indexSlot := 0
      quantity := quantity
      sequence := order.sequence
      prev := none
      next := none }

/-- Executes the fills of a plan. Every step was checked when the plan was
made, so what fails here is a panic. -/
def applyPlan (book : OrderBook L O) (order : NewOrder) (plan : MatchPlan) (reports : ReportBuffer N) :
    Option (OrderBook L O × ReportBuffer N) := do
  let (book, reports) ← applyFills order plan.makerSide plan.fills book reports
  if 0 < plan.restingQuantity.val then
    let book ← book.rest order plan.restingQuantity
    pure (book, reports)
  else
    pure (book, reports)

/-- The state of an order of which `filled` out of `quantity` was executed. -/
def orderStateOf (filled quantity : Quantity) : OrderState :=
  if filled = quantity then .filled
  else if filled.val = 0 then .accepted
  else .partiallyFilled

/-- Plans the match of an order and then applies it. Whatever can refuse the
order refuses it before the book changes. -/
def submit (book : OrderBook L O) (order : NewOrder) (reports : ReportBuffer N) :
    Option (Except RejectReason MatchSummary × OrderBook L O × ReportBuffer N) :=
  match book.buildPlan N order reports.remainingCapacity with
  | none => none
  | some (.error reason) => some (.error reason, book, reports)
  | some (.ok plan) => do
      let (book', reports') ← book.applyPlan order plan reports
      let traded ← checkedSub order.quantity plan.restingQuantity
      let filled ← checkedSub traded plan.discarded
      let reportCount ← guardedSub reports'.len reports.len
      pure (.ok
        { state := orderStateOf filled order.quantity
          filledQuantity := filled
          restingQuantity := plan.restingQuantity
          discardedQuantity := plan.discarded
          reportCount := reportCount }, book', reports')

/-! ### Amending and cancelling -/

/-- Destination capacity preflight against the unchanged book. -/
def replaceCapacity (book : OrderBook L O) (replace : ReplaceOrder) (location : OrderLocation)
    (oldPrice : PriceTicks) : Option (Except RejectReason Unit) :=
  match (book.sideIndex location.side).find replace.price location.side.descending with
  | some levelIndex => do
      let level ← book.getLevel location.side levelIndex
      let sameLevel := levelIndex = location.levelIndex ∧ replace.price = oldPrice
      if level.len = O ∧ ¬sameLevel then pure (.error .priceLevelOrderCapacity) else pure (.ok ())
  | none => do
      let source ← book.getLevel location.side location.levelIndex
      let freeLevels ← guardedSub L (book.sideIndex location.side).entries.length
      if freeLevels = 0 ∧ ¬source.len = 1 then pure (.error .priceLevelCapacity) else pure (.ok ())

/-- Crossing and capacity checks of a replace that loses priority: a repriced
order must not cross the opposing best. -/
def replaceChecks (book : OrderBook L O) (replace : ReplaceOrder) (location : OrderLocation)
    (oldPrice : PriceTicks) : Option (Except RejectReason Unit) :=
  if replace.price ≠ oldPrice ∧ book.bestCrosses location.side replace.price then
    some (.error .replaceWouldCross)
  else book.replaceCapacity replace location oldPrice

/-- Unlinks the order and re-adds it at the destination tail, dropping an
emptied source level. -/
def moveOrder (book : OrderBook L O) (replace : ReplaceOrder) (location : OrderLocation) :
    Option (OrderBook L O) := do
  let level ← book.getLevel location.side location.levelIndex
  let (removed, level) ← level.unlink location.slot
  let book := book.storeOrDrop location.side location.levelIndex level
  let (_, book) ← book.removeIndexEntry removed.indexSlot replace.orderId
  book.restAtTail location.side replace.price
    { id := replace.orderId
      accountId := replace.accountId
      indexSlot := 0
      quantity := replace.quantity
      sequence := replace.sequence
      prev := none
      next := none }

/-- The outcome of an amend. -/
def replacedOrder (replace : ReplaceOrder) (oldQuantity : Quantity) (priorityLost : Bool) :
    ReplacedOrder where
  orderId := replace.orderId
  accountId := replace.accountId
  oldQuantity := oldQuantity
  newQuantity := replace.quantity
  price := replace.price
  priorityLost := priorityLost

/-- Amends an owned resting order. A same-price quantity reduction keeps its
slot and FIFO priority; any price change or quantity increase loses priority
and re-enters at the destination tail. -/
def replace (book : OrderBook L O) (replace : ReplaceOrder) :
    Option (Except RejectReason ReplacedOrder × OrderBook L O) :=
  if replace.instrumentId ≠ book.instrument then some (.error .invalidInstrument, book)
  else
    match book.locate replace.orderId with
    | none => some (.error .unknownOrder, book)
    | some (location, owner) =>
        if owner ≠ replace.accountId then some (.error .notOrderOwner, book)
        else if replace.price.val ≤ 0 then some (.error .invalidPrice, book)
        else if replace.quantity.val = 0 then some (.error .invalidQuantity, book)
        else do
          let level ← book.getLevel location.side location.levelIndex
          let old ← level.getLive location.slot
          if replace.price = level.price ∧ replace.quantity.val < old.quantity.val then
            let level ← level.reduceQuantity location.slot (satSub old.quantity replace.quantity)
            pure (.ok (replacedOrder replace old.quantity false),
              book.setLevel location.side location.levelIndex (some level))
          else
            match ← book.replaceChecks replace location level.price with
            | .error reason => pure (.error reason, book)
            | .ok () =>
                let book ← book.moveOrder replace location
                pure (.ok (replacedOrder replace old.quantity true), book)

/-- Removes an owned resting order while retaining FIFO order for all peers. -/
def cancel (book : OrderBook L O) (cancel : CancelOrder) :
    Option (Except RejectReason CancelledOrder × OrderBook L O) :=
  if cancel.instrumentId ≠ book.instrument then some (.error .invalidInstrument, book)
  else
    match book.locate cancel.orderId with
    | none => some (.error .unknownOrder, book)
    | some (location, owner) =>
        if owner ≠ cancel.accountId then some (.error .notOrderOwner, book)
        else do
          let level ← book.getLevel location.side location.levelIndex
          let (removed, level) ← level.unlink location.slot
          let book := book.storeOrDrop location.side location.levelIndex level
          let (_, book) ← book.removeIndexEntry removed.indexSlot cancel.orderId
          pure (.ok ⟨removed.id, removed.accountId, removed.quantity⟩, book)

end OrderBook

end HftEngine
