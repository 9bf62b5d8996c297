/-
Module: HftEngine.Spec.LogicalBook
Layer: Spec
Purpose: What an order book is for, without storage: per side the resting
  orders by price in priority order and FIFO within a price. Matching, amending
  and cancelling are functions of these lists alone. The only trace of the
  implementation is `FitsIndex`: whether a set of order ids can be indexed with
  32-bit cell numbers, without which resting an order panics.
Imports: HftEngine.Core.Reference, HftEngine.Lib.TrackedTable
Trusted boundary: none (specification; connected to the code by
  `Proofs.BookRefinement`)
Main exports: LogicalBook, matchLevels, addOrder, removeOrder, setQuantity,
  reportOf, LogicalBook.submit, LogicalBook.replace, LogicalBook.cancel
-/
import HftEngine.Core.Reference
import HftEngine.Lib.TrackedTable

namespace HftEngine

open Machine

/-- The resting orders of one instrument, each side best price first. -/
@[ext]
structure LogicalBook where
  instrument : InstrumentId
  bids : ModelLevels
  asks : ModelLevels
deriving DecidableEq

/-- Whether a set of order ids can be indexed by a book of these capacities. -/
def FitsIndex (L O : Nat) (ids : OrderId → Prop) : Prop :=
  OpenAddressing.Fits (probeStart (L * O * orderIndexPlanes)) indexLimit Nat (L * O * orderIndexPlanes) ids

/-! ### Levels of one side -/

/-- The order of an id with its price: the first hit in priority order. -/
def findOrder (id : OrderId) : ModelLevels → Option (PriceTicks × ModelOrder)
  | [] => none
  | (price, queue) :: rest =>
      match queue.find? fun order => order.id = id with
      | some order => some (price, order)
      | none => findOrder id rest

/-- The levels without an order; a level that empties disappears. -/
def removeOrder (id : OrderId) : ModelLevels → ModelLevels
  | [] => []
  | (price, queue) :: rest =>
      if queue.any fun order => order.id = id then
        let queue := queue.eraseP fun order => order.id = id
        if queue.isEmpty then rest else (price, queue) :: rest
      else (price, queue) :: removeOrder id rest

/-- The levels with one order's quantity rewritten in place. -/
def setQuantity (id : OrderId) (quantity : Quantity) (levels : ModelLevels) : ModelLevels :=
  levels.map fun level =>
    (level.1, level.2.map fun order => if order.id = id then { order with quantity := quantity } else order)

/-- The levels with an order appended at its price, in a new level when the
price has none. -/
def addOrder (descending : Bool) (price : PriceTicks) (order : ModelOrder) : ModelLevels → ModelLevels
  | [] => [(price, [order])]
  | (listed, queue) :: rest =>
      if listed = price then (listed, queue ++ [order]) :: rest
      else if LevelIndex.precedes descending price listed then
        (listed, queue) :: addOrder descending price order rest
      else (price, [order]) :: (listed, queue) :: rest

/-- Trades against one queue from the front: what remains, the queue left and
the fills. -/
def matchQueue (price : PriceTicks) : List ModelOrder → Quantity →
    Quantity × List ModelOrder × List ModelFill
  | [], remaining => (remaining, [], [])
  | maker :: rest, remaining =>
      if remaining.val = 0 then (remaining, maker :: rest, [])
      else if remaining.val < maker.quantity.val then
        (0, { maker with quantity := satSub maker.quantity remaining } :: rest,
          [⟨maker.id, price, remaining⟩])
      else
        let (left, queue, fills) := matchQueue price rest (satSub remaining maker.quantity)
        (left, queue, ⟨maker.id, price, maker.quantity⟩ :: fills)

/-- Trades against the levels within the limit, best first. -/
def matchLevels (side : Side) (limit : PriceTicks) : ModelLevels → Quantity →
    Quantity × ModelLevels × List ModelFill
  | [], remaining => (remaining, [], [])
  | (price, queue) :: rest, remaining =>
      if remaining.val = 0 ∨ crosses side limit price = false then (remaining, (price, queue) :: rest, [])
      else
        let (left, queue, fills) := matchQueue price queue remaining
        let (left, rest, more) := matchLevels side limit rest left
        (left, if queue.isEmpty then rest else (price, queue) :: rest, fills ++ more)

/-! ### The book -/

/-- The execution report of a fill. -/
def reportOf (order : NewOrder) (fill : ModelFill) : ExecutionReport :=
  { makerOrderId := fill.makerOrderId
    takerOrderId := order.orderId
    instrumentId := order.instrumentId
    price := fill.price
    quantity := fill.quantity
    sequence := order.sequence }

namespace LogicalBook

/-- A book without orders. -/
def new (instrument : InstrumentId) : LogicalBook := ⟨instrument, [], []⟩

/-- The levels of a side, best first. -/
def levels (book : LogicalBook) : Side → ModelLevels
  | .buy => book.bids
  | .sell => book.asks

/-- The book with the levels of one side replaced. -/
def setLevels (book : LogicalBook) (side : Side) (levels : ModelLevels) : LogicalBook :=
  match side with
  | .buy => { book with bids := levels }
  | .sell => { book with asks := levels }

@[simp] theorem levels_setLevels {book : LogicalBook} {side side' : Side} {levels : ModelLevels} :
    (book.setLevels side levels).levels side' = if side = side' then levels else book.levels side' := by
  cases side <;> cases side' <;> rfl

@[simp] theorem instrument_setLevels {book : LogicalBook} {side : Side} {levels : ModelLevels} :
    (book.setLevels side levels).instrument = book.instrument := by
  cases side <;> rfl

/-- The resting orders with their side and price. -/
def orders (book : LogicalBook) : List (Side × PriceTicks × ModelOrder) :=
  (book.bids.flatMap fun level => level.2.map fun order => (.buy, level.1, order)) ++
    (book.asks.flatMap fun level => level.2.map fun order => (.sell, level.1, order))

/-- A resting order with its side and price. -/
def find (book : LogicalBook) (id : OrderId) : Option (Side × PriceTicks × ModelOrder) :=
  match findOrder id book.bids with
  | some (price, order) => some (.buy, price, order)
  | none => (findOrder id book.asks).map fun (price, order) => (.sell, price, order)

/-- An order with this id rests in the book. -/
def Holds (book : LogicalBook) (id : OrderId) : Prop := (book.find id).isSome

/-- Whether an order at this limit would trade at once. -/
def bestCrosses (book : LogicalBook) (side : Side) (limit : PriceTicks) : Bool :=
  (book.levels side.opposite).head?.any fun level => crosses side limit level.1

/-- Adds an order at its side and price. -/
def rest (book : LogicalBook) (side : Side) (price : PriceTicks) (order : ModelOrder) : LogicalBook :=
  book.setLevels side (addOrder side.descending price order (book.levels side))

/-- The book without an order; its level goes with it when it was the last one
there. -/
def remove (book : LogicalBook) (side : Side) (id : OrderId) : LogicalBook :=
  book.setLevels side (removeOrder id (book.levels side))

/-- What a submission reports, from what rested, what was discarded and the
fills. -/
def summary (order : NewOrder) (resting discarded : Quantity) (fills : List ModelFill) : MatchSummary :=
  let filled := satSub (satSub order.quantity resting) discarded
  ⟨OrderBook.orderStateOf filled order.quantity, filled, resting, discarded, fills.length⟩

/-- The order record of the unfilled remainder. -/
def remainder (order : NewOrder) (quantity : Quantity) : ModelOrder :=
  ⟨order.orderId, order.accountId, quantity, order.sequence⟩

open Classical in
/-- Rests the remainder of an order, when there is one. -/
noncomputable def restRemainder (L O : Nat) (book : LogicalBook) (order : NewOrder)
    (quantity : Quantity) : Option LogicalBook :=
  if quantity.val = 0 then some book
  else if FitsIndex L O fun id => id = order.orderId ∨ book.Holds id then
    some (book.rest order.side order.price (remainder order quantity))
  else none

/-- Matches an order and rests what remains, for a book of `L` levels a side
and `O` orders a level and `capacity` reports. -/
noncomputable def submit (L O : Nat) (book : LogicalBook) (order : NewOrder) (capacity : Nat) :
    Option (Except RejectReason (MatchSummary × List ModelFill) × LogicalBook) :=
  if order.instrumentId ≠ book.instrument then some (.error .invalidInstrument, book)
  else if order.price.val ≤ 0 then some (.error .invalidPrice, book)
  else if order.quantity.val = 0 then some (.error .invalidQuantity, book)
  else if (book.find order.orderId).isSome then some (.error .duplicateOrderId, book)
  else if order.timeInForce = .postOnly ∧ book.bestCrosses order.side order.price then
    some (.error .postOnlyWouldTrade, book)
  else
    let (remaining, makers, fills) :=
      matchLevels order.side order.price (book.levels order.side.opposite) order.quantity
    if capacity < fills.length then some (.error .reportCapacity, book)
    else
      match ModelBook.remainderCheck (book.levels order.side) order remaining L O with
      | .error reason => some (.error reason, book)
      | .ok () =>
          let resting := if order.timeInForce = .ioc then 0 else remaining
          let discarded := if order.timeInForce = .ioc then remaining else 0
          ((book.setLevels order.side.opposite makers).restRemainder L O order resting).map fun book =>
            (.ok (summary order resting discarded fills, fills), book)

/-- Crossing and capacity checks of an amend that loses priority. -/
def replaceChecks (L O : Nat) (book : LogicalBook) (replace : ReplaceOrder) (side : Side)
    (price : PriceTicks) : Except RejectReason Unit :=
  if replace.price ≠ price ∧ book.bestCrosses side replace.price then .error .replaceWouldCross
  else
    match (book.levels side).find? fun level => level.1 = replace.price with
    | some (_, queue) =>
        if queue.length = O ∧ replace.price ≠ price then .error .priceLevelOrderCapacity else .ok ()
    | none =>
        let alone := ((book.levels side).find? fun level => level.1 = price).any fun level =>
          level.2.length = 1
        if (book.levels side).length = L ∧ ¬alone then .error .priceLevelCapacity else .ok ()

/-- The order record of an amended order. -/
def amended (replace : ReplaceOrder) : ModelOrder :=
  ⟨replace.orderId, replace.accountId, replace.quantity, replace.sequence⟩

/-- Amends an owned order: a same-price reduction in place, anything else at
the destination's tail. -/
def replace (L O : Nat) (book : LogicalBook) (replace : ReplaceOrder) :
    Except RejectReason ReplacedOrder × LogicalBook :=
  if replace.instrumentId ≠ book.instrument then (.error .invalidInstrument, book)
  else
    match book.find replace.orderId with
    | none => (.error .unknownOrder, book)
    | some (side, price, old) =>
        if old.account ≠ replace.accountId then (.error .notOrderOwner, book)
        else if replace.price.val ≤ 0 then (.error .invalidPrice, book)
        else if replace.quantity.val = 0 then (.error .invalidQuantity, book)
        else if replace.price = price ∧ replace.quantity.val < old.quantity.val then
          (.ok (OrderBook.replacedOrder replace old.quantity false),
            book.setLevels side (setQuantity replace.orderId replace.quantity (book.levels side)))
        else
          match book.replaceChecks L O replace side price with
          | .error reason => (.error reason, book)
          | .ok () =>
              (.ok (OrderBook.replacedOrder replace old.quantity true),
                (book.remove side replace.orderId).rest side replace.price (amended replace))

/-- An owned cancel. -/
def cancel (book : LogicalBook) (cancel : CancelOrder) :
    Except RejectReason CancelledOrder × LogicalBook :=
  if cancel.instrumentId ≠ book.instrument then (.error .invalidInstrument, book)
  else
    match book.find cancel.orderId with
    | none => (.error .unknownOrder, book)
    | some (side, _, order) =>
        if order.account ≠ cancel.accountId then (.error .notOrderOwner, book)
        else (.ok ⟨order.id, order.account, order.quantity⟩, book.remove side cancel.orderId)

end LogicalBook

end HftEngine
