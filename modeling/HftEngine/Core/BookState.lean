/-
Module: HftEngine.Core.BookState
Layer: Core
Purpose: The canonical logical state of a book: export in priority order with
  canonical padding, validation, and restoring a book from it.
Imports: HftEngine.Core.Book
Trusted boundary: translates `OrderBook::export_state`, `validate_state` and
  `from_state` of the crate `hft-book`
Main exports: BookOrderState, BookLevelState, BookState, OrderBook.exportState,
  OrderBook.fromState
-/
import HftEngine.Core.Book

namespace HftEngine

open Machine SlotArena

/-- A resting order as data: no links, no slots, and its side and price with
it. -/
structure BookOrderState where
  orderId : OrderId
  accountId : AccountId
  side : Side
  price : PriceTicks
  quantity : Quantity
  sequence : SequenceNumber
deriving DecidableEq, Repr

/-- The padding value of unused order entries. -/
def emptyBookOrderState : BookOrderState := ⟨0, 0, .buy, i64 0, 0, 0⟩

/-- A level as data: the orders in use in FIFO order, then padding. -/
structure BookLevelState (O : Nat) where
  side : Side
  price : PriceTicks
  orderCount : Nat
  orders : Vector BookOrderState O
deriving DecidableEq, Repr

/-- The padding value of unused level entries. -/
def emptyBookLevelState (O : Nat) : BookLevelState O :=
  ⟨.buy, i64 0, 0, Vector.replicate O emptyBookOrderState⟩

/-- A book as data, in the fixed arrays of the source with the counts of the
entries in use. -/
structure BookState (L O : Nat) where
  instrument : InstrumentId
  bidLevelCount : Nat
  bids : Vector (BookLevelState O) L
  askLevelCount : Nat
  asks : Vector (BookLevelState O) L
deriving DecidableEq, Repr

/-- Why a state is not the state of a book. -/
inductive BookStateError where
  | instrument
  | levelCapacity
  | orderCapacity
  | side
  | price
  | quantity
  | sequence
  | levelOrder
  | duplicateOrderId
  | crossed
  | nonCanonical
deriving DecidableEq, Repr

/-- A list written into the front of a fixed array whose rest holds the padding
value. -/
def padTo {α : Type} (n : Nat) (padding : α) (items : List α) : Vector α n :=
  Vector.ofFn fun i => items.getD i.val padding

/-- The entries in use: `items[..count]`. -/
def activePart {α : Type} {n : Nat} (items : Vector α n) (count : Nat) : List α := items.toList.take count

/-- The padding: `items[count..]`. -/
def paddingPart {α : Type} {n : Nat} (items : Vector α n) (count : Nat) : List α := items.toList.drop count

namespace BookLevelState

variable {O : Nat}

/-- The orders in use, in FIFO order. -/
def active (level : BookLevelState O) : List BookOrderState := activePart level.orders level.orderCount

end BookLevelState

namespace BookState

variable {L O : Nat}

/-- The bid levels in use, best first. -/
def activeBids (state : BookState L O) : List (BookLevelState O) := activePart state.bids state.bidLevelCount

/-- The ask levels in use, best first. -/
def activeAsks (state : BookState L O) : List (BookLevelState O) := activePart state.asks state.askLevelCount

/-- All orders of the state: bids then asks, best level first, FIFO within a
level. -/
def orders (state : BookState L O) : List BookOrderState :=
  (state.activeBids ++ state.activeAsks).flatMap BookLevelState.active

end BookState

namespace OrderBook

variable {L O : Nat}

/-! ### Export -/

/-- A resting order without its links and its index slot. -/
def exportOrder (side : Side) (price : PriceTicks) (order : RestingOrder) : BookOrderState :=
  ⟨order.id, order.accountId, side, price, order.quantity, order.sequence⟩

/-- A level with its live orders at the front of the array. -/
def exportLevel (side : Side) (price : PriceTicks) (level : PriceLevel O) : BookLevelState O :=
  let orders := level.liveOrders.map (exportOrder side price)
  ⟨side, price, orders.length, padTo O emptyBookOrderState orders⟩

/-- The levels of one side, best first; an indexed but empty level slot would
be skipped. -/
def exportSide (book : OrderBook L O) (side : Side) : List (BookLevelState O) :=
  (book.sideIndex side).entries.filterMap fun entry =>
    (book.getLevel side entry.2).map (exportLevel side entry.1)

/-- The state of a book. Two books with the same orders and priorities have the
same state, whatever slots they use. -/
def exportState (book : OrderBook L O) : BookState L O where
  instrument := book.instrument
  bidLevelCount := (book.exportSide .buy).length
  bids := padTo L (emptyBookLevelState O) (book.exportSide .buy)
  askLevelCount := (book.exportSide .sell).length
  asks := padTo L (emptyBookLevelState O) (book.exportSide .sell)

/-! ### Validation -/

/-- Whether a level sorts after the previous one of its side. -/
def levelOrdered (side : Side) (prior price : PriceTicks) : Bool :=
  match side with
  | .buy => decide (price.val < prior.val)
  | .sell => decide (prior.val < price.val)

/-- Checks the orders in use of one level against its side and price. -/
def validateOrders (side : Side) (price : PriceTicks) :
    List BookOrderState → Except BookStateError Unit
  | [] => .ok ()
  | order :: rest =>
      if order.side ≠ side then .error .side
      else if order.price ≠ price then .error .price
      else if order.quantity.val = 0 then .error .quantity
      else if order.sequence.val = 0 then .error .sequence
      else validateOrders side price rest

/-- One level: its side and price, its count, its place after the previous
level, its orders, their sequence numbers and the padding behind them. -/
def validateLevel (side : Side) (prior : Option PriceTicks) (level : BookLevelState O) :
    Except BookStateError Unit :=
  if level.side ≠ side then .error .side
  else if level.price.val ≤ 0 then .error .price
  else if level.orderCount = 0 ∨ O < level.orderCount then .error .orderCapacity
  else if prior.any fun prior => !levelOrdered side prior level.price then .error .levelOrder
  else do
    validateOrders side level.price level.active
    if ¬level.active.IsChain (fun first second => first.sequence.val < second.sequence.val) then
      .error .sequence
    else if (paddingPart level.orders level.orderCount).any (· ≠ emptyBookOrderState) then
      .error .nonCanonical
    else .ok ()

/-- The levels of a side in turn, each against the price of the one before
it. -/
def validateSide (side : Side) : Option PriceTicks → List (BookLevelState O) → Except BookStateError Unit
  | _, [] => .ok ()
  | prior, level :: rest => do
      validateLevel side prior level
      validateSide side (some level.price) rest

/-- No id and no sequence number stands twice in the whole state. The source
compares every order with every other one. -/
def validateUniqueIds (state : BookState L O) : List BookOrderState → Except BookStateError Unit
  | [] => .ok ()
  | order :: rest =>
      if (state.orders.filter (·.orderId = order.orderId)).length ≠ 1 then .error .duplicateOrderId
      else if (state.orders.filter (·.sequence = order.sequence)).length ≠ 1 then .error .sequence
      else validateUniqueIds state rest

/-- Best bid at or above best ask. -/
def crossedState (state : BookState L O) : Bool :=
  match state.activeBids.head?, state.activeAsks.head? with
  | some bid, some ask => decide (ask.price.val ≤ bid.price.val)
  | _, _ => false

/-- All checks of a state: both sides, the padding behind them, that the best
prices do not cross, and uniqueness over both sides. -/
def validateState (state : BookState L O) : Except BookStateError Unit :=
  if L < state.bidLevelCount ∨ L < state.askLevelCount then .error .levelCapacity
  else do
    validateSide .buy none state.activeBids
    validateSide .sell none state.activeAsks
    if (paddingPart state.bids state.bidLevelCount ++ paddingPart state.asks state.askLevelCount).any
        (· ≠ emptyBookLevelState O) then .error .nonCanonical
    else if crossedState state then .error .crossed
    else validateUniqueIds state state.orders

/-! ### Restore -/

/-- Appends one order of a restored level and indexes it. -/
def restoreOrder (side : Side) (levelIndex : Nat) (book : OrderBook L O) (order : BookOrderState) :
    Except BookStateError (OrderBook L O) :=
  let resting : RestingOrder :=
    { id := order.orderId
      accountId := order.accountId
      indexSlot := 0
      quantity := order.quantity
      sequence := order.sequence
      prev := none
      next := none }
  match (book.getLevel side levelIndex).bind (·.pushTail resting) with
  | none => .error .orderCapacity
  | some (slot, level) =>
      match book.index.insert order.orderId ⟨side, levelIndex, slot⟩ with
      | .error _ => .error .duplicateOrderId
      | .ok (indexSlot, index) =>
          match level.getLive slot with
          | none => .error .orderCapacity
          | some _ =>
              .ok { book.setLevel side levelIndex (some (level.setIndexSlot slot indexSlot)) with
                index := index }

/-- The orders of a level, appended in the order of the state. -/
def restoreOrders (side : Side) (levelIndex : Nat) :
    List BookOrderState → OrderBook L O → Except BookStateError (OrderBook L O)
  | [], book => .ok book
  | order :: rest, book => do
      let book ← restoreOrder side levelIndex book order
      restoreOrders side levelIndex rest book

/-- Opens a level at its price and appends its orders. -/
def restoreLevel (book : OrderBook L O) (state : BookLevelState O) :
    Except BookStateError (OrderBook L O) :=
  match (book.sideIndex state.side).insert state.price state.side.descending with
  | none => .error .levelCapacity
  | some (levelIndex, index) =>
      let book := (book.setSideIndex state.side index).setLevel state.side levelIndex
        (some (PriceLevel.new state.price))
      restoreOrders state.side levelIndex state.active book

/-- The levels of both sides, bids first. -/
def restoreLevels : List (BookLevelState O) → OrderBook L O → Except BookStateError (OrderBook L O)
  | [], book => .ok book
  | level :: rest, book => do
      let book ← book.restoreLevel level
      restoreLevels rest book

/-- Builds a book from canonical logical state. The returned book is either
complete or absent. -/
def fromState (instrument : InstrumentId) (state : BookState L O) :
    Except BookStateError (OrderBook L O) :=
  if state.instrument ≠ instrument then .error .instrument
  else do
    validateState state
    restoreLevels (state.activeBids ++ state.activeAsks) (OrderBook.new instrument)

end OrderBook

end HftEngine
