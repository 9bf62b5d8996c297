/-
Module: HftEngine.Core.SoakRouted
Layer: Core
Purpose: The table of live orders the routed soak scenario keeps for every
  shard. It is driven by the commands and their event batches alone: an order
  is entered when its remainder rests, taken down by trades, amended and
  removed, and every identity, quantity, price and top of the book in the
  events is compared with the table.
Imports: HftEngine.Core.Sharding, HftEngine.Core.SoakEvents
Trusted boundary: translates `LiveOrders` and its callers in the module
  `routed` of the crate `hft-soak`
Main exports: RoutedError, LiveOrder, LiveOrders, validateAccepted,
  LiveOrders.top, LiveOrders.applyTrades, LiveOrders.apply, LiveOrders.validate
-/
import HftEngine.Core.Sharding
import HftEngine.Core.SoakEvents

namespace HftEngine.Soak

open Machine

/-- What the routed scenario can report. A step that fails names its command
and the cause. -/
inductive RoutedError where
  | setup
  | sequenceExhausted
  | unexpectedRouter (error : RouterError)
  | unexpectedShard (error : ShardError)
  | wrongShard
  | missingEventBatch
  | extraEventBatch
  | stateChangedOnRejection
  | liveOrders
  | event (error : EventValidationError)
  | eventContents (name : String)
  | atStep (step : U64) (command : Command) (cause : RoutedError)
deriving DecidableEq, Repr

/-! ### Live orders -/

/-- An order the table believes to be resting, as far as events speak of it. -/
structure LiveOrder where
  orderId : OrderId
  accountId : AccountId
  price : PriceTicks
  quantity : Quantity
  side : Side
deriving DecidableEq, Repr

/-- A table of at most `K` live orders. -/
structure LiveOrders (K : Nat) where
  orders : Vector (Option LiveOrder) K
deriving DecidableEq

/-- The accounting, the state and the time in force of an accepted order. -/
def validateAccepted (event : Events.Accepted) (order : NewOrder) (tradedQuantity : U64) : Except RoutedError Unit :=
  let total := do
    let placed ← checkedAdd event.filledQuantity event.restingQuantity
    checkedAdd placed event.discardedQuantity
  if order.quantity.val = 0 ∨ total ≠ some order.quantity ∨ event.filledQuantity ≠ tradedQuantity then
    .error (.eventContents "accepted quantity accounting")
  else
    let expected : OrderState :=
      if event.filledQuantity = order.quantity then .filled
      else if event.filledQuantity.val = 0 then .accepted
      else .partiallyFilled
    if event.state ≠ expected then .error (.eventContents "accepted order state")
    else
      let validTif := match order.timeInForce with
        | .gtc => decide (event.discardedQuantity.val = 0)
        | .ioc => decide (event.restingQuantity.val = 0)
        | .fok => decide (event.filledQuantity = order.quantity)
        | .postOnly => decide (event.filledQuantity.val = 0 ∧ event.restingQuantity = order.quantity)
      if validTif then .ok () else .error (.eventContents "accepted time in force")

/-- What a command asks for, as its rejection names it. -/
def rejectedIdentity : Command → CommandKind × OrderId × AccountId
  | .newOrder order => (.newOrder, order.orderId, order.accountId)
  | .cancelOrder cancel => (.cancel, cancel.orderId, cancel.accountId)
  | .replaceOrder replace => (.replace, replace.orderId, replace.accountId)

/-- Whether a price ranks behind the best one. -/
def isWorse (side : Side) (best price : PriceTicks) : Bool :=
  match side with
  | .buy => decide (price.val < best.val)
  | .sell => decide (best.val < price.val)

/-- The top of a side with one more order: better prices replace it, equal ones
join it. -/
def topStep (side : Side) (top : Option TopLevel) (order : LiveOrder) : Option TopLevel :=
  match top with
  | none => some ⟨order.price, order.quantity.val, 1⟩
  | some level =>
      if level.price = order.price then
        some { level with
          aggregateQuantity := level.aggregateQuantity + order.quantity.val
          orderCount := level.orderCount + 1 }
      else
        if isWorse side level.price order.price then some level else some ⟨order.price, order.quantity.val, 1⟩

/-- Whether a trade price is within the taker's limit. -/
def tradeCrosses (taker : NewOrder) (price : PriceTicks) : Bool :=
  match taker.side with
  | .buy => decide (price.val ≤ taker.price.val)
  | .sell => decide (taker.price.val ≤ price.val)

namespace LiveOrders

variable {K : Nat}

def new : LiveOrders K := ⟨Vector.replicate K none⟩

/-- The orders of the table, in slot order. -/
def flatten (live : LiveOrders K) : List LiveOrder := live.orders.toList.reduceOption

def len (live : LiveOrders K) : Nat := live.flatten.length

/-- Writes one entry of the table. -/
def setSlot (live : LiveOrders K) (index : Nat) (order : Option LiveOrder) : LiveOrders K :=
  ⟨live.orders.setIfInBounds index order⟩

/-- The slot of an order id with its order. -/
def slot (live : LiveOrders K) (orderId : OrderId) : Except RoutedError (Nat × LiveOrder) :=
  match live.orders.toList.findIdx? fun slot => slot.any fun order => decide (order.orderId = orderId) with
  | none => .error .liveOrders
  | some index =>
      match live.orders.toList[index]? with
      | some (some order) => .ok (index, order)
      | _ => .error .liveOrders

/-- The best price of a side with its quantity total and order count. -/
def top (live : LiveOrders K) (side : Side) : Option TopLevel :=
  (live.flatten.filter fun order => order.side = side).foldl (topStep side) none

/-- The best levels of both sides of the table, as the events should report
them. -/
def tops (live : LiveOrders K) : Tops := (live.top .buy, live.top .sell)

/-- One trade takes its maker down and adds to the traded quantity. -/
def applyTrade (command : Command) (traded : U64) (live : LiveOrders K) (trade : Events.Trade) :
    Except RoutedError (U64 × LiveOrders K) :=
  match command with
  | .newOrder taker =>
      if trade.takerOrderId ≠ taker.orderId ∨ trade.quantity.val = 0 then
        .error (.eventContents "trade taker or quantity")
      else
        match live.slot trade.makerOrderId with
        | .error error => .error error
        | .ok (index, order) =>
            if order.side = taker.side ∨ trade.price ≠ order.price ∨ tradeCrosses taker trade.price = false then
              .error (.eventContents "trade maker or price")
            else
              match checkedAdd traded trade.quantity with
              | none => .error (.eventContents "trade quantity overflow")
              | some traded =>
                  match checkedSub order.quantity trade.quantity with
                  | none => .error .liveOrders
                  | some quantity =>
                      let left := if quantity.val = 0 then none else some { order with quantity := quantity }
                      .ok (traded, live.setSlot index left)
  | .cancelOrder _ | .replaceOrder _ => .error (.eventContents "trade command kind")

/-- The trades of a batch, in order; other events are passed over. -/
def applyTrades (command : Command) : U64 → LiveOrders K → List Event → Except RoutedError (U64 × LiveOrders K)
  | traded, live, [] => .ok (traded, live)
  | traded, live, .trade trade :: rest =>
      match live.applyTrade command traded trade with
      | .error error => .error error
      | .ok (traded, live) => applyTrades command traded live rest
  | traded, live, _ :: rest => applyTrades command traded live rest

/-- Enters the remainder of an accepted order. -/
def applyAccepted (live : LiveOrders K) (event : Events.Accepted) (order : NewOrder) (traded : U64) :
    Except RoutedError (LiveOrders K) :=
  match validateAccepted event order traded with
  | .error error => .error error
  | .ok () =>
      if event.restingQuantity.val = 0 then .ok live
      else if live.flatten.any fun other => other.orderId = order.orderId then .error .liveOrders
      else
        match live.orders.toList.findIdx? Option.isNone with
        | none => .error .liveOrders
        | some index =>
            .ok (live.setSlot index
              (some ⟨order.orderId, order.accountId, order.price, event.restingQuantity, order.side⟩))

/-- Removes a cancelled order. -/
def applyCancelled (live : LiveOrders K) (event : Events.Cancelled) : Except RoutedError (LiveOrders K) :=
  match live.slot event.orderId with
  | .error error => .error error
  | .ok (index, order) =>
      if order.accountId ≠ event.accountId ∨ order.quantity ≠ event.quantity then .error .liveOrders
      else .ok (live.setSlot index none)

/-- Amends an order; priority is kept by a reduction at the same price only. -/
def applyReplaced (live : LiveOrders K) (event : Events.Replaced) (replace : ReplaceOrder) :
    Except RoutedError (LiveOrders K) :=
  match live.slot event.orderId with
  | .error error => .error error
  | .ok (index, order) =>
      let reduces := decide (replace.price = order.price ∧ replace.quantity.val < order.quantity.val)
      if order.accountId ≠ event.accountId ∨ order.quantity ≠ event.oldQuantity ∨
          replace.quantity ≠ event.newQuantity ∨ replace.price ≠ event.price ∨ event.newQuantity.val = 0 ∨
          event.priorityLost = reduces then .error .liveOrders
      else .ok (live.setSlot index (some { order with quantity := event.newQuantity, price := event.price }))

/-- The first event of a batch, which must answer the command. -/
def applyTerminal (live : LiveOrders K) (first : Option Event) (command : Command) (traded : U64) :
    Except RoutedError (LiveOrders K) :=
  match first, command with
  | some (.accepted event), .newOrder order =>
      if event.orderId = order.orderId ∧ event.accountId = order.accountId then live.applyAccepted event order traded
      else .error .liveOrders
  | some (.cancelled event), .cancelOrder cancel =>
      if event.orderId = cancel.orderId ∧ event.accountId = cancel.accountId then live.applyCancelled event
      else .error .liveOrders
  | some (.replaced event), .replaceOrder replace =>
      if event.orderId = replace.orderId ∧ event.accountId = replace.accountId then live.applyReplaced event replace
      else .error .liveOrders
  | some (.rejected event), command =>
      if (event.command, event.orderId, event.accountId) ≠ rejectedIdentity command then
        .error (.eventContents "rejected command identity")
      else .ok live
  | _, _ => .error .liveOrders

/-- The last event against the tops before and after the batch. -/
def checkTops (last : Option Event) (before after : Tops) : Except RoutedError Unit :=
  match last with
  | some (.topOfBook event) =>
      if before = after then .error (.eventContents "unchanged top of book")
      else if (event.bid, event.ask) ≠ after then .error (.eventContents "top of book payload")
      else .ok ()
  | _ => if before = after then .ok () else .error (.eventContents "missing top of book")

/-- Takes one batch in: its summary and the table after it. -/
def apply {B : Nat} (live : LiveOrders K) (batch : EventBatch B) (command : Command) :
    Except RoutedError (EventSummary × LiveOrders K) :=
  match validateBatch batch command.instrumentId command.sequence with
  | .error error => .error (.event error)
  | .ok summary =>
      match live.applyTrades command 0 batch.events with
      | .error error => .error error
      | .ok (traded, matched) =>
          match matched.applyTerminal batch.events.head? command traded with
          | .error error => .error error
          | .ok next =>
              match checkTops batch.events.getLast? live.tops next.tops with
              | .error error => .error error
              | .ok () => .ok (summary, next)

/-- Whether the table lists an exported order. -/
def lists (live : LiveOrders K) (order : BookOrderState) : Bool :=
  live.flatten.any fun other =>
    decide (other.orderId = order.orderId ∧ other.accountId = order.accountId ∧ other.price = order.price ∧
      other.quantity = order.quantity ∧ other.side = order.side)

/-- Compares the table with the exported book. -/
def validate {A R L O : Nat} (live : LiveOrders K) (gateway : Gateway A R L O) : Except RoutedError Unit :=
  let orders := gateway.exportState.book.orders
  if orders.all live.lists then if orders.length ≠ live.len then .error .liveOrders else .ok ()
  else .error .liveOrders

end LiveOrders

end HftEngine.Soak
