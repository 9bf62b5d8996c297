/-
Module: HftEngine.Core.Types
Layer: Core
Purpose: The shared vocabulary of the engine: identifiers, commands, rejection
  reasons, execution reports and the bounded report buffer.
Imports: HftEngine.Lib.Machine
Trusted boundary: translates the identifiers, commands, reasons and reports of
  the crate `hft-types`
Main exports: Side, TimeInForce, NewOrder, CancelOrder, ReplaceOrder, Command,
  RejectReason, ExecutionReport, MatchSummary, ReportBuffer
-/
import HftEngine.Lib.Machine

namespace HftEngine

/-- Order identifiers are chosen by the client and have to increase over a
session; zero is an id like any other. -/
abbrev OrderId := U64
abbrev AccountId := U32
abbrev InstrumentId := U32
/-- A price in ticks. It is signed in the source, so that a price below one is
a value that the checks refuse and not one that cannot be written. -/
abbrev PriceTicks := I64
abbrev Quantity := U64
/-- The number of a command in its session. The gateway expects them to go up
by exactly one. -/
abbrev SequenceNumber := U64

/-- Which way an order trades. -/
inductive Side where
  | buy
  | sell
deriving DecidableEq, Repr, Inhabited

/-- The side an order of this side trades against. -/
def Side.opposite : Side → Side
  | .buy => .sell
  | .sell => .buy

/-- What happens to the part of an order that does not trade at once: it rests,
is discarded, refuses the whole order beforehand, or is the only part the order
may have. -/
inductive TimeInForce where
  | gtc
  | ioc
  | fok
  | postOnly
deriving DecidableEq, Repr, Inhabited

/-- A request to trade up to `quantity` at `price` or better, in the layout of
the normalized command. -/
structure NewOrder where
  orderId : OrderId
  accountId : AccountId
  instrumentId : InstrumentId
  price : PriceTicks
  quantity : Quantity
  sequence : SequenceNumber
  side : Side
  timeInForce : TimeInForce
deriving DecidableEq, Repr

/-- Owned amend of a resting order: new price and new total quantity. -/
structure ReplaceOrder where
  orderId : OrderId
  accountId : AccountId
  instrumentId : InstrumentId
  sequence : SequenceNumber
  price : PriceTicks
  quantity : Quantity
deriving DecidableEq, Repr

/-- A request to take an order of the same account off the book. It says
nothing about the quantity that is left. -/
structure CancelOrder where
  orderId : OrderId
  accountId : AccountId
  instrumentId : InstrumentId
  sequence : SequenceNumber
deriving DecidableEq, Repr

/-- The normalized commands of a matching shard, as they come out of a frame
and as they are journaled. -/
inductive Command where
  | newOrder (order : NewOrder)
  | cancelOrder (cancel : CancelOrder)
  | replaceOrder (replace : ReplaceOrder)
deriving DecidableEq, Repr

def Command.sequence : Command → SequenceNumber
  | .newOrder order => order.sequence
  | .cancelOrder cancel => cancel.sequence
  | .replaceOrder replace => replace.sequence

/-- The instrument a command is addressed to, by which the router finds its
shard. -/
def Command.instrumentId : Command → InstrumentId
  | .newOrder order => order.instrumentId
  | .cancelOrder cancel => cancel.instrumentId
  | .replaceOrder replace => replace.instrumentId

/-- Why a command was refused. Risk engine and book share the list, so that a
reason alone does not say which of the two refused. -/
inductive RejectReason where
  | invalidInstrument
  | invalidPrice
  | invalidQuantity
  | quantityLimit
  | notionalLimit
  | positionLimit
  | openOrderLimit
  | priceCollar
  | duplicateOrderId
  | unknownOrder
  | notOrderOwner
  | killSwitch
  | unknownAccount
  | arithmeticOverflow
  | orderCapacity
  | priceLevelCapacity
  | priceLevelOrderCapacity
  | reportCapacity
  | insufficientLiquidity
  | postOnlyWouldTrade
  | replaceWouldCross
deriving DecidableEq, Repr

/-- What became of a submitted order as its summary reports it. -/
inductive OrderState where
  | accepted
  | partiallyFilled
  | filled
  | rejected (reason : RejectReason)
deriving DecidableEq, Repr

/-- One fill as it is reported: both orders, the price of the maker and the
sequence number of the taker. -/
structure ExecutionReport where
  makerOrderId : OrderId
  takerOrderId : OrderId
  instrumentId : InstrumentId
  price : PriceTicks
  quantity : Quantity
  sequence : SequenceNumber
deriving DecidableEq, Repr

/-- What a submission did. Filled, resting and discarded quantity add up to the
quantity of the order. -/
structure MatchSummary where
  state : OrderState
  filledQuantity : Quantity
  restingQuantity : Quantity
  /-- IOC remainder that crossed nothing and was discarded. -/
  discardedQuantity : Quantity
  reportCount : Nat
deriving DecidableEq, Repr

/-- The used prefix `entries[..len]` of a fixed buffer of `N` reports. -/
structure ReportBuffer (N : Nat) where
  entries : List ExecutionReport
  bounded : entries.length ≤ N
deriving DecidableEq, Repr

namespace ReportBuffer

variable {N : Nat}

/-- A buffer nobody has reported into yet. -/
def empty : ReportBuffer N := ⟨[], Nat.zero_le N⟩

def clear (_reports : ReportBuffer N) : ReportBuffer N := empty

def len (reports : ReportBuffer N) : Nat := reports.entries.length

/-- The room left for reports. A plan with more fills than this is refused
before the book changes. -/
def remainingCapacity (reports : ReportBuffer N) : Nat := N - reports.len

/-- Appends a report, or refuses it when all `N` entries are in use. -/
def push (reports : ReportBuffer N) (report : ExecutionReport) :
    Except RejectReason (ReportBuffer N) :=
  if h : reports.entries.length < N then
    .ok ⟨reports.entries ++ [report], by simpa using h⟩
  else
    .error .reportCapacity

@[simp] theorem entries_empty : (empty : ReportBuffer N).entries = [] := rfl

@[ext] theorem ext {first second : ReportBuffer N} (h : first.entries = second.entries) :
    first = second := by
  cases first
  cases second
  cases h
  rfl

end ReportBuffer

end HftEngine
