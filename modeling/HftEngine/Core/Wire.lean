/-
Module: HftEngine.Core.Wire
Layer: Core
Purpose: The fixed-layout wire messages: parsing of a received frame into a
  borrowed message, the typed reads of its fields, and the encoders. A frame is
  its list of bytes.
Imports: HftEngine.Core.Types, HftEngine.Lib.Bytes
Trusted boundary: translates `parse_message`, the borrowed messages and the
  encoders of the crate `hft-wire`
Main exports: ParseError, BorrowedMessage, parseMessage,
  BorrowedMessage.toCommand, encodeCommand
-/
import HftEngine.Core.Types
import HftEngine.Lib.Bytes

namespace HftEngine

open Bytes

/-- The one version of the protocol; it stands in the first byte of every
frame. -/
def protocolVersion : U8 := 2
/-- The kind of a message stands in its second byte, and each kind has one
length. -/
def newOrderType : U8 := 1
def cancelOrderType : U8 := 2
def replaceOrderType : U8 := 3
def newOrderLen : Nat := 46
def cancelOrderLen : Nat := 28
def replaceOrderLen : Nat := 44

/-- Why a frame was refused. The parser stops at the first reason it finds. -/
inductive ParseError where
  | truncatedHeader
  | unsupportedVersion
  | unknownMessageType
  | invalidLength
  | invalidSide
  | invalidTimeInForce
deriving DecidableEq, Repr

/-- A validated frame, by message kind, still as the bytes received. -/
inductive BorrowedMessage where
  | newOrder (bytes : List U8)
  | cancelOrder (bytes : List U8)
  | replaceOrder (bytes : List U8)
deriving DecidableEq, Repr

/-- The discriminant `side as u8`. -/
def Side.tag : Side → U8
  | .buy => 1
  | .sell => 2

/-- The discriminant `time_in_force as u8`. -/
def TimeInForce.tag : TimeInForce → U8
  | .gtc => 1
  | .ioc => 2
  | .fok => 3
  | .postOnly => 4

/-- A byte of a frame. The default is never returned for a frame the parser
accepted: every offset read is within its length. -/
def readU8 (bytes : List U8) (offset : Nat) : U8 := bytes.getD offset 0

def readU16 (bytes : List U8) (offset : Nat) : U16 := wordOfBe _ (field bytes offset 2)

/-- Four bytes at an offset, most significant first. -/
def readU32 (bytes : List U8) (offset : Nat) : U32 := wordOfBe _ (field bytes offset 4)

def readU64 (bytes : List U8) (offset : Nat) : U64 := wordOfBe _ (field bytes offset 8)

/-- Eight bytes at an offset as a signed word in two's complement; the prices
are the only signed fields of the format. -/
def readI64 (bytes : List U8) (offset : Nat) : I64 := signedOfBe _ (field bytes offset 8)

/-- The fields of a new order at their fixed offsets. The last branches of the
two enumerations stand for values the parser has refused before. -/
def newOrderToOwned (bytes : List U8) : NewOrder where
  orderId := readU64 bytes 4
  accountId := readU32 bytes 12
  instrumentId := readU32 bytes 16
  price := readI64 bytes 20
  quantity := readU64 bytes 28
  sequence := readU64 bytes 36
  side := if readU8 bytes 44 = Side.buy.tag then .buy else .sell
  timeInForce :=
    if readU8 bytes 45 = TimeInForce.gtc.tag then .gtc
    else if readU8 bytes 45 = TimeInForce.ioc.tag then .ioc
    else if readU8 bytes 45 = TimeInForce.fok.tag then .fok
    else .postOnly

/-- The fields of a cancel at their fixed offsets. -/
def cancelOrderToOwned (bytes : List U8) : CancelOrder where
  orderId := readU64 bytes 4
  accountId := readU32 bytes 12
  instrumentId := readU32 bytes 16
  sequence := readU64 bytes 20

/-- The fields of an amend. The sequence number stands where a cancel has it,
before the price and the quantity. -/
def replaceOrderToOwned (bytes : List U8) : ReplaceOrder where
  orderId := readU64 bytes 4
  accountId := readU32 bytes 12
  instrumentId := readU32 bytes 16
  sequence := readU64 bytes 20
  price := readI64 bytes 28
  quantity := readU64 bytes 36

namespace BorrowedMessage

/-- The session sequence of any message kind, read in place. -/
def sequence : BorrowedMessage → SequenceNumber
  | .newOrder bytes => readU64 bytes 36
  | .cancelOrder bytes => readU64 bytes 20
  | .replaceOrder bytes => readU64 bytes 20

/-- The owned command of a validated message. Nothing is checked any more at
this point. -/
def toCommand : BorrowedMessage → Command
  | .newOrder bytes => .newOrder (newOrderToOwned bytes)
  | .cancelOrder bytes => .cancelOrder (cancelOrderToOwned bytes)
  | .replaceOrder bytes => .replaceOrder (replaceOrderToOwned bytes)

end BorrowedMessage

/-- Header, length, type and enumeration bytes are checked before any typed
interpretation. -/
def parseMessage (bytes : List U8) : Except ParseError BorrowedMessage :=
  if bytes.length < 4 then .error .truncatedHeader
  else if readU8 bytes 0 ≠ protocolVersion then .error .unsupportedVersion
  else
    let declared := (readU16 bytes 2).val
    if bytes.length ≠ declared then .error .invalidLength
    else if readU8 bytes 1 = newOrderType then
      if declared ≠ newOrderLen then .error .invalidLength
      else if readU8 bytes 44 ≠ Side.buy.tag ∧ readU8 bytes 44 ≠ Side.sell.tag then .error .invalidSide
      else if readU8 bytes 45 ≠ TimeInForce.gtc.tag ∧ readU8 bytes 45 ≠ TimeInForce.ioc.tag ∧
          readU8 bytes 45 ≠ TimeInForce.fok.tag ∧ readU8 bytes 45 ≠ TimeInForce.postOnly.tag then
        .error .invalidTimeInForce
      else .ok (.newOrder bytes)
    else if readU8 bytes 1 = cancelOrderType then
      if declared ≠ cancelOrderLen then .error .invalidLength else .ok (.cancelOrder bytes)
    else if readU8 bytes 1 = replaceOrderType then
      if declared ≠ replaceOrderLen then .error .invalidLength else .ok (.replaceOrder bytes)
    else .error .unknownMessageType

/-! ### Encoders

Every byte of a message belongs to one field, so the array writes at increasing offsets are the
concatenation of the fields. -/

/-- A new order as a frame: a header of four bytes, then the fields in the
order of the layout with the two enumerations at the end. -/
def encodeNewOrder (order : NewOrder) : List U8 :=
  List.flatten [[protocolVersion], [newOrderType], toBe 2 newOrderLen,
    unsignedBe 8 order.orderId, unsignedBe 4 order.accountId, unsignedBe 4 order.instrumentId,
    signedBe 8 order.price, unsignedBe 8 order.quantity, unsignedBe 8 order.sequence,
    [order.side.tag], [order.timeInForce.tag]]

def encodeCancelOrder (cancel : CancelOrder) : List U8 :=
  List.flatten [[protocolVersion], [cancelOrderType], toBe 2 cancelOrderLen,
    unsignedBe 8 cancel.orderId, unsignedBe 4 cancel.accountId, unsignedBe 4 cancel.instrumentId,
    unsignedBe 8 cancel.sequence]

/-- An amend as a frame. It begins like a cancel and goes on with the new price
and the new total quantity. -/
def encodeReplaceOrder (replace : ReplaceOrder) : List U8 :=
  List.flatten [[protocolVersion], [replaceOrderType], toBe 2 replaceOrderLen,
    unsignedBe 8 replace.orderId, unsignedBe 4 replace.accountId, unsignedBe 4 replace.instrumentId,
    unsignedBe 8 replace.sequence, signedBe 8 replace.price, unsignedBe 8 replace.quantity]

/-- The frame of a command. -/
def encodeCommand : Command → List U8
  | .newOrder order => encodeNewOrder order
  | .cancelOrder cancel => encodeCancelOrder cancel
  | .replaceOrder replace => encodeReplaceOrder replace

end HftEngine
