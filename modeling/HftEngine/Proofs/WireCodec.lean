/-
Module: HftEngine.Proofs.WireCodec
Layer: Proofs
Purpose: The wire parser accepts exactly the frames the encoders write. A frame
  is the concatenation of its fields; the parser has checked every byte that
  decoding would otherwise replace by a default.
Imports: HftEngine.Core.Wire
Trusted boundary: none (fully proved)
Main exports: parseMessage_encodeCommand, encodeCommand_toCommand,
  wire_accepts_exactly_encodings
-/
import HftEngine.Core.Wire

namespace HftEngine

open Machine Bytes

variable {bytes : List U8} {offset : Nat}

/-! ### Reads of known fields -/

/-- A known field of one byte is what the read at its offset returns; the reads
of wider words below go the same way. -/
theorem readU8_of_field {byte : U8} (h : field bytes offset 1 = [byte]) : readU8 bytes offset = byte := by
  have hhead : (field bytes offset 1).head? = some byte := by rw [h]; rfl
  rw [field, List.head?_take, if_neg (by decide), List.head?_drop] at hhead
  rw [readU8, List.getD_eq_getElem?_getD, hhead]
  rfl

theorem readU16_of_field {word : U16} (h : field bytes offset 2 = unsignedBe 2 word) : readU16 bytes offset = word := by
  rw [readU16, h, wordOfBe_unsignedBe (by norm_num)]

theorem readU32_of_field {word : U32} (h : field bytes offset 4 = unsignedBe 4 word) : readU32 bytes offset = word := by
  rw [readU32, h, wordOfBe_unsignedBe (by norm_num)]

theorem readU64_of_field {word : U64} (h : field bytes offset 8 = unsignedBe 8 word) : readU64 bytes offset = word := by
  rw [readU64, h, wordOfBe_unsignedBe (by norm_num)]

/-- The read of a signed field that was written in two's complement. -/
theorem readI64_of_field {word : I64} (h : field bytes offset 8 = signedBe 8 word) : readI64 bytes offset = word := by
  rw [readI64, h, signedOfBe_signedBe (by norm_num)]

/-! ### Messages -/

/-- Every encoder writes exactly the length that its header announces. -/
theorem length_encodeNewOrder (order : NewOrder) : (encodeNewOrder order).length = newOrderLen := by
  simp [encodeNewOrder, newOrderLen]

theorem length_encodeCancelOrder (cancel : CancelOrder) : (encodeCancelOrder cancel).length = cancelOrderLen := by
  simp [encodeCancelOrder, cancelOrderLen]

theorem length_encodeReplaceOrder (replace : ReplaceOrder) :
    (encodeReplaceOrder replace).length = replaceOrderLen := by
  simp [encodeReplaceOrder, replaceOrderLen]

/-- The header of a frame: version, type and declared length. -/
theorem readHeader {kind : U8} {len : Nat} {rest : List (List U8)} (hlen : len < 2 ^ 16)
    (hbytes : bytes = List.flatten ([protocolVersion] :: [kind] :: toBe 2 len :: rest)) :
    readU8 bytes 0 = protocolVersion ∧ readU8 bytes 1 = kind ∧ (readU16 bytes 2).val = len := by
  subst hbytes
  have hdeclared : readU16 (List.flatten ([protocolVersion] :: [kind] :: toBe 2 len :: rest)) 2 = ⟨len, hlen⟩ :=
    readU16_of_field (field_flatten 2 rfl (by simp) (by simp))
  exact ⟨readU8_of_field (field_flatten 0 rfl (by simp) (by simp)),
    readU8_of_field (field_flatten 1 rfl (by simp) (by simp)), congrArg Fin.val hdeclared⟩

/-- The typed reads of an encoded order find every field where the encoder put
it. -/
theorem newOrderToOwned_encode (order : NewOrder) : newOrderToOwned (encodeNewOrder order) = order := by
  have hside : readU8 (encodeNewOrder order) 44 = order.side.tag :=
    readU8_of_field (field_flatten 9 rfl (by simp) (by simp))
  have htif : readU8 (encodeNewOrder order) 45 = order.timeInForce.tag :=
    readU8_of_field (field_flatten 10 rfl (by simp) (by simp))
  have hid : readU64 (encodeNewOrder order) 4 = order.orderId :=
    readU64_of_field (field_flatten 3 rfl (by simp) (by simp))
  have haccount : readU32 (encodeNewOrder order) 12 = order.accountId :=
    readU32_of_field (field_flatten 4 rfl (by simp) (by simp))
  have hinstrument : readU32 (encodeNewOrder order) 16 = order.instrumentId :=
    readU32_of_field (field_flatten 5 rfl (by simp) (by simp))
  have hprice : readI64 (encodeNewOrder order) 20 = order.price :=
    readI64_of_field (field_flatten 6 rfl (by simp) (by simp))
  have hquantity : readU64 (encodeNewOrder order) 28 = order.quantity :=
    readU64_of_field (field_flatten 7 rfl (by simp) (by simp))
  have hsequence : readU64 (encodeNewOrder order) 36 = order.sequence :=
    readU64_of_field (field_flatten 8 rfl (by simp) (by simp))
  unfold newOrderToOwned
  simp only [hid, haccount, hinstrument, hprice, hquantity, hsequence, hside, htif]
  obtain ⟨_, _, _, _, _, _, side, timeInForce⟩ := order
  cases side <;> cases timeInForce <;> rfl

/-- The fields of a cancel read back from its frame are the fields that were
written. -/
theorem cancelOrderToOwned_encode (cancel : CancelOrder) : cancelOrderToOwned (encodeCancelOrder cancel) = cancel := by
  have hid : readU64 (encodeCancelOrder cancel) 4 = cancel.orderId :=
    readU64_of_field (field_flatten 3 rfl (by simp) (by simp))
  have haccount : readU32 (encodeCancelOrder cancel) 12 = cancel.accountId :=
    readU32_of_field (field_flatten 4 rfl (by simp) (by simp))
  have hinstrument : readU32 (encodeCancelOrder cancel) 16 = cancel.instrumentId :=
    readU32_of_field (field_flatten 5 rfl (by simp) (by simp))
  have hsequence : readU64 (encodeCancelOrder cancel) 20 = cancel.sequence :=
    readU64_of_field (field_flatten 6 rfl (by simp) (by simp))
  unfold cancelOrderToOwned
  simp only [hid, haccount, hinstrument, hsequence]

/-- The same for an amend, whose price and quantity stand behind the sequence
number. -/
theorem replaceOrderToOwned_encode (replace : ReplaceOrder) :
    replaceOrderToOwned (encodeReplaceOrder replace) = replace := by
  have hid : readU64 (encodeReplaceOrder replace) 4 = replace.orderId :=
    readU64_of_field (field_flatten 3 rfl (by simp) (by simp))
  have haccount : readU32 (encodeReplaceOrder replace) 12 = replace.accountId :=
    readU32_of_field (field_flatten 4 rfl (by simp) (by simp))
  have hinstrument : readU32 (encodeReplaceOrder replace) 16 = replace.instrumentId :=
    readU32_of_field (field_flatten 5 rfl (by simp) (by simp))
  have hsequence : readU64 (encodeReplaceOrder replace) 20 = replace.sequence :=
    readU64_of_field (field_flatten 6 rfl (by simp) (by simp))
  have hprice : readI64 (encodeReplaceOrder replace) 28 = replace.price :=
    readI64_of_field (field_flatten 7 rfl (by simp) (by simp))
  have hquantity : readU64 (encodeReplaceOrder replace) 36 = replace.quantity :=
    readU64_of_field (field_flatten 8 rfl (by simp) (by simp))
  unfold replaceOrderToOwned
  simp only [hid, haccount, hinstrument, hsequence, hprice, hquantity]

/-- The frame of a command parses to a message that carries the command. -/
theorem parseMessage_encodeCommand (command : Command) : ∃ message,
    parseMessage (encodeCommand command) = .ok message ∧ message.toCommand = command ∧
      message.sequence = command.sequence := by
  cases command with
  | newOrder order =>
      obtain ⟨hversion, hkind, hdeclared⟩ := readHeader (by decide) (show encodeNewOrder order = _ from rfl)
      have hlength := length_encodeNewOrder order
      have hside : readU8 (encodeNewOrder order) 44 = order.side.tag :=
        readU8_of_field (field_flatten 9 rfl (by simp) (by simp))
      have htif : readU8 (encodeNewOrder order) 45 = order.timeInForce.tag :=
        readU8_of_field (field_flatten 10 rfl (by simp) (by simp))
      have howned := newOrderToOwned_encode order
      refine ⟨.newOrder (encodeNewOrder order), ?_, congrArg Command.newOrder howned,
        congrArg NewOrder.sequence howned⟩
      simp only [parseMessage, encodeCommand, hversion, hkind, hdeclared, hlength, hside, htif]
      cases order.side <;> cases order.timeInForce <;> rfl
  | cancelOrder cancel =>
      obtain ⟨hversion, hkind, hdeclared⟩ := readHeader (by decide) (show encodeCancelOrder cancel = _ from rfl)
      have hlength := length_encodeCancelOrder cancel
      have howned := cancelOrderToOwned_encode cancel
      refine ⟨.cancelOrder (encodeCancelOrder cancel), ?_, congrArg Command.cancelOrder howned,
        congrArg CancelOrder.sequence howned⟩
      simp only [parseMessage, encodeCommand, hversion, hkind, hdeclared, hlength]
      rfl
  | replaceOrder replace =>
      obtain ⟨hversion, hkind, hdeclared⟩ := readHeader (by decide) (show encodeReplaceOrder replace = _ from rfl)
      have hlength := length_encodeReplaceOrder replace
      have howned := replaceOrderToOwned_encode replace
      refine ⟨.replaceOrder (encodeReplaceOrder replace), ?_, congrArg Command.replaceOrder howned,
        congrArg ReplaceOrder.sequence howned⟩
      simp only [parseMessage, encodeCommand, hversion, hkind, hdeclared, hlength]
      rfl

/-! ### Accepted frames -/

/-- The other direction: within bounds, a byte read determines the field of the
frame. From here on the frame is unknown and is rebuilt from its reads. -/
theorem field_of_readU8 {byte : U8} (hbound : offset + 1 ≤ bytes.length) (h : readU8 bytes offset = byte) :
    field bytes offset 1 = [byte] := by
  obtain ⟨found, hfound⟩ := List.length_eq_one_iff.mp (length_field hbound)
  have hread := readU8_of_field hfound
  rw [hfound, ← hread, h]

/-- The announced length determines the two bytes it was read from. -/
theorem field_of_readU16 {n : Nat} (hbound : offset + 2 ≤ bytes.length) (h : (readU16 bytes offset).val = n) :
    field bytes offset 2 = toBe 2 n := by
  have hword := unsignedBe_wordOfBe (show 2 ^ 16 = 256 ^ 2 by norm_num) (length_field hbound)
  rw [← h]
  exact hword.symm

/-- Encoding a word that was read gives the bytes it was read from, since every
byte string of this width is the encoding of one word. -/
theorem unsignedBe_readU32 (hbound : offset + 4 ≤ bytes.length) :
    unsignedBe 4 (readU32 bytes offset) = field bytes offset 4 :=
  unsignedBe_wordOfBe (by norm_num) (length_field hbound)

theorem unsignedBe_readU64 (hbound : offset + 8 ≤ bytes.length) :
    unsignedBe 8 (readU64 bytes offset) = field bytes offset 8 :=
  unsignedBe_wordOfBe (by norm_num) (length_field hbound)

/-- The same for a signed word; two's complement leaves no bytes without a
meaning. -/
theorem signedBe_readI64 (hbound : offset + 8 ≤ bytes.length) :
    signedBe 8 (readI64 bytes offset) = field bytes offset 8 :=
  signedBe_signedOfBe (by norm_num) (length_field hbound)

/-- What the parser has checked of a message it accepts. -/
def BorrowedMessage.Checked (bytes : List U8) : BorrowedMessage → Prop
  | .newOrder stored => stored = bytes ∧ bytes.length = newOrderLen ∧ readU8 bytes 1 = newOrderType ∧
      (∃ side : Side, readU8 bytes 44 = side.tag) ∧ ∃ timeInForce : TimeInForce, readU8 bytes 45 = timeInForce.tag
  | .cancelOrder stored => stored = bytes ∧ bytes.length = cancelOrderLen ∧ readU8 bytes 1 = cancelOrderType
  | .replaceOrder stored => stored = bytes ∧ bytes.length = replaceOrderLen ∧ readU8 bytes 1 = replaceOrderType

/-- What the parser has looked at when it accepts a frame: the version, the
announced length, and for each kind its length and its enumeration bytes. -/
theorem checked_of_parse {message : BorrowedMessage} (h : parseMessage bytes = .ok message) :
    readU8 bytes 0 = protocolVersion ∧ (readU16 bytes 2).val = bytes.length ∧ message.Checked bytes := by
  unfold parseMessage at h
  split at h
  · cases h
  split at h
  · cases h
  rename_i hversion
  rw [not_not] at hversion
  simp only at h
  split at h
  · cases h
  rename_i hlength
  rw [not_not] at hlength
  refine ⟨hversion, hlength.symm, ?_⟩
  split at h
  · rename_i hkind
    split at h
    · cases h
    rename_i hnew
    rw [not_not] at hnew
    split at h
    · cases h
    rename_i hside
    split at h
    · cases h
    rename_i htif
    cases h
    refine ⟨rfl, hlength.trans hnew, hkind, ?_, ?_⟩
    · rcases not_and_or.mp hside with hbuy | hsell
      · exact ⟨.buy, not_not.mp hbuy⟩
      · exact ⟨.sell, not_not.mp hsell⟩
    · simp only [ne_eq, not_and_or, not_not] at htif
      rcases htif with hgtc | hioc | hfok | hpost
      · exact ⟨.gtc, hgtc⟩
      · exact ⟨.ioc, hioc⟩
      · exact ⟨.fok, hfok⟩
      · exact ⟨.postOnly, hpost⟩
  · split at h
    · rename_i hkind
      split at h
      · cases h
      rename_i hcancel
      cases h
      exact ⟨rfl, hlength.trans (not_not.mp hcancel), hkind⟩
    · split at h
      · rename_i hkind
        split at h
        · cases h
        rename_i hreplace
        cases h
        exact ⟨rfl, hlength.trans (not_not.mp hreplace), hkind⟩
      · cases h

/-- The two-way test of the decoder inverts the tag of a side. -/
theorem Side.tag_decode (side : Side) : (if side.tag = Side.buy.tag then Side.buy else .sell) = side := by
  cases side <;> rfl

/-- The decoder tests three values and takes the fourth for granted; on tags
that is no loss. -/
theorem TimeInForce.tag_decode (timeInForce : TimeInForce) :
    (if timeInForce.tag = TimeInForce.gtc.tag then TimeInForce.gtc
      else if timeInForce.tag = TimeInForce.ioc.tag then .ioc
      else if timeInForce.tag = TimeInForce.fok.tag then .fok else .postOnly) = timeInForce := by
  cases timeInForce <;> rfl

/-- Encoding the command of an accepted frame gives the frame back. -/
theorem encodeCommand_toCommand {message : BorrowedMessage} (h : parseMessage bytes = .ok message) :
    encodeCommand message.toCommand = bytes := by
  obtain ⟨hversion, hdeclared, hchecked⟩ := checked_of_parse h
  cases message with
  | newOrder stored =>
      obtain ⟨rfl, hlength, hkind, ⟨side, hside⟩, ⟨timeInForce, htif⟩⟩ := hchecked
      have hsize : stored.length = 46 := hlength
      have hsplit : (fieldsFrom stored 0 [1, 1, 2, 8, 4, 4, 8, 8, 8, 1, 1]).flatten = stored.drop 0 :=
        flatten_fieldsFrom (by simp [hsize])
      rw [List.drop_zero] at hsplit
      conv_rhs => rw [← hsplit]
      simp only [BorrowedMessage.toCommand, encodeCommand, encodeNewOrder, newOrderToOwned, fieldsFrom, Nat.reduceAdd]
      rw [unsignedBe_readU64 (by omega), unsignedBe_readU32 (by omega), unsignedBe_readU32 (by omega),
        signedBe_readI64 (by omega), unsignedBe_readU64 (by omega), unsignedBe_readU64 (by omega),
        field_of_readU8 (by omega) hversion, field_of_readU8 (by omega) hkind,
        field_of_readU16 (by omega) (hdeclared.trans hlength), field_of_readU8 (by omega) hside,
        field_of_readU8 (by omega) htif, hside, htif, Side.tag_decode, TimeInForce.tag_decode]
  | cancelOrder stored =>
      obtain ⟨rfl, hlength, hkind⟩ := hchecked
      have hsize : stored.length = 28 := hlength
      have hsplit : (fieldsFrom stored 0 [1, 1, 2, 8, 4, 4, 8]).flatten = stored.drop 0 :=
        flatten_fieldsFrom (by simp [hsize])
      rw [List.drop_zero] at hsplit
      conv_rhs => rw [← hsplit]
      simp only [BorrowedMessage.toCommand, encodeCommand, encodeCancelOrder, cancelOrderToOwned, fieldsFrom,
        Nat.reduceAdd]
      rw [unsignedBe_readU64 (by omega), unsignedBe_readU32 (by omega), unsignedBe_readU32 (by omega),
        unsignedBe_readU64 (by omega), field_of_readU8 (by omega) hversion, field_of_readU8 (by omega) hkind,
        field_of_readU16 (by omega) (hdeclared.trans hlength)]
  | replaceOrder stored =>
      obtain ⟨rfl, hlength, hkind⟩ := hchecked
      have hsize : stored.length = 44 := hlength
      have hsplit : (fieldsFrom stored 0 [1, 1, 2, 8, 4, 4, 8, 8, 8]).flatten = stored.drop 0 :=
        flatten_fieldsFrom (by simp [hsize])
      rw [List.drop_zero] at hsplit
      conv_rhs => rw [← hsplit]
      simp only [BorrowedMessage.toCommand, encodeCommand, encodeReplaceOrder, replaceOrderToOwned, fieldsFrom,
        Nat.reduceAdd]
      rw [unsignedBe_readU64 (by omega), unsignedBe_readU32 (by omega), unsignedBe_readU32 (by omega),
        unsignedBe_readU64 (by omega), signedBe_readI64 (by omega), unsignedBe_readU64 (by omega),
        field_of_readU8 (by omega) hversion, field_of_readU8 (by omega) hkind,
        field_of_readU16 (by omega) (hdeclared.trans hlength)]

/-! ### Reads in bounds -/

/-- The bytes of a message. -/
def BorrowedMessage.wireBytes : BorrowedMessage → List U8
  | .newOrder bytes => bytes
  | .cancelOrder bytes => bytes
  | .replaceOrder bytes => bytes

/-- The offsets and widths that the typed reads of a message access. -/
def BorrowedMessage.reads : BorrowedMessage → List (Nat × Nat)
  | .newOrder _ => [(4, 8), (12, 4), (16, 4), (20, 8), (28, 8), (36, 8), (44, 1), (45, 1)]
  | .cancelOrder _ => [(4, 8), (12, 4), (16, 4), (20, 8)]
  | .replaceOrder _ => [(4, 8), (12, 4), (16, 4), (20, 8), (28, 8), (36, 8)]

/-- The message of the same kind over other bytes. -/
def BorrowedMessage.withBytes (bytes : List U8) : BorrowedMessage → BorrowedMessage
  | .newOrder _ => .newOrder bytes
  | .cancelOrder _ => .cancelOrder bytes
  | .replaceOrder _ => .replaceOrder bytes

/-- A single byte read is the head of the field of one byte at its offset. -/
theorem readU8_eq_head (bytes : List U8) (offset : Nat) : readU8 bytes offset = (field bytes offset 1).headD 0 := by
  rw [readU8, field, List.headD_eq_head?_getD, List.head?_take, if_neg one_ne_zero, List.head?_drop,
    List.getD_eq_getElem?_getD]

/-- The listed accesses are all of them: bytes that agree there are read as the
same command with the same sequence, whatever stands elsewhere. -/
theorem toCommand_eq_of_reads {message : BorrowedMessage} {other : List U8}
    (h : ∀ access ∈ message.reads,
      field message.wireBytes access.1 access.2 = field other access.1 access.2) :
    message.toCommand = (message.withBytes other).toCommand ∧
      message.sequence = (message.withBytes other).sequence := by
  cases message with
  | newOrder bytes =>
      simp only [BorrowedMessage.reads, BorrowedMessage.wireBytes, List.forall_mem_cons] at h
      simp only [BorrowedMessage.toCommand, BorrowedMessage.sequence, BorrowedMessage.withBytes, newOrderToOwned,
        readU64, readU32, readI64, readU8_eq_head, h, and_self]
  | cancelOrder bytes =>
      simp only [BorrowedMessage.reads, BorrowedMessage.wireBytes, List.forall_mem_cons] at h
      simp only [BorrowedMessage.toCommand, BorrowedMessage.sequence, BorrowedMessage.withBytes, cancelOrderToOwned,
        readU64, readU32, h, and_self]
  | replaceOrder bytes =>
      simp only [BorrowedMessage.reads, BorrowedMessage.wireBytes, List.forall_mem_cons] at h
      simp only [BorrowedMessage.toCommand, BorrowedMessage.sequence, BorrowedMessage.withBytes, replaceOrderToOwned,
        readU64, readU32, readI64, h, and_self]

/-- An accepted message is the frame itself, and every access of its typed
reads ends within it. -/
theorem reads_in_bounds {message : BorrowedMessage} (h : parseMessage bytes = .ok message) :
    message.wireBytes = bytes ∧ ∀ access ∈ message.reads, access.1 + access.2 ≤ message.wireBytes.length := by
  obtain ⟨_, _, hchecked⟩ := checked_of_parse h
  cases message with
  | newOrder stored =>
      obtain ⟨rfl, hlength, _⟩ := hchecked
      refine ⟨rfl, ?_⟩
      rw [BorrowedMessage.wireBytes, hlength, BorrowedMessage.reads]
      decide
  | cancelOrder stored =>
      obtain ⟨rfl, hlength, _⟩ := hchecked
      refine ⟨rfl, ?_⟩
      rw [BorrowedMessage.wireBytes, hlength, BorrowedMessage.reads]
      decide
  | replaceOrder stored =>
      obtain ⟨rfl, hlength, _⟩ := hchecked
      refine ⟨rfl, ?_⟩
      rw [BorrowedMessage.wireBytes, hlength, BorrowedMessage.reads]
      decide

/-- The parser accepts exactly the frames of the encoders: every command comes
back from its frame, every accepted frame is the frame of its command and is
read in bounds, and every other byte string is refused. -/
theorem wire_accepts_exactly_encodings :
    (∀ command, ∃ message, parseMessage (encodeCommand command) = .ok message ∧ message.toCommand = command ∧
      message.sequence = command.sequence) ∧
    (∀ bytes message, parseMessage bytes = .ok message → encodeCommand message.toCommand = bytes ∧
      message.wireBytes = bytes ∧ ∀ access ∈ message.reads, access.1 + access.2 ≤ message.wireBytes.length) ∧
    ∀ bytes, (∀ command, encodeCommand command ≠ bytes) → ∃ error, parseMessage bytes = .error error := by
  refine ⟨parseMessage_encodeCommand, ?_, ?_⟩
  · intro bytes message hparse
    exact ⟨encodeCommand_toCommand hparse, reads_in_bounds hparse⟩
  · intro bytes hother
    cases hparse : parseMessage bytes with
    | error error => exact ⟨error, rfl⟩
    | ok message => exact absurd (encodeCommand_toCommand hparse) (hother _)

/-- A cancel comes back from its frame. -/
theorem wire_accepts_exactly_encodings_sample :
    ∃ message, parseMessage (encodeCommand (.cancelOrder ⟨1, 2, 3, 4⟩)) = .ok message ∧
      encodeCommand message.toCommand = encodeCommand (.cancelOrder ⟨1, 2, 3, 4⟩) := by
  obtain ⟨message, hparse, _⟩ := wire_accepts_exactly_encodings.1 (.cancelOrder ⟨1, 2, 3, 4⟩)
  exact ⟨message, hparse, (wire_accepts_exactly_encodings.2.1 _ message hparse).1⟩

end HftEngine
