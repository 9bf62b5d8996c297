/-
Module: HftEngine.Proofs.JournalCodec
Layer: Proofs
Purpose: Round trip of the journal records: a record built from a payload
  decodes to itself and gives the payload back.
Imports: HftEngine.Core.Journal, HftEngine.Proofs.WireCodec
Trusted boundary: none (fully proved)
Main exports: JournalRecord.decode_encode, JournalRecord.of_new,
  length_encodeCommand
-/
import HftEngine.Core.Journal
import HftEngine.Proofs.WireCodec

namespace HftEngine

open Machine Bytes

/-! ### Records -/

/-- Every frame fits a journal record. -/
theorem length_encodeCommand (command : Command) : (encodeCommand command).length ≤ maxPayload := by
  cases command with
  | newOrder order => exact (length_encodeNewOrder order).le
  | cancelOrder cancel => exact (length_encodeCancelOrder cancel).le.trans (by decide)
  | replaceOrder replace => exact (length_encodeReplaceOrder replace).le.trans (by decide)

namespace JournalRecord

variable {crc32c : List U8 → U32} {record : JournalRecord} {sequence : SequenceNumber} {payload : List U8}

theorem length_layout {checksum : List U8} (h : checksum.length = 4) :
    (record.layout checksum).length = recordSize := by
  have hpayload : record.payload.toList.length = 46 := Vector.length_toList
  simp [layout, recordSize, h, hpayload]

theorem length_encode (record : JournalRecord) : record.encode.length = recordSize :=
  length_layout (length_unsignedBe _ _)

/-- A record that verifies decodes from its own bytes. -/
theorem decode_encode (h : record.verify crc32c = true) : decode crc32c record.encode = .ok record := by
  have hmagic : readU16 record.encode 0 = record.magic :=
    readU16_of_field (field_flatten 0 rfl (by simp) (by simp))
  have hversion : readU8 record.encode 2 = record.version :=
    readU8_of_field (field_flatten 1 rfl (by simp) (by simp))
  have hflags : readU8 record.encode 3 = record.flags :=
    readU8_of_field (field_flatten 2 rfl (by simp) (by simp))
  have hsequence : readU64 record.encode 4 = record.sequence :=
    readU64_of_field (field_flatten 3 rfl (by simp) (by simp))
  have hlen : readU16 record.encode 12 = record.len :=
    readU16_of_field (field_flatten 4 rfl (by simp) (by simp))
  have hchecksum : readU32 record.encode checksumOffset = record.checksum :=
    readU32_of_field (field_flatten 5 rfl (by simp [checksumOffset]) (by simp))
  have hpayload : (Vector.ofFn fun i : Fin maxPayload => readU8 record.encode (payloadOffset + i.val))
      = record.payload := by
    have hfield : field record.encode payloadOffset maxPayload = record.payload.toList :=
      field_flatten 6 rfl (by simp [payloadOffset]) (by simp)
    refine Vector.ext fun i hi => ?_
    have hi' : i < record.payload.toList.length := by simpa using hi
    have hget : (field record.encode payloadOffset maxPayload)[i]? = some (record.payload.toList[i]) := by
      rw [hfield]
      exact List.getElem?_eq_getElem hi'
    rw [field, List.getElem?_take, if_pos hi, List.getElem?_drop] at hget
    rw [Vector.getElem_ofFn, readU8, List.getD_eq_getElem?_getD, hget]
    simp
  unfold verify at h
  simp only [Bool.and_eq_true, decide_eq_true_eq] at h
  obtain ⟨⟨⟨⟨hm, hv⟩, hf⟩, hs⟩, hc⟩ := h
  have hlen' : ¬maxPayload < record.len.val := by
    unfold slice at hs
    split at hs
    · omega
    · cases hs
  unfold decode
  simp only [hmagic, hversion, hflags, hsequence, hlen, hchecksum, hpayload]
  rw [if_neg (by simp [hm]), if_neg (by simp [hv]), if_neg (by simp [hf]), if_neg hlen']
  have hverify : record.verify crc32c = true := by
    simp only [verify, Bool.and_eq_true, decide_eq_true_eq]
    exact ⟨⟨⟨⟨hm, hv⟩, hf⟩, hs⟩, hc⟩
  rw [if_pos hverify]

/-- What is known of a record built from a payload. -/
theorem of_new (h : new crc32c sequence payload = .ok record) :
    record.sequence = sequence ∧ record.slice = some payload ∧ record.verify crc32c = true := by
  unfold new at h
  split at h
  · rename_i hle
    cases h
    have hslice : ((Vector.ofFn fun i : Fin maxPayload => payload.getD i.val 0).toList).take payload.length
        = payload := by
      refine List.ext_getElem? fun i => ?_
      rw [List.getElem?_take]
      split
      · rename_i hi
        rw [List.getElem?_eq_getElem (by simp; omega), List.getElem?_eq_getElem hi]
        simp [List.getD_eq_getElem?_getD, List.getElem?_eq_getElem hi]
      · rename_i hi
        rw [List.getElem?_eq_none (by omega)]
    refine ⟨rfl, ?_, ?_⟩
    · rw [slice, if_pos hle]
      exact congrArg some hslice
    · simp only [verify, slice, hle, if_true, Bool.and_eq_true, decide_eq_true_eq, Option.isSome_some, true_and]
      rfl
  · cases h

/-- A payload that fits gives a record. -/
theorem exists_new (sequence : SequenceNumber) (h : payload.length ≤ maxPayload) :
    ∃ record, new crc32c sequence payload = .ok record := by
  unfold new
  rw [dif_pos h]
  exact ⟨_, rfl⟩

end JournalRecord

end HftEngine
