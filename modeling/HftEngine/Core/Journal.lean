/-
Module: HftEngine.Core.Journal
Layer: Core
Purpose: Journal records: fixed records of sixty-four bytes with a checksum
  over all other bytes, built, encoded, decoded and verified, and the scan of a
  journal through a reader. The checksum function is a parameter.
Imports: HftEngine.Core.Wire, HftEngine.Lib.Bytes
Trusted boundary: translates `JournalRecord` and `recover` of the crate
  `hft-journal`
Main exports: JournalError, JournalRecord, DecodeError, JournalRecord.new,
  JournalRecord.encode, JournalRecord.decode, Reader, JournalRecoveryError,
  Recovery, recover
-/
import HftEngine.Core.Wire
import HftEngine.Lib.Bytes

namespace HftEngine

open Machine Bytes

/-- A record has sixty-four bytes: eighteen of header and checksum, then a
payload large enough for every frame of the wire format. -/
def recordSize : Nat := 64
def maxPayload : Nat := 46
def journalMagic : U16 := 0x4a52
def journalVersion : U8 := 1
/-- Where the checksum stands. It is computed over the record with these four
bytes blank. -/
def checksumOffset : Nat := 14
def payloadOffset : Nat := 18

/-- Why a record was not written. -/
inductive JournalError where
  | saturated
  | sequenceOverflow
  | payloadTooLarge (len : Nat)
deriving DecidableEq, Repr

/-- A record in memory. The payload array is always full length; `len` says how
much of it is in use. -/
structure JournalRecord where
  sequence : SequenceNumber
  checksum : U32
  len : U16
  magic : U16
  payload : Vector U8 maxPayload
  version : U8
  flags : U8
deriving DecidableEq

/-- Why sixty-four bytes are not a record. Version, flags and length are looked
at before the checksum. -/
inductive DecodeError where
  | malformed
  | badMagic (found : U16)
  | unsupportedVersion (found : U8)
  | unsupportedFlags (found : U8)
  | payloadLength (found : U16)
  | checksumMismatch (sequence : SequenceNumber)
deriving DecidableEq, Repr

namespace JournalRecord

/-- The record with the given four bytes in the place of its checksum. -/
def layout (record : JournalRecord) (checksum : List U8) : List U8 :=
  List.flatten [unsignedBe 2 record.magic, [record.version], [record.flags], unsignedBe 8 record.sequence,
    unsignedBe 2 record.len, checksum, record.payload.toList]

def bytesWithoutChecksum (record : JournalRecord) : List U8 := record.layout (List.replicate 4 0)

/-- The payload in use; `none` when the stored length exceeds the payload
array. -/
def slice (record : JournalRecord) : Option (List U8) :=
  if record.len.val ≤ maxPayload then some (record.payload.toList.take record.len.val) else none

/-- The bytes of a record, with the checksum it carries and not one computed
anew. -/
def encode (record : JournalRecord) : List U8 := record.layout (unsignedBe 4 record.checksum)

variable (crc32c : List U8 → U32)

/-- Builds one record without truncating its payload. -/
def new (sequence : SequenceNumber) (payload : List U8) : Except JournalError JournalRecord :=
  if h : payload.length ≤ maxPayload then
    let record : JournalRecord :=
      { sequence := sequence
        checksum := 0
        len := ⟨payload.length, h.trans_lt (by decide)⟩
        magic := journalMagic
        payload := Vector.ofFn fun i => payload.getD i.val 0
        version := journalVersion
        flags := 0 }
    .ok { record with checksum := crc32c record.bytesWithoutChecksum }
  else .error (.payloadTooLarge payload.length)

/-- Whether a record has the header of this version, a length its payload can
have, and the checksum of its own bytes. -/
def verify (record : JournalRecord) : Bool :=
  decide (record.magic = journalMagic) && decide (record.version = journalVersion) && decide (record.flags = 0) &&
    record.slice.isSome && decide (record.checksum = crc32c record.bytesWithoutChecksum)

/-- Decodes and verifies one complete record of sixty-four bytes. -/
def decode (bytes : List U8) : Except DecodeError JournalRecord :=
  let magic := readU16 bytes 0
  if magic ≠ journalMagic then .error (.badMagic magic)
  else if readU8 bytes 2 ≠ journalVersion then .error (.unsupportedVersion (readU8 bytes 2))
  else if readU8 bytes 3 ≠ 0 then .error (.unsupportedFlags (readU8 bytes 3))
  else
    let sequence := readU64 bytes 4
    let len := readU16 bytes 12
    if maxPayload < len.val then .error (.payloadLength len)
    else
      let record : JournalRecord :=
        { sequence := sequence
          checksum := readU32 bytes checksumOffset
          len := len
          magic := magic
          payload := Vector.ofFn fun i => readU8 bytes (payloadOffset + i.val)
          version := readU8 bytes 2
          flags := readU8 bytes 3 }
      if record.verify crc32c then .ok record else .error (.checksumMismatch sequence)

end JournalRecord

/-! ### The scan -/

/-- One thing a reader does when it is asked for bytes. -/
inductive ReadEvent where
  | chunk (bytes : List U8)
  | interrupted
  | failed
deriving DecidableEq, Repr

/-- A reader, as what it does from now on; after that it is at its end and
returns no bytes. -/
abbrev Reader := List ReadEvent

/-- What one call of `read` returns. -/
inductive ReadResult where
  | ok (bytes : List U8)
  | interrupted
  | failed
deriving DecidableEq, Repr

namespace Reader

/-- `read` into a buffer with room for so many bytes. What a chunk does not fit
in stays for the next call. -/
def read (room : Nat) : Reader → ReadResult × Reader
  | [] => (.ok [], [])
  | .interrupted :: rest => (.interrupted, rest)
  | .failed :: rest => (.failed, rest)
  | .chunk bytes :: rest =>
      if bytes.length ≤ room then (.ok bytes, rest)
      else (.ok (bytes.take room), .chunk (bytes.drop room) :: rest)

/-- The bytes a reader still has, counted with one for every event. -/
def size : Reader → Nat
  | [] => 0
  | .chunk bytes :: rest => bytes.length + 1 + size rest
  | _ :: rest => 1 + size rest

/-- A call that does not meet the end leaves less to read. -/
theorem read_size (room : Nat) (reader : Reader) (h : (reader.read room).1 ≠ .ok []) :
    (reader.read room).2.size < reader.size := by
  cases reader with
  | nil => exact absurd rfl h
  | cons event rest =>
      cases event with
      | interrupted => simp [read, size]
      | failed => simp [read, size]
      | chunk bytes =>
          rw [read] at h ⊢
          split
          · simp only [size]
            omega
          · rename_i hroom
            rw [if_neg hroom] at h
            have hpos : room ≠ 0 := by
              rintro rfl
              exact h rfl
            simp only [size, List.length_drop]
            omega

end Reader

/-- Why the scan of a journal stopped. It never skips a record: the first one
that does not fit ends the scan. -/
inductive JournalRecoveryError where
  | io
  | truncated (bytes : Nat)
  | decode (offset : U64) (source : DecodeError)
  | sequence (expected received : SequenceNumber)
  | sequenceOverflow
deriving DecidableEq, Repr

/-- The result of a scan: how many records there were and which sequence number
comes next. -/
structure Recovery where
  records : U64
  nextSequence : U64
deriving DecidableEq, Repr

/-- `saturating_mul` of the record count by the record size. -/
def recordOffset (records : U64) : U64 := (checkedMul records 64).getD (Fin.last _)

/-- Bytes read into the buffer behind those already there. -/
def overwrite (buffer : List U8) (filled : Nat) (bytes : List U8) : List U8 :=
  buffer.take filled ++ bytes ++ buffer.drop (filled + bytes.length)

/-- The state of the scan after a full record: the next expected sequence and
the count. -/
def acceptRecord (crc32c : List U8 → U32) (buffer : List U8) (expected records : U64) :
    Except JournalRecoveryError (U64 × U64) :=
  match JournalRecord.decode crc32c buffer with
  | .error source => .error (.decode (recordOffset records) source)
  | .ok record =>
      if record.sequence ≠ expected then .error (.sequence expected record.sequence)
      else
        match checkedAdd expected 1 with
        | none => .error .sequenceOverflow
        | some expected' =>
            match checkedAdd records 1 with
            | none => .error .sequenceOverflow
            | some records' => .ok (expected', records')

/-- The loop of the scan, one call of `read` at a time. -/
def recoverFrom (crc32c : List U8 → U32) (buffer : List U8) (filled : Nat) (expected records : U64)
    (reader : Reader) : Except JournalRecoveryError Recovery :=
  match _hread : reader.read (recordSize - filled) with
  | (.ok [], _) =>
      if filled = 0 then .ok ⟨records, expected⟩ else .error (.truncated filled)
  | (.ok (byte :: bytes), rest) =>
      let buffer' := overwrite buffer filled (byte :: bytes)
      let filled' := filled + (byte :: bytes).length
      if filled' < recordSize then recoverFrom crc32c buffer' filled' expected records rest
      else
        match acceptRecord crc32c buffer' expected records with
        | .error error => .error error
        | .ok (expected', records') => recoverFrom crc32c buffer' 0 expected' records' rest
  | (.interrupted, rest) => recoverFrom crc32c buffer filled expected records rest
  | (.failed, _) => .error .io
termination_by reader.size
decreasing_by
  all_goals
    have h := Reader.read_size (recordSize - filled) reader (by simp [_hread])
    rwa [_hread] at h

/-- Scans a journal without accepting a corrupt or partial tail. -/
def recover (crc32c : List U8 → U32) (reader : Reader) (firstSequence : U64) : Except JournalRecoveryError Recovery :=
  recoverFrom crc32c (List.replicate recordSize 0) 0 firstSequence 0 reader

end HftEngine
