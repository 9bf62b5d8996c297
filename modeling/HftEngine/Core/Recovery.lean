/-
Module: HftEngine.Core.Recovery
Layer: Core
Purpose: Recovery of a gateway from a snapshot and the complete journal records
  after it.
Imports: HftEngine.Core.Snapshot, HftEngine.Core.Journal
Trusted boundary: translates `recover_snapshot_and_tail` of the crate
  `hft-recovery`
Main exports: RecoveryError, recoverSnapshotAndTail
-/
import HftEngine.Core.Snapshot
import HftEngine.Core.Journal

namespace HftEngine

open Machine Bytes

/-- Why a gateway was not recovered. A record that does not follow its
predecessor ends the recovery. -/
inductive RecoveryError where
  | snapshot (error : SnapshotError)
  | truncatedJournal (bytes : Nat)
  | journalDecode (offset : Nat) (source : DecodeError)
  | journalSequence (expected received : U64)
  | payloadSequence (journal payload : U64)
  | payloadParse (error : ParseError)
  | gateway (error : GatewayError)
  | sequenceOverflow
deriving DecidableEq, Repr

/-- `bytes.chunks_exact(size)`: the remainder is left out. -/
def chunksExact (size : Nat) (bytes : List U8) : List (List U8) :=
  (List.range (bytes.length / size)).map fun index => field bytes (index * size) size

variable {A R L O N : Nat} (crc32c : List U8 → U32)

/-- `sequence.checked_add(1).ok_or(RecoveryError::SequenceOverflow)`. -/
def nextSequence (sequence : U64) : Except RecoveryError U64 :=
  match checkedAdd sequence 1 with
  | some next => .ok next
  | none => .error .sequenceOverflow

/-- The frame in a journal chunk, after the checks on the record and its
sequence. -/
def replayFrame (index : Nat) (expected : U64) (chunk : List U8) : Except RecoveryError (List U8) :=
  if chunk.length ≠ recordSize then .error (.truncatedJournal chunk.length)
  else
    match JournalRecord.decode crc32c chunk with
    | .error source => .error (.journalDecode (index * recordSize) source)
    | .ok record =>
        if record.sequence ≠ expected then .error (.journalSequence expected record.sequence)
        else
          match record.slice with
          | none => .error (.journalDecode (index * recordSize) (.payloadLength (Fin.ofNat _ (2 ^ 16 - 1))))
          | some frame =>
              match parseMessage frame with
              | .error error => .error (.payloadParse error)
              | .ok message =>
                  if message.sequence ≠ record.sequence then
                    .error (.payloadSequence record.sequence message.sequence)
                  else .ok frame

/-- Business rejections consume sequence and remain part of the history; other
errors stop recovery. -/
def replayOutcome : Except GatewayError GatewayOutcome → Except RecoveryError Unit
  | .ok _ => .ok ()
  | .error (.risk _) => .ok ()
  | .error (.book _) => .ok ()
  | .error error => .error (.gateway error)

/-- Applies the records from `index` on. -/
def replayRecords : List (List U8) → (index : Nat) → (expected : U64) → Gateway A R L O → ReportBuffer N →
    Checked RecoveryError (Gateway A R L O)
  | [], _, _, gateway, _ => pure gateway
  | chunk :: rest, index, expected, gateway, reports => do
      let frame ← liftResult (replayFrame crc32c index expected chunk)
      let (result, gateway, reports) ← unwrapped (gateway.processFrame frame reports)
      liftResult (replayOutcome result)
      let expected ← liftResult (nextSequence expected)
      replayRecords rest (index + 1) expected gateway reports

/-- Restores a snapshot and applies the complete ordered journal records after
it, with room for `N` reports. -/
def recoverSnapshotAndTail (sha256 : List U8 → Digest) (N : Nat) (snapshot tail : List U8) :
    Checked RecoveryError (Gateway A R L O) := do
  let decoded ← mapError RecoveryError.snapshot (decodeSnapshot sha256 snapshot)
  ensure (tail.length % recordSize = 0) (.truncatedJournal (tail.length % recordSize))
  let expected ← liftResult (nextSequence decoded.appliedSequence)
  replayRecords crc32c (chunksExact recordSize tail) 0 expected decoded.gateway (ReportBuffer.empty : ReportBuffer N)

end HftEngine
