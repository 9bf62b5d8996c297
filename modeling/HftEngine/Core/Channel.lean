/-
Module: HftEngine.Core.Channel
Layer: Core
Purpose: The controlled journal channel: the queue between the engine and the
  persistence worker, the status words the two sides publish, and the writer
  that numbers and enqueues records.
Imports: HftEngine.Core.Journal, HftEngine.Lib.BoundedQueue
Trusted boundary: translates `JournalChannel` and `JournalWriter` of the crate
  `hft-journal`, with the queue at the grain of completed calls
Main exports: StatusState, JournalStatus, JournalChannel, JournalWriter,
  JournalWriter.enqueue, JournalWriter.close
-/
import HftEngine.Core.Journal
import HftEngine.Lib.BoundedQueue

namespace HftEngine

open Machine

/-- The journal queue holds one thousand and twenty-four records. -/
def ringCapacity : Nat := 1024

/-- The status words of a channel, each a shared atomic. -/
structure StatusState where
  /-- First sequence not covered by a fully written batch. -/
  nextWrittenSequence : U64
  /-- First sequence not covered by a successful flush. -/
  nextDurableSequence : U64
  producerClosed : Bool
  poisoned : Bool
  shutdownComplete : Bool
deriving DecidableEq, Repr

/-- Watermarks start at the channel's first sequence. -/
def StatusState.new (firstSequence : U64) : StatusState := ⟨firstSequence, firstSequence, false, false, false⟩

/-- What the two ends of a journal share. -/
structure JournalChannel where
  queue : BoundedQueue JournalRecord ringCapacity
  status : StatusState
deriving DecidableEq

/-- The only producer of a channel. -/
structure JournalWriter where
  nextSequence : U64
deriving DecidableEq, Repr

/-- A fresh channel and its writer for one sequence domain. -/
def JournalChannel.split (firstSequence : U64) : JournalWriter × JournalChannel :=
  (⟨firstSequence⟩, ⟨BoundedQueue.empty, StatusState.new firstSequence⟩)

namespace JournalWriter

/-- Closes admission. Consumes the only writer. -/
def close (channel : JournalChannel) : JournalChannel :=
  { channel with status := { channel.status with producerClosed := true } }

/-- Builds and publishes one record, or refuses before changing the producer
sequence. -/
def enqueue (crc32c : List U8 → U32) (writer : JournalWriter) (channel : JournalChannel) (payload : List U8) :
    Except JournalError SequenceNumber × JournalWriter × JournalChannel :=
  match checkedAdd writer.nextSequence 1 with
  | none => (.error .sequenceOverflow, writer, channel)
  | some next =>
      match JournalRecord.new crc32c writer.nextSequence payload with
      | .error error => (.error error, writer, channel)
      | .ok record =>
          match channel.queue.tryPush record with
          | none => (.error .saturated, writer, channel)
          | some queue => (.ok writer.nextSequence, ⟨next⟩, { channel with queue := queue })

end JournalWriter

end HftEngine
