/-
Module: HftEngine.Core.Persistence
Layer: Core
Purpose: The persistence worker at the grain of its shared accesses. Every pop
  of the journal queue, every call of the sink, and every load or store of a
  status word is one step; what the worker computes on its own in between
  belongs to the step before. What the environment answers to a step (a popped
  record, the outcome of a write or a flush) is an input.
Imports: HftEngine.Core.Channel
Trusted boundary: translates `JournalReader`, `StatusGuard`,
  `PersistenceWorker` and `JournalStatusReader` of the crate `hft-journal`,
  with sequentially consistent shared accesses
Main exports: JournalReader, DurableSink, PersistenceWorker, WorkerInput,
  WorkerEvent, PersistenceWorker.advance, JournalStatus, StatusReading,
  StatusReading.load
-/
import HftEngine.Core.Channel

namespace HftEngine

open Machine

/-! ### The reader -/

/-- Why the reader took no record. All but `empty` poison it. -/
inductive ReadError where
  | empty
  | checksumMismatch (sequence : SequenceNumber)
  | sequenceMismatch (expected received : SequenceNumber)
  | poisoned
deriving DecidableEq, Repr

/-- The only consumer of a channel; `shutdownComplete` is the flag of its
status guard. -/
structure JournalReader where
  expectedSequence : U64
  poisoned : Bool
  shutdownComplete : Bool
deriving DecidableEq, Repr

namespace JournalReader

/-- A reader at the start of its channel. -/
def controlled (firstExpected : U64) : JournalReader := ⟨firstExpected, false, false⟩

/-- What `read` makes of a popped record. A refusal poisons the reader; the
store to the shared flag follows. -/
def accept (crc32c : List U8 → U32) (reader : JournalReader) (record : JournalRecord) :
    Except ReadError JournalRecord × JournalReader :=
  if record.verify crc32c = false then
    (.error (.checksumMismatch record.sequence), { reader with poisoned := true })
  else if record.sequence ≠ reader.expectedSequence then
    (.error (.sequenceMismatch reader.expectedSequence record.sequence), { reader with poisoned := true })
  else
    match checkedAdd reader.expectedSequence 1 with
    | none => (.error .poisoned, { reader with poisoned := true })
    | some next => (.ok record, { reader with expectedSequence := next })

end JournalReader

/-! ### The sink -/

/-- What a sink holds, and what it held when it was last flushed with
success. -/
structure DurableSink where
  content : List U8
  flushed : List U8
deriving DecidableEq, Repr

/-- What one call of `write` returns; an accepted count is the number of bytes
appended. -/
inductive WriteResponse where
  | ok (count : Nat)
  | interrupted
  | failed
deriving DecidableEq, Repr

/-- What a sink did wrong. -/
inductive SinkError where
  | writeZero
  | invalidCount
  | storage
deriving DecidableEq, Repr

/-- Why a call of the worker stopped short. -/
inductive PersistError where
  | read (error : ReadError)
  | io (error : SinkError)
  | producerOpen
  | poisoned
deriving DecidableEq, Repr

/-- When the sink is flushed. -/
inductive FlushPolicy where
  | everyBatch
  | onShutdown
deriving DecidableEq, Repr

/-! ### The worker -/

/-- The public call a step belongs to; `shutdown` drains in a loop. -/
inductive WorkerCall where
  | drainBatch
  | shutdown
deriving DecidableEq, Repr

/-- The worker's next shared access. A batch is a list of encoded records. -/
inductive WorkerStage where
  /-- The reader is there, the worker not yet built. -/
  | unbuilt
  | idle
  | popping (call : WorkerCall) (batch : List (List U8))
  /-- `status.poison()` in `read`. -/
  | poisoningReader (call : WorkerCall) (error : ReadError)
  /-- `sink.write` of the rest of one record, before the other records of the batch. -/
  | writing (call : WorkerCall) (count : Nat) (bytes : List U8) (rest : List (List U8))
  | publishingWritten (call : WorkerCall) (count : Nat)
  | flushing (call : WorkerCall) (count : Nat)
  | publishingDurable (call : WorkerCall) (count : Nat)
  /-- `producer_is_closed()` in `shutdown`. -/
  | loadingClosed
  | finalFlushing
  | finalDurable
  | completing
  /-- `status.poison()` in `fail`. -/
  | failing (call : WorkerCall) (error : PersistError)
  /-- `status.poison()` in the drop of the status guard. -/
  | dropping
  | dropped
deriving DecidableEq, Repr

/-- The worker with its reader and the access it is about to make. -/
structure PersistenceWorker where
  reader : JournalReader
  policy : FlushPolicy
  poisoned : Bool
  stage : WorkerStage
deriving DecidableEq, Repr

/-- Calls of the worker, and what the environment answers to its pending
access. -/
inductive WorkerInput where
  | drainBatch
  | shutdown
  | drop
  /-- A load or store of a status word; `PersistenceWorker::new` of a reader without worker. -/
  | access
  | popped (record : JournalRecord)
  | empty
  | written (response : WriteResponse)
  | flushed (ok : Bool)
deriving DecidableEq

inductive WorkerEvent where
  | quiet
  | built (accepted : Bool)
  | drained (result : Except PersistError Nat)
  | shutDown (result : Except PersistError Unit)
deriving DecidableEq

namespace PersistenceWorker

/-- The reader of a fresh channel. -/
def unbuilt (firstSequence : U64) (policy : FlushPolicy) : PersistenceWorker :=
  ⟨JournalReader.controlled firstSequence, policy, false, .unbuilt⟩

def enter (worker : PersistenceWorker) (stage : WorkerStage) : PersistenceWorker := { worker with stage := stage }

/-- `fail`, up to its store. -/
def fail (worker : PersistenceWorker) (call : WorkerCall) (error : PersistError) : PersistenceWorker :=
  { worker with poisoned := true, stage := .failing call error }

/-- What a public call returns when it fails. -/
def refusal (error : PersistError) : WorkerCall → WorkerEvent
  | .drainBatch => .drained (.error error)
  | .shutdown => .shutDown (.error error)

/-- The records of a batch that are still to be written, the first of them
next. -/
def nextWrite (worker : PersistenceWorker) (call : WorkerCall) (count : Nat) : List (List U8) → PersistenceWorker
  | [] => worker.enter (.publishingWritten call count)
  | [] :: rest => nextWrite worker call count rest
  | bytes :: rest => worker.enter (.writing call count bytes rest)

/-- The end of the read loop. An empty batch ends `drain_batch`, and with it
the loop of `shutdown`. -/
def afterRead (worker : PersistenceWorker) (call : WorkerCall) (batch : List (List U8)) :
    WorkerEvent × PersistenceWorker :=
  match batch with
  | [] =>
      match call with
      | .drainBatch => (.drained (.ok 0), worker.enter .idle)
      | .shutdown => (.quiet, worker.enter .finalFlushing)
  | _ :: _ => (.quiet, worker.nextWrite call batch.length batch)

/-- The head of the read loop, with room for `size` records. -/
def readNext (size : Nat) (worker : PersistenceWorker) (call : WorkerCall) (batch : List (List U8)) :
    WorkerEvent × PersistenceWorker :=
  if batch.length < size then
    if worker.reader.poisoned then (.quiet, worker.fail call (.read .poisoned))
    else (.quiet, worker.enter (.popping call batch))
  else worker.afterRead call batch

/-- Starts to collect a batch. A poisoned worker refuses without touching the
queue. -/
def drainBatch (size : Nat) (worker : PersistenceWorker) (call : WorkerCall) : WorkerEvent × PersistenceWorker :=
  if worker.poisoned then (refusal .poisoned call, worker.enter .idle) else worker.readNext size call []

/-- The end of `drain_batch` after a batch of `count` records, which is not
zero. -/
def endBatch (size : Nat) (worker : PersistenceWorker) (call : WorkerCall) (count : Nat) :
    WorkerEvent × PersistenceWorker :=
  match call with
  | .drainBatch => (.drained (.ok count), worker.enter .idle)
  | .shutdown => worker.drainBatch size .shutdown

/-- The drop of the status guard, up to its store. -/
def drop (worker : PersistenceWorker) : PersistenceWorker :=
  worker.enter (if worker.reader.shutdownComplete then .dropped else .dropping)

/-- One turn of `write_all` on the record being written. -/
def afterWrite (worker : PersistenceWorker) (sink : DurableSink) (call : WorkerCall) (count : Nat) (bytes : List U8)
    (rest : List (List U8)) : WriteResponse → PersistenceWorker × DurableSink
  | .interrupted => (worker, sink)
  | .failed => (worker.fail call (.io .storage), sink)
  | .ok 0 => (worker.fail call (.io .writeZero), sink)
  | .ok written =>
      let sink := { sink with content := sink.content ++ bytes.take written }
      if written ≤ bytes.length then (worker.nextWrite call count (bytes.drop written :: rest), sink)
      else (worker.fail call (.io .invalidCount), sink)

variable (crc32c : List U8 → U32) (size : Nat)

/-- What the worker does with a popped record. -/
def afterPop (worker : PersistenceWorker) (call : WorkerCall) (batch : List (List U8)) (record : JournalRecord) :
    WorkerEvent × PersistenceWorker :=
  match worker.reader.accept crc32c record with
  | (.ok record, reader) => { worker with reader := reader }.readNext size call (batch ++ [record.encode])
  | (.error error, reader) => (.quiet, { worker with reader := reader, stage := .poisoningReader call error })

/-- One step of the worker, with batches of `size` records; `none` when the
input does not fit the stage. -/
def advance (worker : PersistenceWorker) (status : StatusState) (sink : DurableSink) :
    WorkerInput → Option (WorkerEvent × PersistenceWorker × StatusState × DurableSink)
  | .drainBatch =>
      match worker.stage with
      | .idle =>
          let (event, worker) := worker.drainBatch size .drainBatch
          some (event, worker, status, sink)
      | _ => none
  | .shutdown =>
      match worker.stage with
      | .idle =>
          if worker.poisoned then some (.shutDown (.error .poisoned), worker, status, sink)
          else if worker.reader.shutdownComplete then some (.shutDown (.ok ()), worker, status, sink)
          else some (.quiet, worker.enter .loadingClosed, status, sink)
      | _ => none
  | .drop =>
      match worker.stage with
      | .idle => some (.quiet, worker.drop, status, sink)
      | .unbuilt => some (.quiet, worker.drop, status, sink)
      | _ => none
  | .popped record =>
      match worker.stage with
      | .popping call batch =>
          let (event, worker) := worker.afterPop crc32c size call batch record
          some (event, worker, status, sink)
      | _ => none
  | .empty =>
      match worker.stage with
      | .popping call batch =>
          let (event, worker) := worker.afterRead call batch
          some (event, worker, status, sink)
      | _ => none
  | .written response =>
      match worker.stage with
      | .writing call count bytes rest =>
          let (worker, sink) := worker.afterWrite sink call count bytes rest response
          some (.quiet, worker, status, sink)
      | _ => none
  | .flushed ok =>
      let flushed : DurableSink := { sink with flushed := sink.content }
      match worker.stage with
      | .flushing call count =>
          if ok then some (.quiet, worker.enter (.publishingDurable call count), status, flushed)
          else some (.quiet, worker.fail call (.io .storage), status, sink)
      | .finalFlushing =>
          if ok then some (.quiet, worker.enter .finalDurable, status, flushed)
          else some (.quiet, worker.fail .shutdown (.io .storage), status, sink)
      | _ => none
  | .access =>
      match worker.stage with
      | .unbuilt =>
          if size = 0 ∨ worker.reader.poisoned = true ∨ worker.reader.expectedSequence ≠ status.nextWrittenSequence then
            some (.built false, worker.drop, status, sink)
          else some (.built true, worker.enter .idle, status, sink)
      | .poisoningReader call error =>
          some (.quiet, worker.fail call (.read error), { status with poisoned := true }, sink)
      | .publishingWritten call count =>
          let status := { status with nextWrittenSequence := worker.reader.expectedSequence }
          match worker.policy with
          | .everyBatch => some (.quiet, worker.enter (.flushing call count), status, sink)
          | .onShutdown =>
              let (event, worker) := worker.endBatch size call count
              some (event, worker, status, sink)
      | .publishingDurable call count =>
          let status := { status with nextDurableSequence := worker.reader.expectedSequence }
          let (event, worker) := worker.endBatch size call count
          some (event, worker, status, sink)
      | .loadingClosed =>
          if status.producerClosed then
            let (event, worker) := worker.drainBatch size .shutdown
            some (event, worker, status, sink)
          else some (.shutDown (.error .producerOpen), worker.enter .idle, status, sink)
      | .finalDurable =>
          some (.quiet, worker.enter .completing,
            { status with nextDurableSequence := worker.reader.expectedSequence }, sink)
      | .completing =>
          some (.shutDown (.ok ()),
            { worker with reader := { worker.reader with shutdownComplete := true }, stage := .idle },
            { status with shutdownComplete := true }, sink)
      | .failing call error => some (refusal error call, worker.enter .idle, { status with poisoned := true }, sink)
      | .dropping => some (.quiet, worker.enter .dropped, { status with poisoned := true }, sink)
      | _ => none

end PersistenceWorker

/-! ### Reading the status -/

/-- What `JournalStatusReader::snapshot` returns. -/
structure JournalStatus where
  nextWrittenSequence : U64
  nextDurableSequence : U64
  producerClosed : Bool
  poisoned : Bool
  shutdownComplete : Bool
deriving DecidableEq, Repr

/-- What a `snapshot` in progress has loaded, one word after another. -/
inductive StatusReading where
  | idle
  | completion (shutdownComplete : Bool)
  | durable (shutdownComplete : Bool) (nextDurableSequence : U64)
  | written (shutdownComplete : Bool) (nextDurableSequence nextWrittenSequence : U64)
  | closed (shutdownComplete : Bool) (nextDurableSequence nextWrittenSequence : U64) (producerClosed : Bool)
deriving DecidableEq, Repr

/-- The next load of a `snapshot`, with its result after the last one. -/
def StatusReading.load (status : StatusState) : StatusReading → Option JournalStatus × StatusReading
  | .idle => (none, .completion status.shutdownComplete)
  | .completion complete => (none, .durable complete status.nextDurableSequence)
  | .durable complete nextDurable => (none, .written complete nextDurable status.nextWrittenSequence)
  | .written complete nextDurable nextWritten =>
      (none, .closed complete nextDurable nextWritten status.producerClosed)
  | .closed complete nextDurable nextWritten producerClosed =>
      (some ⟨nextWritten, nextDurable, producerClosed, status.poisoned, complete⟩, .idle)

end HftEngine
