/-
Module: HftEngine.Core.JournalSystem
Layer: Core
Purpose: A controlled journal channel with everyone who touches it: the writer,
  the persistence worker with its sink, and any number of status readers,
  interleaved at every access to the ring, to a status word and to the sink.
Imports: HftEngine.Core.Persistence, HftEngine.Core.Ring
Trusted boundary: translates `JournalChannel`, `JournalWriter`,
  `PersistenceWorker` and `JournalStatusReader` of the crate `hft-journal` over
  the ring of `hft-spsc`, with sequentially consistent shared accesses
Main exports: WriterStage, JournalSystem, JournalAction, JournalEvent,
  JournalSystem.split, JournalSystem.step
-/
import HftEngine.Core.Persistence
import HftEngine.Core.Ring

namespace HftEngine

open Machine

/-- Where the writer stands: between calls, inside the push of `enqueue` with
the sequence it will expect next, or consumed by `close`. -/
inductive WriterStage where
  | ready
  | pushing (next : U64)
  | closed
deriving DecidableEq, Repr

/-- Everyone at a controlled channel: the ring with its two ends, the writer,
the shared status words, the worker with its sink, and any number of status
readers. -/
structure JournalSystem where
  ring : Ring JournalRecord 64 ringCapacity
  writer : JournalWriter
  writerStage : WriterStage
  status : StatusState
  worker : PersistenceWorker
  sink : DurableSink
  readings : Nat → StatusReading

/-- Whose turn it is. Whoever is not in a call can be given one; whoever is in
a call makes its next access. -/
inductive JournalAction where
  | enqueue (payload : List U8)
  /-- The producer's next access to the ring. -/
  | producer
  | close
  | worker (input : WorkerInput)
  /-- The worker's next access to the ring. -/
  | consumer
  /-- The next load of a status reader. -/
  | read (reader : Nat)

/-- What a step lets the outside see. -/
inductive JournalEvent where
  | quiet
  | enqueued (record : JournalRecord)
  | refused (error : JournalError)
  | worker (event : WorkerEvent)
  | status (reader : Nat) (status : JournalStatus)

namespace JournalSystem

/-- A channel split at a sequence with its queue empty, at any position of the
ring's cursors. -/
def split (start : BitVec 64) (firstSequence : U64) (policy : FlushPolicy) : JournalSystem where
  ring := Ring.new start
  writer := ⟨firstSequence⟩
  writerStage := .ready
  status := StatusState.new firstSequence
  worker := PersistenceWorker.unbuilt firstSequence policy
  sink := ⟨[], []⟩
  readings := fun _ => .idle

variable (crc32c : List U8 → U32) (size : Nat)

/-- A step of the worker with an input. -/
def advance (system : JournalSystem) (input : WorkerInput) : Option (JournalEvent × JournalSystem) :=
  (system.worker.advance crc32c size system.status system.sink input).map fun (event, worker, status, sink) =>
    (.worker event, { system with worker := worker, status := status, sink := sink })

/-- `enqueue`, up to the first access to the ring. -/
def enqueue (system : JournalSystem) (payload : List U8) : Option (JournalEvent × JournalSystem) :=
  match checkedAdd system.writer.nextSequence 1 with
  | none => some (.refused .sequenceOverflow, system)
  | some next =>
      match JournalRecord.new crc32c system.writer.nextSequence payload with
      | .error error => some (.refused error, system)
      | .ok record =>
          (system.ring.step (.tryPush record)).map fun (_, ring) =>
            (.quiet, { system with ring := ring, writerStage := .pushing next })

/-- One access of the push; the sequence advances when the record is
published. -/
def push (system : JournalSystem) (next : U64) : Option (JournalEvent × JournalSystem) :=
  match system.ring.step .producer with
  | none => none
  | some (.pushed record, ring) =>
      some (.enqueued record, { system with ring := ring, writer := ⟨next⟩, writerStage := .ready })
  | some (.refused _, ring) => some (.refused .saturated, { system with ring := ring, writerStage := .ready })
  | some (_, ring) => some (.quiet, { system with ring := ring })

/-- The next access of a pop that the worker asked for. -/
def popAction (system : JournalSystem) : RingAction JournalRecord :=
  match system.ring.consumer.stage with
  | .idle => .tryPop
  | _ => .consumer

/-- One access of the pop; its answer goes to the worker. -/
def pop (system : JournalSystem) : Option (JournalEvent × JournalSystem) :=
  match system.ring.step system.popAction with
  | none => none
  | some (.popped record, ring) => { system with ring := ring }.advance crc32c size (.popped record)
  | some (.empty, ring) => { system with ring := ring }.advance crc32c size .empty
  | some (_, ring) => some (.quiet, { system with ring := ring })

/-- One step of any party, with batches of `size` records. -/
def step (system : JournalSystem) : JournalAction → Option (JournalEvent × JournalSystem)
  | .enqueue payload =>
      match system.writerStage with
      | .ready => system.enqueue crc32c payload
      | _ => none
  | .producer =>
      match system.writerStage with
      | .pushing next => system.push next
      | _ => none
  | .close =>
      match system.writerStage with
      | .ready =>
          some (.quiet, { system with
            writerStage := .closed, status := { system.status with producerClosed := true } })
      | _ => none
  | .worker input =>
      match input with
      | .popped _ => none
      | .empty => none
      | _ => system.advance crc32c size input
  | .consumer =>
      match system.worker.stage with
      | .popping _ _ => system.pop crc32c size
      | _ => none
  | .read reader =>
      let (result, reading) := (system.readings reader).load system.status
      let system := { system with readings := Function.update system.readings reader reading }
      match result with
      | none => some (.quiet, system)
      | some status => some (.status reader status, system)

end JournalSystem

end HftEngine
