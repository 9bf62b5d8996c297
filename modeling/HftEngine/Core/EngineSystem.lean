/-
Module: HftEngine.Core.EngineSystem
Layer: Core
Purpose: The journaled engine among its neighbours: how it is built and
  checkpointed, and the interleaving of its calls with the event consumer and
  the persistence worker. A call of the engine is broken at its shared
  accesses: the load of the failure flag, the capacity check on the event
  queue, the push to the journal queue, and the push to the event queue after
  the gateway moved.
Imports: HftEngine.Core.Engine, HftEngine.Core.Persistence,
  HftEngine.Core.Recovery
Trusted boundary: translates `EngineBuilder` and `Engine` of the crate
  `hft-engine`, with the two queues at the grain of completed pushes and pops
Main exports: BuildError, EngineBuilder.new, EngineBuilder.restore,
  Engine.health, Engine.snapshot, EngineStage, Engine.begin, Engine.proceed,
  EngineSystem, EngineAction, EngineEvent, EngineSystem.start,
  EngineSystem.step
-/
import HftEngine.Core.Engine
import HftEngine.Core.Persistence
import HftEngine.Core.Recovery

namespace HftEngine

open Machine Bytes

variable {A R L O N B Q : Nat}

/-! ### Building -/

/-- Why no engine was built. -/
inductive BuildError where
  | zeroCapacity
  | registration (error : RegistrationError)
  | recovery (error : RecoveryError)
  | instrumentMismatch
deriving DecidableEq, Repr

namespace EngineBuilder

/-- An engine with no room for some kind of record is refused at once. -/
def validateCapacity (A R L O N : Nat) : Except BuildError Unit :=
  if A = 0 ∨ R = 0 ∨ L = 0 ∨ O = 0 ∨ N = 0 then .error .zeroCapacity else .ok ()

/-- Registers the accounts in order, up to the first refusal. -/
def registerAll : List (AccountId × RiskLimits) → RiskEngine A R → Except BuildError (RiskEngine A R)
  | [], risk => .ok risk
  | (account, limits) :: rest, risk =>
      match risk.registerAccount account limits with
      | (.error error, _) => .error (.registration error)
      | (.ok (), risk) => registerAll rest risk

/-- A new gateway, for an engine with room for `N` reports. -/
def new (N : Nat) (instrument : InstrumentId) (accounts : List (AccountId × RiskLimits)) :
    Except BuildError (Gateway A R L O) := do
  validateCapacity A R L O N
  let risk ← registerAll accounts RiskEngine.new
  pure (Gateway.new risk instrument)

/-- A gateway recovered from a snapshot and a journal tail. -/
def restore (crc32c : List U8 → U32) (sha256 : List U8 → Digest) (N : Nat) (instrument : InstrumentId)
    (snapshot tail : List U8) : Checked BuildError (Gateway A R L O) := do
  liftResult (validateCapacity A R L O N)
  let gateway ← mapError BuildError.recovery (recoverSnapshotAndTail crc32c sha256 N snapshot tail)
  ensure (gateway.book.instrument = instrument) .instrumentMismatch
  pure gateway

end EngineBuilder

/-! ### Checkpoints -/

/-- The lifecycle of an engine as it is reported. -/
inductive EngineState where
  | running
  | stopping
  | stopped
  | failed
deriving DecidableEq, Repr

/-- The report of an engine: its state, its next sequence number, and what its
journal said. -/
structure Health where
  state : EngineState
  nextSequence : SequenceNumber
  journal : JournalStatus
deriving DecidableEq, Repr

/-- Why no snapshot was taken. An engine still admitting commands, or not yet
persisted, has none. -/
inductive CheckpointError where
  | admissionOpen
  | persistencePending
  | failed
  | sequenceInvariant
  | snapshot (error : SnapshotError)
deriving DecidableEq, Repr

namespace Engine

/-- The health of an engine that reads this journal status. -/
def health (engine : Engine A R L O N B Q) (journal : JournalStatus) : Health where
  state :=
    if engine.failed || journal.poisoned then .failed
    else if engine.journal.isSome then .running
    else if journal.shutdownComplete then .stopped
    else .stopping
  nextSequence := engine.expectedSequence
  journal := journal

/-- Encodes a snapshot after producer closure and final flush, when this
journal status says so. -/
def snapshot (sha256 : List U8 → Digest) (engine : Engine A R L O N B Q) (journal : JournalStatus) :
    Except CheckpointError Snapshot :=
  let health := engine.health journal
  if health.state = .failed then .error .failed
  else if engine.journal.isSome then .error .admissionOpen
  else if health.journal.shutdownComplete = false then .error .persistencePending
  else if health.journal.nextWrittenSequence ≠ health.nextSequence ∨
      health.journal.nextDurableSequence ≠ health.nextSequence then .error .sequenceInvariant
  else
    match checkedSub health.nextSequence 1 with
    | none => .error .sequenceInvariant
    | some applied => (encodeSnapshot sha256 engine.events.gateway applied).mapError .snapshot

end Engine

/-! ### A call, access by access -/

/-- What a call of the engine does next: check for event capacity, enqueue its
record, or apply its command. -/
inductive EngineStage where
  | idle
  | admitting (command : Command) (payload : List U8)
  | enqueuing (command : Command) (payload : List U8)
  | applying (command : Command)
deriving DecidableEq

/-- A call of the engine after one of its accesses: it has returned, or it
stands at the next one. -/
inductive CallProgress (A R L O N B Q : Nat) where
  | returned (result : Except EngineError Unit) (engine : Engine A R L O N B Q)
  | continues (stage : EngineStage) (engine : Engine A R L O N B Q)

namespace Engine

/-- The start of `apply_journaled`, with the load of the failure flag. -/
def begin (engine : Engine A R L O N B Q) (command : Command) (payload : List U8) : CallProgress A R L O N B Q :=
  if engine.failed then .returned (.error .failed) engine
  else if engine.channel.status.poisoned then .returned (.error .persistenceFailed) engine.fail
  else
    match engine.journal with
    | none => .returned (.error .stopped) engine
    | some writer =>
        if command.instrumentId ≠ engine.instrument then
          .returned (.error (.unknownInstrument command.instrumentId)) engine
        else if writer.nextSequence ≠ engine.expectedSequence then .returned (.error .sequenceInvariant) engine.fail
        else .continues (.admitting command payload) engine

/-- The next access of a call; `none` between calls and where the gateway
panics. -/
def proceed (crc32c : List U8 → U32) (engine : Engine A R L O N B Q) :
    EngineStage → Option (CallProgress A R L O N B Q)
  | .idle => none
  | .admitting command payload =>
      match engine.events.preflight command.sequence with
      | .error (.gateway (.riskState reason)) =>
          some (.returned (.error (.admission (.gateway (.riskState reason)))) engine.fail)
      | .error error => some (.returned (.error (.admission error)) engine)
      | .ok () => some (.continues (.enqueuing command payload) engine)
  | .enqueuing command payload =>
      match engine.journal with
      | none => some (.returned (.error .stopped) engine)
      | some writer =>
          match writer.enqueue crc32c engine.channel payload with
          | (.error error, writer, channel) =>
              some (.returned (.error (.journal error)) { engine with journal := some writer, channel := channel })
          | (.ok _, writer, channel) =>
              some (.continues (.applying command) { engine with journal := some writer, channel := channel })
  | .applying command =>
      match engine.events.applyAdmittedCommand command with
      | none => none
      | some (.error error, events) => some (.returned (.error (.apply error)) { engine with events := events }.fail)
      | some (.ok (), events) => some (.returned (.ok ()) { engine with events := events })

end Engine

/-! ### The system -/

/-- An engine, the call it is in, its persistence worker and sink, and the
status a checkpoint has read so far. -/
structure EngineSystem (A R L O N B Q : Nat) where
  engine : Engine A R L O N B Q
  stage : EngineStage
  worker : PersistenceWorker
  sink : DurableSink
  reading : StatusReading

/-- Whose turn it is in the interleaving. -/
inductive EngineAction where
  | command (command : Command)
  | frame (bytes : List U8)
  /-- The next access of the engine's call. -/
  | engine
  | stopAdmission
  /-- The next status load of `snapshot`. -/
  | load
  | popEvent
  | popRecord
  | worker (input : WorkerInput)

/-- What is seen of a step. A frame that does not parse carries no command. -/
inductive EngineEvent (B : Nat) where
  | quiet
  | returned (command : Option Command) (result : Except EngineError Unit)
  | stopped
  | snapshot (result : Except CheckpointError Snapshot)
  | event (batch : Option (EventBatch B))
  | record (record : Option JournalRecord) (event : WorkerEvent)
  | worker (event : WorkerEvent)
deriving DecidableEq

namespace EngineSystem

/-- An engine on fresh storage, its reader not yet owned by a worker, and an
empty sink. -/
def start (gateway : Gateway A R L O) (policy : FlushPolicy) :
    Except EventEngineConfigError (EngineSystem A R L O N B Q) :=
  (Engine.build gateway).map fun engine =>
    ⟨engine, .idle, PersistenceWorker.unbuilt gateway.expectedSequence policy, ⟨[], []⟩, .idle⟩

/-- The system after an access of the engine's call. -/
def progressed (system : EngineSystem A R L O N B Q) (command : Option Command) :
    CallProgress A R L O N B Q → EngineEvent B × EngineSystem A R L O N B Q
  | .returned result engine => (.returned command result, { system with engine := engine, stage := .idle })
  | .continues stage engine => (.quiet, { system with engine := engine, stage := stage })

/-- Neither a call nor a checkpoint is under way. -/
def free (system : EngineSystem A R L O N B Q) : Bool :=
  decide (system.stage = .idle) && decide (system.reading = .idle)

def setChannel (system : EngineSystem A R L O N B Q) (channel : JournalChannel) : EngineSystem A R L O N B Q :=
  { system with engine := { system.engine with channel := channel } }

variable (crc32c : List U8 → U32) (sha256 : List U8 → Digest) (size : Nat)

/-- A step of the worker with an input. -/
def advance (system : EngineSystem A R L O N B Q) (input : WorkerInput) :
    Option (WorkerEvent × EngineSystem A R L O N B Q) :=
  (system.worker.advance crc32c size system.engine.channel.status system.sink input).map
    fun (event, worker, status, sink) =>
      (event, { system.setChannel { system.engine.channel with status := status } with worker := worker, sink := sink })

/-- One step of any party, with batches of `size` records. -/
def step (system : EngineSystem A R L O N B Q) :
    EngineAction → Option (EngineEvent B × EngineSystem A R L O N B Q)
  | .command command =>
      if system.free then
        some (system.progressed (some command) (system.engine.begin command (encodeCommand command)))
      else none
  | .frame bytes =>
      if system.free then
        match parseMessage bytes with
        | .error error => some (.returned none (.error (.parse error)), system)
        | .ok message =>
            some (system.progressed (some message.toCommand) (system.engine.begin message.toCommand bytes))
      else none
  | .engine =>
      match system.stage with
      | .idle => none
      | .admitting command payload =>
          (system.engine.proceed crc32c (.admitting command payload)).map (system.progressed (some command))
      | .enqueuing command payload =>
          (system.engine.proceed crc32c (.enqueuing command payload)).map (system.progressed (some command))
      | .applying command =>
          (system.engine.proceed crc32c (.applying command)).map (system.progressed (some command))
  | .stopAdmission =>
      if system.free then some (.stopped, { system with engine := system.engine.stopAdmission }) else none
  | .load =>
      match system.stage with
      | .idle =>
          let (result, reading) := system.reading.load system.engine.channel.status
          let system := { system with reading := reading }
          match result with
          | none => some (.quiet, system)
          | some journal => some (.snapshot (system.engine.snapshot sha256 journal), system)
      | _ => none
  | .popEvent =>
      match system.engine.events.queue.tryPop with
      | none => some (.event none, system)
      | some (batch, queue) =>
          let events := { system.engine.events with queue := queue }
          some (.event (some batch), { system with engine := { system.engine with events := events } })
  | .popRecord =>
      match system.worker.stage with
      | .popping _ _ =>
          match system.engine.channel.queue.tryPop with
          | none => (system.advance crc32c size .empty).map fun (event, system) => (.record none event, system)
          | some (record, queue) =>
              ((system.setChannel { system.engine.channel with queue := queue }).advance crc32c size
                (.popped record)).map fun (event, system) => (.record (some record) event, system)
      | _ => none
  | .worker input =>
      match input with
      | .popped _ => none
      | .empty => none
      | _ => (system.advance crc32c size input).map fun (event, system) => (.worker event, system)

end EngineSystem

end HftEngine
