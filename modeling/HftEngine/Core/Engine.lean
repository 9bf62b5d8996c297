/-
Module: HftEngine.Core.Engine
Layer: Core
Purpose: The journaled engine of one instrument: admission, one journal record
  and one event batch for every command it applies, and the lifecycle from open
  admission to failure or stop.
Imports: HftEngine.Core.Events, HftEngine.Core.Channel
Trusted boundary: translates `Engine` of the crate `hft-engine`
Main exports: EngineError, Engine, Engine.new, Engine.processCommand,
  Engine.processFrame, Engine.stopAdmission
-/
import HftEngine.Core.Events
import HftEngine.Core.Channel

namespace HftEngine

open Machine

/-- Why a command was not applied. After some of them the engine has failed and
applies nothing any more. -/
inductive EngineError where
  | stopped
  | failed
  | persistenceFailed
  | unknownInstrument (instrument : InstrumentId)
  | parse (error : ParseError)
  | admission (error : EventEngineError)
  | journal (error : JournalError)
  | sequenceInvariant
  | apply (error : EventEngineError)
deriving DecidableEq, Repr

/-- The engine, with the journal channel it shares with the persistence
worker. -/
structure Engine (A R L O N B Q : Nat) where
  events : BoundedEventEngine A R L O N B Q
  journal : Option JournalWriter
  channel : JournalChannel
  failed : Bool
deriving DecidableEq

namespace Engine

variable {A R L O N B Q : Nat}

/-- Attaches fresh queues at the next sequence of a gateway. -/
def build (gateway : Gateway A R L O) : Except EventEngineConfigError (Engine A R L O N B Q) :=
  let (writer, channel) := JournalChannel.split gateway.expectedSequence
  (BoundedEventEngine.tryNew gateway BoundedQueue.empty).map fun events => ⟨events, some writer, channel, false⟩

/-- The one instrument of this engine. -/
def instrument (engine : Engine A R L O N B Q) : InstrumentId := engine.events.gateway.book.instrument

/-- The sequence number of the next command, as the gateway expects it. -/
def expectedSequence (engine : Engine A R L O N B Q) : SequenceNumber := engine.events.gateway.expectedSequence

/-- Closes the journal producer after the last admitted command. -/
def stopAdmission (engine : Engine A R L O N B Q) : Engine A R L O N B Q :=
  match engine.journal with
  | none => engine
  | some _ => { engine with journal := none, channel := JournalWriter.close engine.channel }

/-- Marks the engine as failed and stops admission. Nothing clears the mark. -/
def fail (engine : Engine A R L O N B Q) : Engine A R L O N B Q := { engine with failed := true }.stopAdmission

variable (crc32c : List U8 → U32)

/-- Journals an admitted command before applying it. -/
def applyAdmitted (engine : Engine A R L O N B Q) (writer : JournalWriter) (command : Command) (payload : List U8) :
    Option (Except EngineError Unit × Engine A R L O N B Q) :=
  match writer.enqueue crc32c engine.channel payload with
  | (.error error, writer, channel) =>
      some (.error (.journal error), { engine with journal := some writer, channel := channel })
  | (.ok _, writer, channel) =>
      let engine := { engine with journal := some writer, channel := channel }
      match engine.events.applyAdmittedCommand command with
      | none => none
      | some (.error error, events) => some (.error (.apply error), { engine with events := events }.fail)
      | some (.ok (), events) => some (.ok (), { engine with events := events })

/-- The admission path of commands and frames; `payload` is what the journal
records. -/
def applyJournaled (engine : Engine A R L O N B Q) (command : Command) (payload : List U8) :
    Option (Except EngineError Unit × Engine A R L O N B Q) :=
  if engine.failed then some (.error .failed, engine)
  else if engine.channel.status.poisoned then some (.error .persistenceFailed, engine.fail)
  else
    match engine.journal with
    | none => some (.error .stopped, engine)
    | some writer =>
        if command.instrumentId ≠ engine.instrument then
          some (.error (.unknownInstrument command.instrumentId), engine)
        else if writer.nextSequence ≠ engine.expectedSequence then some (.error .sequenceInvariant, engine.fail)
        else
          match engine.events.preflight command.sequence with
          | .error (.gateway (.riskState reason)) =>
              some (.error (.admission (.gateway (.riskState reason))), engine.fail)
          | .error error => some (.error (.admission error), engine)
          | .ok () => engine.applyAdmitted crc32c writer command payload

/-- Journals one command before applying it and publishing one event batch. -/
def processCommand (engine : Engine A R L O N B Q) (command : Command) :
    Option (Except EngineError Unit × Engine A R L O N B Q) :=
  engine.applyJournaled crc32c command (encodeCommand command)

/-- Parse failures change no state. Valid frames use the command admission
path, and their bytes are journaled. -/
def processFrame (engine : Engine A R L O N B Q) (frame : List U8) :
    Option (Except EngineError Unit × Engine A R L O N B Q) :=
  match parseMessage frame with
  | .error error => some (.error (.parse error), engine)
  | .ok message => engine.applyJournaled crc32c message.toCommand frame

end Engine

end HftEngine
