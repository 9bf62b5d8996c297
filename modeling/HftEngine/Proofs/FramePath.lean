/-
Module: HftEngine.Proofs.FramePath
Layer: Proofs
Purpose: Frames and commands are one path. Each layer reads the sequence, the
  identity and the journal payload of a frame on its own; for every frame that
  parses these are those of its command, so the gateway, the event engine and
  the journaled engine do the same with a frame as with its command, in every
  state, and so does the router in front of the shards.
Imports: HftEngine.Core.Engine, HftEngine.Core.Sharding,
  HftEngine.Proofs.GatewayRefinement, HftEngine.Proofs.WireCodec
Trusted boundary: none (fully proved)
Main exports: Gateway.processFrame_eq, BoundedEventEngine.processFrame_eq,
  Engine.processFrame_eq, Sharding.routeFrame_eq, Sharding.routeFrame_encode,
  frame_path_is_command_path
-/
import HftEngine.Core.Engine
import HftEngine.Core.Sharding
import HftEngine.Proofs.GatewayRefinement
import HftEngine.Proofs.WireCodec

namespace HftEngine

open Machine

variable {A R L O N B Q : Nat} {frame : List U8} {message : BorrowedMessage}

/-! ### Fields read in place -/

/-- The identity read from a message is that of its command. -/
theorem identity_toCommand (message : BorrowedMessage) :
    CommandIdentity.fromCommand message.toCommand = CommandIdentity.fromMessage message := by
  cases message <;> rfl

/-! ### Layer by layer -/

/-- A gateway does with a frame what it does with its command. -/
theorem Gateway.processFrame_eq (h : parseMessage frame = .ok message) (gateway : Gateway A R L O)
    (reports : ReportBuffer N) : gateway.processFrame frame reports = gateway.processCommand message.toCommand reports := by
  rw [Gateway.processFrame, Gateway.processCommand, h, sequence_toCommand]

/-- The event engine does with a frame what it does with its command. -/
theorem BoundedEventEngine.processFrame_eq (h : parseMessage frame = .ok message)
    (engine : BoundedEventEngine A R L O N B Q) :
    engine.processFrame frame = engine.processCommand message.toCommand := by
  unfold BoundedEventEngine.processFrame BoundedEventEngine.processCommand BoundedEventEngine.applyAdmittedCommand
  rw [h, sequence_toCommand]
  simp only [Gateway.processFrame_eq h, identity_toCommand]

/-- The journal records the same bytes: an accepted frame is the encoding of
its command. -/
theorem Engine.processFrame_eq (crc32c : List U8 → U32) (h : parseMessage frame = .ok message)
    (engine : Engine A R L O N B Q) :
    engine.processFrame crc32c frame = engine.processCommand crc32c message.toCommand := by
  rw [Engine.processFrame, Engine.processCommand, h, encodeCommand_toCommand h]

/-- The router publishes the command of an accepted frame; nothing of the frame
but its command reaches a shard. -/
theorem Sharding.routeFrame_eq {S C : Nat} {size : Fin S → ShardSize} (h : parseMessage frame = .ok message)
    (router : Sharding S B C Q size) : router.routeFrame frame = router.routeCommand message.toCommand := by
  rw [Sharding.routeFrame, h]

/-- Routing the frame of a command is routing the command, so what is proved of
runs over commands holds of runs over their frames. -/
theorem Sharding.routeFrame_encode {S C : Nat} {size : Fin S → ShardSize} (command : Command)
    (router : Sharding S B C Q size) : router.routeFrame (encodeCommand command) = router.routeCommand command := by
  obtain ⟨message, hparse, hcommand, _⟩ := parseMessage_encodeCommand command
  rw [Sharding.routeFrame_eq hparse, hcommand]

/-- For every frame that parses, with its command, and in every state: the
gateway gives the same result, reports and next gateway; the event engine the
same result, batch and next engine; and the journaled engine the same result
and next engine, journal queue included. -/
theorem frame_path_is_command_path {command : Command} (h : parseMessage frame = .ok message)
    (hcommand : message.toCommand = command) :
    (∀ (gateway : Gateway A R L O) (reports : ReportBuffer N),
      gateway.processFrame frame reports = gateway.processCommand command reports) ∧
    (∀ engine : BoundedEventEngine A R L O N B Q, engine.processFrame frame = engine.processCommand command) ∧
    (∀ (crc32c : List U8 → U32) (engine : Engine A R L O N B Q),
      engine.processFrame crc32c frame = engine.processCommand crc32c command) := by
  subst hcommand
  exact ⟨Gateway.processFrame_eq h, BoundedEventEngine.processFrame_eq h,
    fun crc32c => Engine.processFrame_eq crc32c h⟩

/-- The frame of a bid, through a new gateway. -/
theorem frame_path_is_command_path_sample :
    (Gateway.new RiskEngine.new 7 : Gateway 1 1 1 1).processFrame
        (encodeNewOrder ⟨1, 1, 7, i64 10, 5, 1, .buy, .gtc⟩) (ReportBuffer.empty : ReportBuffer 1)
      = (Gateway.new RiskEngine.new 7 : Gateway 1 1 1 1).processCommand
        (.newOrder ⟨1, 1, 7, i64 10, 5, 1, .buy, .gtc⟩) (ReportBuffer.empty : ReportBuffer 1) := by
  obtain ⟨message, hparse, hcommand, _⟩ := parseMessage_encodeCommand (.newOrder ⟨1, 1, 7, i64 10, 5, 1, .buy, .gtc⟩)
  exact (@frame_path_is_command_path 1 1 1 1 1 3 1 _ _ _ hparse hcommand).1 _ _

end HftEngine
