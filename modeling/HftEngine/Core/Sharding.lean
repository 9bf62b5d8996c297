/-
Module: HftEngine.Core.Sharding
Layer: Core
Purpose: The shards behind a route table: a router that publishes commands to
  the queue of their shard and takes event batches from it, and one
  single-writer matching shard per instrument with a slot for a command that
  met a full event queue. Both queues of a shard are seen at the grain of
  completed calls and live with the shard.
Imports: HftEngine.Core.Router, HftEngine.Core.Events
Trusted boundary: translates `MultiInstrumentRouter` and `MatchingShard` of the
  crate `hft-router`
Main exports: RouterError, ShardError, ShardSize, MatchingShard,
  MatchingShard.tryNew, MatchingShard.tryProcessOne, Sharding,
  Sharding.routeCommand, Sharding.routeFrame, Sharding.tryEvent
-/
import HftEngine.Core.Router
import HftEngine.Core.Events

namespace HftEngine

/-- Why a command was not passed on. Nothing was queued in any of these
cases. -/
inductive RouterError where
  | parse (error : ParseError)
  | unknownInstrument (instrument : InstrumentId)
  | unknownShard (shard : ShardId)
  | commandBackpressured (shard : ShardId)
deriving DecidableEq, Repr

/-- Why a shard was not built. -/
inductive ShardConfigError where
  | instrumentMismatch (route gateway : InstrumentId)
  | events (error : EventEngineConfigError)
deriving DecidableEq, Repr

/-- What one call of a shard did. -/
inductive ShardStep where
  | idle
  | processed (sequence : SequenceNumber)
deriving DecidableEq, Repr

/-- Why a shard did not process its command. After `eventBackpressured` the
command waits in the shard. -/
inductive ShardError where
  | misrouted (expected received : InstrumentId)
  | eventBackpressured
  | engine (error : EventEngineError)
deriving DecidableEq, Repr

/-- The capacities of one shard. -/
structure ShardSize where
  accounts : Nat
  riskOrders : Nat
  levels : Nat
  ordersPerLevel : Nat
  reports : Nat
deriving DecidableEq, Repr

/-- One shard with its command queue of `C`; the event queue of `Q` batches of
`B` events is the engine's. -/
structure MatchingShard (size : ShardSize) (B C Q : Nat) where
  route : InstrumentRoute
  commands : BoundedQueue Command C
  engine : BoundedEventEngine size.accounts size.riskOrders size.levels size.ordersPerLevel size.reports B Q
  pending : Option Command
deriving DecidableEq

namespace MatchingShard

variable {size : ShardSize} {B C Q : Nat}

/-- Builds one single-writer shard from its exclusive queue endpoints. -/
def tryNew (route : InstrumentRoute)
    (gateway : Gateway size.accounts size.riskOrders size.levels size.ordersPerLevel)
    (commands : BoundedQueue Command C) (events : BoundedQueue (EventBatch B) Q) :
    Except ShardConfigError (MatchingShard size B C Q) :=
  if route.instrumentId ≠ gateway.book.instrument then
    .error (.instrumentMismatch route.instrumentId gateway.book.instrument)
  else
    match BoundedEventEngine.tryNew gateway events with
    | .error error => .error (.events error)
    | .ok engine => .ok ⟨route, commands, engine, none⟩

/-- The command the next step takes: the one kept back, else the oldest of the
queue. -/
def take (shard : MatchingShard size B C Q) : Option (Command × MatchingShard size B C Q) :=
  match shard.pending with
  | some command => some (command, { shard with pending := none })
  | none => shard.commands.tryPop.map fun (command, commands) => (command, { shard with commands := commands })

/-- Processes at most one queued command. Event backpressure retains the
command for the next call. -/
def tryProcessOne (shard : MatchingShard size B C Q) :
    Option (Except ShardError ShardStep × MatchingShard size B C Q) :=
  match shard.take with
  | none => some (.ok .idle, shard)
  | some (command, shard) =>
      if command.instrumentId ≠ shard.route.instrumentId then
        some (.error (.misrouted shard.route.instrumentId command.instrumentId), shard)
      else
        match shard.engine.processCommand command with
        | none => none
        | some (.ok (), engine) => some (.ok (.processed command.sequence), { shard with engine := engine })
        | some (.error .backpressured, engine) =>
            some (.error .eventBackpressured, { shard with engine := engine, pending := some command })
        | some (.error error, engine) => some (.error (.engine error), { shard with engine := engine })

/-- `try_push` of the router's end of the command queue. -/
def offer (shard : MatchingShard size B C Q) (command : Command) : Bool × MatchingShard size B C Q :=
  match shard.commands.tryPush command with
  | none => (false, shard)
  | some commands => (true, { shard with commands := commands })

/-- `try_pop` of the router's end of the event queue. -/
def popEvent (shard : MatchingShard size B C Q) : Option (EventBatch B) × MatchingShard size B C Q :=
  match shard.engine.queue.tryPop with
  | none => (none, shard)
  | some (batch, queue) => (some batch, { shard with engine := { shard.engine with queue := queue } })

end MatchingShard

/-- The router's table and the shards it serves. -/
structure Sharding (S B C Q : Nat) (size : Fin S → ShardSize) where
  routes : RouteTable S
  shards : (shard : Fin S) → MatchingShard (size shard) B C Q

namespace Sharding

variable {S B C Q : Nat} {size : Fin S → ShardSize}

/-- The router with one shard replaced; the others are untouched. -/
def setShard (router : Sharding S B C Q size) (index : Fin S) (shard : MatchingShard (size index) B C Q) :
    Sharding S B C Q size :=
  { router with shards := Function.update router.shards index shard }

/-- Publishes one normalized command to its configured shard; `none` where the
table lookup would panic. -/
def routeCommand (router : Sharding S B C Q size) (command : Command) :
    Option (Except RouterError ShardId × Sharding S B C Q size) :=
  match router.routes.shardFor command.instrumentId with
  | none => none
  | some none => some (.error (.unknownInstrument command.instrumentId), router)
  | some (some shardId) =>
      if h : shardId.val < S then
        match (router.shards ⟨shardId.val, h⟩).offer command with
        | (false, _) => some (.error (.commandBackpressured shardId), router)
        | (true, shard) => some (.ok shardId, router.setShard ⟨shardId.val, h⟩ shard)
      else some (.error (.unknownShard shardId), router)

/-- Parses and publishes one command to its configured shard. -/
def routeFrame (router : Sharding S B C Q size) (frame : List U8) :
    Option (Except RouterError ShardId × Sharding S B C Q size) :=
  match parseMessage frame with
  | .error error => some (.error (.parse error), router)
  | .ok message => router.routeCommand message.toCommand

/-- Pops the next event batch from one shard without merging shard order. -/
def tryEvent (router : Sharding S B C Q size) (shardId : ShardId) :
    Except RouterError (Option (EventBatch B)) × Sharding S B C Q size :=
  if h : shardId.val < S then
    let (batch, shard) := (router.shards ⟨shardId.val, h⟩).popEvent
    (.ok batch, router.setShard ⟨shardId.val, h⟩ shard)
  else (.error (.unknownShard shardId), router)

end Sharding

end HftEngine
