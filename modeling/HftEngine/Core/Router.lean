/-
Module: HftEngine.Core.Router
Layer: Core
Purpose: The route table of the shard router: one instrument per shard, stored
  in instrument order, with a direct index when the instrument identifiers are
  consecutive and a binary search otherwise.
Imports: HftEngine.Core.Types, HftEngine.Lib.KeyedList
Trusted boundary: translates `RouteTable` of the crate `hft-router`
Main exports: ShardId, InstrumentRoute, RouteTableError, RouteTable,
  RouteTable.tryNew, RouteTable.shardFor, RouteTable.instrumentFor
-/
import HftEngine.Core.Types
import HftEngine.Lib.KeyedList

namespace HftEngine

/-- Shards are numbered from zero; the table has one route for each. -/
abbrev ShardId := U16

/-- Which shard an instrument goes to. -/
structure InstrumentRoute where
  instrumentId : InstrumentId
  shardId : ShardId
deriving DecidableEq, Repr

/-- Why the routes do not make a table. -/
inductive RouteTableError where
  | noShards
  | tooManyShards
  | invalidShardId (shard : ShardId)
  | duplicateShardId (shard : ShardId)
  | duplicateInstrument (instrument : InstrumentId)
deriving DecidableEq, Repr

/-- The routes in instrument order, the position of each shard's route among
them, and whether the instruments are consecutive. -/
structure RouteTable (shards : Nat) where
  byInstrument : Vector InstrumentRoute shards
  byShard : Vector U16 shards
  dense : Bool
deriving DecidableEq

namespace RouteTable

variable {shards : Nat}

/-- The scan for shard identifiers out of range or used twice. -/
def checkShards (seen : Vector Bool shards) : List InstrumentRoute → Except RouteTableError Unit
  | [] => .ok ()
  | route :: rest =>
      if h : route.shardId.val < shards then
        if seen[route.shardId.val] then .error (.duplicateShardId route.shardId)
        else checkShards (seen.set route.shardId.val true) rest
      else .error (.invalidShardId route.shardId)

/-- The scan of adjacent routes, in instrument order, for an instrument used
twice. -/
def checkInstruments : List InstrumentRoute → Except RouteTableError Unit
  | first :: second :: rest =>
      if first.instrumentId = second.instrumentId then .error (.duplicateInstrument first.instrumentId)
      else checkInstruments (second :: rest)
  | _ => .ok ()

/-- `sort_unstable_by_key` on the instrument identifier. -/
def sortRoutes (routes : Vector InstrumentRoute shards) : Vector InstrumentRoute shards :=
  ⟨(routes.toList.insertionSort fun first second => first.instrumentId ≤ second.instrumentId).toArray, by simp⟩

/-- Records the position of every route under its shard; `none` where the store
would be out of bounds. -/
def indexShards (byShard : Vector U16 shards) :
    Nat → List InstrumentRoute → Option (Except RouteTableError (Vector U16 shards))
  | _, [] => some (.ok byShard)
  | index, route :: rest =>
      if hindex : index < 2 ^ 16 then
        if hshard : route.shardId.val < shards then
          indexShards (byShard.set route.shardId.val ⟨index, hindex⟩) (index + 1) rest
        else none
      else some (.error .tooManyShards)

/-- Builds a route table with exactly one instrument per shard. -/
def tryNew (routes : Vector InstrumentRoute shards) : Option (Except RouteTableError (RouteTable shards)) :=
  if hempty : shards = 0 then some (.error .noShards)
  else if 2 ^ 16 < shards then some (.error .tooManyShards)
  else
    match checkShards (Vector.replicate shards false) routes.toList with
    | .error error => some (.error error)
    | .ok () =>
        let sorted := sortRoutes routes
        match checkInstruments sorted.toList with
        | .error error => some (.error error)
        | .ok () =>
            match indexShards (Vector.replicate shards 0) 0 sorted.toList with
            | none => none
            | some (.error error) => some (.error error)
            | some (.ok byShard) =>
                -- the subtraction is unchecked in the source: a reversed pair would panic
                match Machine.checkedSub sorted[shards - 1].instrumentId sorted[0].instrumentId with
                | none => none
                | some spread =>
                    if shards - 1 < 2 ^ 32 then
                      some (.ok ⟨sorted, byShard, decide (spread.val = shards - 1)⟩)
                    else some (.error .tooManyShards)

/-- The direct index of a dense table. -/
def denseShardFor (table : RouteTable shards) (instrumentId : InstrumentId) : Option (Option ShardId) :=
  match table.byInstrument[0]? with
  | none => none
  | some first =>
      match Machine.checkedSub instrumentId first.instrumentId with
      | none => some none
      | some offset => some (table.byInstrument[offset.val]?.map (·.shardId))

/-- The binary search of a sparse table. -/
def searchShardFor (table : RouteTable shards) (instrumentId : InstrumentId) : Option (Option ShardId) :=
  match KeyedList.binarySearch (·.instrumentId) instrumentId table.byInstrument.toList with
  | none => some none
  | some index =>
      match table.byInstrument[index]? with
      | none => none
      | some route => some (some route.shardId)

/-- The shard that handles an instrument; `none` where the source would
panic. -/
def shardFor (table : RouteTable shards) (instrumentId : InstrumentId) : Option (Option ShardId) :=
  if table.dense then table.denseShardFor instrumentId else table.searchShardFor instrumentId

/-- The instrument a shard handles. -/
def instrumentFor (table : RouteTable shards) (shardId : ShardId) : Option InstrumentId := do
  let index ← table.byShard[shardId.val]?
  let route ← table.byInstrument[index.val]?
  return route.instrumentId

end RouteTable

end HftEngine
