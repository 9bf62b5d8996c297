/-
Module: HftEngine.Proofs.Sharding
Layer: Proofs
Purpose: Sharded routing loses, duplicates, reorders and mixes up nothing. A
  run of the router and all shards splits into one run per shard over the calls
  that touch it; in each of these the accepted commands are the finished ones,
  the one kept back and the queued ones, in order, and every processed command
  has its event batch.
Imports: HftEngine.Core.Sharding, HftEngine.Lib.Transition,
  HftEngine.Proofs.RouteTable
Trusted boundary: none (fully proved)
Main exports: ShardCall, ShardEvent, MatchingShard.perform, RouterCall,
  RouterEvent, Sharding.perform, sharding_loses_nothing
-/
import HftEngine.Core.Sharding
import HftEngine.Lib.Transition
import HftEngine.Proofs.RouteTable

namespace HftEngine

open Transition

/-! ### Events carry their command's sequence -/

/-- The batch has events, all with this sequence. -/
def EventBatch.Of {B : Nat} (batch : EventBatch B) (sequence : SequenceNumber) : Prop :=
  batch.events ≠ [] ∧ ∀ event ∈ batch.events, event.id.commandSequence = sequence

section Batches

variable {A R L O N B Q : Nat} {sequence : SequenceNumber} {batch batch' : EventBatch B}

/-- A push that succeeds puts the event last. -/
theorem pushPreflighted_eq_ok {event : Event} (h : pushPreflighted batch event = .ok batch') :
    batch'.events = batch.events ++ [event] := by
  unfold pushPreflighted EventBatch.tryPush at h
  split at h
  · cases h
  · rename_i hpush
    split at hpush
    · cases hpush
      cases h
      rfl
    · cases hpush

/-- A batch stays the batch of its command when an event of the command is
added. -/
theorem EventBatch.Of.push {event : Event} (h : ∀ event ∈ batch.events, event.id.commandSequence = sequence)
    (hevent : event.id.commandSequence = sequence) (hpush : pushPreflighted batch event = .ok batch') :
    batch'.Of sequence := by
  rw [EventBatch.Of, pushPreflighted_eq_ok hpush]
  refine ⟨by simp, fun other hmem => ?_⟩
  rcases List.mem_append.mp hmem with hmem | hmem
  · exact h other hmem
  · rw [List.mem_singleton.mp hmem]
    exact hevent

/-- The trades of a command stay in its batch. -/
theorem pushTrades_of {reports : List ExecutionReport} {ordinal ordinal' : U16} (h : batch.Of sequence)
    (hpush : pushTrades sequence reports batch ordinal = some (.ok (batch', ordinal'))) : batch'.Of sequence := by
  induction reports generalizing batch ordinal with
  | nil =>
      cases hpush
      exact h
  | cons report rest ih =>
      rw [pushTrades] at hpush
      split at hpush
      · cases hpush
      · rename_i next hnext
        split at hpush
        · cases hpush
        · exact ih (EventBatch.Of.push h.2 rfl hnext) hpush

/-- The event that settles a command carries its sequence number. -/
theorem terminalEvent_sequence (outcome : GatewayOutcome) (command : CommandIdentity) (ordinal : U16) :
    (terminalEvent outcome command sequence ordinal).id.commandSequence = sequence := by
  cases outcome <;> rfl

/-- Every batch that is built belongs to its command. -/
theorem buildBatch_of {command : CommandIdentity} {before after : Tops} {reports : ReportBuffer N}
    {result : Except GatewayError GatewayOutcome}
    (h : buildBatch command sequence before after reports result = some (.ok batch)) : batch.Of sequence := by
  have hnew : ∀ event ∈ (EventBatch.new : EventBatch B).events, event.id.commandSequence = sequence := by
    intro event hmem
    cases hmem
  unfold buildBatch at h
  split at h
  · rename_i outcome
    split at h
    · cases h
    · rename_i first hfirst
      have hof := EventBatch.Of.push hnew (terminalEvent_sequence outcome command 0) hfirst
      split at h
      · cases h
      · cases h
      · rename_i trades ordinal htrades
        have hof' := pushTrades_of hof htrades
        split at h
        · exact EventBatch.Of.push hof'.2 rfl (Option.some.inj h)
        · cases h
          exact hof'
  · exact EventBatch.Of.push hnew rfl (Option.some.inj h)
  · exact EventBatch.Of.push hnew rfl (Option.some.inj h)
  · cases h

namespace BoundedEventEngine

variable {engine engine' : BoundedEventEngine A R L O N B Q} {command : Command}

/-- A processed command publishes one batch of its own. -/
theorem processCommand_ok (h : engine.processCommand command = some (.ok (), engine')) :
    ∃ batch : EventBatch B, batch.Of command.sequence ∧ engine'.queue.items = engine.queue.items ++ [batch] := by
  unfold processCommand at h
  split at h
  · cases h
  unfold applyAdmittedCommand at h
  split at h
  · cases h
  dsimp only at h
  unfold publishResult at h
  split at h
  · cases h
  · cases h
  · rename_i batch hbatch
    split at h
    · cases h
    · rename_i queue hpush
      cases h
      exact ⟨batch, buildBatch_of hbatch, (BoundedQueue.tryPush_eq_some.mp hpush).2⟩

/-- Any other outcome publishes nothing. -/
theorem processCommand_error {error : EventEngineError}
    (h : engine.processCommand command = some (.error error, engine')) : engine'.queue = engine.queue := by
  unfold processCommand at h
  split at h
  · cases h
    rfl
  unfold applyAdmittedCommand at h
  split at h
  · cases h
  dsimp only at h
  unfold publishResult at h
  split at h
  · cases h
  · cases h
    rfl
  · split at h
    · cases h
      rfl
    · cases h

end BoundedEventEngine

end Batches

/-! ### One shard on its own -/

/-- What the two threads of a shard call: the router offers, the worker steps,
the consumer pops. -/
inductive ShardCall where
  | offer (command : Command)
  | process
  | pop
deriving DecidableEq, Repr

/-- What is seen of a call; a processing step also shows the command it
took. -/
inductive ShardEvent (B : Nat) where
  | offered (command : Command) (accepted : Bool)
  | stepped (taken : Option Command) (result : Except ShardError ShardStep)
  | popped (batch : Option (EventBatch B))

namespace ShardEvent

variable {B : Nat}

/-- The command a shard took in. -/
def accepted : ShardEvent B → Option Command
  | .offered command true => some command
  | _ => none

/-- The command a step has finished with, processed or refused by the
engine. -/
def finished : ShardEvent B → Option Command
  | .stepped taken (.ok (.processed _)) => taken
  | .stepped taken (.error (.engine _)) => taken
  | _ => none

/-- The command a step of the shard worked off. -/
def processed : ShardEvent B → Option Command
  | .stepped taken (.ok (.processed _)) => taken
  | _ => none

/-- The batch a consumer took out. -/
def batch : ShardEvent B → Option (EventBatch B)
  | .popped batch => batch
  | _ => none

end ShardEvent

namespace MatchingShard

variable {size : ShardSize} {B C Q : Nat} {shard shard' : MatchingShard size B C Q}

/-- One call of a shard. -/
def perform (shard : MatchingShard size B C Q) : ShardCall → Option (ShardEvent B × MatchingShard size B C Q)
  | .offer command =>
      let (accepted, shard) := shard.offer command
      some (.offered command accepted, shard)
  | .process => shard.tryProcessOne.map fun (result, next) => (.stepped (shard.take.map Prod.fst) result, next)
  | .pop =>
      let (batch, shard) := shard.popEvent
      some (.popped batch, shard)

/-- What the calls so far and the shard's state have in common. -/
structure Accounts (events : List (ShardEvent B)) (shard : MatchingShard size B C Q) : Prop where
  commands : events.filterMap ShardEvent.accepted =
    events.filterMap ShardEvent.finished ++ shard.pending.toList ++ shard.commands.items
  batches : List.Forall₂ (fun (batch : EventBatch B) (command : Command) => batch.Of command.sequence)
    (events.filterMap ShardEvent.batch ++ shard.engine.queue.items) (events.filterMap ShardEvent.processed)
  routed : ∀ command ∈ shard.pending.toList ++ shard.commands.items,
    command.instrumentId = shard.route.instrumentId

/-- A taken command is the first of those held. -/
theorem take_eq_some {command : Command} (h : shard.take = some (command, shard')) :
    shard'.pending = none ∧ shard'.route = shard.route ∧ shard'.engine = shard.engine ∧
      shard.pending.toList ++ shard.commands.items = command :: shard'.commands.items := by
  unfold take at h
  split at h
  · rename_i kept hpending
    cases h
    exact ⟨rfl, rfl, rfl, by rw [hpending]; rfl⟩
  · rename_i hpending
    obtain ⟨⟨first, rest⟩, hpop, heq⟩ := Option.map_eq_some_iff.mp h
    cases heq
    refine ⟨hpending, rfl, rfl, ?_⟩
    rw [hpending]
    exact BoundedQueue.tryPop_eq_some.mp hpop

/-- What a step can do to a shard that holds only commands of its own
instrument. -/
theorem tryProcessOne_cases {result : Except ShardError ShardStep}
    (hrouted : ∀ command ∈ shard.pending.toList ++ shard.commands.items,
      command.instrumentId = shard.route.instrumentId)
    (h : shard.tryProcessOne = some (result, shard')) :
    (result = .ok .idle ∧ shard' = shard ∧ shard.take = none) ∨
    ∃ command held, shard.take = some (command, held) ∧ shard'.route = shard.route ∧
      shard'.commands = held.commands ∧
      ((result = .ok (.processed command.sequence) ∧ shard'.pending = none ∧
          ∃ batch : EventBatch B, batch.Of command.sequence ∧
            shard'.engine.queue.items = shard.engine.queue.items ++ [batch]) ∨
        (result = .error .eventBackpressured ∧ shard'.pending = some command ∧
          shard'.engine.queue = shard.engine.queue) ∨
        ∃ error, result = .error (.engine error) ∧ shard'.pending = none ∧
          shard'.engine.queue = shard.engine.queue) := by
  unfold tryProcessOne at h
  split at h
  · rename_i hnone
    cases h
    exact .inl ⟨rfl, rfl, hnone⟩
  · rename_i command held htake
    obtain ⟨hpending, hroute, hengine, hheld⟩ := take_eq_some htake
    refine .inr ⟨command, held, htake, ?_⟩
    rw [if_neg (by rw [hroute, not_not]; exact hrouted command (by rw [hheld]; simp))] at h
    split at h
    · cases h
    · rename_i engine hprocess
      cases h
      refine ⟨hroute, rfl, .inl ⟨rfl, hpending, ?_⟩⟩
      obtain ⟨batch, hof, hqueue⟩ := BoundedEventEngine.processCommand_ok hprocess
      exact ⟨batch, hof, by rw [hqueue, hengine]⟩
    · rename_i engine hprocess
      cases h
      refine ⟨hroute, rfl, .inr (.inl ⟨rfl, rfl, ?_⟩)⟩
      exact (BoundedEventEngine.processCommand_error hprocess).trans (by rw [hengine])
    · rename_i error engine _ hprocess
      cases h
      refine ⟨hroute, rfl, .inr (.inr ⟨error, rfl, hpending, ?_⟩)⟩
      exact (BoundedEventEngine.processCommand_error hprocess).trans (by rw [hengine])

/-- One call keeps the accounts, keeps the route and never finds a command of
another instrument. -/
theorem Accounts.perform {events : List (ShardEvent B)} {event : ShardEvent B} {call : ShardCall}
    (h : Accounts events shard)
    (hcall : ∀ command, call = .offer command → command.instrumentId = shard.route.instrumentId)
    (hperform : shard.perform call = some (event, shard')) :
    Accounts (events ++ [event]) shard' ∧ shard'.route = shard.route ∧
      ∀ taken expected received, event ≠ .stepped taken (.error (.misrouted expected received)) := by
  obtain ⟨hcommands, hbatches, hrouted⟩ := h
  cases call with
  | offer command =>
      simp only [MatchingShard.perform, offer] at hperform
      split at hperform
      · cases hperform
        exact ⟨⟨by simpa [List.filterMap_cons, ShardEvent.accepted, ShardEvent.finished] using hcommands,
          by simpa [List.filterMap_cons, ShardEvent.batch, ShardEvent.processed] using hbatches, hrouted⟩, rfl, by simp⟩
      · rename_i queue hpush
        cases hperform
        have hitems := (BoundedQueue.tryPush_eq_some.mp hpush).2
        refine ⟨⟨?_, by simpa [List.filterMap_cons, ShardEvent.batch, ShardEvent.processed] using hbatches, ?_⟩, rfl, by simp⟩
        · simp only [List.filterMap_append, hcommands, hitems]
          simp [List.filterMap_cons, ShardEvent.accepted, ShardEvent.finished]
        · intro other hmem
          simp only [hitems, List.mem_append, List.mem_singleton] at hmem
          rcases hmem with hmem | hmem | rfl
          · exact hrouted other (List.mem_append_left _ hmem)
          · exact hrouted other (List.mem_append_right _ hmem)
          · exact hcall other rfl
  | process =>
      obtain ⟨⟨result, next⟩, hstep, heq⟩ := Option.map_eq_some_iff.mp hperform
      cases heq
      rcases tryProcessOne_cases hrouted hstep with ⟨rfl, rfl, _⟩ |
        ⟨command, held, htake, hroute, hqueue, hresult⟩
      · exact ⟨⟨by simpa [List.filterMap_cons, ShardEvent.accepted, ShardEvent.finished] using hcommands,
          by simpa [List.filterMap_cons, ShardEvent.batch, ShardEvent.processed] using hbatches, hrouted⟩, rfl, by simp⟩
      · obtain ⟨hpending, _, _, hheld⟩ := take_eq_some htake
        rw [List.append_assoc, hheld] at hcommands
        have hrest : ∀ other ∈ shard'.commands.items, other.instrumentId = shard'.route.instrumentId := by
          intro other hmem
          rw [hroute]
          rw [hqueue] at hmem
          exact hrouted other (by rw [hheld]; simp [hmem])
        rcases hresult with ⟨rfl, hnone, batch, hof, hitems⟩ | ⟨rfl, hkept, hsame⟩ | ⟨error, rfl, hnone, hsame⟩
        · refine ⟨⟨?_, ?_, ?_⟩, hroute, by simp⟩
          · simp only [List.filterMap_append, hcommands, htake, hnone, hqueue]
            simp [List.filterMap_cons, ShardEvent.accepted, ShardEvent.finished]
          · simp only [List.filterMap_append, hitems, htake]
            simpa [List.filterMap_cons, ShardEvent.batch, ShardEvent.processed, ← List.append_assoc] using
              List.rel_append hbatches (List.Forall₂.cons hof List.Forall₂.nil)
          · rw [hnone]
            exact hrest
        · refine ⟨⟨?_, ?_, ?_⟩, hroute, by simp⟩
          · simp only [List.filterMap_append, hcommands, hkept, hqueue]
            simp [List.filterMap_cons, ShardEvent.accepted, ShardEvent.finished]
          · rw [hsame]
            simpa [List.filterMap_cons, ShardEvent.batch, ShardEvent.processed] using hbatches
          · intro other hmem
            rw [hkept] at hmem
            rcases List.mem_cons.mp hmem with rfl | hmem
            · rw [hroute]
              exact hrouted other (by rw [hheld]; simp)
            · exact hrest other hmem
        · refine ⟨⟨?_, ?_, ?_⟩, hroute, by simp⟩
          · simp only [List.filterMap_append, hcommands, htake, hnone, hqueue]
            simp [List.filterMap_cons, ShardEvent.accepted, ShardEvent.finished]
          · rw [hsame]
            simpa [List.filterMap_cons, ShardEvent.batch, ShardEvent.processed] using hbatches
          · rw [hnone]
            exact hrest
  | pop =>
      simp only [MatchingShard.perform, popEvent] at hperform
      split at hperform
      · cases hperform
        exact ⟨⟨by simpa [List.filterMap_cons, ShardEvent.accepted, ShardEvent.finished] using hcommands,
          by simpa [List.filterMap_cons, ShardEvent.batch, ShardEvent.processed] using hbatches, hrouted⟩, rfl, by simp⟩
      · rename_i batch queue hpop
        cases hperform
        have hitems := BoundedQueue.tryPop_eq_some.mp hpop
        refine ⟨⟨by simpa [List.filterMap_cons, ShardEvent.accepted, ShardEvent.finished] using hcommands, ?_, hrouted⟩, rfl, by simp⟩
        rw [hitems] at hbatches
        simpa [List.filterMap_cons, ShardEvent.batch, ShardEvent.processed] using hbatches

end MatchingShard

/-! ### The router and all shards -/

/-- What is called on the whole of the shards: a route, or a step or a pop of
one of them. -/
inductive RouterCall (S : Nat) where
  | route (command : Command)
  | process (shard : Fin S)
  | event (shardId : ShardId)
deriving DecidableEq, Repr

/-- What came of such a call. -/
inductive RouterEvent (S B : Nat) where
  | routed (command : Command) (result : Except RouterError ShardId)
  | stepped (shard : Fin S) (taken : Option Command) (result : Except ShardError ShardStep)
  | popped (shardId : ShardId) (result : Except RouterError (Option (EventBatch B)))

section System

variable {S B C Q : Nat} {size : Fin S → ShardSize}

/-- One call on the whole of the shards. -/
def Sharding.perform (router : Sharding S B C Q size) :
    RouterCall S → Option (RouterEvent S B × Sharding S B C Q size)
  | .route command => (router.routeCommand command).map fun (result, router) => (.routed command result, router)
  | .process index =>
      (router.shards index).tryProcessOne.map fun (result, shard) =>
        (.stepped index ((router.shards index).take.map Prod.fst) result, router.setShard index shard)
  | .event shardId =>
      let (result, router) := router.tryEvent shardId
      some (.popped shardId result, router)

/-- What a call asks of one shard, if it touches it. -/
def RouterCall.callFor (table : RouteTable S) (index : Fin S) : RouterCall S → Option ShardCall
  | .route command =>
      match table.shardFor command.instrumentId with
      | some (some shardId) => if shardId.val = index.val then some (.offer command) else none
      | _ => none
  | .process shard => if shard = index then some .process else none
  | .event shardId => if shardId.val = index.val then some .pop else none

/-- What is seen of one shard in an event of the system. -/
def RouterEvent.eventFor (index : Fin S) : RouterEvent S B → Option (ShardEvent B)
  | .routed command (.ok shardId) => if shardId.val = index.val then some (.offered command true) else none
  | .routed command (.error (.commandBackpressured shardId)) =>
      if shardId.val = index.val then some (.offered command false) else none
  | .stepped shard taken result => if shard = index then some (.stepped taken result) else none
  | .popped shardId (.ok batch) => if shardId.val = index.val then some (.popped batch) else none
  | _ => none

variable {router router' : Sharding S B C Q size} {call : RouterCall S} {event : RouterEvent S B}

@[simp] theorem Sharding.setShard_self (index : Fin S) (shard : MatchingShard (size index) B C Q) :
    (router.setShard index shard).shards index = shard := Function.update_self ..

theorem Sharding.setShard_of_ne {index other : Fin S} (h : other ≠ index)
    (shard : MatchingShard (size index) B C Q) :
    (router.setShard index shard).shards other = router.shards other := Function.update_of_ne h ..

/-- A call of the system is one call of each shard it touches and leaves the
others alone. -/
theorem Sharding.perform_local (h : router.perform call = some (event, router')) (index : Fin S) :
    (call.callFor router.routes index = none ∧ event.eventFor index = none ∧
        router'.shards index = router.shards index) ∨
    ∃ shardCall shardEvent, call.callFor router.routes index = some shardCall ∧
      event.eventFor index = some shardEvent ∧
      (router.shards index).perform shardCall = some (shardEvent, router'.shards index) := by
  cases call with
  | route command =>
      obtain ⟨⟨result, next⟩, hroute, heq⟩ := Option.map_eq_some_iff.mp h
      cases heq
      unfold Sharding.routeCommand at hroute
      split at hroute
      · cases hroute
      · rename_i hnone
        cases hroute
        exact .inl ⟨by simp [RouterCall.callFor, hnone], rfl, rfl⟩
      · rename_i shardId hsome
        split at hroute
        · rename_i hlt
          by_cases hindex : shardId.val = index.val
          · obtain rfl : (⟨shardId.val, hlt⟩ : Fin S) = index := Fin.ext hindex
            refine .inr ⟨.offer command, ?_⟩
            split at hroute
            · rename_i hoffer
              cases hroute
              refine ⟨.offered command false, by simp [RouterCall.callFor, hsome],
                by simp [RouterEvent.eventFor], ?_⟩
              simp only [MatchingShard.perform, hoffer]
              unfold MatchingShard.offer at hoffer
              split at hoffer
              · cases hoffer
                rfl
              · cases hoffer
            · rename_i shard hoffer
              cases hroute
              refine ⟨.offered command true, by simp [RouterCall.callFor, hsome],
                by simp [RouterEvent.eventFor], ?_⟩
              simp [MatchingShard.perform, hoffer]
          · refine .inl ⟨by simp [RouterCall.callFor, hsome, hindex], ?_⟩
            split at hroute
            · cases hroute
              exact ⟨by simp [RouterEvent.eventFor, hindex], rfl⟩
            · cases hroute
              refine ⟨by simp [RouterEvent.eventFor, hindex], setShard_of_ne ?_ _⟩
              rintro rfl
              exact hindex rfl
        · rename_i hge
          cases hroute
          refine .inl ⟨?_, rfl, rfl⟩
          have := index.isLt
          rw [RouterCall.callFor, hsome]
          dsimp only
          rw [if_neg (by omega)]
  | process shard =>
      obtain ⟨⟨result, next⟩, hstep, heq⟩ := Option.map_eq_some_iff.mp h
      cases heq
      by_cases hindex : shard = index
      · subst hindex
        refine .inr ⟨.process, _, by simp [RouterCall.callFor], by rw [RouterEvent.eventFor, if_pos rfl], ?_⟩
        simp [MatchingShard.perform, hstep]
      · exact .inl ⟨by simp [RouterCall.callFor, hindex], by simp [RouterEvent.eventFor, hindex],
          setShard_of_ne (Ne.symm hindex) _⟩
  | event shardId =>
      simp only [Sharding.perform, Option.some.injEq, Prod.mk.injEq] at h
      obtain ⟨rfl, rfl⟩ := h
      unfold Sharding.tryEvent
      split
      · rename_i hlt
        by_cases hindex : shardId.val = index.val
        · obtain rfl : (⟨shardId.val, hlt⟩ : Fin S) = index := Fin.ext hindex
          refine .inr ⟨.pop, _, by simp [RouterCall.callFor], by rw [RouterEvent.eventFor, if_pos rfl], ?_⟩
          simp [MatchingShard.perform]
        · refine .inl ⟨by simp [RouterCall.callFor, hindex], by simp [RouterEvent.eventFor, hindex],
            setShard_of_ne ?_ _⟩
          rintro rfl
          exact hindex rfl
      · rename_i hge
        have := index.isLt
        refine .inl ⟨?_, rfl, rfl⟩
        rw [RouterCall.callFor, if_neg (by omega)]

/-- No call changes the routes. -/
theorem Sharding.perform_routes (h : router.perform call = some (event, router')) :
    router'.routes = router.routes := by
  cases call with
  | route command =>
      obtain ⟨⟨result, next⟩, hroute, heq⟩ := Option.map_eq_some_iff.mp h
      cases heq
      unfold Sharding.routeCommand at hroute
      repeat' split at hroute
      all_goals
        cases hroute
        try rfl
  | process shard =>
      obtain ⟨⟨result, next⟩, hstep, heq⟩ := Option.map_eq_some_iff.mp h
      cases heq
      rfl
  | event shardId =>
      simp only [Sharding.perform, Option.some.injEq, Prod.mk.injEq] at h
      obtain ⟨rfl, rfl⟩ := h
      unfold Sharding.tryEvent
      split <;> rfl

/-- A run of the system is, for each shard, a run over the calls that touch
it. -/
theorem Sharding.run_local {calls : List (RouterCall S)} {events : List (RouterEvent S B)}
    (h : run Sharding.perform router calls = some (events, router')) (index : Fin S) :
    run MatchingShard.perform (router.shards index) (calls.filterMap (RouterCall.callFor router.routes index)) =
      some (events.filterMap (RouterEvent.eventFor index), router'.shards index) := by
  induction calls generalizing router events with
  | nil =>
      cases h
      rfl
  | cons call calls ih =>
      obtain ⟨event, rest, middle, hstep, hrest, rfl⟩ := run_cons.mp h
      have htail := ih hrest
      rw [perform_routes hstep] at htail
      rcases perform_local hstep index with ⟨hcall, hevent, hsame⟩ | ⟨shardCall, shardEvent, hcall, hevent, hlocal⟩
      · rw [List.filterMap_cons_none hcall, List.filterMap_cons_none hevent, ← hsame]
        exact htail
      · rw [List.filterMap_cons_some hcall, List.filterMap_cons_some hevent]
        exact run_cons.mpr ⟨_, _, _, hlocal, htail, rfl⟩

/-! ### Accounting -/

/-- The commands accepted for an instrument, in order. -/
def acceptedFor (instrument : InstrumentId) (events : List (RouterEvent S B)) : List Command :=
  events.filterMap fun
    | .routed command (.ok _) => if command.instrumentId = instrument then some command else none
    | _ => none

/-- The commands a shard has finished with, in order: processed, or refused
with an engine error. -/
def finishedBy (index : Fin S) (events : List (RouterEvent S B)) : List Command :=
  (events.filterMap (RouterEvent.eventFor index)).filterMap ShardEvent.finished

/-- The commands a shard has processed, in order. -/
def processedBy (index : Fin S) (events : List (RouterEvent S B)) : List Command :=
  (events.filterMap (RouterEvent.eventFor index)).filterMap ShardEvent.processed

/-- The batches taken from a shard, in order. -/
def poppedFrom (index : Fin S) (events : List (RouterEvent S B)) : List (EventBatch B) :=
  (events.filterMap (RouterEvent.eventFor index)).filterMap ShardEvent.batch

/-- The events a valid table lets happen: commands go where the table says, and
steps find their own instrument. -/
def RouterEvent.Proper (routes : Vector InstrumentRoute S) : RouterEvent S B → Prop
  | .routed command (.ok shardId) => ⟨command.instrumentId, shardId⟩ ∈ routes.toList
  | .routed _ (.error (.unknownShard _)) => False
  | .stepped _ _ (.error (.misrouted _ _)) => False
  | _ => True

/-- What a valid table and matching shards keep. -/
structure Sharding.Routed (routes : Vector InstrumentRoute S) (router : Sharding S B C Q size)
    (events : List (RouterEvent S B)) : Prop where
  built : RouteTable.Built routes router.routes
  shardIds : ∀ route ∈ routes.toList, route.shardId.val < S
  routes_eq : ∀ index, (router.shards index).route ∈ routes.toList ∧ (router.shards index).route.shardId.val = index.val
  accounts : ∀ index, MatchingShard.Accounts (events.filterMap (RouterEvent.eventFor index)) (router.shards index)
  proper : ∀ event ∈ events, event.Proper routes

variable {routes : Vector InstrumentRoute S} {events : List (RouterEvent S B)}

/-- In a valid table a shard has one instrument. -/
theorem RouteTable.Built.instrument_unique {table : RouteTable S} (h : RouteTable.Built routes table)
    {first second : InstrumentRoute} (hfirst : first ∈ routes.toList) (hsecond : second ∈ routes.toList)
    (heq : first.shardId = second.shardId) : first = second := by
  have hsame := (h.instrumentFor_eq_some).mpr (show ⟨first.instrumentId, first.shardId⟩ ∈ routes.toList from hfirst)
  rw [heq, (h.instrumentFor_eq_some).mpr (show ⟨second.instrumentId, second.shardId⟩ ∈ routes.toList from hsecond)] at hsame
  cases first
  cases second
  simp only [Option.some.injEq] at hsame
  simp_all

/-- A command offered to a shard is one of its instrument. -/
theorem Sharding.Routed.offered (h : router.Routed routes events) {index : Fin S} {command : Command}
    (hcall : call.callFor router.routes index = some (.offer command)) :
    command.instrumentId = (router.shards index).route.instrumentId := by
  cases call with
  | route sent =>
      rw [RouterCall.callFor] at hcall
      split at hcall
      · rename_i shardId hshard
        split at hcall
        · rename_i hindex
          cases hcall
          obtain ⟨answer, hanswer, hiff⟩ := h.built.shardFor_eq command.instrumentId
          rw [hshard] at hanswer
          have hmem := (hiff shardId).mp (Option.some.inj hanswer).symm
          obtain ⟨hroute, hid⟩ := h.routes_eq index
          exact congrArg InstrumentRoute.instrumentId
            (h.built.instrument_unique hmem hroute (Fin.ext (hindex.trans hid.symm)))
        · cases hcall
      · cases hcall
  | process shard =>
      rw [RouterCall.callFor] at hcall
      split at hcall <;> cases hcall
  | event shardId =>
      rw [RouterCall.callFor] at hcall
      split at hcall <;> cases hcall

/-- A routed command goes where the table says. -/
theorem Sharding.Routed.proper_route (h : router.Routed routes events) {command : Command}
    {result : Except RouterError ShardId} (hroute : router.routeCommand command = some (result, router')) :
    (RouterEvent.routed command result : RouterEvent S B).Proper routes := by
  obtain ⟨answer, hanswer, hiff⟩ := h.built.shardFor_eq command.instrumentId
  rw [Sharding.routeCommand, hanswer] at hroute
  cases answer with
  | none =>
      cases hroute
      trivial
  | some shardId =>
      have hmem := (hiff shardId).mp rfl
      dsimp only at hroute
      rw [dif_pos (h.shardIds _ hmem)] at hroute
      split at hroute
      · cases hroute
        trivial
      · cases hroute
        exact hmem

/-- One call of the system keeps the accounts of every shard. -/
theorem Sharding.Routed.perform (h : router.Routed routes events)
    (hperform : router.perform call = some (event, router')) : router'.Routed routes (events ++ [event]) := by
  have hroutes := perform_routes hperform
  have hlocal : ∀ index, MatchingShard.Accounts ((events ++ [event]).filterMap (RouterEvent.eventFor index))
        (router'.shards index) ∧ (router'.shards index).route = (router.shards index).route ∧
      ∀ taken expected received,
        event.eventFor index ≠ some (.stepped taken (.error (.misrouted expected received))) := by
    intro index
    rw [List.filterMap_append]
    rcases perform_local hperform index with ⟨_, hevent, hsame⟩ | ⟨shardCall, shardEvent, hcall, hevent, hstep⟩
    · rw [hsame]
      exact ⟨by simpa [hevent] using h.accounts index, rfl, by simp [hevent]⟩
    · have hoffer : ∀ command, shardCall = .offer command →
          command.instrumentId = (router.shards index).route.instrumentId := by
        rintro command rfl
        exact h.offered hcall
      obtain ⟨haccounts, hroute, hproper⟩ := (h.accounts index).perform hoffer hstep
      refine ⟨by simpa [hevent] using haccounts, hroute, fun taken expected received heq => ?_⟩
      rw [hevent] at heq
      exact hproper taken expected received (Option.some.inj heq)
  refine ⟨hroutes ▸ h.built, h.shardIds, fun index => ?_, fun index => (hlocal index).1, ?_⟩
  · rw [(hlocal index).2.1]
    exact h.routes_eq index
  · intro other hmem
    rcases List.mem_append.mp hmem with hmem | hmem
    · exact h.proper other hmem
    · rw [List.mem_singleton.mp hmem]
      cases call with
      | route command =>
          obtain ⟨⟨result, next⟩, hroute, heq⟩ := Option.map_eq_some_iff.mp hperform
          cases heq
          exact h.proper_route hroute
      | process index =>
          obtain ⟨⟨result, next⟩, hstep, heq⟩ := Option.map_eq_some_iff.mp hperform
          cases heq
          have hproper := (hlocal index).2.2
          cases result with
          | ok step => trivial
          | error error =>
              cases error with
              | misrouted expected received => exact hproper _ expected received (by rw [RouterEvent.eventFor, if_pos rfl])
              | eventBackpressured => trivial
              | engine error => trivial
      | event shardId =>
          cases hperform
          trivial

/-- A whole run keeps the accounts. -/
theorem Sharding.Routed.run {calls : List (RouterCall S)} {more : List (RouterEvent S B)}
    (h : router.Routed routes events)
    (hrun : Transition.run Sharding.perform router calls = some (more, router')) :
    router'.Routed routes (events ++ more) := by
  induction calls generalizing router events more with
  | nil =>
      cases hrun
      simpa using h
  | cons call calls ih =>
      obtain ⟨event, rest, middle, hstep, hrest, rfl⟩ := run_cons.mp hrun
      simpa using ih (h.perform hstep) hrest

/-- The commands accepted for a shard's instrument are those its queue took. -/
theorem Sharding.Routed.acceptedFor_eq (h : router.Routed routes events) (index : Fin S) :
    acceptedFor (router.shards index).route.instrumentId events =
      (events.filterMap (RouterEvent.eventFor index)).filterMap ShardEvent.accepted := by
  rw [acceptedFor, List.filterMap_filterMap]
  refine List.filterMap_congr fun event hmem => ?_
  have hproper := h.proper event hmem
  obtain ⟨hroute, hid⟩ := h.routes_eq index
  cases event with
  | routed command result =>
      cases result with
      | ok shardId =>
          simp only [RouterEvent.eventFor]
          by_cases hindex : shardId.val = index.val
          · have hsame := h.built.instrument_unique hproper hroute (Fin.ext (hindex.trans hid.symm))
            rw [if_pos hindex, if_pos (congrArg InstrumentRoute.instrumentId hsame)]
            rfl
          · rw [if_neg hindex, if_neg]
            · rfl
            · intro heq
              have hkey := h.built.ascending.eq_of_key (h.built.perm.symm.subset hproper)
                (h.built.perm.symm.subset hroute) heq
              exact hindex ((congrArg (fun route => route.shardId.val) hkey).trans hid)
      | error error =>
          cases error with
          | commandBackpressured shardId =>
              simp only [RouterEvent.eventFor]
              split <;> rfl
          | parse error => rfl
          | unknownInstrument instrument => rfl
          | unknownShard shardId => rfl
  | stepped shard taken result =>
      simp only [RouterEvent.eventFor]
      split <;> rfl
  | popped shardId result =>
      cases result with
      | ok batch =>
          simp only [RouterEvent.eventFor]
          split <;> rfl
      | error error => rfl

/-! ### Sharded routing -/

/-- A shard built with the route of its index and fresh queues. -/
def Sharding.Started (routes : Vector InstrumentRoute S) (router : Sharding S B C Q size) : Prop :=
  ∀ index : Fin S, ∃ route ∈ routes.toList, route.shardId.val = index.val ∧
    ∃ gateway, MatchingShard.tryNew route gateway BoundedQueue.empty BoundedQueue.empty = .ok (router.shards index)

/-- A shard that could be built has the route and the queues it was given and
nothing pending. -/
theorem MatchingShard.tryNew_eq_ok {shardSize : ShardSize} {shard : MatchingShard shardSize B C Q}
    {route : InstrumentRoute} {gateway : Gateway shardSize.accounts shardSize.riskOrders shardSize.levels
      shardSize.ordersPerLevel} {commands : BoundedQueue Command C} {queue : BoundedQueue (EventBatch B) Q}
    (h : MatchingShard.tryNew route gateway commands queue = .ok shard) :
    shard.route = route ∧ shard.commands = commands ∧ shard.engine.queue = queue ∧ shard.pending = none := by
  unfold MatchingShard.tryNew at h
  split at h
  · cases h
  · split at h
    · cases h
    · rename_i engine hengine
      cases h
      refine ⟨rfl, rfl, ?_, rfl⟩
      unfold BoundedEventEngine.tryNew at hengine
      split at hengine
      · cases hengine
      · split at hengine
        · cases hengine
        · cases hengine
          rfl

/-- A fresh system owes nothing. -/
theorem Sharding.Started.routed {table : RouteTable S} (htable : RouteTable.tryNew routes = some (.ok table))
    (hrouter : router.routes = table) (h : router.Started routes) : router.Routed routes [] := by
  have hacceptable : RouteTable.Acceptable routes := by
    by_contra hnot
    obtain ⟨error, herror⟩ := RouteTable.tryNew_refuses hnot
    rw [htable] at herror
    cases herror
  obtain ⟨table', hnew, hbuilt, _⟩ := RouteTable.tryNew_built hacceptable
  rw [htable] at hnew
  cases hnew
  refine ⟨hrouter ▸ hbuilt, fun route hmem => hacceptable.shardId_lt hmem, fun index => ?_, fun index => ?_, by simp⟩
  · obtain ⟨route, hmem, hid, gateway, hshard⟩ := h index
    rw [(MatchingShard.tryNew_eq_ok hshard).1]
    exact ⟨hmem, hid⟩
  · obtain ⟨route, hmem, hid, gateway, hshard⟩ := h index
    obtain ⟨_, hcommands, hqueue, hpending⟩ := MatchingShard.tryNew_eq_ok hshard
    refine ⟨?_, ?_, ?_⟩
    · rw [hcommands, hpending]
      rfl
    · rw [hqueue]
      exact List.Forall₂.nil
    · rw [hcommands, hpending]
      simp [BoundedQueue.empty]

end System

/-- Sharded routing loses, duplicates, reorders and mixes up nothing. After
every run of the router and its shards: the commands accepted for a shard's
instrument are those it finished with, the one it kept back and those it has
queued, in order; the batches taken from it and those still queued belong one
by one to its processed commands; commands never go to an unknown shard or
arrive at a wrong one; and what is seen of a shard and its state come from the
calls that touch it alone. -/
theorem sharding_loses_nothing {S B C Q : Nat} {size : Fin S → ShardSize} {routes : Vector InstrumentRoute S}
    {router router' : Sharding S B C Q size} (htable : RouteTable.tryNew routes = some (.ok router.routes))
    (hstarted : router.Started routes) {calls : List (RouterCall S)} {events : List (RouterEvent S B)}
    (hrun : run Sharding.perform router calls = some (events, router')) :
    (∀ index : Fin S,
      acceptedFor (router.shards index).route.instrumentId events =
          finishedBy index events ++ (router'.shards index).pending.toList ++ (router'.shards index).commands.items ∧
        List.Forall₂ (fun (batch : EventBatch B) (command : Command) => batch.Of command.sequence)
          (poppedFrom index events ++ (router'.shards index).engine.queue.items) (processedBy index events) ∧
        run MatchingShard.perform (router.shards index) (calls.filterMap (RouterCall.callFor router.routes index)) =
          some (events.filterMap (RouterEvent.eventFor index), router'.shards index)) ∧
    ∀ event ∈ events, (∀ command shardId, event ≠ .routed command (.error (.unknownShard shardId))) ∧
      ∀ index taken expected received, event ≠ .stepped index taken (.error (.misrouted expected received)) := by
  have hrouted := (hstarted.routed htable rfl).run hrun
  rw [List.nil_append] at hrouted
  refine ⟨fun index => ?_, fun event hmem => ?_⟩
  · have hroute : (router.shards index).route = (router'.shards index).route := by
      have hbefore := (hstarted.routed htable rfl).routes_eq index
      have hafter := hrouted.routes_eq index
      exact hrouted.built.instrument_unique hbefore.1 hafter.1 (Fin.ext (hbefore.2.trans hafter.2.symm))
    have haccounts := hrouted.accounts index
    rw [hroute, hrouted.acceptedFor_eq index]
    exact ⟨haccounts.commands, haccounts.batches, Sharding.run_local hrun index⟩
  · have hproper := hrouted.proper event hmem
    refine ⟨?_, ?_⟩
    · rintro command shardId rfl
      exact hproper
    · rintro index taken expected received rfl
      exact hproper

/-- A fresh shard with one account, room for two commands and for one event
batch. -/
def sampleShard (instrument : InstrumentId) (shardId : ShardId) : MatchingShard ⟨1, 4, 1, 2, 1⟩ 3 2 1 :=
  ⟨⟨instrument, shardId⟩, BoundedQueue.empty, ⟨Gateway.new
    (RiskEngine.new.registerAccount 1 ⟨100, 100000, 1000, 10, Machine.i64 1, Machine.i64 1000⟩).2 instrument,
    BoundedQueue.empty⟩, none⟩

/-- Two shards, for the instruments 7 and 9. -/
def sampleShards : Sharding 2 3 2 1 (fun _ => ⟨1, 4, 1, 2, 1⟩) :=
  ⟨⟨#v[⟨7, 0⟩, ⟨9, 1⟩], #v[0, 1], false⟩, fun index => if index = 0 then sampleShard 7 0 else sampleShard 9 1⟩

/-- An offer on an instrument, by its id and sequence. -/
def sampleOffer (instrument : InstrumentId) (id : U64) : Command :=
  .newOrder ⟨id, 1, instrument, Machine.i64 10, 5, id, .sell, .gtc⟩

/-- Offers to both shards in turn. The second offer of the first shard finds
its event queue full and is kept back, with a third one behind it. -/
def backpressuredCalls : List (RouterCall 2) :=
  [.route (sampleOffer 7 1), .route (sampleOffer 9 1), .route (sampleOffer 7 2), .process 0, .process 1, .process 0,
    .route (sampleOffer 7 3)]

/-- After the first shard's batch is taken, its command that was kept back goes
first. -/
def drainingCalls : List (RouterCall 2) := backpressuredCalls ++ [.event 0, .process 0, .event 1]

/-- The two shards of the sample have been started on their routes. -/
theorem sampleShards_started : sampleShards.Started #v[⟨9, 1⟩, ⟨7, 0⟩] := by
  intro index
  fin_cases index
  · exact ⟨⟨7, 0⟩, by decide, rfl, (sampleShard 7 0).engine.gateway, rfl⟩
  · exact ⟨⟨9, 1⟩, by decide, rfl, (sampleShard 9 1).engine.gateway, rfl⟩

/-- While the first shard holds a command back and another is queued behind it,
and again after both shards were drained, nothing routed to either shard is
lost or out of order, and every processed command has its batch. -/
theorem sharding_loses_nothing_sample :
    (∃ events router', run Sharding.perform sampleShards backpressuredCalls = some (events, router') ∧
      (router'.shards 0).pending = some (sampleOffer 7 2) ∧ (router'.shards 0).commands.items = [sampleOffer 7 3] ∧
      ∀ index : Fin 2, acceptedFor (sampleShards.shards index).route.instrumentId events =
        finishedBy index events ++ (router'.shards index).pending.toList ++ (router'.shards index).commands.items) ∧
    (∃ events router', run Sharding.perform sampleShards drainingCalls = some (events, router') ∧
      processedBy 0 events = [sampleOffer 7 1, sampleOffer 7 2] ∧ processedBy 1 events = [sampleOffer 9 1] ∧
      ∀ index : Fin 2, List.Forall₂ (fun (batch : EventBatch 3) (command : Command) => batch.Of command.sequence)
        (poppedFrom index events ++ (router'.shards index).engine.queue.items) (processedBy index events)) := by
  have htable : RouteTable.tryNew #v[⟨9, 1⟩, ⟨7, 0⟩] = some (.ok sampleShards.routes) := by decide +kernel
  constructor
  · obtain ⟨⟨events, router'⟩, hrun, hpending, hqueued⟩ := exists_of_any
      (run Sharding.perform sampleShards backpressuredCalls) (fun result =>
        (result.2.shards 0).pending = some (sampleOffer 7 2) ∧
          (result.2.shards 0).commands.items = [sampleOffer 7 3]) (by decide +kernel)
    exact ⟨events, router', hrun, hpending, hqueued, fun index =>
      ((sharding_loses_nothing htable sampleShards_started hrun).1 index).1⟩
  · obtain ⟨⟨events, router'⟩, hrun, hfirst, hsecond⟩ := exists_of_any
      (run Sharding.perform sampleShards drainingCalls) (fun result =>
        processedBy 0 result.1 = [sampleOffer 7 1, sampleOffer 7 2] ∧ processedBy 1 result.1 = [sampleOffer 9 1])
      (by decide +kernel)
    exact ⟨events, router', hrun, hfirst, hsecond, fun index =>
      ((sharding_loses_nothing htable sampleShards_started hrun).1 index).2.1⟩

end HftEngine
