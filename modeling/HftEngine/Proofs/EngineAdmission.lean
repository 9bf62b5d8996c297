/-
Module: HftEngine.Proofs.EngineAdmission
Layer: Proofs
Purpose: Admission consumes all or nothing. Between the start of a call and its
  return the worker and the consumer may take any steps; the call either leaves
  one record, one batch and one sequence number behind, or no trace in the
  gateway and the queues, and a call refused for lack of room succeeds once
  there is room.
Imports: HftEngine.Proofs.EngineSystem
Trusted boundary: none (fully proved)
Main exports: EngineEvent.isReturned, EngineAction.isCall,
  EngineAction.isEnvironment, Refusal, CallOutcome, call_outcome,
  resubmission_accepted, Dead.step, admission_all_or_nothing
-/
import HftEngine.Proofs.EngineSystem

namespace HftEngine

open Machine Transition

variable {A R L O N B Q : Nat} {crc32c : List U8 → U32} {sha256 : List U8 → Digest} {size : Nat}
  {initial system system' last : EngineSystem A R L O N B Q} {before now events : List (EngineEvent B)}
  {event : EngineEvent B} {origin : Gateway A R L O} {command : Command} {action : EngineAction}

/-- Whether an event ends a call. -/
def EngineEvent.isReturned : EngineEvent B → Bool
  | .returned _ _ => true
  | _ => false

/-- The start of a call. -/
def EngineAction.isCall : EngineAction → Bool
  | .command _ => true
  | .frame _ => true
  | _ => false

/-- A step of the consumer, the worker or a checkpoint's reader. -/
def EngineAction.isEnvironment : EngineAction → Bool
  | .load => true
  | .popEvent => true
  | .popRecord => true
  | .worker _ => true
  | _ => false

/-- The command a call carries, if its bytes parse. -/
def EngineAction.carried : EngineAction → Option Command
  | .command command => some command
  | .frame bytes =>
      match parseMessage bytes with
      | .error _ => none
      | .ok message => some message.toCommand
  | _ => none

/-! ### The other parties -/

/-- Without a batch taken out, and with the same queue, the history of batches
is the same. -/
theorem batchesIn_quiet (h : event.consumed = none)
    (hqueue : system'.engine.events.queue = system.engine.events.queue) :
    batchesIn (events ++ [event]) system' = batchesIn events system := by
  rw [batchesIn, batchesIn, List.filterMap_append, List.filterMap_cons_none h, List.filterMap_nil, List.append_nil,
    hqueue]

/-- Neither queue grew. -/
structure RoomKept (system system' : EngineSystem A R L O N B Q) : Prop where
  events : system'.engine.events.queue.items.length ≤ system.engine.events.queue.items.length
  channel : system'.engine.channel.queue.items.length ≤ system.engine.channel.queue.items.length

/-- Two steps that let neither queue grow do not do so together. -/
theorem RoomKept.trans {next : EngineSystem A R L O N B Q} (h : RoomKept system system') (h' : RoomKept system' next) :
    RoomKept system next :=
  ⟨h'.events.trans h.events, h'.channel.trans h.channel⟩

theorem roomKept_of_eq (hevents : system'.engine.events.queue = system.engine.events.queue)
    (hchannel : system'.engine.channel.queue = system.engine.channel.queue) : RoomKept system system' :=
  ⟨by rw [hevents], by rw [hchannel]⟩

/-- A queue that did not grow was full before if it is full now. -/
theorem full_before {α : Type} {M : Nat} {queue queue' : BoundedQueue α M}
    (h : queue'.items.length ≤ queue.items.length) (hfull : queue'.hasCapacity = false) :
    queue.hasCapacity = false := by
  rw [← Bool.not_eq_true, BoundedQueue.hasCapacity_iff] at hfull ⊢
  omega

/-- A step that the engine has no part in. -/
structure Undisturbed (system : EngineSystem A R L O N B Q) (event : EngineEvent B)
    (system' : EngineSystem A R L O N B Q) : Prop where
  returned : event.isReturned = false
  stage : system'.stage = system.stage
  gateway : system'.engine.events.gateway = system.engine.events.gateway
  journal : system'.engine.journal = system.engine.journal
  failed : system'.engine.failed = system.engine.failed
  records : ∀ events, recordsIn (events ++ [event]) system' = recordsIn events system
  batches : ∀ events, batchesIn (events ++ [event]) system' = batchesIn events system
  shrinks : RoomKept system system'

/-- A step of the worker touches nothing of the engine's but the status. -/
theorem advance_engine (channel : JournalChannel) {input : WorkerInput} {outcome : WorkerEvent}
    (h : (system.setChannel channel).advance crc32c size input = some (outcome, system')) :
    system'.stage = system.stage ∧ system'.engine.events = system.engine.events ∧
      system'.engine.journal = system.engine.journal ∧ system'.engine.failed = system.engine.failed ∧
      system'.engine.channel.queue = channel.queue := by
  obtain ⟨⟨outcome', worker, status, sink⟩, _, heq⟩ := Option.map_eq_some_iff.mp h
  cases heq
  exact ⟨rfl, rfl, rfl, rfl, rfl⟩

/-- What the environment does leaves the gateway and the commands alone. -/
theorem undisturbed_of_environment (haction : action.isEnvironment = true)
    (hstep : system.step crc32c sha256 size action = some (event, system')) : Undisturbed system event system' := by
  cases action with
  | load =>
      simp only [EngineSystem.step] at hstep
      split at hstep
      · split at hstep <;> cases hstep
        · exact ⟨rfl, rfl, rfl, rfl, rfl, fun _ => recordsIn_quiet rfl rfl, fun _ => batchesIn_quiet rfl rfl,
          roomKept_of_eq rfl rfl⟩
        · exact ⟨rfl, rfl, rfl, rfl, rfl, fun _ => recordsIn_quiet rfl rfl, fun _ => batchesIn_quiet rfl rfl,
          roomKept_of_eq rfl rfl⟩
      · cases hstep
  | popEvent =>
      simp only [EngineSystem.step] at hstep
      split at hstep
      · cases hstep
        exact ⟨rfl, rfl, rfl, rfl, rfl, fun _ => recordsIn_quiet rfl rfl, fun _ => batchesIn_quiet rfl rfl,
          roomKept_of_eq rfl rfl⟩
      · rename_i batch queue hpop
        cases hstep
        have hitems := BoundedQueue.tryPop_eq_some.mp hpop
        refine ⟨rfl, rfl, rfl, rfl, rfl, fun _ => recordsIn_quiet rfl rfl, fun events => ?_, ⟨?_, le_rfl⟩⟩
        · rw [batchesIn, batchesIn, List.filterMap_append, hitems, List.append_assoc]
          rfl
        · rw [hitems, List.length_cons]
          exact Nat.le_succ _
  | popRecord =>
      simp only [EngineSystem.step] at hstep
      split at hstep
      · split at hstep
        · obtain ⟨⟨outcome, next⟩, hadvance, heq⟩ := Option.map_eq_some_iff.mp hstep
          cases heq
          obtain ⟨hstage, hevents, hjournal, hfailed, hqueue⟩ := advance_engine
            system.engine.channel hadvance
          exact ⟨rfl, hstage, by rw [hevents], hjournal, hfailed, fun _ => recordsIn_quiet rfl hqueue,
            fun _ => batchesIn_quiet rfl (by rw [hevents]), roomKept_of_eq (by rw [hevents]) hqueue⟩
        · rename_i record queue hpop
          obtain ⟨⟨outcome, next⟩, hadvance, heq⟩ := Option.map_eq_some_iff.mp hstep
          cases heq
          obtain ⟨hstage, hevents, hjournal, hfailed, hqueue⟩ := advance_engine _ hadvance
          have hitems := BoundedQueue.tryPop_eq_some.mp hpop
          refine ⟨rfl, hstage, by rw [hevents], hjournal, hfailed, fun events => ?_,
            fun _ => batchesIn_quiet rfl (by rw [hevents]), ⟨by rw [hevents], ?_⟩⟩
          · rw [recordsIn, recordsIn, takenIn_singleton, hqueue, hitems, List.append_assoc]
            rfl
          · rw [hqueue, hitems, List.length_cons]
            exact Nat.le_succ _
      · cases hstep
  | worker input =>
      simp only [EngineSystem.step] at hstep
      split at hstep
      · cases hstep
      · cases hstep
      · obtain ⟨⟨outcome, next⟩, hadvance, heq⟩ := Option.map_eq_some_iff.mp hstep
        cases heq
        obtain ⟨hstage, hevents, hjournal, hfailed, hqueue⟩ := advance_engine
          system.engine.channel hadvance
        exact ⟨rfl, hstage, by rw [hevents], hjournal, hfailed, fun _ => recordsIn_quiet rfl hqueue,
          fun _ => batchesIn_quiet rfl (by rw [hevents]), roomKept_of_eq (by rw [hevents]) hqueue⟩
  | _ => cases haction

/-- While a call is under way, only the engine and its environment move. -/
theorem environment_of_busy (hstage : system.stage ≠ .idle) (haction : action ≠ .engine)
    (hstep : system.step crc32c sha256 size action = some (event, system')) : action.isEnvironment = true := by
  have hbusy : system.free = false := by simp [EngineSystem.free, hstage]
  cases action with
  | command command =>
      simp only [EngineSystem.step, hbusy] at hstep
      cases hstep
  | frame bytes =>
      simp only [EngineSystem.step, hbusy] at hstep
      cases hstep
  | stopAdmission =>
      simp only [EngineSystem.step, hbusy] at hstep
      cases hstep
  | engine => exact absurd rfl haction
  | _ => rfl

/-! ### What a call does -/

/-- A command that only lack of room can refuse. -/
structure Admissible (engine : Engine A R L O N B Q) (command : Command) : Prop where
  sane : engine.failed = false
  opened : engine.journal.isSome = true
  instrument : command.instrumentId = engine.instrument
  sequence : engine.events.gateway.checkSequence command.sequence = .ok ()

/-- Why an engine refuses a call and stays as it is. -/
inductive Refusal (engine : Engine A R L O N B Q) : Option Command → EngineError → Prop
  | failed (command : Option Command) (hfailed : engine.failed = true) : Refusal engine command .failed
  | stopped (command : Option Command) (hjournal : engine.journal = none) : Refusal engine command .stopped
  | parse (error : ParseError) : Refusal engine none (.parse error)
  | unknownInstrument (command : Command) (hother : command.instrumentId ≠ engine.instrument) :
      Refusal engine (some command) (.unknownInstrument command.instrumentId)
  | sequence (command : Command) (hother : command.sequence ≠ engine.expectedSequence) :
      Refusal engine (some command) (.admission (.gateway (.sequence engine.expectedSequence command.sequence)))
  | full (command : Command) (error : EngineError) (hadmissible : Admissible engine command)
      (hfull : engine.events.queue.hasCapacity = false ∧ error = .admission .backpressured ∨
        engine.channel.queue.hasCapacity = false ∧ error = .journal .saturated) : Refusal engine (some command) error

/-- Neither the gateway nor the history of a queue changed. -/
structure Unconsumed (before : List (EngineEvent B)) (system : EngineSystem A R L O N B Q)
    (after : List (EngineEvent B)) (system' : EngineSystem A R L O N B Q) : Prop where
  gateway : system'.engine.events.gateway = system.engine.events.gateway
  records : recordsIn after system' = recordsIn before system
  batches : batchesIn after system' = batchesIn before system

/-- What a call has done by the time it returns, against the system it started
from. -/
inductive CallOutcome (before : List (EngineEvent B)) (system : EngineSystem A R L O N B Q)
    (after : List (EngineEvent B)) (system' : EngineSystem A R L O N B Q) :
    Option Command → Except EngineError Unit → Prop
  /-- The command is journaled and applied, as on an empty event queue. -/
  | accepted (command : Command) (record : JournalRecord) (batch : EventBatch B)
      (produced : BoundedEventEngine A R L O N B Q)
      (hrecords : recordsIn after system' = recordsIn before system ++ [record])
      (hbatches : batchesIn after system' = batchesIn before system ++ [batch])
      (hexpected : system'.engine.expectedSequence.val = system.engine.expectedSequence.val + 1)
      (hproduced : BoundedEventEngine.applyAdmittedCommand ⟨system.engine.events.gateway, BoundedQueue.empty⟩ command =
        some (.ok (), produced))
      (hgateway : system'.engine.events.gateway = produced.gateway) (hbatch : produced.queue.items = [batch]) :
      CallOutcome before system after system' (some command) (.ok ())
  | refused (command : Option Command) (error : EngineError) (hsame : Unconsumed before system after system')
      (hjournal : system'.engine.journal = system.engine.journal)
      (hfailed : system'.engine.failed = system.engine.failed)
      (hrefusal : Refusal system.engine command error) : CallOutcome before system after system' command (.error error)
  /-- The engine fails and closes admission. -/
  | fails (command : Option Command) (error : EngineError) (hsame : Unconsumed before system after system')
      (hjournal : system'.engine.journal = none) (hfailed : system'.engine.failed = true)
      (herror : system.engine.channel.status.poisoned = true ∧ error = .persistenceFailed ∨
        (∃ exhausted, command = some exhausted ∧
          system.engine.events.gateway.checkSequence exhausted.sequence = .error (.riskState .arithmeticOverflow)) ∧
          error = .admission (.gateway (.riskState .arithmeticOverflow))) :
      CallOutcome before system after system' command (.error error)

/-- A call under way, against the system it started from. -/
def Midway (before : List (EngineEvent B)) (system : EngineSystem A R L O N B Q) (command : Command)
    (now : List (EngineEvent B)) (system' : EngineSystem A R L O N B Q) : Prop :=
  match system'.stage with
  | .idle => False
  | .admitting pending _ | .enqueuing pending _ =>
      pending = command ∧ Unconsumed before system now system' ∧ system'.engine.journal = system.engine.journal ∧
        system'.engine.failed = system.engine.failed ∧ system.engine.failed = false ∧
        command.instrumentId = system.engine.instrument ∧ RoomKept system system'
  | .applying pending =>
      pending = command ∧ system'.engine.events.gateway = system.engine.events.gateway ∧
        batchesIn now system' = batchesIn before system ∧
        ∃ record, recordsIn now system' = recordsIn before system ++ [record]

/-- The other parties leave a call where it is. -/
theorem Midway.undisturbed (h : Midway before system command now system') {next : EngineSystem A R L O N B Q}
    (hstep : Undisturbed system' event next) : Midway before system command (now ++ [event]) next := by
  unfold Midway at h ⊢
  rw [hstep.stage]
  cases hstage : system'.stage with
  | idle =>
      rw [hstage] at h
      exact h
  | admitting pending payload =>
      simp only [hstage] at h
      obtain ⟨hpending, hsame, hjournal, hfailed, hsane, hinstrument, hroom⟩ := h
      exact ⟨hpending, ⟨hstep.gateway.trans hsame.gateway, (hstep.records now).trans hsame.records,
        (hstep.batches now).trans hsame.batches⟩, hstep.journal.trans hjournal, hstep.failed.trans hfailed, hsane,
        hinstrument, hroom.trans hstep.shrinks⟩
  | enqueuing pending payload =>
      simp only [hstage] at h
      obtain ⟨hpending, hsame, hjournal, hfailed, hsane, hinstrument, hroom⟩ := h
      exact ⟨hpending, ⟨hstep.gateway.trans hsame.gateway, (hstep.records now).trans hsame.records,
        (hstep.batches now).trans hsame.batches⟩, hstep.journal.trans hjournal, hstep.failed.trans hfailed, hsane,
        hinstrument, hroom.trans hstep.shrinks⟩
  | applying pending =>
      simp only [hstage] at h
      obtain ⟨hpending, hgateway, hbatches, record, hrecords⟩ := h
      exact ⟨hpending, hstep.gateway.trans hgateway, (hstep.batches now).trans hbatches, record,
        (hstep.records now).trans hrecords⟩

/-! ### Failing -/

section Failing

variable (engine : Engine A R L O N B Q)

@[simp] theorem Engine.stopAdmission_events : engine.stopAdmission.events = engine.events := by
  unfold Engine.stopAdmission
  split <;> rfl

@[simp] theorem Engine.stopAdmission_journal : engine.stopAdmission.journal = none := by
  unfold Engine.stopAdmission
  split
  · assumption
  · rfl

@[simp] theorem Engine.stopAdmission_failed : engine.stopAdmission.failed = engine.failed := by
  unfold Engine.stopAdmission
  split <;> rfl

@[simp] theorem Engine.stopAdmission_queue : engine.stopAdmission.channel.queue = engine.channel.queue := by
  unfold Engine.stopAdmission
  split <;> rfl

@[simp] theorem Engine.fail_events : engine.fail.events = engine.events := Engine.stopAdmission_events _

@[simp] theorem Engine.fail_journal : engine.fail.journal = none := Engine.stopAdmission_journal _

@[simp] theorem Engine.fail_failed : engine.fail.failed = true := Engine.stopAdmission_failed _

@[simp] theorem Engine.fail_queue : engine.fail.channel.queue = engine.channel.queue := Engine.stopAdmission_queue _

end Failing

/-! ### The engine's own accesses -/

/-- What a command publishes does not depend on what is already queued. -/
theorem BoundedEventEngine.applyAdmittedCommand_queue {eventEngine applied : BoundedEventEngine A R L O N B Q}
    {batch : EventBatch B} (h : eventEngine.applyAdmittedCommand command = some (.ok (), applied))
    (hbatch : applied.queue.items = eventEngine.queue.items ++ [batch]) {queue : BoundedQueue (EventBatch B) Q}
    (hroom : queue.hasCapacity = true) :
    ∃ produced : BoundedEventEngine A R L O N B Q,
      BoundedEventEngine.applyAdmittedCommand ⟨eventEngine.gateway, queue⟩ command = some (.ok (), produced) ∧
      produced.gateway = applied.gateway ∧ produced.queue.items = queue.items ++ [batch] := by
  unfold applyAdmittedCommand publishResult at h ⊢
  cases hprocess : eventEngine.gateway.processCommand command (ReportBuffer.empty : ReportBuffer N) with
  | none =>
      rw [hprocess] at h
      cases h
  | some answer =>
      obtain ⟨outcome, gateway, reports⟩ := answer
      rw [hprocess] at h
      simp only [tops] at h ⊢
      split at h
      · cases h
      · cases h
      · rename_i built hbuild
        split at h
        · cases h
        · rename_i pushed hpush
          cases h
          have hitems := (BoundedQueue.tryPush_eq_some.mp hpush).2
          simp only at hbatch
          obtain rfl : built = batch := by simpa using hitems.symm.trans hbatch
          obtain ⟨queue', hpush'⟩ : ∃ queue', queue.tryPush built = some queue' := by
            rw [← Option.ne_none_iff_exists', ne_eq, BoundedQueue.tryPush_eq_none, hroom]
            exact Bool.noConfusion
          simp only [hpush']
          exact ⟨_, rfl, rfl, (BoundedQueue.tryPush_eq_some.mp hpush').2⟩

/-- Every refusal of the capacity check, with its reason. -/
theorem preflight_refused {eventEngine : BoundedEventEngine A R L O N B Q} {sequence : SequenceNumber}
    {error : EventEngineError} (h : eventEngine.preflight sequence = .error error) :
    sequence ≠ eventEngine.gateway.expectedSequence ∧
        error = .gateway (.sequence eventEngine.gateway.expectedSequence sequence) ∨
      eventEngine.gateway.checkSequence sequence = .error (.riskState .arithmeticOverflow) ∧
        error = .gateway (.riskState .arithmeticOverflow) ∨
      eventEngine.gateway.checkSequence sequence = .ok () ∧ eventEngine.queue.hasCapacity = false ∧
        error = .backpressured := by
  unfold BoundedEventEngine.preflight at h
  cases hcheck : eventEngine.gateway.checkSequence sequence with
  | ok =>
      rw [hcheck] at h
      dsimp only at h
      split at h
      · cases h
      · rename_i hfull
        cases h
        exact .inr (.inr ⟨rfl, Bool.not_eq_true _ ▸ hfull, rfl⟩)
  | error reason =>
      rw [hcheck] at h
      cases h
      unfold Gateway.checkSequence at hcheck
      split at hcheck
      · rename_i hother
        cases hcheck
        exact .inl ⟨hother, rfl⟩
      · split at hcheck
        · cases hcheck
          exact .inr (.inl ⟨rfl, rfl⟩)
        · cases hcheck

/-- A step that touches neither the events nor the channel keeps a command
unconsumed. -/
theorem Unconsumed.same (hevent : event.taken = none) (hconsumed : event.consumed = none)
    {next : EngineSystem A R L O N B Q} (h : Unconsumed before system now system')
    (hevents : next.engine.events = system'.engine.events)
    (hqueue : next.engine.channel.queue = system'.engine.channel.queue) :
    Unconsumed before system (now ++ [event]) next :=
  ⟨by rw [hevents, h.gateway], (recordsIn_quiet hevent hqueue).trans h.records,
    (batchesIn_quiet hconsumed (by rw [hevents])).trans h.batches⟩

/-- The next access of a call brings it on, or it returns. -/
theorem Midway.engine (inv : EngineInv crc32c size origin now system') (horigin : GatewaySound origin)
    (hN : N + 2 ≤ 2 ^ 16) (hB : N + 2 ≤ B) (h : Midway before system command now system')
    {next : EngineSystem A R L O N B Q}
    (hstep : system'.step crc32c sha256 size .engine = some (event, next)) :
    event.isReturned = false ∧ Midway before system command (now ++ [event]) next ∨
      ∃ result, event = .returned (some command) result ∧
        CallOutcome before system (now ++ [event]) next (some command) result := by
  unfold Midway at h
  have hcall := inv.call
  simp only [EngineSystem.step] at hstep
  split at hstep
  · cases hstep
  · rename_i pending payload hstage
    simp only [hstage] at h hcall
    obtain ⟨rfl, hsame, hjournal, hfailed, hsane, hinstrument, hroom⟩ := h
    obtain ⟨progress, hproceed, hprogressed⟩ := Option.map_eq_some_iff.mp hstep
    unfold Engine.proceed at hproceed
    dsimp only at hproceed
    split at hproceed
    · rename_i reason hpreflight
      cases hproceed
      cases hprogressed
      rcases preflight_refused hpreflight with ⟨_, hother⟩ | ⟨hexhausted, hreason⟩ | ⟨_, _, hother⟩
      · cases hother
      · cases hreason
        rw [hsame.gateway] at hexhausted
        exact .inr ⟨_, rfl, .fails _ _ (hsame.same rfl rfl (Engine.fail_events _) (Engine.fail_queue _))
          (Engine.fail_journal _) (Engine.fail_failed _) (.inr ⟨⟨_, rfl, hexhausted⟩, rfl⟩)⟩
      · cases hother
    · rename_i error hnotState hpreflight
      cases hproceed
      cases hprogressed
      refine .inr ⟨_, rfl, .refused _ _ (hsame.same rfl rfl rfl rfl) hjournal hfailed ?_⟩
      rcases preflight_refused hpreflight with ⟨hother, rfl⟩ | ⟨_, rfl⟩ | ⟨hsequence, hfull, rfl⟩
      · rw [hsame.gateway] at hother ⊢
        exact .sequence _ hother
      · exact absurd rfl (hnotState _)
      · rw [hsame.gateway] at hsequence
        exact .full _ _ ⟨hsane, hjournal ▸ hcall.1, hinstrument, hsequence⟩
          (.inl ⟨full_before hroom.events hfull, rfl⟩)
    · cases hproceed
      cases hprogressed
      exact .inl ⟨rfl, rfl, hsame.same rfl rfl rfl rfl, hjournal, hfailed, hsane, hinstrument,
        hroom.events, hroom.channel⟩
  · rename_i pending payload hstage
    simp only [hstage] at h hcall
    obtain ⟨rfl, hsame, hjournal, hfailed, hsane, hinstrument, hroom⟩ := h
    obtain ⟨writer, record, hwriter, _, _, _, hcases⟩ := inv.enqueue_cases horigin hstage
    obtain ⟨progress, hproceed, hprogressed⟩ := Option.map_eq_some_iff.mp hstep
    unfold Engine.proceed at hproceed
    simp only [hwriter] at hproceed
    rcases hcases with ⟨hfull, henqueue⟩ | ⟨queue, next', hpush, _, henqueue⟩
    · rw [henqueue] at hproceed
      cases hproceed
      cases hprogressed
      obtain ⟨hsequence, hbound, _⟩ := BoundedEventEngine.preflight_eq_ok hcall.2.2
      rw [hsame.gateway] at hsequence hbound
      refine .inr ⟨_, rfl, .refused _ _ (hsame.same rfl rfl rfl rfl) (hwriter.symm.trans hjournal) hfailed ?_⟩
      exact .full _ _ ⟨hsane, hjournal ▸ hcall.1, hinstrument, checkSequence_ok_iff.mpr ⟨hsequence, hbound⟩⟩
        (.inr ⟨full_before hroom.channel hfull, rfl⟩)
    · rw [henqueue] at hproceed
      cases hproceed
      cases hprogressed
      have hitems := (BoundedQueue.tryPush_eq_some.mp hpush).2
      refine .inl ⟨rfl, rfl, hsame.gateway, (batchesIn_quiet rfl rfl).trans hsame.batches, record, ?_⟩
      rw [recordsIn, takenIn_quiet rfl, ← hsame.records, recordsIn, List.append_assoc]
      exact congrArg _ hitems
  · rename_i pending hstage
    simp only [hstage] at h hcall
    obtain ⟨rfl, hgateway, hbatches, record, hrecords⟩ := h
    obtain ⟨progress, hproceed, hprogressed⟩ := Option.map_eq_some_iff.mp hstep
    unfold Engine.proceed at hproceed
    dsimp only at hproceed
    cases happly : system'.engine.events.applyAdmittedCommand pending with
    | none =>
        rw [happly] at hproceed
        cases hproceed
    | some outcome =>
        obtain ⟨result, applied⟩ := outcome
        obtain ⟨rfl, hadmitted, ⟨answer, hanswer⟩, batch, hbatch⟩ := inv.apply_cases horigin hN hB hstage happly
        rw [happly] at hproceed
        cases hproceed
        cases hprogressed
        obtain ⟨_, _, hcapacity⟩ := BoundedEventEngine.preflight_eq_ok hcall.2
        have hroom : (BoundedQueue.empty : BoundedQueue (EventBatch B) Q).hasCapacity = true := by
          have hlt := BoundedQueue.hasCapacity_iff.mp hcapacity
          exact BoundedQueue.hasCapacity_iff.mpr (Nat.lt_of_le_of_lt (Nat.zero_le _) hlt)
        obtain ⟨produced, hproduced, hsameGateway, hitems⟩ :=
          BoundedEventEngine.applyAdmittedCommand_queue happly hbatch hroom
        rw [hgateway] at hproduced
        have hnext := (admitted_call (inv.history.sound horigin) hadmitted hanswer).2
        rw [hgateway] at hnext
        refine .inr ⟨_, rfl, .accepted _ record batch produced ((recordsIn_quiet rfl rfl).trans hrecords) ?_ hnext
          hproduced hsameGateway.symm hitems⟩
        rw [batchesIn, List.filterMap_append, ← hbatches, batchesIn, List.append_assoc]
        simp [EngineEvent.consumed, hbatch]

/-! ### Whole calls -/

/-- The caller is free when no call of either kind is under way. -/
theorem free_iff : system.free = true ↔ system.stage = .idle ∧ system.reading = .idle := by
  rw [EngineSystem.free, Bool.and_eq_true, decide_eq_true_eq, decide_eq_true_eq]

/-- The start of a call brings it under way, or it returns at once. -/
theorem begin_outcome (inv : EngineInv crc32c size origin events system) (horigin : GatewaySound origin)
    {payload : List U8} (hfree : system.free = true)
    (hstep : system.progressed (some command) (system.engine.begin command payload) = (event, system')) :
    event.isReturned = false ∧ Midway events system command (events ++ [event]) system' ∨
      ∃ result, event = .returned (some command) result ∧
        CallOutcome events system (events ++ [event]) system' (some command) result := by
  obtain ⟨hstage, _⟩ := free_iff.mp hfree
  have hself : Unconsumed events system events system := ⟨rfl, rfl, rfl⟩
  have hproducer := inv.producer
  unfold Engine.begin at hstep
  split at hstep
  · rename_i hfailed
    cases hstep
    exact .inr ⟨_, rfl, .refused _ _ (hself.same rfl rfl rfl rfl) rfl rfl (.failed _ hfailed)⟩
  rename_i hsane
  split at hstep
  · rename_i hpoisoned
    cases hstep
    exact .inr ⟨_, rfl, .fails _ _ (hself.same rfl rfl (Engine.fail_events _) (Engine.fail_queue _))
      (Engine.fail_journal _) (Engine.fail_failed _) (.inl ⟨hpoisoned, rfl⟩)⟩
  split at hstep
  · rename_i hjournal
    cases hstep
    exact .inr ⟨_, rfl, .refused _ _ (hself.same rfl rfl rfl rfl) rfl rfl (.stopped _ hjournal)⟩
  · rename_i writer hjournal
    split at hstep
    · rename_i hother
      cases hstep
      exact .inr ⟨_, rfl, .refused _ _ (hself.same rfl rfl rfl rfl) rfl rfl (.unknownInstrument _ hother)⟩
    rename_i hinstrument
    split at hstep
    · -- the writer never leaves the gateway's sequence
      rename_i hbehind
      have hexpected := inv.expected horigin
      have hlength := inv.length_records
      rw [hstage, unapplied_idle, List.length_nil, Nat.add_zero] at hlength
      simp only [AdmissionInv, hjournal] at hproducer
      exact absurd (Fin.ext (by omega)) hbehind
    · cases hstep
      exact .inl ⟨rfl, rfl, hself.same rfl rfl rfl rfl, rfl, rfl, Bool.not_eq_true _ ▸ hsane,
        not_not.mp hinstrument, roomKept_of_eq rfl rfl⟩

/-- The first step of a call. -/
theorem call_begins (inv : EngineInv crc32c size origin events system) (horigin : GatewaySound origin)
    (haction : action.isCall = true)
    (hstep : system.step crc32c sha256 size action = some (event, system')) :
    (event.isReturned = false ∧ ∃ command, action.carried = some command ∧
        Midway events system command (events ++ [event]) system') ∨
      ∃ result, event = .returned action.carried result ∧
        CallOutcome events system (events ++ [event]) system' action.carried result := by
  cases action with
  | command command =>
      simp only [EngineSystem.step] at hstep
      split at hstep
      · rename_i hfree
        rcases begin_outcome inv horigin hfree (Option.some.inj hstep) with ⟨hquiet, hmidway⟩ | hreturned
        · exact .inl ⟨hquiet, command, rfl, hmidway⟩
        · exact .inr hreturned
      · cases hstep
  | frame bytes =>
      simp only [EngineSystem.step] at hstep
      split at hstep
      · rename_i hfree
        cases hparse : parseMessage bytes with
        | error error =>
            have hcarried : EngineAction.carried (.frame bytes) = none := by
              simp only [EngineAction.carried, hparse]
            rw [hparse] at hstep
            cases hstep
            rw [hcarried]
            exact .inr ⟨_, rfl, .refused none _ (Unconsumed.same rfl rfl ⟨rfl, rfl, rfl⟩ rfl rfl) rfl rfl (.parse error)⟩
        | ok message =>
            have hcarried : EngineAction.carried (.frame bytes) = some message.toCommand := by
              simp only [EngineAction.carried, hparse]
            rw [hparse] at hstep
            rw [hcarried]
            rcases begin_outcome inv horigin hfree (Option.some.inj hstep) with ⟨hquiet, hmidway⟩ | hreturned
            · exact .inl ⟨hquiet, _, rfl, hmidway⟩
            · exact .inr hreturned
      · cases hstep
  | _ => cases haction

/-- A step while a call is under way. -/
theorem Midway.step (inv : EngineInv crc32c size origin now system') (horigin : GatewaySound origin)
    (hN : N + 2 ≤ 2 ^ 16) (hB : N + 2 ≤ B) (h : Midway before system command now system')
    {next : EngineSystem A R L O N B Q}
    (hstep : system'.step crc32c sha256 size action = some (event, next)) :
    event.isReturned = false ∧ Midway before system command (now ++ [event]) next ∨
      ∃ result, event = .returned (some command) result ∧
        CallOutcome before system (now ++ [event]) next (some command) result := by
  by_cases haction : action = .engine
  · subst haction
    exact h.engine inv horigin hN hB hstep
  · have hbusy : system'.stage ≠ .idle := by
      intro hidle
      unfold Midway at h
      rw [hidle] at h
      exact h
    have hundisturbed := undisturbed_of_environment (environment_of_busy hbusy haction hstep) hstep
    exact .inl ⟨hundisturbed.returned, h.undisturbed hundisturbed⟩

/-- A call under way returns with its outcome. -/
theorem Midway.run (inv : EngineInv crc32c size origin now system') (horigin : GatewaySound origin)
    (hN : N + 2 ≤ 2 ^ 16) (hB : N + 2 ≤ B) (h : Midway before system command now system')
    {actions : List EngineAction} {front : List (EngineEvent B)} {carried : Option Command}
    {result : Except EngineError Unit}
    (hrun : run (EngineSystem.step crc32c sha256 size) system' actions = some (front ++ [.returned carried result], last))
    (hfront : ∀ event ∈ front, event.isReturned = false) :
    carried = some command ∧
      CallOutcome before system (now ++ (front ++ [.returned carried result])) last (some command) result := by
  induction actions generalizing now system' front with
  | nil =>
      rw [run_nil] at hrun
      cases front <;> cases hrun
  | cons action actions ih =>
      obtain ⟨event, rest, next, hstep, hrest, heq⟩ := run_cons.mp hrun
      have inv' := inv.step horigin hN hB hstep
      cases front with
      | nil =>
          rw [List.nil_append, List.cons.injEq] at heq
          obtain ⟨rfl, rfl⟩ := heq
          obtain ⟨_, rfl⟩ := eq_of_run_nil hrest
          rcases h.step inv horigin hN hB hstep with ⟨hquiet, _⟩ | ⟨_, hreturned, houtcome⟩
          · cases hquiet
          · cases hreturned
            exact ⟨rfl, houtcome⟩
      | cons first front =>
          rw [List.cons_append, List.cons.injEq] at heq
          obtain ⟨rfl, rfl⟩ := heq
          rcases h.step inv horigin hN hB hstep with ⟨_, hmidway⟩ | ⟨_, hreturned, _⟩
          · have hlater := ih inv' hmidway hrest fun event hevent => hfront event (List.mem_cons_of_mem _ hevent)
            rwa [List.append_assoc] at hlater
          · have hquiet := hfront first List.mem_cons_self
            rw [hreturned] at hquiet
            cases hquiet

/-- A call, from its start to its return among the steps of the others. -/
theorem call_outcome (inv : EngineInv crc32c size origin events system) (horigin : GatewaySound origin)
    (hN : N + 2 ≤ 2 ^ 16) (hB : N + 2 ≤ B) (haction : action.isCall = true) {actions : List EngineAction}
    {front : List (EngineEvent B)} {carried : Option Command} {result : Except EngineError Unit}
    (hrun : run (EngineSystem.step crc32c sha256 size) system (action :: actions) =
      some (front ++ [.returned carried result], last))
    (hfront : ∀ event ∈ front, event.isReturned = false) :
    carried = action.carried ∧
      CallOutcome events system (events ++ (front ++ [.returned carried result])) last action.carried result := by
  obtain ⟨event, rest, next, hstep, hrest, heq⟩ := run_cons.mp hrun
  have inv' := inv.step horigin hN hB hstep
  rcases call_begins inv horigin haction hstep with ⟨_, command, hcarried, hmidway⟩ | ⟨result', hreturned, houtcome⟩
  · cases front with
    | nil =>
        rw [List.nil_append, List.cons.injEq] at heq
        rename_i hquiet
        rw [← heq.1] at hquiet
        cases hquiet
    | cons first front =>
        rw [List.cons_append, List.cons.injEq] at heq
        obtain ⟨rfl, rfl⟩ := heq
        obtain ⟨rfl, houtcome⟩ := hmidway.run inv' horigin hN hB hrest
          fun event hevent => hfront event (List.mem_cons_of_mem _ hevent)
        rw [List.append_assoc] at houtcome
        rw [hcarried]
        exact ⟨rfl, houtcome⟩
  · cases front with
    | nil =>
        rw [List.nil_append, List.cons.injEq] at heq
        obtain ⟨rfl, rfl⟩ := heq
        cases hreturned
        obtain ⟨_, rfl⟩ := eq_of_run_nil hrest
        exact ⟨rfl, houtcome⟩
    | cons first front =>
        rw [List.cons_append, List.cons.injEq] at heq
        have hquiet := hfront first List.mem_cons_self
        rw [heq.1, hreturned] at hquiet
        cases hquiet

/-! ### Resubmission -/

/-- With room in both queues and a healthy worker, an admissible command is
accepted. -/
theorem call_accepted (inv : EngineInv crc32c size origin events system) (horigin : GatewaySound origin)
    (hN : N + 2 ≤ 2 ^ 16) (hB : N + 2 ≤ B) (hadmissible : Admissible system.engine command)
    (hevents : system.engine.events.queue.hasCapacity = true)
    (hchannel : system.engine.channel.queue.hasCapacity = true)
    (hhealthy : system.engine.channel.status.poisoned = false) (haction : action.isCall = true)
    (hcarried : action.carried = some command) {actions : List EngineAction} {front : List (EngineEvent B)}
    {carried : Option Command} {result : Except EngineError Unit}
    (hrun : run (EngineSystem.step crc32c sha256 size) system (action :: actions) =
      some (front ++ [.returned carried result], last))
    (hfront : ∀ event ∈ front, event.isReturned = false) :
    result = .ok () ∧ ∃ produced : BoundedEventEngine A R L O N B Q, ∃ batch,
      BoundedEventEngine.applyAdmittedCommand ⟨system.engine.events.gateway, BoundedQueue.empty⟩ command =
        some (.ok (), produced) ∧
      last.engine.events.gateway = produced.gateway ∧ produced.queue.items = [batch] ∧
      batchesIn (events ++ (front ++ [.returned carried result])) last = batchesIn events system ++ [batch] := by
  obtain ⟨_, houtcome⟩ := call_outcome inv horigin hN hB haction hrun hfront
  rw [hcarried] at houtcome
  obtain ⟨hsane, hopened, hinstrument, hsequence⟩ := hadmissible
  obtain ⟨hexpected, _⟩ := checkSequence_ok_iff.mp hsequence
  cases houtcome with
  | accepted _ record batch produced _ hbatches _ hproduced hgateway hbatch =>
      exact ⟨rfl, produced, batch, hproduced, hgateway, hbatch, hbatches⟩
  | refused _ error _ _ _ hrefusal =>
      cases hrefusal with
      | failed _ hfailed =>
          rw [hsane] at hfailed
          cases hfailed
      | stopped _ hjournal =>
          rw [hjournal] at hopened
          cases hopened
      | unknownInstrument _ hother => exact absurd hinstrument hother
      | sequence _ hother => exact absurd hexpected hother
      | full _ _ _ hfull =>
          rcases hfull with ⟨hfull, _⟩ | ⟨hfull, _⟩
          · rw [hevents] at hfull
            cases hfull
          · rw [hchannel] at hfull
            cases hfull
  | fails _ error _ _ _ herror =>
      rcases herror with ⟨hpoisoned, _⟩ | ⟨⟨_, heq, hexhausted⟩, _⟩
      · rw [hhealthy] at hpoisoned
        cases hpoisoned
      · cases heq
        rw [hsequence] at hexhausted
        cases hexhausted

/-- Left to itself, such a call returns. -/
theorem call_returns (inv : EngineInv crc32c size origin events system) (horigin : GatewaySound origin)
    (hN : N + 2 ≤ 2 ^ 16) (hB : N + 2 ≤ B) (hadmissible : Admissible system.engine command)
    (hevents : system.engine.events.queue.hasCapacity = true)
    (hchannel : system.engine.channel.queue.hasCapacity = true)
    (hhealthy : system.engine.channel.status.poisoned = false) (hfree : system.free = true)
    (haction : action.isCall = true) (hcarried : action.carried = some command)
    {produced : BoundedEventEngine A R L O N B Q}
    (hproduced : BoundedEventEngine.applyAdmittedCommand ⟨system.engine.events.gateway, BoundedQueue.empty⟩ command =
      some (.ok (), produced)) :
    ∃ last, run (EngineSystem.step crc32c sha256 size) system [action, .engine, .engine, .engine] =
      some ([.quiet, .quiet, .quiet, .returned (some command) (.ok ())], last) := by
  obtain ⟨hsane, hopened, hinstrument, hsequence⟩ := hadmissible
  obtain ⟨writer, hwriter⟩ := Option.isSome_iff_exists.mp hopened
  obtain ⟨hstage, _⟩ := free_iff.mp hfree
  have hproducer := inv.producer
  simp only [AdmissionInv, hwriter] at hproducer
  have hexpected := inv.expected horigin
  have hlength := inv.length_records
  rw [hstage, unapplied_idle, List.length_nil, Nat.add_zero] at hlength
  have hnumbered : writer.nextSequence = system.engine.expectedSequence := Fin.ext (by omega)
  have hbegin : ∀ payload, system.engine.begin command payload = .continues (.admitting command payload) system.engine := by
    intro payload
    unfold Engine.begin
    simp [hsane, hhealthy, hwriter, hinstrument, hnumbered]
  obtain ⟨payload, hfirst⟩ : ∃ payload, system.step crc32c sha256 size action =
      some (.quiet, { system with stage := .admitting command payload }) := by
    cases action with
    | command other =>
        cases hcarried
        refine ⟨encodeCommand command, ?_⟩
        simp only [EngineSystem.step, hfree, if_true, hbegin, EngineSystem.progressed]
    | frame bytes =>
        cases hparse : parseMessage bytes with
        | error error =>
            simp only [EngineAction.carried, hparse] at hcarried
            cases hcarried
        | ok message =>
            simp only [EngineAction.carried, hparse] at hcarried
            cases hcarried
            refine ⟨bytes, ?_⟩
            simp only [EngineSystem.step, hfree, if_true, hparse, hbegin, EngineSystem.progressed]
    | _ => cases haction
  have hpreflight : system.engine.events.preflight command.sequence = .ok () := by
    simp only [BoundedEventEngine.preflight, hsequence, hevents, if_true]
  have hsecond : ({ system with stage := .admitting command payload } : EngineSystem A R L O N B Q).step crc32c sha256
      size .engine = some (.quiet, { system with stage := .enqueuing command payload }) := by
    simp only [EngineSystem.step, Engine.proceed, hpreflight, Option.map_some, EngineSystem.progressed]
  have inv₁ := inv.step horigin hN hB hfirst
  have inv₂ := inv₁.step horigin hN hB hsecond
  obtain ⟨writer', record, hwriter', _, _, _, hcases⟩ := inv₂.enqueue_cases horigin rfl
  rcases hcases with ⟨hfull, _⟩ | ⟨queue, next, hpush, _, henqueue⟩
  · simp only [hchannel] at hfull
    cases hfull
  simp only at hwriter' henqueue
  have hthird : ({ system with stage := .enqueuing command payload } : EngineSystem A R L O N B Q).step crc32c sha256
      size .engine = some (.quiet, { system with
        engine := { system.engine with journal := some ⟨next⟩, channel := { system.engine.channel with queue := queue } }
        stage := .applying command }) := by
    simp only [EngineSystem.step, Engine.proceed, hwriter', henqueue, Option.map_some, EngineSystem.progressed]
  have hpublished : ∃ batch, produced.queue.items = [batch] := by
    have hroom : (BoundedEventEngine.preflight (⟨system.engine.events.gateway, BoundedQueue.empty⟩ :
        BoundedEventEngine A R L O N B Q) command.sequence) = .ok () := by
      have hlt := BoundedQueue.hasCapacity_iff.mp hevents
      have hcapacity : (BoundedQueue.empty : BoundedQueue (EventBatch B) Q).hasCapacity = true :=
        BoundedQueue.hasCapacity_iff.mpr (Nat.lt_of_le_of_lt (Nat.zero_le _) hlt)
      simp only [BoundedEventEngine.preflight, hsequence, hcapacity, if_true]
    obtain ⟨logical, rep, sound⟩ := inv.history.sound horigin
    have hrep : GatewayRep (⟨system.engine.events.gateway, BoundedQueue.empty⟩ :
        BoundedEventEngine A R L O N B Q).gateway logical := rep
    obtain ⟨_, _, _, batch, hpublished⟩ :=
      BoundedEventEngine.applyAdmittedCommand_published hN hB hrep sound hroom hproduced
    exact ⟨batch, hpublished.queued⟩
  obtain ⟨batch, hbatch⟩ := hpublished
  obtain ⟨applied, happlied, _, _⟩ := BoundedEventEngine.applyAdmittedCommand_queue hproduced hbatch hevents
  have hfourth : ({ system with
        engine := { system.engine with journal := some ⟨next⟩, channel := { system.engine.channel with queue := queue } }
        stage := .applying command } : EngineSystem A R L O N B Q).step crc32c sha256 size .engine =
      some (.returned (some command) (.ok ()), { system with
        engine := { system.engine with
          events := applied, journal := some ⟨next⟩, channel := { system.engine.channel with queue := queue } }
        stage := .idle }) := by
    simp only [EngineSystem.step, Engine.proceed, happlied, Option.map_some, EngineSystem.progressed]
  exact ⟨_, run_cons.mpr ⟨_, _, _, hfirst, run_cons.mpr ⟨_, _, _, hsecond, run_cons.mpr ⟨_, _, _, hthird,
    run_cons.mpr ⟨_, _, _, hfourth, run_nil, rfl⟩, rfl⟩, rfl⟩, rfl⟩⟩

/-- The other parties leave the engine's gateway and lifecycle alone. -/
theorem engine_kept {between : List EngineAction} (hbetween : ∀ action ∈ between, action.isEnvironment = true)
    (hrun : run (EngineSystem.step crc32c sha256 size) system between = some (events, system')) :
    system'.engine.events.gateway = system.engine.events.gateway ∧
      system'.engine.journal = system.engine.journal ∧ system'.engine.failed = system.engine.failed := by
  induction between generalizing system events with
  | nil =>
      cases hrun
      exact ⟨rfl, rfl, rfl⟩
  | cons action between ih =>
      obtain ⟨event, rest, next, hstep, hrest, rfl⟩ := run_cons.mp hrun
      have h := undisturbed_of_environment (hbetween action List.mem_cons_self) hstep
      obtain ⟨hgateway, hjournal, hfailed⟩ := ih (fun other hother => hbetween other (List.mem_cons_of_mem _ hother)) hrest
      exact ⟨hgateway.trans h.gateway, hjournal.trans h.journal, hfailed.trans h.failed⟩

/-! ### Failed engines -/

/-- A failed engine between calls. -/
structure Dead (system : EngineSystem A R L O N B Q) : Prop where
  failed : system.engine.failed = true
  idle : system.stage = .idle

/-- A failed engine stays failed and accepts nothing. -/
theorem Dead.step (h : Dead system) (hstep : system.step crc32c sha256 size action = some (event, system')) :
    Dead system' ∧ ∀ carried, event ≠ .returned carried (.ok ()) := by
  by_cases haction : action.isEnvironment = true
  · have hundisturbed := undisturbed_of_environment haction hstep
    refine ⟨⟨hundisturbed.failed.trans h.failed, hundisturbed.stage.trans h.idle⟩, ?_⟩
    rintro carried rfl
    have hquiet := hundisturbed.returned
    cases hquiet
  · cases action with
    | command command =>
        simp only [EngineSystem.step, Engine.begin, h.failed, if_true] at hstep
        split at hstep
        · cases hstep
          exact ⟨⟨h.failed, rfl⟩, fun carried heq => by cases heq⟩
        · cases hstep
    | frame bytes =>
        simp only [EngineSystem.step, Engine.begin, h.failed, if_true] at hstep
        split at hstep
        · split at hstep
          · cases hstep
            exact ⟨h, fun carried heq => by cases heq⟩
          · cases hstep
            exact ⟨⟨h.failed, rfl⟩, fun carried heq => by cases heq⟩
        · cases hstep
    | engine =>
        simp only [EngineSystem.step, h.idle] at hstep
        cases hstep
    | stopAdmission =>
        simp only [EngineSystem.step] at hstep
        split at hstep
        · cases hstep
          exact ⟨⟨(Engine.stopAdmission_failed _).trans h.failed, h.idle⟩, fun carried heq => by cases heq⟩
        · cases hstep
    | _ => exact absurd rfl haction

/-- A call that reports failure leaves a failed engine. -/
theorem dead_of_returned {carried : Option Command} {error : EngineError}
    (herror : error = .failed ∨ error = .persistenceFailed)
    (hstep : system.step crc32c sha256 size action = some (.returned carried (.error error), system')) :
    Dead system' := by
  have hbegin : ∀ {command : Command} {payload : List U8},
      system.progressed (some command) (system.engine.begin command payload) =
        (.returned carried (.error error), system') → Dead system' := by
    intro command payload hprogressed
    unfold Engine.begin at hprogressed
    split at hprogressed
    · rename_i hfailed
      cases hprogressed
      exact ⟨hfailed, rfl⟩
    split at hprogressed
    · cases hprogressed
      exact ⟨Engine.fail_failed _, rfl⟩
    split at hprogressed
    · cases hprogressed
      simp at herror
    split at hprogressed
    · cases hprogressed
      simp at herror
    split at hprogressed
    · cases hprogressed
      simp at herror
    · cases hprogressed
  cases action with
  | command command =>
      simp only [EngineSystem.step] at hstep
      split at hstep
      · exact hbegin (Option.some.inj hstep)
      · cases hstep
  | frame bytes =>
      simp only [EngineSystem.step] at hstep
      split at hstep
      · split at hstep
        · cases hstep
          simp at herror
        · exact hbegin (Option.some.inj hstep)
      · cases hstep
  | engine =>
      simp only [EngineSystem.step] at hstep
      split at hstep
      · cases hstep
      · obtain ⟨progress, hproceed, hprogressed⟩ := Option.map_eq_some_iff.mp hstep
        unfold Engine.proceed at hproceed
        dsimp only at hproceed
        split at hproceed <;> cases hproceed <;> cases hprogressed <;> simp at herror
      · obtain ⟨progress, hproceed, hprogressed⟩ := Option.map_eq_some_iff.mp hstep
        unfold Engine.proceed at hproceed
        dsimp only at hproceed
        split at hproceed
        · cases hproceed
          cases hprogressed
          simp at herror
        · split at hproceed <;> cases hproceed <;> cases hprogressed
          simp at herror
      · obtain ⟨progress, hproceed, hprogressed⟩ := Option.map_eq_some_iff.mp hstep
        unfold Engine.proceed at hproceed
        dsimp only at hproceed
        split at hproceed
        · cases hproceed
        · cases hproceed
          cases hprogressed
          simp at herror
        · cases hproceed
          cases hprogressed
  | stopAdmission =>
      simp only [EngineSystem.step] at hstep
      split at hstep <;> cases hstep
  | _ =>
      have hquiet := (undisturbed_of_environment rfl hstep).returned
      cases hquiet

/-- No call of a failed engine is accepted, however long the run. -/
theorem Dead.run (h : Dead system) {actions : List EngineAction}
    (hrun : run (EngineSystem.step crc32c sha256 size) system actions = some (events, last)) (carried : Option Command) :
    .returned carried (.ok ()) ∉ events := by
  induction actions generalizing system events with
  | nil =>
      cases hrun
      exact List.not_mem_nil
  | cons action actions ih =>
      obtain ⟨event, rest, next, hstep, hrest, rfl⟩ := run_cons.mp hrun
      obtain ⟨hnext, hother⟩ := h.step hstep
      rw [List.mem_cons, not_or]
      exact ⟨(hother carried).symm, ih hnext hrest⟩

/-! ### All or nothing -/

/-- A call that is accepted consumes one record, one batch and one sequence
number. -/
structure Consumed (before : List (EngineEvent B)) (system : EngineSystem A R L O N B Q)
    (after : List (EngineEvent B)) (system' : EngineSystem A R L O N B Q) : Prop where
  record : ∃ record, recordsIn after system' = recordsIn before system ++ [record]
  batch : ∃ batch, batchesIn after system' = batchesIn before system ++ [batch]
  sequence : system'.engine.expectedSequence.val = system.engine.expectedSequence.val + 1

/-- A refusal that leaves the lifecycle alone. -/
def EngineError.Passing (error : EngineError) : Prop :=
  (∃ reason, error = .parse reason) ∨ (∃ instrument, error = .unknownInstrument instrument) ∨
    (∃ expected received, error = .admission (.gateway (.sequence expected received))) ∨
    error = .admission .backpressured ∨ ∃ reason, error = .journal reason

/-- A refusal for lack of room. -/
def EngineError.Saturated (error : EngineError) : Prop :=
  error = .admission .backpressured ∨ ∃ reason, error = .journal reason

/-- The queues have room and persistence did not fail. -/
structure Drained (system : EngineSystem A R L O N B Q) : Prop where
  events : system.engine.events.queue.hasCapacity = true
  channel : system.engine.channel.queue.hasCapacity = true
  healthy : system.engine.channel.status.poisoned = false

/-- A call that succeeds has consumed its command. -/
theorem CallOutcome.consumed {carried : Option Command} (h : CallOutcome before system events last carried (.ok ())) :
    Consumed before system events last := by
  cases h with
  | accepted _ record batch _ hrecords hbatches hexpected _ _ _ => exact ⟨⟨record, hrecords⟩, ⟨batch, hbatches⟩, hexpected⟩

/-- A refused call consumes nothing, keeps or drops the writer, and reports no
broken invariant. -/
theorem CallOutcome.unconsumed {carried : Option Command} {error : EngineError}
    (h : CallOutcome before system events last carried (.error error)) :
    Unconsumed before system events last ∧
      (∀ writer, last.engine.journal = some writer → system.engine.journal = some writer) ∧
      error ≠ .sequenceInvariant ∧ (∀ reason, error ≠ .apply reason) ∧
      (error.Passing → last.engine.journal = system.engine.journal ∧ last.engine.failed = system.engine.failed) := by
  cases h with
  | refused _ _ hsame hjournal hfailed hrefusal =>
      refine ⟨hsame, fun writer hwriter => hjournal ▸ hwriter, ?_, ?_, fun _ => ⟨hjournal, hfailed⟩⟩
      · rintro rfl
        cases hrefusal with
        | full _ _ _ hfull => simp at hfull
      · rintro reason rfl
        cases hrefusal with
        | full _ _ _ hfull => simp at hfull
  | fails _ _ hsame hjournal hfailed herror =>
      have hclosed : ∀ writer, last.engine.journal = some writer → system.engine.journal = some writer := by
        intro writer hwriter
        rw [hjournal] at hwriter
        cases hwriter
      rcases herror with ⟨_, rfl⟩ | ⟨_, rfl⟩
      · exact ⟨hsame, hclosed, by simp, by simp, by simp [EngineError.Passing]⟩
      · exact ⟨hsame, hclosed, by simp, by simp, by simp [EngineError.Passing]⟩

/-- A call refused for lack of room carried an admissible command. -/
theorem CallOutcome.admissible {error : EngineError}
    (h : CallOutcome before system events last (some command) (.error error)) (herror : error.Saturated) :
    Admissible system.engine command ∧ last.engine.events.gateway = system.engine.events.gateway ∧
      last.engine.journal = system.engine.journal ∧ last.engine.failed = system.engine.failed := by
  cases h with
  | refused _ _ hsame hjournal hfailed hrefusal =>
      refine ⟨?_, hsame.gateway, hjournal, hfailed⟩
      cases hrefusal with
      | full _ _ hadmissible _ => exact hadmissible
      | _ => simp [EngineError.Saturated] at herror
  | fails _ _ _ _ _ hfails =>
      rcases hfails with ⟨_, rfl⟩ | ⟨_, rfl⟩ <;> simp [EngineError.Saturated] at herror

/-- A call from its start to its return, with whatever steps the others take in
between. -/
structure CallRun (crc32c : List U8 → U32) (sha256 : List U8 → Digest) (size : Nat)
    (system : EngineSystem A R L O N B Q) (call : EngineAction) (events : List (EngineEvent B))
    (carried : Option Command) (result : Except EngineError Unit) (last : EngineSystem A R L O N B Q) : Prop where
  isCall : call.isCall = true
  returns : ∃ steps front, run (EngineSystem.step crc32c sha256 size) system (call :: steps) = some (events, last) ∧
    events = front ++ [.returned carried result] ∧ ∀ event ∈ front, event.isReturned = false

/-- What an admitted command produces on a gateway with an empty event
queue. -/
def Produces (gateway : Gateway A R L O) (command : Command) (produced : BoundedEventEngine A R L O N B Q) : Prop :=
  BoundedEventEngine.applyAdmittedCommand ⟨gateway, BoundedQueue.empty⟩ command = some (.ok (), produced)

/-- In every system that an engine built on a new or recovered gateway can
reach together with its persistence worker and its consumer, and for every call
of it, whatever steps the others take before it returns: an accepted call
leaves exactly one journal record, one event batch and one sequence number
behind; a refused one leaves the gateway, the writer and the histories of both
queues as they were, and it never reports a broken sequence or a failed
application; where the refusal is not final, the lifecycle is unchanged, and
after a refusal for lack of room the same call is accepted once there is room,
with the batch and the gateway the command would have produced at first; and
once a call reports failure, none is accepted again. -/
theorem admission_all_or_nothing (crc32c : List U8 → U32) (sha256 : List U8 → Digest) (size : Nat)
    {policy : FlushPolicy}
    {actions : List EngineAction} (hbuilt : EngineBuilder.Builds crc32c sha256 N origin)
    (hstart : EngineSystem.start origin policy = .ok initial)
    (hrun : run (EngineSystem.step crc32c sha256 size) initial actions = some (events, system)) :
    (∀ call seen carried result last, CallRun crc32c sha256 size system call seen carried result last →
      (result = .ok () → Consumed events system (events ++ seen) last) ∧
      (∀ error, result = .error error →
        Unconsumed events system (events ++ seen) last ∧
        (∀ writer, last.engine.journal = some writer → system.engine.journal = some writer) ∧
        error ≠ .sequenceInvariant ∧ (∀ reason, error ≠ .apply reason) ∧
        (error.Passing → last.engine.journal = system.engine.journal ∧ last.engine.failed = system.engine.failed)) ∧
      (∀ command error between later ready, carried = some command → result = .error error → error.Saturated →
        (∀ action ∈ between, action.isEnvironment = true) →
        run (EngineSystem.step crc32c sha256 size) last between = some (later, ready) → Drained ready →
        (∀ seen' carried' result' final, CallRun crc32c sha256 size ready call seen' carried' result' final →
          result' = .ok () ∧ ∃ (produced : BoundedEventEngine A R L O N B Q) (batch : EventBatch B),
            Produces system.engine.events.gateway command produced ∧
            final.engine.events.gateway = produced.gateway ∧ produced.queue.items = [batch] ∧
            batchesIn (events ++ seen ++ later ++ seen') final = batchesIn (events ++ seen ++ later) ready ++ [batch]) ∧
        (∀ produced : BoundedEventEngine A R L O N B Q, ready.free = true →
          Produces system.engine.events.gateway command produced →
          ∃ final, run (EngineSystem.step crc32c sha256 size) ready [call, .engine, .engine, .engine] =
            some ([.quiet, .quiet, .quiet, .returned (some command) (.ok ())], final)))) ∧
    (∀ front carried error back, events = front ++ .returned carried (.error error) :: back →
      error = .failed ∨ error = .persistenceFailed → ∀ later, .returned later (.ok ()) ∉ back) := by
  obtain ⟨logical, rep, canonical⟩ := hbuilt.canonical
  have horigin : GatewaySound origin := ⟨logical, rep, canonical.sound⟩
  obtain ⟨hN, hB, _⟩ := engineInv_start crc32c size hstart
  have inv := engineInv_of_run hbuilt.canonical hstart hrun
  refine ⟨?_, fun front carried error back hevents herror later => ?_⟩
  · rintro call seen carried result last ⟨hcall, steps, front, hsteps, rfl, hfront⟩
    obtain ⟨hcarried, houtcome⟩ := call_outcome inv horigin hN hB hcall hsteps hfront
    refine ⟨?_, ?_, ?_⟩
    · rintro rfl
      exact houtcome.consumed
    · rintro error rfl
      exact houtcome.unconsumed
    · rintro command error between later ready rfl rfl herror hbetween hbetweenRun hdrained
      rw [← hcarried] at houtcome
      obtain ⟨⟨hsane, hopened, hinstrument, hsequence⟩, hgateway, hjournal, hfailed⟩ := houtcome.admissible herror
      obtain ⟨hgateway', hjournal', hfailed'⟩ := engine_kept hbetween hbetweenRun
      have hsame := hgateway'.trans hgateway
      have hready : Admissible ready.engine command :=
        ⟨(hfailed'.trans hfailed).trans hsane, by rw [hjournal', hjournal]; exact hopened,
          by rw [Engine.instrument, hsame]; exact hinstrument, by rw [hsame]; exact hsequence⟩
      have inv' := engineInv_of_run hbuilt.canonical hstart
        (run_append.mpr ⟨_, later, last, run_append.mpr ⟨_, _, _, hrun, hsteps, rfl⟩, hbetweenRun, rfl⟩)
      refine ⟨?_, fun produced hfree hproduced => ?_⟩
      · rintro seen' carried' result' final ⟨_, steps', front', hagain, rfl, hfront'⟩
        rw [← hsame]
        exact call_accepted inv' horigin hN hB hready hdrained.events hdrained.channel hdrained.healthy hcall
          hcarried.symm hagain hfront'
      · rw [← hsame] at hproduced
        exact call_returns inv' horigin hN hB hready hdrained.events hdrained.channel hdrained.healthy hfree hcall
          hcarried.symm hproduced
  · rw [hevents] at hrun
    obtain ⟨first, second, middle, _, _, hsecond⟩ := run_outputs_append hrun
    cases second with
    | nil => cases hsecond
    | cons action second =>
        obtain ⟨event, rest, next, hstep, hrest, heq⟩ := run_cons.mp hsecond
        cases heq
        exact (dead_of_returned herror hstep).run hrest later

/-- The amend of the offer finds the event queue full. -/
theorem admission_all_or_nothing_sample : ∃ events seen, ∃ system last : EngineSystem 1 1 1 1 1 3 1,
    run (EngineSystem.step (fun _ => 0) countingHash 1) sampleEngine
      [.command offerCommand, .engine, .engine, .engine] = some (events, system) ∧
    CallRun (fun _ => 0) countingHash 1 system (.command amendCommand) seen (some amendCommand)
      (.error (.admission .backpressured)) last ∧
    Unconsumed events system (events ++ seen) last ∧ last.engine.failed = system.engine.failed := by
  obtain ⟨⟨events, system⟩, hrun, hagain⟩ := exists_of_any
    (run (EngineSystem.step (fun _ => 0) countingHash 1) sampleEngine
      [.command offerCommand, .engine, .engine, .engine])
    (fun result => ((run (EngineSystem.step (fun _ => 0) countingHash 1) result.2
      [.command amendCommand, .engine]).map Prod.fst) =
        some [.quiet, .returned (some amendCommand) (.error (.admission .backpressured))]) (by decide +kernel)
  obtain ⟨⟨seen, last⟩, hsteps, rfl⟩ := Option.map_eq_some_iff.mp hagain
  have hcall : CallRun (fun _ => 0) countingHash 1 system (.command amendCommand) _ (some amendCommand)
      (.error (.admission .backpressured)) last := ⟨rfl, [.engine], [.quiet], hsteps, rfl, by simp [EngineEvent.isReturned]⟩
  obtain ⟨hsame, _, _, _, hlife⟩ := ((admission_all_or_nothing (fun _ => 0) countingHash 1
    (.inl ⟨7, _, builds_tightGateway⟩) start_sampleEngine hrun).1 _ _ _ _ _ hcall).2.1 _ rfl
  exact ⟨events, _, system, last, hrun, hcall, hsame, (hlife (by simp [EngineError.Passing])).2⟩

end HftEngine
