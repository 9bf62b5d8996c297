/-
Module: HftEngine.Proofs.EngineSystem
Layer: Proofs
Purpose: What holds of a journaled engine in every interleaving with its
  persistence worker and event consumer: the journal holds one record for every
  applied command and for the one about to be applied, the writer stands behind
  them, admission that was granted stays granted, and the worker's invariant
  holds of those records.
Imports: HftEngine.Core.EngineSystem, HftEngine.Proofs.EventEngine,
  HftEngine.Proofs.FramePath, HftEngine.Proofs.Recovery,
  HftEngine.Proofs.Persistence
Trusted boundary: none (fully proved)
Main exports: EngineBuilder.canonical_of_new,
  EngineBuilder.canonical_of_restore, Engine.applyJournaled_eq, appliedIn,
  recordsIn, EngineInv, EngineInv.step
-/
import HftEngine.Core.EngineSystem
import HftEngine.Proofs.EventEngine
import HftEngine.Proofs.FramePath
import HftEngine.Proofs.Recovery
import HftEngine.Proofs.Persistence

namespace HftEngine

open Machine Bytes Transition

variable {A R L O N B Q : Nat} {crc32c : List U8 → U32} {sha256 : List U8 → Digest} {size : Nat}
  {system system' : EngineSystem A R L O N B Q} {events : List (EngineEvent B)} {event : EngineEvent B}
  {origin : Gateway A R L O} {command : Command} {record : JournalRecord}

/-! ### What is built -/

section Built

variable {gateway gateway' : Gateway A R L O}

theorem EngineBuilder.configured_of_registerAll {accounts : List (AccountId × RiskLimits)} {risk risk' : RiskEngine A R}
    (h : Configured risk) (hregister : EngineBuilder.registerAll accounts risk = .ok risk') : Configured risk' := by
  induction accounts generalizing risk with
  | nil =>
      cases hregister
      exact h
  | cons account rest ih =>
      obtain ⟨id, limits⟩ := account
      have hnext := h.registerAccount id limits
      unfold EngineBuilder.registerAll at hregister
      cases hone : risk.registerAccount id limits with
      | mk result risk₁ =>
          rw [hone] at hregister hnext
          cases result with
          | error error => cases hregister
          | ok => exact ih hnext hregister

/-- A new gateway is canonical. -/
theorem EngineBuilder.canonical_of_new {instrument : InstrumentId} {accounts : List (AccountId × RiskLimits)}
    (h : EngineBuilder.new N instrument accounts = .ok gateway) : GatewayCanonical gateway := by
  obtain ⟨_, _, h⟩ := bind_eq_ok.mp h
  obtain ⟨risk, hregister, h⟩ := bind_eq_ok.mp h
  cases h
  obtain ⟨state, rep, fresh⟩ := (configured_of_registerAll .new hregister).ledger
  exact ⟨_, gatewayRep_new rep instrument, canonical_new rep fresh instrument⟩

/-- Replaying records keeps a gateway canonical. -/
theorem canonical_of_replay {chunks : List (List U8)} {index : Nat} {expected : U64} {reports : ReportBuffer N}
    (h : GatewayCanonical gateway)
    (hreplay : Checked.Returns (replayRecords crc32c chunks index expected gateway reports) gateway') :
    GatewayCanonical gateway' := by
  induction chunks generalizing index expected gateway reports with
  | nil =>
      obtain rfl := returns_pure_iff.mp hreplay
      exact h
  | cons chunk rest ih =>
      unfold replayRecords at hreplay
      simp only [returns_bind_iff, returns_liftResult_iff, returns_unwrapped_iff, Prod.exists] at hreplay
      obtain ⟨frame, _, result, middle, reports', hprocess, _, _, next, _, hrest⟩ := hreplay
      have hcall : gateway.call (.frame frame reports) = some (⟨result, reports'.entries⟩, middle) := by
        rw [Gateway.call, hprocess]
        rfl
      exact ih (call_canonical h hcall) hrest

/-- A recovered gateway is canonical, whatever bytes it was recovered from. -/
theorem EngineBuilder.canonical_of_restore {instrument : InstrumentId} {snapshot tail : List U8}
    (h : Checked.Returns (EngineBuilder.restore crc32c sha256 N instrument snapshot tail) gateway) :
    GatewayCanonical gateway := by
  unfold EngineBuilder.restore at h
  simp only [returns_bind_iff, returns_liftResult_iff, returns_mapError_iff, returns_ensure_iff,
    returns_pure_iff] at h
  obtain ⟨_, _, _, hrecover, _, _, rfl⟩ := h
  unfold recoverSnapshotAndTail at hrecover
  simp only [returns_bind_iff, returns_mapError_iff, returns_ensure_iff, returns_liftResult_iff] at hrecover
  obtain ⟨decoded, hdecoded, _, _, expected, _, hreplay⟩ := hrecover
  obtain ⟨_, _, _, _, _, _, _, _, _, hrestored⟩ := decodeSnapshot_returns_iff.mp hdecoded
  exact canonical_of_replay (canonical_of_fromState hrestored) hreplay

/-- The gateways an engine is built on: a new one, or one recovered from a
snapshot and a journal tail. -/
def EngineBuilder.Builds (crc32c : List U8 → U32) (sha256 : List U8 → Digest) (N : Nat) (gateway : Gateway A R L O) :
    Prop :=
  (∃ instrument accounts, EngineBuilder.new N instrument accounts = .ok gateway) ∨
    ∃ instrument snapshot tail, Checked.Returns (EngineBuilder.restore crc32c sha256 N instrument snapshot tail) gateway

/-- A gateway that the builder accepts can be exported and restored. -/
theorem EngineBuilder.Builds.canonical (h : EngineBuilder.Builds crc32c sha256 N gateway) :
    GatewayCanonical gateway := by
  rcases h with ⟨instrument, accounts, hnew⟩ | ⟨instrument, snapshot, tail, hrestore⟩
  · exact canonical_of_new hnew
  · exact canonical_of_restore hrestore

end Built

/-! ### A call without interruption -/

section Calls

variable {engine engine' : Engine A R L O N B Q} {payload : List U8}

/-- The rest of a call, when nobody else moves; a call has at most three
accesses after its start. -/
def Engine.finish (crc32c : List U8 → U32) : Nat → CallProgress A R L O N B Q →
    Option (Except EngineError Unit × Engine A R L O N B Q)
  | _, .returned result engine => some (result, engine)
  | 0, .continues _ _ => none
  | accesses + 1, .continues stage engine => (engine.proceed crc32c stage).bind (finish crc32c accesses)

/-- Taken without interruption, the accesses of a call are the call. -/
theorem Engine.applyJournaled_eq (engine : Engine A R L O N B Q) (command : Command) (payload : List U8) :
    engine.applyJournaled crc32c command payload = Engine.finish crc32c 3 (engine.begin command payload) := by
  unfold Engine.applyJournaled Engine.begin
  split
  · rfl
  split
  · rfl
  cases hjournal : engine.journal with
  | none => rfl
  | some writer =>
      simp only
      split
      · rfl
      split
      · rfl
      -- both sides look at the same three answers, so each is split where it occurs in both
      simp only [Engine.finish, Engine.proceed]
      cases engine.events.preflight command.sequence with
      | error error =>
          cases error with
          | gateway error => cases error <;> rfl
          | backpressured | eventCapacityInvariant | publicationInvariant => rfl
      | ok _ =>
          simp only [Option.bind_some, Engine.finish, Engine.proceed, hjournal, Engine.applyAdmitted]
          cases writer.enqueue crc32c engine.channel payload with
          | mk result rest =>
              cases result with
              | error error => rfl
              | ok sequence =>
                  simp only [Option.bind_some, Engine.finish, Engine.proceed]
                  cases engine.events.applyAdmittedCommand command with
                  | none => rfl
                  | some step =>
                      obtain ⟨applied, events⟩ := step
                      cases applied <;> rfl

end Calls

/-! ### What a run has done -/

namespace EngineEvent

/-- The command a call applied. -/
def applied : EngineEvent B → Option Command
  | .returned (some command) (.ok ()) => some command
  | _ => none

/-- The record the worker took from the journal queue. -/
def taken : EngineEvent B → Option JournalRecord
  | .record record _ => record
  | _ => none

/-- The batch the consumer took from the event queue. -/
def consumed : EngineEvent B → Option (EventBatch B)
  | .event batch => batch
  | _ => none

end EngineEvent

/-- The commands applied in a run, in order. -/
def appliedIn (events : List (EngineEvent B)) : List Command := events.filterMap EngineEvent.applied

/-- The records the worker took in a run. -/
def takenIn (events : List (EngineEvent B)) : List JournalRecord := events.filterMap EngineEvent.taken

/-- The records enqueued in a run that led to this system: those taken and
those still queued. -/
def recordsIn (events : List (EngineEvent B)) (system : EngineSystem A R L O N B Q) : List JournalRecord :=
  takenIn events ++ system.engine.channel.queue.items

/-- The batches published in a run that led to this system. -/
def batchesIn (events : List (EngineEvent B)) (system : EngineSystem A R L O N B Q) : List (EventBatch B) :=
  events.filterMap EngineEvent.consumed ++ system.engine.events.queue.items

/-- The command whose record is enqueued and that is not yet applied. -/
def EngineStage.unapplied : EngineStage → List Command
  | .applying command => [command]
  | _ => []

@[simp] theorem unapplied_idle : EngineStage.idle.unapplied = [] := rfl

@[simp] theorem unapplied_enqueuing (payload : List U8) :
    (EngineStage.enqueuing command payload).unapplied = [] := rfl

@[simp] theorem unapplied_applying : (EngineStage.applying command).unapplied = [command] := rfl

/-- The applied commands of a history add up. -/
theorem appliedIn_append (events more : List (EngineEvent B)) :
    appliedIn (events ++ more) = appliedIn events ++ appliedIn more :=
  List.filterMap_append

/-- An event that applies nothing adds nothing to them. -/
theorem appliedIn_quiet (h : event.applied = none) : appliedIn (events ++ [event]) = appliedIn events := by
  rw [appliedIn_append, appliedIn, appliedIn, List.filterMap_cons_none h, List.filterMap_nil, List.append_nil]

/-- An event adds the command it took in, if it did. -/
theorem takenIn_singleton (events : List (EngineEvent B)) (event : EngineEvent B) :
    takenIn (events ++ [event]) = takenIn events ++ event.taken.toList := by
  rw [takenIn, List.filterMap_append]
  cases htaken : event.taken with
  | none => simp [takenIn, htaken]
  | some record => simp [takenIn, htaken]

theorem takenIn_quiet (h : event.taken = none) : takenIn (events ++ [event]) = takenIn events := by
  rw [takenIn_singleton, h, Option.toList_none, List.append_nil]

/-- A step that takes no record and leaves the queue alone. -/
theorem recordsIn_quiet (h : event.taken = none)
    (hqueue : system'.engine.channel.queue = system.engine.channel.queue) :
    recordsIn (events ++ [event]) system' = recordsIn events system := by
  rw [recordsIn, recordsIn, takenIn_quiet h, hqueue]

/-- Every applied command takes one sequence number. -/
theorem Applied.expected {gateway gateway' : Gateway A R L O} {commands : List Command}
    (h : Applied N gateway commands gateway') (hsound : GatewaySound gateway) :
    gateway'.expectedSequence.val = gateway.expectedSequence.val + commands.length := by
  induction h with
  | nil => rfl
  | cons hadmitted hcall _ ih =>
      have hnext := (admitted_call hsound hadmitted hcall).2
      rw [ih (call_sound hsound hcall), hnext, List.length_cons]
      omega

/-- Applying an admitted command is a call of the gateway. -/
theorem BoundedEventEngine.call_of_applyAdmittedCommand {events events' : BoundedEventEngine A R L O N B Q}
    {result : Except EventEngineError Unit} (h : events.applyAdmittedCommand command = some (result, events')) :
    ∃ answer, events.gateway.call (commandCall N command) = some (answer, events'.gateway) := by
  unfold applyAdmittedCommand at h
  cases hprocess : events.gateway.processCommand command (ReportBuffer.empty : ReportBuffer N) with
  | none =>
      rw [hprocess] at h
      cases h
  | some answer =>
      obtain ⟨outcome, gateway, reports⟩ := answer
      rw [hprocess] at h
      refine ⟨⟨outcome, reports.entries⟩, ?_⟩
      rw [commandCall, Gateway.call, hprocess, Option.map_some]
      have hgateway : events'.gateway = gateway := by
        dsimp only [publishResult] at h
        split at h
        · cases h
        · cases h
          rfl
        · split at h
          · cases h
            rfl
          · cases h
            rfl
      rw [hgateway]
      rfl

/-! ### The invariant -/

/-- The writer stands behind the enqueued records for as long as admission
is open; a failed engine has none. -/
def AdmissionInv (first : U64) (records : List JournalRecord) (engine : Engine A R L O N B Q) : Prop :=
  match engine.journal with
  | some writer =>
      engine.channel.status.producerClosed = false ∧ engine.failed = false ∧
        writer.nextSequence.val = first.val + records.length
  | none => engine.channel.status.producerClosed = true

/-- What the accesses of a call have established. -/
def CallInv (engine : Engine A R L O N B Q) : EngineStage → Prop
  | .idle => True
  | .admitting command payload => engine.journal.isSome = true ∧ payload = encodeCommand command
  | .enqueuing command payload =>
      engine.journal.isSome = true ∧ payload = encodeCommand command ∧
        engine.events.preflight command.sequence = .ok ()
  | .applying command => engine.journal.isSome = true ∧ engine.events.preflight command.sequence = .ok ()

/-- What holds between two steps of an engine with its worker: the gateway has
applied what was enqueued, save the command under way. -/
structure EngineInv (crc32c : List U8 → U32) (size : Nat) (origin : Gateway A R L O) (events : List (EngineEvent B))
    (system : EngineSystem A R L O N B Q) : Prop where
  history : Applied N origin (appliedIn events) system.engine.events.gateway
  journaled : (appliedIn events ++ system.stage.unapplied).map (recordOf crc32c) = (recordsIn events system).map .ok
  worker : WorkerInv crc32c size origin.expectedSequence (recordsIn events system) (takenIn events) system.worker
    system.engine.channel.status system.sink
  producer : AdmissionInv origin.expectedSequence (recordsIn events system) system.engine
  call : CallInv system.engine system.stage
  reading : ReadingInv system.engine.expectedSequence system.engine.channel.status system.reading
  alone : system.reading = .idle ∨ system.stage = .idle

/-- The invariant holds of an engine that could be started. -/
theorem engineInv_start (crc32c : List U8 → U32) (size : Nat) {policy : FlushPolicy}
    (h : EngineSystem.start origin policy = .ok system) :
    N + 2 ≤ 2 ^ 16 ∧ N + 2 ≤ B ∧ EngineInv crc32c size origin [] system := by
  unfold EngineSystem.start Engine.build at h
  cases hnew : (BoundedEventEngine.tryNew origin BoundedQueue.empty :
      Except EventEngineConfigError (BoundedEventEngine A R L O N B Q)) with
  | error error =>
      simp only [hnew, JournalChannel.split] at h
      cases h
  | ok eventEngine =>
      obtain ⟨hN, hB, rfl⟩ := BoundedEventEngine.tryNew_eq_ok hnew
      simp only [hnew, JournalChannel.split] at h
      cases h
      exact ⟨hN, hB, .nil origin, rfl, workerInv_unbuilt crc32c size _ policy, ⟨rfl, rfl, rfl⟩, trivial, trivial,
        .inl rfl⟩

namespace EngineInv

/-! ### Steps -/

/-- A step that applies and enqueues nothing. -/
theorem kept (h : EngineInv crc32c size origin events system) (happlied : event.applied = none)
    (hgateway : system'.engine.events.gateway = system.engine.events.gateway)
    (hunapplied : system'.stage.unapplied = system.stage.unapplied)
    (hrecords : recordsIn (events ++ [event]) system' = recordsIn events system)
    (hworker : WorkerInv crc32c size origin.expectedSequence (recordsIn events system) (takenIn (events ++ [event]))
      system'.worker system'.engine.channel.status system'.sink)
    (hproducer : AdmissionInv origin.expectedSequence (recordsIn events system) system'.engine)
    (hcall : CallInv system'.engine system'.stage)
    (hreading : ReadingInv system.engine.expectedSequence system'.engine.channel.status system'.reading)
    (halone : system'.reading = .idle ∨ system'.stage = .idle) :
    EngineInv crc32c size origin (events ++ [event]) system' := by
  refine ⟨?_, ?_, hrecords ▸ hworker, hrecords ▸ hproducer, hcall, ?_, halone⟩
  · rw [appliedIn_quiet happlied, hgateway]
    exact h.history
  · rw [appliedIn_quiet happlied, hunapplied, hrecords]
    exact h.journaled
  · rw [Engine.expectedSequence, hgateway]
    exact hreading

/-- A step of the engine that leaves the engine as it is. -/
theorem waits (h : EngineInv crc32c size origin events system) {stage : EngineStage} (hidle : system.reading = .idle)
    (happlied : event.applied = none) (htaken : event.taken = none)
    (hunapplied : stage.unapplied = system.stage.unapplied) (hcall : CallInv system.engine stage) :
    EngineInv crc32c size origin (events ++ [event]) { system with stage := stage } :=
  h.kept happlied rfl hunapplied (recordsIn_quiet htaken rfl) (by
      rw [takenIn_quiet htaken]
      exact h.worker) h.producer hcall
    h.reading (.inl hidle)

/-- Closing admission, with the failure flag raised or not. -/
theorem stops (h : EngineInv crc32c size origin events system) (failed : Bool) (hidle : system.reading = .idle)
    (happlied : event.applied = none) (htaken : event.taken = none) (hunapplied : system.stage.unapplied = []) :
    EngineInv crc32c size origin (events ++ [event])
      { system with engine := { system.engine with failed := failed }.stopAdmission, stage := .idle } := by
  have hproducer := h.producer
  unfold Engine.stopAdmission
  cases hjournal : system.engine.journal with
  | none =>
      refine h.kept happlied rfl hunapplied.symm (recordsIn_quiet htaken rfl) (by
      rw [takenIn_quiet htaken]
      exact h.worker) ?_
        trivial h.reading (.inl hidle)
      simpa only [AdmissionInv, hjournal] using hproducer
  | some writer =>
      refine h.kept happlied rfl hunapplied.symm (recordsIn_quiet htaken rfl) (by
        rw [takenIn_quiet htaken]
        exact h.worker.close)
        rfl trivial ?_ (.inl hidle)
      simp only [hidle]
      trivial

/-- The start of a call. -/
theorem begins (h : EngineInv crc32c size origin events system) (hfree : system.free = true)
    (hstep : system.progressed (some command) (system.engine.begin command (encodeCommand command)) =
      (event, system')) :
    EngineInv crc32c size origin (events ++ [event]) system' := by
  simp only [EngineSystem.free, Bool.and_eq_true, decide_eq_true_eq] at hfree
  obtain ⟨hstage, hidle⟩ := hfree
  have hunapplied : system.stage.unapplied = [] := by rw [hstage]; rfl
  unfold Engine.begin at hstep
  split at hstep
  · cases hstep
    exact h.waits hidle rfl rfl hunapplied.symm trivial
  split at hstep
  · cases hstep
    exact h.stops true hidle rfl rfl hunapplied
  split at hstep
  · cases hstep
    exact h.waits hidle rfl rfl hunapplied.symm trivial
  · rename_i hjournal
    split at hstep
    · cases hstep
      exact h.waits hidle rfl rfl hunapplied.symm trivial
    split at hstep
    · cases hstep
      exact h.stops true hidle rfl rfl hunapplied
    · cases hstep
      exact h.waits hidle rfl rfl hunapplied.symm ⟨by rw [hjournal]; rfl, rfl⟩

/-- The capacity check. -/
theorem admits (h : EngineInv crc32c size origin events system) {payload : List U8}
    (hstage : system.stage = .admitting command payload)
    (hstep : (system.engine.proceed crc32c (.admitting command payload)).map (system.progressed (some command)) =
      some (event, system')) :
    EngineInv crc32c size origin (events ++ [event]) system' := by
  have hidle : system.reading = .idle := h.alone.resolve_right (by rw [hstage]; simp)
  have hunapplied : system.stage.unapplied = [] := by rw [hstage]; rfl
  have hcall := h.call
  rw [hstage] at hcall
  obtain ⟨progress, hproceed, hprogressed⟩ := Option.map_eq_some_iff.mp hstep
  unfold Engine.proceed at hproceed
  dsimp only at hproceed
  split at hproceed
  · cases hproceed
    cases hprogressed
    exact h.stops true hidle rfl rfl hunapplied
  · cases hproceed
    cases hprogressed
    exact h.waits hidle rfl rfl hunapplied.symm trivial
  · rename_i hpreflight
    cases hproceed
    cases hprogressed
    exact h.waits hidle rfl rfl hunapplied.symm ⟨hcall.1, hcall.2, hpreflight⟩

/-- The gateway expects one sequence per applied command. -/
theorem expected (h : EngineInv crc32c size origin events system) (horigin : GatewaySound origin) :
    system.engine.expectedSequence.val = origin.expectedSequence.val + (appliedIn events).length :=
  h.history.expected horigin

/-- Every record but that of the command under way has been applied. -/
theorem length_records (h : EngineInv crc32c size origin events system) :
    (recordsIn events system).length = (appliedIn events).length + system.stage.unapplied.length := by
  have hlength := congrArg List.length h.journaled
  rw [List.length_map, List.length_map, List.length_append] at hlength
  exact hlength.symm

/-- What enqueueing an admitted command does: its record enters the queue, or
the queue is full. -/
theorem enqueue_cases (h : EngineInv crc32c size origin events system) (horigin : GatewaySound origin)
    {payload : List U8} (hstage : system.stage = .enqueuing command payload) :
    ∃ writer record, system.engine.journal = some writer ∧ recordOf crc32c command = .ok record ∧
      writer.nextSequence = command.sequence ∧ writer.nextSequence.val + 1 < 2 ^ 64 ∧
      (system.engine.channel.queue.hasCapacity = false ∧
          writer.enqueue crc32c system.engine.channel payload = (.error .saturated, writer, system.engine.channel) ∨
        ∃ queue next, system.engine.channel.queue.tryPush record = some queue ∧
          next.val = writer.nextSequence.val + 1 ∧
          writer.enqueue crc32c system.engine.channel payload =
            (.ok writer.nextSequence, ⟨next⟩, { system.engine.channel with queue := queue })) := by
  have hcall := h.call
  rw [hstage] at hcall
  obtain ⟨hjournal, rfl, hpreflight⟩ := hcall
  obtain ⟨writer, hwriter⟩ := Option.isSome_iff_exists.mp hjournal
  have hproducer := h.producer
  simp only [AdmissionInv, hwriter] at hproducer
  obtain ⟨_, _, hnumbered⟩ := hproducer
  obtain ⟨hsequence, hbound, _⟩ := BoundedEventEngine.preflight_eq_ok hpreflight
  have hexpected := h.expected horigin
  have hlength := h.length_records
  rw [hstage, unapplied_enqueuing, List.length_nil, Nat.add_zero] at hlength
  have hsame : writer.nextSequence = command.sequence := by
    refine Fin.ext ?_
    rw [hsequence]
    exact hnumbered.trans (by rw [hlength]; exact hexpected.symm)
  have hroom : writer.nextSequence.val + 1 < 2 ^ 64 := by
    rw [hsame, hsequence]
    exact hbound
  obtain ⟨record, hrecord⟩ := exists_recordOf crc32c command
  have hnext : checkedAdd writer.nextSequence 1 = some ⟨writer.nextSequence.val + 1, hroom⟩ :=
    checkedAdd_eq_some.mpr rfl
  have hnew : JournalRecord.new crc32c writer.nextSequence (encodeCommand command) = .ok record := by
    rw [hsame]
    exact hrecord
  refine ⟨writer, record, hwriter, hrecord, hsame, hroom, ?_⟩
  unfold JournalWriter.enqueue
  rw [hnext, hnew]
  cases hpush : system.engine.channel.queue.tryPush record with
  | none => exact .inl ⟨BoundedQueue.tryPush_eq_none.mp hpush, by simp only [hpush]⟩
  | some queue => exact .inr ⟨queue, ⟨writer.nextSequence.val + 1, hroom⟩, rfl, rfl, by simp only [hpush]⟩

/-- The push to the journal queue. -/
theorem enqueues (h : EngineInv crc32c size origin events system) (horigin : GatewaySound origin) {payload : List U8}
    (hstage : system.stage = .enqueuing command payload)
    (hstep : (system.engine.proceed crc32c (.enqueuing command payload)).map (system.progressed (some command)) =
      some (event, system')) :
    EngineInv crc32c size origin (events ++ [event]) system' := by
  have hidle : system.reading = .idle := h.alone.resolve_right (by rw [hstage]; simp)
  have hunapplied : system.stage.unapplied = [] := by rw [hstage]; rfl
  have hcall := h.call
  rw [hstage] at hcall
  obtain ⟨progress, hproceed, hprogressed⟩ := Option.map_eq_some_iff.mp hstep
  obtain ⟨writer, record, hwriter, hrecord, hsame, hroom, hcases⟩ := h.enqueue_cases horigin hstage
  have hproducer := h.producer
  simp only [AdmissionInv, hwriter] at hproducer
  obtain ⟨hopen, hsane, hnumbered⟩ := hproducer
  unfold Engine.proceed at hproceed
  simp only [hwriter] at hproceed
  rcases hcases with ⟨_, henqueue⟩ | ⟨queue, next, hpush, hnext, henqueue⟩
  · -- a full queue leaves everything as it was
    rw [henqueue] at hproceed
    cases hproceed
    cases hprogressed
    have hself : { system.engine with journal := some writer, channel := system.engine.channel } = system.engine := by
      rw [← hwriter]
    simp only [hself]
    exact h.waits hidle rfl rfl hunapplied.symm trivial
  · rw [henqueue] at hproceed
    cases hproceed
    cases hprogressed
    have hitems := (BoundedQueue.tryPush_eq_some.mp hpush).2
    have htaken : takenIn (events ++ [.quiet]) = takenIn events := takenIn_quiet rfl
    have hrecords : ∀ engine : Engine A R L O N B Q, engine.channel.queue = queue →
        recordsIn (events ++ [.quiet]) { system with engine := engine, stage := .applying command }
          = recordsIn events system ++ [record] := by
      intro engine hqueue
      rw [recordsIn, recordsIn, htaken, hqueue, hitems, List.append_assoc]
    obtain ⟨hsequence, _, hverify⟩ := JournalRecord.of_new hrecord
    have hlength := h.length_records
    refine ⟨?_, ?_, ?_, ?_, ⟨rfl, hcall.2.2⟩, ?_, .inl hidle⟩
    · rw [appliedIn_quiet rfl]
      exact h.history
    · have hjournaled := h.journaled
      rw [hunapplied, List.append_nil] at hjournaled
      rw [hrecords _ rfl, appliedIn_quiet rfl, unapplied_applying, List.map_append, List.map_append, hjournaled,
        List.map_singleton, List.map_singleton, hrecord]
    · rw [hrecords _ rfl, htaken]
      exact h.worker.enqueue hopen (by rw [hsequence, ← hsame, hnumbered]) hverify (by omega)
    · rw [hrecords _ rfl, AdmissionInv]
      refine ⟨hopen, hsane, ?_⟩
      rw [List.length_append, List.length_singleton]
      simp only
      omega
    · simp only [hidle]
      trivial

/-- The application of a journaled command: it succeeds, the gateway answers
and one batch is published. -/
theorem apply_cases (h : EngineInv crc32c size origin events system) (horigin : GatewaySound origin)
    (hN : N + 2 ≤ 2 ^ 16) (hB : N + 2 ≤ B) (hstage : system.stage = .applying command)
    {result : Except EventEngineError Unit} {applied : BoundedEventEngine A R L O N B Q}
    (happly : system.engine.events.applyAdmittedCommand command = some (result, applied)) :
    result = .ok () ∧ system.engine.events.gateway.checkSequence command.sequence = .ok () ∧
      (∃ answer, system.engine.events.gateway.call (commandCall N command) = some (answer, applied.gateway)) ∧
      ∃ batch, applied.queue.items = system.engine.events.queue.items ++ [batch] := by
  have hcall := h.call
  rw [hstage] at hcall
  obtain ⟨_, hpreflight⟩ := hcall
  obtain ⟨hsequence, hbound, _⟩ := BoundedEventEngine.preflight_eq_ok hpreflight
  obtain ⟨logical, rep, sound⟩ := h.history.sound horigin
  obtain ⟨rfl, _, _, batch, hpublished⟩ :=
    BoundedEventEngine.applyAdmittedCommand_published hN hB rep sound hpreflight happly
  exact ⟨rfl, checkSequence_ok_iff.mpr ⟨hsequence, hbound⟩,
    BoundedEventEngine.call_of_applyAdmittedCommand happly, batch, hpublished.queued⟩

/-- The application of a journaled command. -/
theorem applies (h : EngineInv crc32c size origin events system) (horigin : GatewaySound origin)
    (hN : N + 2 ≤ 2 ^ 16) (hB : N + 2 ≤ B) (hstage : system.stage = .applying command)
    (hstep : (system.engine.proceed crc32c (.applying command)).map (system.progressed (some command)) =
      some (event, system')) :
    EngineInv crc32c size origin (events ++ [event]) system' := by
  have hidle : system.reading = .idle := h.alone.resolve_right (by rw [hstage]; simp)
  obtain ⟨progress, hproceed, hprogressed⟩ := Option.map_eq_some_iff.mp hstep
  unfold Engine.proceed at hproceed
  dsimp only at hproceed
  cases happly : system.engine.events.applyAdmittedCommand command with
  | none =>
      rw [happly] at hproceed
      cases hproceed
  | some outcome =>
      obtain ⟨result, applied⟩ := outcome
      obtain ⟨rfl, hadmitted, ⟨answer, hcall⟩, _⟩ := h.apply_cases horigin hN hB hstage happly
      rw [happly] at hproceed
      cases hproceed
      cases hprogressed
      have happlied : appliedIn (events ++ [.returned (some command) (.ok ())]) = appliedIn events ++ [command] :=
        appliedIn_append _ _
      have hrecords : recordsIn (events ++ [.returned (some command) (.ok ())])
          { system with engine := { system.engine with events := applied }, stage := .idle }
            = recordsIn events system := recordsIn_quiet rfl rfl
      refine ⟨?_, ?_, ?_, ?_, trivial, ?_, .inl hidle⟩
      · rw [happlied]
        exact applied_append.mpr ⟨_, h.history, .cons hadmitted hcall (.nil _)⟩
      · have hjournaled := h.journaled
        rw [hstage, unapplied_applying] at hjournaled
        rw [happlied, unapplied_idle, List.append_nil, hrecords]
        exact hjournaled
      · rw [hrecords, takenIn_quiet rfl]
        exact h.worker
      · rw [hrecords]
        exact h.producer
      · simp only [hidle]
        trivial

/-- Pops keep admission granted. -/
theorem callInv_kept {engine engine' : Engine A R L O N B Q} {stage : EngineStage} (h : CallInv engine stage)
    (hjournal : engine'.journal = engine.journal)
    (hpreflight : ∀ sequence, engine.events.preflight sequence = .ok () → engine'.events.preflight sequence = .ok ()) :
    CallInv engine' stage := by
  cases stage with
  | idle => trivial
  | admitting command payload => exact ⟨hjournal ▸ h.1, h.2⟩
  | enqueuing command payload => exact ⟨hjournal ▸ h.1, h.2.1, hpreflight _ h.2.2⟩
  | applying command => exact ⟨hjournal ▸ h.1, hpreflight _ h.2⟩

/-- A step of the worker, on a queue that it may just have popped. -/
theorem advanced (h : EngineInv crc32c size origin events system) (queue : BoundedQueue JournalRecord ringCapacity)
    (input : WorkerInput) {outcome : WorkerEvent}
    (happlied : event.applied = none) (htaken : event.taken.toList = input.takes)
    (hqueue : system.engine.channel.queue.items = input.takes ++ queue.items)
    (hanswers : input.Answers (recordsIn events system) (takenIn events))
    (hstep : (system.setChannel { system.engine.channel with queue := queue }).advance crc32c size input =
      some (outcome, system')) :
    EngineInv crc32c size origin (events ++ [event]) system' := by
  obtain ⟨⟨outcome', worker, status, sink⟩, hadvance, heq⟩ := Option.map_eq_some_iff.mp hstep
  cases heq
  have hadvance' : system.worker.advance crc32c size system.engine.channel.status system.sink input =
      some (outcome, worker, status, sink) := hadvance
  obtain ⟨hforward, hclosed⟩ := h.worker.forward hadvance'
  have hproducer := h.producer
  refine h.kept happlied rfl rfl ?_ ?_ ?_ (callInv_kept h.call rfl fun _ hok => hok) (h.reading.forward hforward)
    h.alone
  · rw [recordsIn, recordsIn, takenIn_singleton, htaken, hqueue, List.append_assoc]
    rfl
  · rw [takenIn_singleton, htaken]
    exact h.worker.advance hanswers hadvance'
  · unfold AdmissionInv at hproducer ⊢
    simp only [EngineSystem.setChannel, hclosed]
    exact hproducer

/-- A pop of the journal queue by the worker. -/
theorem popsRecord (h : EngineInv crc32c size origin events system)
    (hstep : system.step crc32c sha256 size .popRecord = some (event, system')) :
    EngineInv crc32c size origin (events ++ [event]) system' := by
  simp only [EngineSystem.step] at hstep
  split at hstep
  · split at hstep
    · rename_i hempty
      obtain ⟨⟨outcome, last⟩, hadvance, heq⟩ := Option.map_eq_some_iff.mp hstep
      cases heq
      have hitems := BoundedQueue.tryPop_eq_none.mp hempty
      have hall : takenIn events = recordsIn events system := by
        rw [recordsIn, hitems, List.append_nil]
      exact h.advanced system.engine.channel.queue .empty rfl rfl rfl hall hadvance
    · rename_i record queue hpop
      obtain ⟨⟨outcome, last⟩, hadvance, heq⟩ := Option.map_eq_some_iff.mp hstep
      cases heq
      have hitems := BoundedQueue.tryPop_eq_some.mp hpop
      refine h.advanced queue (.popped record) rfl rfl hitems ?_ hadvance
      rw [WorkerInput.Answers, recordsIn, hitems]
      exact ⟨queue.items, by simp⟩
  · cases hstep

/-- Popping a batch frees room in the event queue. -/
theorem preflight_popped {eventEngine : BoundedEventEngine A R L O N B Q} {batch : EventBatch B}
    {queue : BoundedQueue (EventBatch B) Q} (hpop : eventEngine.queue.tryPop = some (batch, queue))
    {sequence : SequenceNumber} (h : eventEngine.preflight sequence = .ok ()) :
    ({ eventEngine with queue := queue } : BoundedEventEngine A R L O N B Q).preflight sequence = .ok () := by
  unfold BoundedEventEngine.preflight at h ⊢
  simp only
  cases hsequence : eventEngine.gateway.checkSequence sequence with
  | error error =>
      rw [hsequence] at h
      cases h
  | ok =>
      rw [hsequence] at h
      dsimp only at h ⊢
      have hitems := BoundedQueue.tryPop_eq_some.mp hpop
      have hbounded := eventEngine.queue.bounded
      rw [hitems, List.length_cons] at hbounded
      have hroom : queue.hasCapacity = true := BoundedQueue.hasCapacity_iff.mpr (by omega)
      rw [if_pos hroom]

/-- Completion shows the engine's sequence. -/
theorem final (h : EngineInv crc32c size origin events system) (horigin : GatewaySound origin)
    (hstage : system.stage = .idle) (hcomplete : system.engine.channel.status.shutdownComplete = true) :
    system.engine.channel.status.producerClosed = true ∧ system.engine.channel.status.poisoned = false ∧
      system.engine.channel.status.nextWrittenSequence = system.engine.expectedSequence ∧
      system.engine.channel.status.nextDurableSequence = system.engine.expectedSequence := by
  have stored := h.worker.stored
  have completed := stored.completed (stored.completion ▸ hcomplete)
  have hreader := stored.expected
  have hexpected := h.expected horigin
  have hlength := h.length_records
  rw [completed.all, hlength, hstage, unapplied_idle, List.length_nil, Nat.add_zero] at hreader
  have hsame : system.worker.reader.expectedSequence = system.engine.expectedSequence := Fin.ext (by omega)
  exact ⟨completed.closed, completed.sane, completed.written.trans hsame, completed.durable.trans hsame⟩

/-- A step of any party keeps the invariant. -/
theorem step (h : EngineInv crc32c size origin events system) (horigin : GatewaySound origin)
    (hN : N + 2 ≤ 2 ^ 16) (hB : N + 2 ≤ B) {action : EngineAction}
    (hstep : system.step crc32c sha256 size action = some (event, system')) :
    EngineInv crc32c size origin (events ++ [event]) system' := by
  cases action with
  | command command =>
      simp only [EngineSystem.step] at hstep
      split at hstep
      · rename_i hfree
        exact h.begins hfree (Option.some.inj hstep)
      · cases hstep
  | frame bytes =>
      simp only [EngineSystem.step] at hstep
      split at hstep
      · rename_i hfree
        split at hstep
        · cases hstep
          simp only [EngineSystem.free, Bool.and_eq_true, decide_eq_true_eq] at hfree
          exact h.waits hfree.2 rfl rfl rfl h.call
        · rename_i message hparse
          rw [← encodeCommand_toCommand hparse] at hstep
          exact h.begins hfree (Option.some.inj hstep)
      · cases hstep
  | engine =>
      simp only [EngineSystem.step] at hstep
      split at hstep
      · cases hstep
      · rename_i hstage
        exact h.admits hstage hstep
      · rename_i hstage
        exact h.enqueues horigin hstage hstep
      · rename_i hstage
        exact h.applies horigin hN hB hstage hstep
  | stopAdmission =>
      simp only [EngineSystem.step] at hstep
      split at hstep
      · rename_i hfree
        cases hstep
        simp only [EngineSystem.free, Bool.and_eq_true, decide_eq_true_eq] at hfree
        have hstopped : EngineInv crc32c size origin (events ++ [.stopped])
            { system with engine := system.engine.stopAdmission, stage := .idle } :=
          h.stops system.engine.failed hfree.2 rfl rfl (by rw [hfree.1]; rfl)
        rwa [← hfree.1] at hstopped
      · cases hstep
  | load =>
      simp only [EngineSystem.step] at hstep
      split at hstep
      · rename_i hstage
        have stored := h.worker.stored
        obtain ⟨hreading, _⟩ := h.reading.load stored.durable_le (h.final horigin hstage)
        split at hstep <;> cases hstep
        · exact h.kept rfl rfl rfl (recordsIn_quiet rfl rfl) (by rw [takenIn_quiet rfl]; exact h.worker) h.producer
            h.call hreading (.inr hstage)
        · exact h.kept rfl rfl rfl (recordsIn_quiet rfl rfl) (by rw [takenIn_quiet rfl]; exact h.worker) h.producer
            h.call hreading (.inr hstage)
      · cases hstep
  | popEvent =>
      simp only [EngineSystem.step] at hstep
      split at hstep
      · cases hstep
        exact h.kept rfl rfl rfl (recordsIn_quiet rfl rfl) (by rw [takenIn_quiet rfl]; exact h.worker) h.producer
          h.call h.reading h.alone
      · rename_i batch queue hpop
        cases hstep
        exact h.kept rfl rfl rfl (recordsIn_quiet rfl rfl) (by rw [takenIn_quiet rfl]; exact h.worker) h.producer
          (callInv_kept h.call rfl fun _ hok => preflight_popped hpop hok) h.reading h.alone
  | popRecord => exact h.popsRecord hstep
  | worker input =>
      simp only [EngineSystem.step] at hstep
      split at hstep
      · cases hstep
      · cases hstep
      · rename_i hpopped hempty
        obtain ⟨⟨outcome, last⟩, hadvance, heq⟩ := Option.map_eq_some_iff.mp hstep
        cases heq
        have hquiet : input.takes = [] ∧ input.Answers (recordsIn events system) (takenIn events) := by
          cases input with
          | popped record => exact absurd rfl (hpopped record)
          | empty => exact absurd rfl hempty
          | _ => exact ⟨rfl, trivial⟩
        exact h.advanced system.engine.channel.queue input rfl hquiet.1.symm (by rw [hquiet.1]; rfl) hquiet.2 hadvance

end EngineInv

/-- The invariant holds in every system a run leads to. -/
theorem engineInv_of_run (hcanonical : GatewayCanonical origin) {policy : FlushPolicy}
    (hstart : EngineSystem.start origin policy = .ok system) {actions : List EngineAction}
    (hrun : run (EngineSystem.step crc32c sha256 size) system actions = some (events, system')) :
    EngineInv crc32c size origin events system' := by
  obtain ⟨logical, rep, canonical⟩ := hcanonical
  obtain ⟨hN, hB, hinit⟩ := engineInv_start crc32c size hstart
  have h := run_outputs (EngineInv crc32c size origin)
    (fun hinv hstep => hinv.step ⟨logical, rep, canonical.sound⟩ hN hB hstep) [] hinit hrun
  rwa [List.nil_append] at h

/-! ### A small engine -/

/-- The engine of one account that may trade 10 at a time between 5 and 20,
with room for one batch. -/
def sampleEngine : EngineSystem 1 1 1 1 1 3 1 where
  engine := ⟨⟨tightGateway, BoundedQueue.empty⟩, some ⟨1⟩, (JournalChannel.split 1).2, false⟩
  stage := .idle
  worker := PersistenceWorker.unbuilt 1 .everyBatch
  sink := ⟨[], []⟩
  reading := .idle

theorem start_sampleEngine :
    (EngineSystem.start tightGateway .everyBatch : Except _ (EngineSystem 1 1 1 1 1 3 1)) = .ok sampleEngine := rfl

/-- The gateway of the sample comes from the builder. -/
theorem builds_tightGateway :
    EngineBuilder.new 1 7 [(1, ⟨10, 1000, 1000, 10, i64 5, i64 20⟩)] = .ok tightGateway := by rfl

end HftEngine
