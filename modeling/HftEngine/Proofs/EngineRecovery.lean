/-
Module: HftEngine.Proofs.EngineRecovery
Layer: Proofs
Purpose: Journal, application and recovery agree. Whatever the order in which
  the engine, its consumer and its persistence worker move, the journal is that
  of the applied commands, every complete prefix of the sink recovers the state
  the engine had at that point, and a checkpoint covers everything that was
  applied.
Imports: HftEngine.Proofs.EngineSystem
Trusted boundary: none (fully proved)
Main exports: journalOf_of_records, exists_applied_prefix, EngineInv.recovers,
  EngineInv.checkpoint, journal_application_recovery_agree
-/
import HftEngine.Proofs.EngineSystem

namespace HftEngine

open Machine Bytes Transition

variable {A R L O N B Q : Nat} {crc32c : List U8 → U32} {sha256 : List U8 → Digest} {size : Nat}
  {initial system middle : EngineSystem A R L O N B Q} {events seen later : List (EngineEvent B)}
  {event : EngineEvent B} {origin : Gateway A R L O} {action : EngineAction}

/-! ### Records and commands -/

/-- The records of some commands make up their journal. -/
theorem journalOf_of_records {commands : List Command} {records : List JournalRecord}
    (h : commands.map (recordOf crc32c) = records.map .ok) :
    journalOf crc32c commands = .ok (journalBytes records) := by
  induction commands generalizing records with
  | nil =>
      cases records with
      | nil => rfl
      | cons record records => cases h
  | cons command commands ih =>
      cases records with
      | nil => cases h
      | cons record records =>
          rw [List.map_cons, List.map_cons, List.cons.injEq] at h
          rw [journalOf, h.1, ih h.2]
          rfl

/-- The record of a command carries its sequence. -/
theorem sequence_of_records {commands : List Command} {records : List JournalRecord}
    (h : commands.map (recordOf crc32c) = records.map .ok) :
    records.map JournalRecord.sequence = commands.map Command.sequence := by
  induction commands generalizing records with
  | nil =>
      cases records with
      | nil => rfl
      | cons record records => cases h
  | cons command commands ih =>
      cases records with
      | nil => cases h
      | cons record records =>
          rw [List.map_cons, List.map_cons, List.cons.injEq] at h
          rw [List.map_cons, List.map_cons, ih h.2, (JournalRecord.of_new h.1).1]

/-- A list has prefixes that keep any number of the elements that it keeps. -/
theorem exists_filterMap_prefix {α β : Type} (f : α → Option β) (values : List α) {count : Nat}
    (h : count ≤ (values.filterMap f).length) :
    ∃ front back, values = front ++ back ∧ (front.filterMap f).length = count := by
  induction values generalizing count with
  | nil => exact ⟨[], [], rfl, (Nat.le_zero.mp h).symm⟩
  | cons value values ih =>
      cases count with
      | zero => exact ⟨[], value :: values, rfl, rfl⟩
      | succ count =>
          cases hvalue : f value with
          | none =>
              rw [List.filterMap_cons_none hvalue] at h
              obtain ⟨front, back, rfl, hfront⟩ := ih h
              exact ⟨value :: front, back, rfl, by rw [List.filterMap_cons_none hvalue, hfront]⟩
          | some kept =>
              rw [List.filterMap_cons_some hvalue, List.length_cons] at h
              obtain ⟨front, back, rfl, hfront⟩ := ih (Nat.le_of_succ_le_succ h)
              exact ⟨value :: front, back, rfl, by rw [List.filterMap_cons_some hvalue, List.length_cons, hfront]⟩

/-- Every number of applied commands was reached at some point of a run. -/
theorem exists_applied_prefix {actions : List EngineAction} {count : Nat}
    (hrun : run (EngineSystem.step crc32c sha256 size) initial actions = some (events, system))
    (h : count ≤ (appliedIn events).length) :
    ∃ first second seen middle, actions = first ++ second ∧
      run (EngineSystem.step crc32c sha256 size) initial first = some (seen, middle) ∧
      (appliedIn seen).length = count := by
  obtain ⟨seen, later, rfl, hseen⟩ := exists_filterMap_prefix EngineEvent.applied events h
  obtain ⟨first, second, middle, hactions, hfirst, _⟩ := run_outputs_append hrun
  exact ⟨first, second, seen, middle, hactions, hfirst, hseen⟩

/-- A checkpoint is granted after closure and completion, and covers all
sequences before the next one. -/
theorem Engine.snapshot_eq_ok {engine : Engine A R L O N B Q} {journal : JournalStatus} {snapshot : Snapshot}
    (h : engine.snapshot sha256 journal = .ok snapshot) :
    engine.journal = none ∧ journal.shutdownComplete = true ∧
      ∃ applied : U64, applied.val + 1 = engine.expectedSequence.val ∧
        encodeSnapshot sha256 engine.events.gateway applied = .ok snapshot := by
  simp only [Engine.snapshot] at h
  split at h
  · cases h
  split at h
  · cases h
  rename_i hclosed
  split at h
  · cases h
  rename_i hcompleted
  split at h
  · cases h
  split at h
  · cases h
  rename_i applied hsub
  have hsequence : engine.expectedSequence.val = applied.val + 1 := checkedSub_eq_some.mp hsub
  refine ⟨?_, Bool.not_eq_false _ ▸ hcompleted, applied, hsequence.symm, ?_⟩
  · rwa [Bool.not_eq_true, Option.isSome_eq_false_iff, Option.isNone_iff_eq_none] at hclosed
  · cases hencoded : encodeSnapshot sha256 engine.events.gateway applied with
    | error error =>
        rw [hencoded] at h
        cases h
    | ok encoded =>
        rw [hencoded] at h
        cases h
        rfl

namespace EngineInv

/-! ### The journal in the sink -/

/-- The sink holds the start of the journal of the enqueued records. -/
theorem content_prefix (h : EngineInv crc32c size origin events system) :
    system.sink.content <+: journalBytes (recordsIn events system) := by
  have stored := h.worker.stored
  obtain ⟨rest, hrest⟩ := stored.inOrder
  rw [← hrest, journalBytes_append]
  exact stored.content.trans (List.prefix_append _ _)

/-- The complete records in the sink up to a point of the run are the journal
of what was applied by then. -/
theorem journal_take (h : EngineInv crc32c size origin (seen ++ later) system)
    (hcomplete : (appliedIn seen).length * recordSize ≤ system.sink.content.length) :
    journalOf crc32c (appliedIn seen)
      = .ok (system.sink.content.take ((appliedIn seen).length * recordSize)) := by
  have hjournaled := h.journaled
  rw [appliedIn_append, List.append_assoc, List.map_append] at hjournaled
  have htake := congrArg (List.take (appliedIn seen).length) hjournaled
  rw [List.take_append_of_le_length (by rw [List.length_map]), List.take_of_length_le (by rw [List.length_map]),
    ← List.map_take] at htake
  have hbytes : system.sink.content.take ((appliedIn seen).length * recordSize)
      = journalBytes ((recordsIn (seen ++ later) system).take (appliedIn seen).length) := by
    obtain ⟨rest, hrest⟩ := h.content_prefix
    rw [← take_journalBytes, ← hrest, List.take_append_of_le_length hcomplete]
  rw [hbytes]
  exact journalOf_of_records htake

/-- The first records in the sink recover the state the engine had when their
commands were applied. -/
theorem recovers (h : EngineInv crc32c size origin (seen ++ later) system)
    (h' : EngineInv crc32c size origin seen middle) (hcanonical : GatewayCanonical origin)
    (hcomplete : (appliedIn seen).length * recordSize ≤ system.sink.content.length) {applied : U64}
    {snapshot : Snapshot} (hencoded : encodeSnapshot sha256 origin applied = .ok snapshot)
    {decoded : DecodedSnapshot A R L O} (hdecodes : Checked.Returns (decodeSnapshot sha256 snapshot.bytes) decoded) :
    ∃ recovered : Gateway A R L O,
      Checked.Returns (recoverSnapshotAndTail crc32c sha256 N snapshot.bytes
        (system.sink.content.take ((appliedIn seen).length * recordSize))) recovered ∧
      recovered.exportState = middle.engine.events.gateway.exportState := by
  obtain ⟨recovered, hrecovered, hsame⟩ :=
    recover_of_applied hcanonical h'.history hencoded hdecodes (h.journal_take hcomplete)
  exact ⟨recovered, hrecovered, hsame.exportState_eq.symm⟩

/-! ### Checkpoints -/

/-- What a checkpoint that is granted has found, and what it returns. -/
theorem checkpoint (h : EngineInv crc32c size origin events system) (horigin : GatewaySound origin)
    {snapshot : Snapshot}
    (hstep : system.step crc32c sha256 size action = some (.snapshot (.ok snapshot), middle)) :
    system.stage = .idle ∧ system.sink.content = journalBytes (recordsIn events system) ∧
      system.engine.journal = none ∧ ∃ applied : U64, applied.val + 1 = system.engine.expectedSequence.val ∧
        encodeSnapshot sha256 system.engine.events.gateway applied = .ok snapshot ∧
        middle.sink = system.sink ∧ middle.engine = system.engine := by
  have hload : action = .load := by
    cases action with
    | load => rfl
    | command command =>
        simp only [EngineSystem.step, EngineSystem.progressed] at hstep
        split at hstep
        · split at hstep <;> cases hstep
        · cases hstep
    | frame bytes =>
        simp only [EngineSystem.step, EngineSystem.progressed] at hstep
        split at hstep
        · split at hstep
          · cases hstep
          · split at hstep <;> cases hstep
        · cases hstep
    | engine =>
        simp only [EngineSystem.step] at hstep
        split at hstep
        · cases hstep
        all_goals
          obtain ⟨progress, _, hprogressed⟩ := Option.map_eq_some_iff.mp hstep
          cases progress <;> cases hprogressed
    | stopAdmission =>
        simp only [EngineSystem.step] at hstep
        split at hstep <;> cases hstep
    | popEvent =>
        simp only [EngineSystem.step] at hstep
        split at hstep <;> cases hstep
    | popRecord =>
        simp only [EngineSystem.step] at hstep
        split at hstep
        · split at hstep <;>
            obtain ⟨_, _, heq⟩ := Option.map_eq_some_iff.mp hstep <;> cases heq
        · cases hstep
    | worker input =>
        simp only [EngineSystem.step] at hstep
        split at hstep
        · cases hstep
        · cases hstep
        · obtain ⟨_, _, heq⟩ := Option.map_eq_some_iff.mp hstep
          cases heq
  subst hload
  simp only [EngineSystem.step] at hstep
  split at hstep
  · rename_i hstage
    have stored := h.worker.stored
    obtain ⟨_, hshown⟩ := h.reading.load stored.durable_le (h.final horigin hstage)
    split at hstep
    · cases hstep
    · rename_i journal hjournal
      injection hstep with hstep
      injection hstep with hsnapshot hmiddle
      injection hsnapshot with hsnapshot
      subst hmiddle
      have shown := hshown journal hjournal
      obtain ⟨hclosed, hcompleted, applied, hsequence, hencoded⟩ := Engine.snapshot_eq_ok hsnapshot
      have completed := stored.completed (stored.completion ▸ (shown.complete hcompleted).1)
      refine ⟨hstage, ?_, hclosed, applied, hsequence, hencoded, rfl, rfl⟩
      have hlength := stored.writtenBytes
      rw [completed.written, stored.expected, Nat.add_sub_cancel_left, ← length_journalBytes] at hlength
      rw [← completed.all]
      exact stored.content.eq_of_length_le hlength
  · cases hstep

end EngineInv

/-- In every system that an engine built on a new or recovered gateway can
reach together with its persistence worker and its consumer, with any sink: the
journal holds in order the record of every applied command and, between its
enqueueing and its application, of the one in flight, and the writer stands
behind them; the sink holds nothing else, and for every earlier point of the
run whose applied commands are complete in the sink, the initial snapshot and
that part of the sink recover the state the engine had there; and a checkpoint
that is granted finds the whole journal in the sink and encodes the gateway
that applied it. -/
theorem journal_application_recovery_agree (crc32c : List U8 → U32) (sha256 : List U8 → Digest) (size : Nat)
    {policy : FlushPolicy} {actions : List EngineAction} (hbuilt : EngineBuilder.Builds crc32c sha256 N origin)
    (hstart : EngineSystem.start origin policy = .ok initial)
    (hrun : run (EngineSystem.step crc32c sha256 size) initial actions = some (events, system)) :
    ((appliedIn events ++ system.stage.unapplied).map (recordOf crc32c) = (recordsIn events system).map .ok ∧
      (recordsIn events system).map JournalRecord.sequence
        = (appliedIn events ++ system.stage.unapplied).map Command.sequence ∧
      ∀ writer, system.engine.journal = some writer →
        writer.nextSequence.val = system.engine.expectedSequence.val + system.stage.unapplied.length) ∧
    (system.sink.content <+: journalBytes (recordsIn events system) ∧
      (∀ count ≤ (appliedIn events).length, ∃ first second seen middle, actions = first ++ second ∧
        run (EngineSystem.step crc32c sha256 size) initial first = some (seen, middle) ∧
        (appliedIn seen).length = count) ∧
      ∀ applied snapshot, encodeSnapshot sha256 origin applied = .ok snapshot →
        (∃ decoded : DecodedSnapshot A R L O, Checked.Returns (decodeSnapshot sha256 snapshot.bytes) decoded) →
        ∀ first second seen middle, actions = first ++ second →
          run (EngineSystem.step crc32c sha256 size) initial first = some (seen, middle) →
          (appliedIn seen).length * recordSize ≤ system.sink.content.length →
          ∃ recovered : Gateway A R L O,
            Checked.Returns (recoverSnapshotAndTail crc32c sha256 N snapshot.bytes
              (system.sink.content.take ((appliedIn seen).length * recordSize))) recovered ∧
            recovered.exportState = middle.engine.events.gateway.exportState) ∧
    (∀ front snapshot back, events = front ++ .snapshot (.ok snapshot) :: back →
      ∃ first second middle, actions = first ++ second ∧
        run (EngineSystem.step crc32c sha256 size) initial first = some (front, middle) ∧
        middle.sink.content = journalBytes (recordsIn front middle) ∧
        (appliedIn front).map (recordOf crc32c) = (recordsIn front middle).map .ok ∧
        ∃ applied : U64, applied.val + 1 = middle.engine.expectedSequence.val ∧
          encodeSnapshot sha256 middle.engine.events.gateway applied = .ok snapshot ∧
          ∀ decoded : DecodedSnapshot A R L O, Checked.Returns (decodeSnapshot sha256 snapshot.bytes) decoded →
            decoded.gateway.exportState = middle.engine.events.gateway.exportState) := by
  have hcanonical := hbuilt.canonical
  obtain ⟨logical, rep, canonical⟩ := hcanonical
  have horigin : GatewaySound origin := ⟨logical, rep, canonical.sound⟩
  have inv := engineInv_of_run hbuilt.canonical hstart hrun
  refine ⟨⟨inv.journaled, sequence_of_records inv.journaled, fun writer hwriter => ?_⟩,
    ⟨inv.content_prefix, fun count hcount => exists_applied_prefix hrun hcount, ?_⟩, ?_⟩
  · have hproducer := inv.producer
    simp only [AdmissionInv, hwriter] at hproducer
    rw [hproducer.2.2, inv.length_records, inv.expected horigin]
    omega
  · rintro applied snapshot hencoded ⟨decoded, hdecodes⟩ first second seen middle rfl hfirst hcomplete
    obtain ⟨seen', later, middle', hfirst', _, rfl⟩ := run_append.mp hrun
    cases hfirst.symm.trans hfirst'
    exact inv.recovers (engineInv_of_run hbuilt.canonical hstart hfirst) hbuilt.canonical hcomplete hencoded hdecodes
  · rintro front snapshot back rfl
    obtain ⟨first, second, middle, rfl, hfirst, hsecond⟩ := run_outputs_append hrun
    have inv' := engineInv_of_run hbuilt.canonical hstart hfirst
    cases second with
    | nil => cases hsecond
    | cons action second =>
        obtain ⟨event, rest, next, hstep, _, heq⟩ := run_cons.mp hsecond
        cases heq
        obtain ⟨hstage, hcontent, _, applied, hsequence, hencoded, _, _⟩ := inv'.checkpoint horigin hstep
        have hjournaled := inv'.journaled
        rw [hstage, unapplied_idle, List.append_nil] at hjournaled
        refine ⟨first, action :: second, middle, rfl, hfirst, hcontent, hjournaled, applied, hsequence, hencoded,
          fun decoded hdecoded => ?_⟩
        have hcanonical' := inv'.history.canonical hbuilt.canonical
        obtain ⟨hrestored, _⟩ := fromState_of_decoded hcanonical' hencoded hdecoded
        obtain ⟨logical', rep', _⟩ := hcanonical'
        exact (sameContent_of_fromState rep' hrestored).exportState_eq.symm

/-- An offer is journaled and applied, its record written in two parts, and a
checkpoint is taken after shutdown; a first one came too early. -/
def sampleEngineActions : List EngineAction :=
  [.command offerCommand, .engine, .worker .access, .engine, .worker .drainBatch, .popRecord, .engine,
    .worker (.written (.ok 10)), .stopAdmission, .worker (.written (.ok 54)), .worker .access, .worker (.flushed true),
    .worker .access, .worker .shutdown, .worker .access, .popRecord, .load, .worker (.flushed true), .load,
    .worker .access, .worker .access, .load, .load, .load, .load, .load, .load, .load, .load]

/-- The sink of the run recovers the gateway of the engine. -/
theorem journal_application_recovery_agree_sample : ∃ events, ∃ system : EngineSystem 1 1 1 1 1 3 1,
    ∃ snapshot, ∃ recovered : Gateway 1 1 1 1,
    run (EngineSystem.step (fun _ => 0) countingHash 1) sampleEngine sampleEngineActions = some (events, system) ∧
    encodeSnapshot countingHash tightGateway 0 = .ok snapshot ∧ (appliedIn events).length = 1 ∧
    Checked.Returns (recoverSnapshotAndTail (fun _ => 0) countingHash 1 snapshot.bytes system.sink.content) recovered ∧
    recovered.exportState = system.engine.events.gateway.exportState := by
  obtain ⟨⟨events, system⟩, hrun, happlied, hlength⟩ := exists_of_any
    (run (EngineSystem.step (fun _ => 0) countingHash 1) sampleEngine sampleEngineActions)
    (fun result => (appliedIn result.1).length = 1 ∧ result.2.sink.content.length = recordSize) (by decide +kernel)
  have hdecodes : snapshotDecodes countingHash tightGateway 0 = true := by decide +kernel
  obtain ⟨snapshot, decoded, hencoded, hdecoded⟩ := exists_of_snapshotDecodes hdecodes
  obtain ⟨_, ⟨_, _, hrecovers⟩, _⟩ := journal_application_recovery_agree (fun _ => 0) countingHash 1
    (.inl ⟨7, _, builds_tightGateway⟩) start_sampleEngine hrun
  obtain ⟨recovered, hrecovered, hstate⟩ := hrecovers 0 snapshot hencoded ⟨decoded, hdecoded⟩ sampleEngineActions []
    events system (List.append_nil _).symm hrun (by rw [happlied, hlength, Nat.one_mul])
  rw [happlied, Nat.one_mul, List.take_of_length_le hlength.le] at hrecovered
  exact ⟨events, system, snapshot, recovered, hrun, hencoded, happlied, hrecovered, hstate⟩

end HftEngine
