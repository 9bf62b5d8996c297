/-
Module: HftEngine.Proofs.Watermarks
Layer: Proofs
Purpose: Persistence watermarks never overclaim, whatever the order in which
  the writer, the worker, the sink and the status readers take their steps.
Imports: HftEngine.Core.JournalSystem, HftEngine.Proofs.Persistence,
  HftEngine.Proofs.RingQueue
Trusted boundary: none (fully proved)
Main exports: enqueuedIn, SystemInv, SystemInv.step, watermarks_never_overclaim
-/
import HftEngine.Core.JournalSystem
import HftEngine.Proofs.Persistence
import HftEngine.Proofs.RingQueue

namespace HftEngine

open Machine Cursor Transition

variable {crc32c : List U8 → U32} {size : Nat} {first : U64} {start : BitVec 64} {system system' : JournalSystem}
  {events : List JournalEvent} {event : JournalEvent}

/-! ### The invariant -/

/-- The record an event put into the queue, if it did. -/
def JournalEvent.record : JournalEvent → Option JournalRecord
  | .enqueued record => some record
  | _ => none

/-- The records enqueued in a run. -/
def enqueuedIn (events : List JournalEvent) : List JournalRecord := events.filterMap JournalEvent.record

/-- A push of this record is under way. -/
def Pushes (record : JournalRecord) : PushStage JournalRecord → Prop
  | .loadHead value => value = record
  | .writeSlot value => value = record
  | .storeTail value => value = record
  | _ => False

/-- The writer against the ring and the closure flag. -/
def WriterInv (crc32c : List U8 → U32) (system : JournalSystem) : Prop :=
  match system.writerStage with
  | .ready => system.ring.producer.stage = .idle ∧ system.status.producerClosed = false
  | .pushing next =>
      system.status.producerClosed = false ∧ next.val = system.writer.nextSequence.val + 1 ∧
        ∃ record, Pushes record system.ring.producer.stage ∧ record.sequence = system.writer.nextSequence ∧
          record.verify crc32c = true
  | .closed => system.ring.producer.stage = .idle ∧ system.status.producerClosed = true

/-- What holds between two steps of producer, worker and readers, given what
has been enqueued so far. -/
structure SystemInv (crc32c : List U8 → U32) (size : Nat) (first : U64) (start : BitVec 64)
    (events : List JournalEvent) (system : JournalSystem) : Prop where
  held : ∃ popped seen known, RingInv start (enqueuedIn events) popped seen known system.ring ∧
    WorkerInv crc32c size first (enqueuedIn events) popped system.worker system.status system.sink
  next : system.writer.nextSequence.val = first.val + (enqueuedIn events).length
  writer : WriterInv crc32c system
  readings : ∀ reader, ReadingInv system.writer.nextSequence system.status (system.readings reader)
  shown : ∀ reader shown, JournalEvent.status reader shown ∈ events →
    Shown system.writer.nextSequence system.status shown
  failed : ∀ failure : WorkerEvent, JournalEvent.worker failure ∈ events → failure.isFailure = true →
    system.status.poisoned = true

/-- The invariant holds of a channel that has just been split, with an empty
sink and nothing enqueued. -/
theorem systemInv_split (crc32c : List U8 → U32) (size : Nat) (start : BitVec 64) (first : U64) (policy : FlushPolicy) :
    SystemInv crc32c size first start [] (JournalSystem.split start first policy) :=
  ⟨⟨[], 0, 0, ringInv_new start, workerInv_unbuilt crc32c size first policy⟩, rfl, ⟨rfl, rfl⟩, fun _ => trivial,
    by simp, by simp⟩

/-! ### The ring -/

/-- The producer's next access in the push of a record. -/
theorem producerStep_pushes {ring ring' : Ring JournalRecord 64 ringCapacity} {record : JournalRecord}
    {event : RingEvent JournalRecord} (h : Pushes record ring.producer.stage)
    (hstep : ring.step .producer = some (event, ring')) :
    (event = .quiet ∧ Pushes record ring'.producer.stage) ∨
      ((event = .pushed record ∨ ∃ refused, event = .refused refused) ∧ ring'.producer.stage = .idle) := by
  simp only [Ring.step, Ring.producerStep] at hstep
  cases hstage : ring.producer.stage with
  | idle =>
      rw [hstage] at h
      exact h.elim
  | probeHead =>
      rw [hstage] at h
      exact h.elim
  | loadHead value =>
      simp only [hstage] at hstep h
      split at hstep
      · cases hstep
        exact .inr ⟨.inr ⟨_, rfl⟩, rfl⟩
      · cases hstep
        exact .inl ⟨rfl, h⟩
  | writeSlot value =>
      simp only [hstage] at hstep h
      obtain ⟨queue, _, heq⟩ := Option.map_eq_some_iff.mp hstep
      cases heq
      exact .inl ⟨rfl, h⟩
  | storeTail value =>
      simp only [hstage] at hstep h
      cases hstep
      exact .inr ⟨.inl (congrArg _ h), rfl⟩

/-- A pop in progress: what it returns is the worker's. -/
theorem popStep_frame {ring ring' : Ring JournalRecord 64 ringCapacity} {action : RingAction JournalRecord}
    {event : RingEvent JournalRecord} (haction : action = .tryPop ∨ action = .consumer)
    (hstep : ring.step action = some (event, ring')) :
    ring'.producer = ring.producer ∧ event.published = none := by
  rcases haction with rfl | rfl
  · simp only [Ring.step] at hstep
    split at hstep
    · cases hstep
      exact ⟨rfl, rfl⟩
    · cases hstep
  · obtain ⟨hproducer, hpublished, _⟩ := consumerStep_frame hstep
    exact ⟨hproducer, hpublished⟩

theorem ringCapacity_eq : ringCapacity = 2 ^ 10 := rfl

namespace SystemInv

/-- Completion shows the final counters. -/
theorem final (h : SystemInv crc32c size first start events system)
    (hcomplete : system.status.shutdownComplete = true) :
    system.status.producerClosed = true ∧ system.status.poisoned = false ∧
      system.status.nextWrittenSequence = system.writer.nextSequence ∧
      system.status.nextDurableSequence = system.writer.nextSequence := by
  obtain ⟨popped, seen, known, _, inv⟩ := h.held
  have hnext := h.next
  have completed := inv.stored.completed (inv.stored.completion ▸ hcomplete)
  have hexpected := inv.stored.expected
  rw [completed.all] at hexpected
  have hsame : system.worker.reader.expectedSequence = system.writer.nextSequence := Fin.ext (by omega)
  exact ⟨completed.closed, completed.sane, completed.written.trans hsame, completed.durable.trans hsame⟩

/-! ### Steps -/

/-- An event adds its record to what has been enqueued. -/
theorem enqueuedIn_append (events : List JournalEvent) (event : JournalEvent) :
    enqueuedIn (events ++ [event]) = enqueuedIn events ++ event.record.toList := by
  rw [enqueuedIn, List.filterMap_append]
  cases hrecord : event.record with
  | none => simp [enqueuedIn, hrecord]
  | some record => simp [enqueuedIn, hrecord]

/-- A step that enqueues nothing. -/
theorem moved (h : SystemInv crc32c size first start events system) {popped : List JournalRecord} {seen known : Nat}
    (hring : RingInv start (enqueuedIn events) popped seen known system'.ring)
    (hworker : WorkerInv crc32c size first (enqueuedIn events) popped system'.worker system'.status system'.sink)
    (hforward : Forward system.status system'.status) (hwriter : WriterInv crc32c system')
    (hsequence : system'.writer = system.writer)
    (hreadings : ∀ reader, ReadingInv system.writer.nextSequence system'.status (system'.readings reader))
    (hrecord : event.record = none)
    (hshown : ∀ reader shown, event = .status reader shown → Shown system.writer.nextSequence system'.status shown)
    (hfailure : ∀ failure, event = .worker failure → failure.isFailure = true → system'.status.poisoned = true) :
    SystemInv crc32c size first start (events ++ [event]) system' := by
  have hsame : enqueuedIn (events ++ [event]) = enqueuedIn events := by
    rw [enqueuedIn_append, hrecord, Option.toList_none, List.append_nil]
  refine ⟨⟨popped, seen, known, hsame ▸ hring, hsame ▸ hworker⟩, ?_, hwriter, fun reader => ?_,
    fun reader shown hmem => ?_, fun failure hmem htrue => ?_⟩
  · rw [hsequence, hsame]
    exact h.next
  · rw [hsequence]
    exact hreadings reader
  · rw [hsequence]
    rcases List.mem_append.mp hmem with hbefore | hlast
    · exact (h.shown reader shown hbefore).forward hforward
    · exact hshown reader shown (List.mem_singleton.mp hlast).symm
  · rcases List.mem_append.mp hmem with hbefore | hlast
    · exact hforward.poisoned (h.failed failure hbefore htrue)
    · exact hfailure failure (List.mem_singleton.mp hlast).symm htrue

/-- The writer's own words are not touched by the worker or the consumer. -/
theorem writer_kept (h : WriterInv crc32c system) (hproducer : system'.ring.producer = system.ring.producer)
    (hstage : system'.writerStage = system.writerStage) (hwriter : system'.writer = system.writer)
    (hclosed : system'.status.producerClosed = system.status.producerClosed) : WriterInv crc32c system' := by
  unfold WriterInv at h ⊢
  rw [hproducer, hstage, hwriter, hclosed]
  exact h

/-- A step of the worker on a ring at a given pop. -/
theorem advanced (h : SystemInv crc32c size first start events system) {popped : List JournalRecord} {seen known : Nat}
    {ring : Ring JournalRecord 64 ringCapacity} (input : WorkerInput)
    (hring : RingInv start (enqueuedIn events) (popped ++ input.takes) seen known ring)
    (hworker : WorkerInv crc32c size first (enqueuedIn events) popped system.worker system.status system.sink)
    (hanswers : input.Answers (enqueuedIn events) popped)
    (hproducer : ring.producer = system.ring.producer)
    (hstep : { system with ring := ring }.advance crc32c size input = some (event, system')) :
    SystemInv crc32c size first start (events ++ [event]) system' := by
  obtain ⟨⟨outcome, worker, status, sink⟩, hadvance, heq⟩ := Option.map_eq_some_iff.mp hstep
  cases heq
  obtain ⟨hforward, hclosed⟩ := hworker.forward hadvance
  refine h.moved hring (hworker.advance hanswers hadvance) hforward
    (writer_kept h.writer hproducer rfl rfl hclosed) rfl
    (fun reader => (h.readings reader).forward hforward) rfl (by simp) ?_
  rintro failure ⟨⟩ htrue
  exact hworker.failed hadvance htrue

/-- A worker that takes a record from the queue keeps the invariant. -/
theorem pop (h : SystemInv crc32c size first start events system)
    (hstep : system.pop crc32c size = some (event, system')) :
    SystemInv crc32c size first start (events ++ [event]) system' := by
  obtain ⟨popped, seen, known, hring, hworker⟩ := h.held
  unfold JournalSystem.pop at hstep
  have hkind : system.popAction = .tryPop ∨ system.popAction = .consumer := by
    unfold JournalSystem.popAction
    split
    · exact .inl rfl
    · exact .inr rfl
  cases hpop : system.ring.step system.popAction with
  | none =>
      rw [hpop] at hstep
      cases hstep
  | some result =>
      obtain ⟨answer, ring⟩ := result
      rw [hpop] at hstep
      obtain ⟨hproducer, hpublished⟩ := popStep_frame hkind hpop
      obtain ⟨hsound, seen', known', hring'⟩ := step_ringInv ringCapacity_eq (by decide) hring hpop
      rw [hpublished, Option.toList_none, List.append_nil] at hring'
      have hquiet : ∀ {other : RingEvent JournalRecord}, answer = other → other.taken = none →
          SystemInv crc32c size first start (events ++ [.quiet]) { system with ring := ring } := by
        rintro other rfl htaken
        rw [htaken, Option.toList_none, List.append_nil] at hring'
        exact h.moved hring' hworker (Forward.refl _) (writer_kept h.writer hproducer rfl rfl rfl) rfl h.readings
          rfl (by simp) (by simp)
      cases answer with
      | popped record =>
          exact h.advanced (.popped record) hring' hworker hring'.inOrder hproducer hstep
      | empty =>
          have hall : popped = enqueuedIn events := hring.inOrder.eq_of_length hsound
          exact h.advanced .empty hring' hworker hall hproducer hstep
      | quiet =>
          cases hstep
          exact hquiet rfl rfl
      | pushed value => cases hpublished
      | refused value =>
          cases hstep
          exact hquiet rfl rfl
      | capacity available =>
          cases hstep
          exact hquiet rfl rfl

/-- A producer that numbers and seals a record keeps the invariant; the record
counts as enqueued only when it is in the queue. -/
theorem enqueue (h : SystemInv crc32c size first start events system) {payload : List U8}
    (hready : system.writerStage = .ready) (hstep : system.enqueue crc32c payload = some (event, system')) :
    SystemInv crc32c size first start (events ++ [event]) system' := by
  obtain ⟨popped, seen, known, hring, hworker⟩ := h.held
  have hwriter := h.writer
  simp only [WriterInv, hready] at hwriter
  have hrefused : ∀ error, SystemInv crc32c size first start (events ++ [.refused error]) system :=
    fun error => h.moved hring hworker (Forward.refl _) h.writer rfl h.readings rfl (by simp) (by simp)
  unfold JournalSystem.enqueue at hstep
  cases hadd : checkedAdd system.writer.nextSequence 1 with
  | none =>
      rw [hadd] at hstep
      cases hstep
      exact hrefused _
  | some next =>
      rw [hadd] at hstep
      cases hrecord : JournalRecord.new crc32c system.writer.nextSequence payload with
      | error error =>
          rw [hrecord] at hstep
          cases hstep
          exact hrefused error
      | ok record =>
          rw [hrecord] at hstep
          obtain ⟨⟨answer, ring⟩, hpush, heq⟩ := Option.map_eq_some_iff.mp hstep
          cases heq
          obtain ⟨_, seen', known', hring'⟩ := step_ringInv ringCapacity_eq (by decide) hring hpush
          obtain ⟨hsequence, _, hverify⟩ := JournalRecord.of_new hrecord
          simp only [Ring.step, hwriter.1] at hpush
          cases hpush
          simp only [RingEvent.published, RingEvent.taken, Option.toList_none, List.append_nil] at hring'
          have hpushes : Pushes record
              (if Ring.looksFull ringCapacity system.ring.producer then .loadHead record else .writeSlot record) := by
            split <;> rfl
          have hnext : next.val = system.writer.nextSequence.val + 1 := checkedAdd_eq_some.mp hadd
          refine h.moved hring' hworker (Forward.refl _) ?_ rfl h.readings rfl (by simp) (by simp)
          exact ⟨hwriter.2, hnext, record, hpushes, hsequence, hverify⟩

/-- A producer that puts the sealed record into the queue keeps the
invariant. -/
theorem push (h : SystemInv crc32c size first start events system) {next : U64}
    (hstage : system.writerStage = .pushing next) (hstep : system.push next = some (event, system')) :
    SystemInv crc32c size first start (events ++ [event]) system' := by
  obtain ⟨popped, seen, known, hring, hworker⟩ := h.held
  have hwriter := h.writer
  simp only [WriterInv, hstage] at hwriter
  obtain ⟨hopen, hnext, record, hpushes, hsequence, hverify⟩ := hwriter
  unfold JournalSystem.push at hstep
  cases hpush : system.ring.step .producer with
  | none =>
      rw [hpush] at hstep
      cases hstep
  | some result =>
      obtain ⟨answer, ring⟩ := result
      rw [hpush] at hstep
      obtain ⟨_, seen', known', hring'⟩ := step_ringInv ringCapacity_eq (by decide) hring hpush
      rcases producerStep_pushes hpushes hpush with ⟨rfl, hpushes'⟩ | ⟨rfl | ⟨refused, rfl⟩, hidle⟩
      · cases hstep
        simp only [RingEvent.published, RingEvent.taken, Option.toList_none, List.append_nil] at hring'
        refine h.moved hring' hworker (Forward.refl _) ?_ rfl h.readings rfl (by simp) (by simp)
        simp only [WriterInv, hstage]
        exact ⟨hopen, hnext, record, hpushes', hsequence, hverify⟩
      · -- the tail store publishes the record
        cases hstep
        simp only [RingEvent.published, RingEvent.taken, Option.toList_none, Option.toList_some,
          List.append_nil] at hring'
        have hposition := h.next
        have hbound := next.isLt
        have hincomplete : system.status.shutdownComplete = false := by
          rw [← Bool.not_eq_true]
          intro htrue
          rw [(h.final htrue).1] at hopen
          cases hopen
        have hrecords : enqueuedIn (events ++ [.enqueued record]) = enqueuedIn events ++ [record] :=
          enqueuedIn_append events _
        refine ⟨⟨popped, seen', known', hrecords ▸ hring', ?_⟩, ?_, ⟨hidle, hopen⟩, ?_, ?_, ?_⟩
        · rw [hrecords]
          exact hworker.enqueue hopen (by rw [hsequence]; exact hposition) hverify (by omega)
        · rw [hrecords, List.length_append, List.length_singleton]
          simp only
          omega
        · exact fun reader => (h.readings reader).unfinished hincomplete
        · intro reader shown hmem
          rcases List.mem_append.mp hmem with hbefore | hlast
          · exact (h.shown reader shown hbefore).unfinished hincomplete
          · cases List.mem_singleton.mp hlast
        · intro failure hmem htrue
          rcases List.mem_append.mp hmem with hbefore | hlast
          · exact h.failed failure hbefore htrue
          · cases List.mem_singleton.mp hlast
      · cases hstep
        simp only [RingEvent.published, RingEvent.taken, Option.toList_none, List.append_nil] at hring'
        exact h.moved hring' hworker (Forward.refl _) ⟨hidle, hopen⟩ rfl h.readings rfl (by simp) (by simp)

/-- A reader that loads one field of the status keeps the invariant. -/
theorem read (h : SystemInv crc32c size first start events system) {reader : Nat}
    (hstep : system.step crc32c size (.read reader) = some (event, system')) :
    SystemInv crc32c size first start (events ++ [event]) system' := by
  obtain ⟨popped, seen, known, hring, hworker⟩ := h.held
  obtain ⟨hreading, hresult⟩ := (h.readings reader).load hworker.stored.durable_le h.final
  cases hload : (system.readings reader).load system.status with
  | mk result reading =>
      rw [hload] at hreading hresult
      simp only [JournalSystem.step, hload] at hstep
      have hreadings : ∀ other, ReadingInv system.writer.nextSequence system.status
          (Function.update system.readings reader reading other) := by
        intro other
        rw [Function.update_apply]
        split
        · exact hreading
        · exact h.readings other
      cases result with
      | none =>
          cases hstep
          exact h.moved hring hworker (Forward.refl _) h.writer rfl hreadings rfl (by simp) (by simp)
      | some status =>
          cases hstep
          refine h.moved hring hworker (Forward.refl _) h.writer rfl hreadings rfl ?_ (by simp)
          rintro _ _ ⟨⟩
          exact hresult status rfl

/-- Every step of every party keeps the invariant. -/
theorem step {action : JournalAction} (h : SystemInv crc32c size first start events system)
    (hstep : system.step crc32c size action = some (event, system')) :
    SystemInv crc32c size first start (events ++ [event]) system' := by
  obtain ⟨popped, seen, known, hring, hworker⟩ := h.held
  cases action with
  | enqueue payload =>
      simp only [JournalSystem.step] at hstep
      split at hstep
      · rename_i hready
        exact h.enqueue hready hstep
      · cases hstep
  | producer =>
      simp only [JournalSystem.step] at hstep
      split at hstep
      · rename_i next hstage
        exact h.push hstage hstep
      · cases hstep
  | close =>
      simp only [JournalSystem.step] at hstep
      split at hstep
      · rename_i hready
        have hwriter := h.writer
        simp only [WriterInv, hready] at hwriter
        cases hstep
        have hforward : Forward system.status { system.status with producerClosed := true } :=
          ⟨le_rfl, le_rfl, id, id⟩
        exact h.moved hring hworker.close hforward ⟨hwriter.1, rfl⟩ rfl
          (fun reader => (h.readings reader).forward hforward) rfl (by simp) (by simp)
      · cases hstep
  | worker input =>
      simp only [JournalSystem.step] at hstep
      split at hstep
      · cases hstep
      · cases hstep
      · rename_i hpopped hempty
        have htakes : input.takes = [] := by
          cases input with
          | popped record => exact absurd rfl (hpopped record)
          | _ => rfl
        have hanswers : input.Answers (enqueuedIn events) popped := by
          cases input with
          | popped record => exact absurd rfl (hpopped record)
          | empty => exact absurd rfl hempty
          | _ => trivial
        exact h.advanced input (by rw [htakes, List.append_nil]; exact hring) hworker hanswers rfl hstep
  | consumer =>
      simp only [JournalSystem.step] at hstep
      split at hstep
      · exact h.pop hstep
      · cases hstep
  | read reader => exact h.read hstep

/-- Nobody writes to the sink of a poisoned channel, and nobody clears the
flag. -/
theorem silent {action : JournalAction} (h : SystemInv crc32c size first start events system)
    (hpoisoned : system.status.poisoned = true)
    (hstep : system.step crc32c size action = some (event, system')) :
    system'.status.poisoned = true ∧ system'.sink.content = system.sink.content := by
  obtain ⟨popped, seen, known, hring, hworker⟩ := h.held
  have hadvance : ∀ {ring : Ring JournalRecord 64 ringCapacity} {input : WorkerInput},
      { system with ring := ring }.advance crc32c size input = some (event, system') →
      system'.status.poisoned = true ∧ system'.sink.content = system.sink.content := by
    intro ring input hadvance
    obtain ⟨⟨outcome, worker, status, sink⟩, hadvanced, heq⟩ := Option.map_eq_some_iff.mp hadvance
    cases heq
    exact hworker.silent hpoisoned hadvanced
  cases action with
  | enqueue payload =>
      simp only [JournalSystem.step, JournalSystem.enqueue] at hstep
      split at hstep
      · split at hstep
        · cases hstep
          exact ⟨hpoisoned, rfl⟩
        · split at hstep
          · cases hstep
            exact ⟨hpoisoned, rfl⟩
          · obtain ⟨_, _, heq⟩ := Option.map_eq_some_iff.mp hstep
            cases heq
            exact ⟨hpoisoned, rfl⟩
      · cases hstep
  | producer =>
      simp only [JournalSystem.step, JournalSystem.push] at hstep
      split at hstep
      · split at hstep <;> cases hstep <;> exact ⟨hpoisoned, rfl⟩
      · cases hstep
  | close =>
      simp only [JournalSystem.step] at hstep
      split at hstep <;> cases hstep
      exact ⟨hpoisoned, rfl⟩
  | worker input =>
      simp only [JournalSystem.step] at hstep
      split at hstep
      · cases hstep
      · cases hstep
      · exact hadvance hstep
  | consumer =>
      simp only [JournalSystem.step, JournalSystem.pop] at hstep
      split at hstep
      · split at hstep
        · cases hstep
        · exact hadvance hstep
        · exact hadvance hstep
        · cases hstep
          exact ⟨hpoisoned, rfl⟩
      · cases hstep
  | read reader =>
      simp only [JournalSystem.step] at hstep
      split at hstep <;> cases hstep <;> exact ⟨hpoisoned, rfl⟩

/-- Along a run a poisoned channel stays poisoned and its sink as it is. -/
theorem run_silent {actions : List JournalAction} {more : List JournalEvent}
    (h : SystemInv crc32c size first start events system) (hpoisoned : system.status.poisoned = true)
    (hrun : run (JournalSystem.step crc32c size) system actions = some (more, system')) :
    system'.status.poisoned = true ∧ system'.sink.content = system.sink.content :=
  (run_outputs (fun before reached => SystemInv crc32c size first start before reached ∧
      reached.status.poisoned = true ∧ reached.sink.content = system.sink.content)
    (fun hreached hstep =>
      have hsilent := hreached.1.silent hreached.2.1 hstep
      ⟨hreached.1.step hstep, hsilent.1, hsilent.2.trans hreached.2.2⟩)
    events ⟨h, hpoisoned, rfl⟩ hrun).2

end SystemInv

/-! ### Complete records -/

/-- The journal holds each record in its place. -/
theorem field_journalBytes {records : List JournalRecord} {i : Nat} {record : JournalRecord}
    (h : records[i]? = some record) : Bytes.field (journalBytes records) (i * recordSize) recordSize = record.encode := by
  have hpart : (records.map JournalRecord.encode)[i]? = some record.encode := by rw [List.getElem?_map, h]; rfl
  obtain ⟨hlt, _⟩ := List.getElem?_eq_some_iff.mp h
  have hoffset : (((records.map JournalRecord.encode).take i).map List.length).sum = i * recordSize := by
    rw [← List.length_flatten, ← List.map_take, ← List.flatMap_def]
    exact (length_journalBytes _).trans (by rw [List.length_take_of_le hlt.le])
  exact Bytes.field_flatten i hpart hoffset record.length_encode

/-- A sink that holds a prefix of the journal holds each record that it is long
enough for. -/
theorem field_of_prefix {records : List JournalRecord} {content : List U8} {i : Nat} {record : JournalRecord}
    (h : content <+: journalBytes records) (hrecord : records[i]? = some record)
    (hlength : (i + 1) * recordSize ≤ content.length) :
    Bytes.field content (i * recordSize) recordSize = record.encode := by
  obtain ⟨rest, hrest⟩ := h
  have hwhole := field_journalBytes hrecord
  rw [← hrest, Bytes.field] at hwhole
  rw [Nat.add_mul, Nat.one_mul] at hlength
  rw [List.drop_append_of_le_length (by omega), List.take_append_of_le_length (by rw [List.length_drop]; omega)] at hwhole
  exact hwhole

/-- Whatever the checksum, the batch size, the flush policy and the order of
all accesses, for a channel split at a sequence: the sink holds a prefix of the
journal of the enqueued records; the watermarks stand in order between the
first sequence and the writer's; a record below the written mark is complete in
the sink, and one below the durable mark was complete in the sink when it was
last flushed with success; a status read word by word shows them in order, and
if it shows completion it shows closure, no failure and both marks at the
writer's final sequence; and a failure leaves the channel poisoned, for good,
with nothing written after it. -/
theorem watermarks_never_overclaim (crc32c : List U8 → U32) (size : Nat) (start : BitVec 64) (first : U64)
    (policy : FlushPolicy) {actions : List JournalAction}
    (hrun : run (JournalSystem.step crc32c size) (JournalSystem.split start first policy) actions =
      some (events, system)) :
    system.sink.content <+: journalBytes (enqueuedIn events) ∧
    (first.val ≤ system.status.nextDurableSequence.val ∧
      system.status.nextDurableSequence.val ≤ system.status.nextWrittenSequence.val ∧
      system.status.nextWrittenSequence.val ≤ system.worker.reader.expectedSequence.val ∧
      system.worker.reader.expectedSequence.val ≤ system.writer.nextSequence.val) ∧
    (∀ i record, (enqueuedIn events)[i]? = some record → record.sequence.val = first.val + i ∧
      (record.sequence.val < system.status.nextWrittenSequence.val →
        Bytes.field system.sink.content (i * recordSize) recordSize = record.encode) ∧
      (record.sequence.val < system.status.nextDurableSequence.val →
        Bytes.field system.sink.flushed (i * recordSize) recordSize = record.encode)) ∧
    (∀ reader shown, JournalEvent.status reader shown ∈ events →
      shown.nextDurableSequence.val ≤ shown.nextWrittenSequence.val ∧
      (shown.shutdownComplete = true → shown.producerClosed = true ∧ shown.poisoned = false ∧
        shown.nextWrittenSequence = system.writer.nextSequence ∧
        shown.nextDurableSequence = system.writer.nextSequence)) ∧
    (∀ failure : WorkerEvent, JournalEvent.worker failure ∈ events → failure.isFailure = true →
      system.status.poisoned = true) ∧
    (system.status.poisoned = true → ∀ more later last,
      run (JournalSystem.step crc32c size) system more = some (later, last) →
      last.status.poisoned = true ∧ last.sink.content = system.sink.content) := by
  have h := run_outputs (SystemInv crc32c size first start) (fun hinv hstep => hinv.step hstep) []
    (systemInv_split crc32c size start first policy) hrun
  rw [List.nil_append] at h
  obtain ⟨popped, seen, known, _, hworker⟩ := h.held
  have stored := hworker.stored
  have hcontent : system.sink.content <+: journalBytes (enqueuedIn events) := by
    obtain ⟨rest, hrest⟩ := stored.inOrder
    rw [← hrest, journalBytes_append]
    exact stored.content.trans (List.prefix_append _ _)
  have hnext := h.next
  have hexpected := stored.expected
  have htaken := stored.inOrder.length_le
  refine ⟨hcontent, ⟨stored.first_le, stored.durable_le, stored.written_le, by omega⟩, fun i record hrecord => ?_,
    fun reader shown hmem => ?_, h.failed, fun hpoisoned more later last hmore => h.run_silent hpoisoned hmore⟩
  · obtain ⟨hsequence, _⟩ := stored.sequenced i record hrecord
    refine ⟨hsequence, fun hwritten => ?_, fun hdurable => ?_⟩
    · refine field_of_prefix hcontent hrecord (le_trans (Nat.mul_le_mul_right _ ?_) stored.writtenBytes)
      omega
    · refine field_of_prefix (stored.flushed.trans hcontent) hrecord
        (le_trans (Nat.mul_le_mul_right _ ?_) stored.durableBytes)
      omega
  · have hshown := h.shown reader shown hmem
    exact ⟨hshown.ordered, fun hcomplete => (hshown.complete hcomplete).2⟩

/-- One record is enqueued, written in two parts and shut down, while a reader
takes its time. -/
def sampleJournalActions : List JournalAction :=
  [.worker .access, .enqueue [1, 2, 3], .producer, .producer, .read 0, .close, .worker .shutdown, .worker .access,
    .consumer, .consumer, .consumer, .consumer, .worker (.written (.ok 10)), .worker (.written .interrupted),
    .worker (.written (.ok 54)), .worker .access, .read 0, .worker (.flushed true), .read 0, .worker .access,
    .consumer, .consumer, .worker (.flushed true), .worker .access, .worker .access, .read 0, .read 0]

/-- The invariant at work in a run that reaches the end of the shutdown. -/
theorem watermarks_never_overclaim_sample : ∃ events system,
    run (JournalSystem.step (fun _ => 0) 1) (JournalSystem.split 0 5 .everyBatch) sampleJournalActions =
      some (events, system) ∧
    system.status.shutdownComplete = true ∧ system.sink.content <+: journalBytes (enqueuedIn events) := by
  obtain ⟨⟨events, system⟩, hrun, hcomplete⟩ := exists_of_any
    (run (JournalSystem.step (fun _ => 0) 1) (JournalSystem.split 0 5 .everyBatch) sampleJournalActions)
    (fun result => result.2.status.shutdownComplete = true) (by decide +kernel)
  exact ⟨events, system, hrun, hcomplete, (watermarks_never_overclaim (fun _ => 0) 1 0 5 .everyBatch hrun).1⟩

end HftEngine
