/-
Module: HftEngine.Proofs.Persistence
Layer: Proofs
Purpose: What a persistence worker keeps true, step by step, whatever the
  queue, the sink and the producer do in between: the sink holds a prefix of
  the journal, the watermarks count complete records in it, completion means
  that everything is flushed, and nothing is written once the channel is
  poisoned.
Imports: HftEngine.Core.Persistence, HftEngine.Proofs.JournalCodec
Trusted boundary: none (fully proved)
Main exports: Sequenced, journalBytes, Stored, StageInv, WorkerInv,
  WorkerInv.advance, WorkerInv.enqueue, WorkerInv.close, WorkerInv.silent,
  ReadingInv, Shown
-/
import HftEngine.Core.Persistence
import HftEngine.Proofs.JournalCodec

namespace HftEngine

open Machine

variable {crc32c : List U8 → U32} {size : Nat} {first : U64} {enqueued taken : List JournalRecord}
  {worker worker' : PersistenceWorker} {status status' : StatusState} {sink sink' : DurableSink}

/-! ### Journals -/

/-- Valid records with consecutive sequences from the first on. -/
def Sequenced (crc32c : List U8 → U32) (first : U64) (records : List JournalRecord) : Prop :=
  ∀ i record, records[i]? = some record → record.sequence.val = first.val + i ∧ record.verify crc32c = true

/-- The journal of some records. -/
def journalBytes (records : List JournalRecord) : List U8 := records.flatMap JournalRecord.encode

@[simp] theorem journalBytes_nil : journalBytes [] = [] := rfl

/-- The bytes of a journal are those of its parts in order. -/
theorem journalBytes_append (records more : List JournalRecord) :
    journalBytes (records ++ more) = journalBytes records ++ journalBytes more :=
  List.flatMap_append

theorem journalBytes_singleton (record : JournalRecord) : journalBytes [record] = record.encode :=
  List.flatMap_singleton _ _

/-- Records have one size, so the length of a journal counts them. -/
theorem length_journalBytes (records : List JournalRecord) :
    (journalBytes records).length = records.length * recordSize := by
  induction records with
  | nil => rfl
  | cons record rest ih =>
      rw [← List.singleton_append, journalBytes_append, journalBytes_singleton, List.length_append,
        record.length_encode, ih, List.length_append, List.length_singleton, Nat.add_mul, Nat.one_mul]

/-- The journal of the first records is the start of the journal. -/
theorem take_journalBytes (records : List JournalRecord) (count : Nat) :
    (journalBytes records).take (count * recordSize) = journalBytes (records.take count) := by
  rcases Nat.le_total records.length count with hle | hge
  · have hall : (journalBytes records).length ≤ count * recordSize := by
      rw [length_journalBytes]
      exact Nat.mul_le_mul_right _ hle
    rw [List.take_of_length_le hall, List.take_of_length_le hle]
  · have hsplit : journalBytes records = journalBytes (records.take count) ++ journalBytes (records.drop count) := by
      rw [← journalBytes_append, List.take_append_drop]
    have hlength : (journalBytes (records.take count)).length = count * recordSize := by
      rw [length_journalBytes, List.length_take_of_le hge]
    rw [hsplit, ← hlength, List.take_left]

/-- A verified record with the next number continues the sequence. -/
theorem Sequenced.append {record : JournalRecord} (h : Sequenced crc32c first enqueued)
    (hsequence : record.sequence.val = first.val + enqueued.length) (hverify : record.verify crc32c = true) :
    Sequenced crc32c first (enqueued ++ [record]) := by
  intro i other hother
  rcases Nat.lt_or_ge i enqueued.length with hlt | hge
  · rw [List.getElem?_append_left hlt] at hother
    exact h i other hother
  · obtain ⟨hbound, _⟩ := List.getElem?_eq_some_iff.mp hother
    rw [List.length_append, List.length_singleton] at hbound
    obtain rfl : i = enqueued.length := by omega
    rw [List.getElem?_concat_length] at hother
    cases hother
    exact ⟨hsequence, hverify⟩

/-- What stands at the end of a prefix stands there in the whole. -/
theorem getElem?_of_append_prefix {α : Type} {front whole : List α} {value : α} (h : front ++ [value] <+: whole) :
    whole[front.length]? = some value := by
  obtain ⟨rest, rfl⟩ := h
  rw [List.append_assoc, List.getElem?_append_right le_rfl, Nat.sub_self]
  rfl

/-! ### The invariant -/

/-- What completion has published. -/
structure Completed (enqueued taken : List JournalRecord) (reader : JournalReader) (status : StatusState) : Prop where
  closed : status.producerClosed = true
  sane : status.poisoned = false
  written : status.nextWrittenSequence = reader.expectedSequence
  durable : status.nextDurableSequence = reader.expectedSequence
  all : taken = enqueued

/-- Reader, status and sink against the records enqueued and those taken from
the queue, at every stage. -/
structure Stored (crc32c : List U8 → U32) (first : U64) (enqueued taken : List JournalRecord) (reader : JournalReader)
    (status : StatusState) (sink : DurableSink) : Prop where
  sequenced : Sequenced crc32c first enqueued
  counted : first.val + enqueued.length < 2 ^ 64
  inOrder : taken <+: enqueued
  expected : reader.expectedSequence.val = first.val + taken.length
  sane : reader.poisoned = false
  content : sink.content <+: journalBytes taken
  flushed : sink.flushed <+: sink.content
  first_le : first.val ≤ status.nextDurableSequence.val
  durable_le : status.nextDurableSequence.val ≤ status.nextWrittenSequence.val
  written_le : status.nextWrittenSequence.val ≤ reader.expectedSequence.val
  writtenBytes : (status.nextWrittenSequence.val - first.val) * recordSize ≤ sink.content.length
  durableBytes : (status.nextDurableSequence.val - first.val) * recordSize ≤ sink.flushed.length
  completion : status.shutdownComplete = reader.shutdownComplete
  completed : reader.shutdownComplete = true → Completed enqueued taken reader status

/-- A worker that did not fail: what is pending completes the sink to the
journal, and the records of the pending batch are not yet counted as
written. -/
structure Ready (taken : List JournalRecord) (worker : PersistenceWorker) (status : StatusState) (sink : DurableSink)
    (pending : List U8) (count : Nat) : Prop where
  alive : worker.poisoned = false
  sane : status.poisoned = false
  bytes : sink.content ++ pending = journalBytes taken
  written : status.nextWrittenSequence.val + count = worker.reader.expectedSequence.val

/-- A shutdown runs only after closure. -/
def Shutting (status : StatusState) (call : WorkerCall) : Prop := call = .shutdown → status.producerClosed = true

/-- What holds at each stage. -/
def StageInv (enqueued taken : List JournalRecord) (worker : PersistenceWorker) (status : StatusState)
    (sink : DurableSink) : Prop :=
  match worker.stage with
  | .unbuilt => Ready taken worker status sink [] 0 ∧ worker.reader.shutdownComplete = false
  | .idle =>
      Ready taken worker status sink [] 0 ∨
        (worker.poisoned = true ∧ status.poisoned = true ∧ worker.reader.shutdownComplete = false)
  | .popping call batch =>
      Ready taken worker status sink batch.flatten batch.length ∧ Shutting status call ∧
        (worker.reader.shutdownComplete = true → call = .drainBatch ∧ batch = [])
  | .poisoningReader _ _ => False
  | .writing call count bytes rest =>
      Ready taken worker status sink (bytes ++ rest.flatten) count ∧ Shutting status call ∧
        worker.reader.shutdownComplete = false
  | .publishingWritten call count =>
      Ready taken worker status sink [] count ∧ Shutting status call ∧ worker.reader.shutdownComplete = false
  | .flushing call _ =>
      Ready taken worker status sink [] 0 ∧ Shutting status call ∧ worker.reader.shutdownComplete = false
  | .publishingDurable call _ =>
      Ready taken worker status sink [] 0 ∧ Shutting status call ∧ worker.reader.shutdownComplete = false ∧
        sink.flushed = sink.content
  | .loadingClosed => Ready taken worker status sink [] 0 ∧ worker.reader.shutdownComplete = false
  | .finalFlushing =>
      Ready taken worker status sink [] 0 ∧ status.producerClosed = true ∧ taken = enqueued ∧
        worker.reader.shutdownComplete = false
  | .finalDurable =>
      Ready taken worker status sink [] 0 ∧ status.producerClosed = true ∧ taken = enqueued ∧
        worker.reader.shutdownComplete = false ∧ sink.flushed = sink.content
  | .completing =>
      Ready taken worker status sink [] 0 ∧ status.producerClosed = true ∧ taken = enqueued ∧
        worker.reader.shutdownComplete = false ∧ status.nextDurableSequence = worker.reader.expectedSequence
  | .failing _ _ => worker.poisoned = true ∧ worker.reader.shutdownComplete = false
  | .dropping => worker.reader.shutdownComplete = false
  | .dropped => status.poisoned = true ∨ worker.reader.shutdownComplete = true

/-- A stage a worker without room for a record can be in: it is never built. -/
def WorkerStage.outside : WorkerStage → Bool
  | .unbuilt | .dropping | .dropped => true
  | _ => false

/-- What holds of the worker between two of its steps: how much it has taken,
written and published, and what the sink holds. -/
structure WorkerInv (crc32c : List U8 → U32) (size : Nat) (first : U64) (enqueued taken : List JournalRecord)
    (worker : PersistenceWorker) (status : StatusState) (sink : DurableSink) : Prop where
  stored : Stored crc32c first enqueued taken worker.reader status sink
  stage : StageInv enqueued taken worker status sink
  built : worker.stage.outside = false → size ≠ 0

/-- The reader of a fresh channel, with an empty sink. -/
theorem workerInv_unbuilt (crc32c : List U8 → U32) (size : Nat) (first : U64) (policy : FlushPolicy) :
    WorkerInv crc32c size first [] [] (PersistenceWorker.unbuilt first policy) (StatusState.new first) ⟨[], []⟩ := by
  refine ⟨⟨?_, by simp, List.prefix_rfl, rfl, rfl, List.prefix_rfl, List.prefix_rfl, le_rfl,
    le_rfl, le_rfl, ?_, ?_, rfl, ?_⟩, ⟨⟨rfl, rfl, rfl, rfl⟩, rfl⟩, fun h => (nomatch h)⟩
  · intro i record h
    simp at h
  · simp [StatusState.new]
  · simp [StatusState.new]
  · intro h
    cases h

/-! ### What the worker computes on its own -/

section Local

variable {call : WorkerCall} {count : Nat} {event : WorkerEvent}

/-- A failure ends the worker. -/
theorem stageInv_fail (error : PersistError) (hcomplete : worker.reader.shutdownComplete = false) :
    StageInv enqueued taken (worker.fail call error) status sink :=
  ⟨rfl, hcomplete⟩

/-- Going to another stage does not touch what is ready. -/
theorem Ready.enter {pending : List U8} (h : Ready taken worker status sink pending count) (stage : WorkerStage) :
    Ready taken (worker.enter stage) status sink pending count :=
  ⟨h.alive, h.sane, h.bytes, h.written⟩

/-- Going on to the next write of a batch keeps the invariant, and so does
finding that none is left. -/
theorem nextWrite_inv (batch : List (List U8)) (h : Ready taken worker status sink batch.flatten count)
    (hshutting : Shutting status call) (hcomplete : worker.reader.shutdownComplete = false) :
    StageInv enqueued taken (worker.nextWrite call count batch) status sink := by
  induction batch with
  | nil => exact ⟨h.enter _, hshutting, hcomplete⟩
  | cons bytes rest ih =>
      cases bytes with
      | nil => exact ih h
      | cons byte bytes => exact ⟨h.enter _, hshutting, hcomplete⟩

/-- Choosing the next write does not touch the reader. -/
theorem nextWrite_reader (worker : PersistenceWorker) (call : WorkerCall) (count : Nat) (batch : List (List U8)) :
    (worker.nextWrite call count batch).reader = worker.reader := by
  induction batch with
  | nil => rfl
  | cons bytes rest ih =>
      cases bytes with
      | nil => exact ih
      | cons byte bytes => rfl

/-- The end of the read loop; where it ends a shutdown, the queue was seen
empty after closure. -/
theorem afterRead_inv {batch : List (List U8)} (h : Ready taken worker status sink batch.flatten batch.length)
    (hshutting : Shutting status call)
    (hcomplete : worker.reader.shutdownComplete = true → call = .drainBatch ∧ batch = [])
    (hall : call = .shutdown → batch = [] → taken = enqueued) :
    StageInv enqueued taken (worker.afterRead call batch).2 status sink ∧
      (worker.afterRead call batch).2.reader = worker.reader := by
  cases batch with
  | nil =>
      cases call with
      | drainBatch => exact ⟨.inl (h.enter _), rfl⟩
      | shutdown =>
          have hopen : worker.reader.shutdownComplete = false := by
            rw [← Bool.not_eq_true]
            intro htrue
            cases (hcomplete htrue).1
          exact ⟨⟨h.enter _, hshutting rfl, hall rfl rfl, hopen⟩, rfl⟩
  | cons bytes rest =>
      have hopen : worker.reader.shutdownComplete = false := by
        rw [← Bool.not_eq_true]
        intro htrue
        cases (hcomplete htrue).2
      exact ⟨nextWrite_inv _ h hshutting hopen, nextWrite_reader _ _ _ _⟩

/-- The head of the read loop. An empty batch is read into, as batches have
room for one record. -/
theorem readNext_inv (enqueued : List JournalRecord) (call : WorkerCall) (hsize : size ≠ 0) {batch : List (List U8)}
    (h : Ready taken worker status sink batch.flatten batch.length) (hsane : worker.reader.poisoned = false)
    (hshutting : Shutting status call)
    (hcomplete : worker.reader.shutdownComplete = true → call = .drainBatch ∧ batch = []) :
    StageInv enqueued taken (worker.readNext size call batch).2 status sink ∧
      (worker.readNext size call batch).2.reader = worker.reader := by
  unfold PersistenceWorker.readNext
  by_cases hroom : batch.length < size
  · rw [if_pos hroom, hsane]
    exact ⟨⟨h.enter _, hshutting, hcomplete⟩, rfl⟩
  · rw [if_neg hroom]
    refine afterRead_inv h hshutting hcomplete fun _ hnil => ?_
    rw [hnil] at hroom
    exact absurd (Nat.pos_of_ne_zero hsize) hroom

/-- Starting to drain keeps the invariant, whatever call is under way. -/
theorem drainBatch_inv (enqueued : List JournalRecord) (call : WorkerCall) (hsize : size ≠ 0)
    (h : Ready taken worker status sink [] 0)
    (hsane : worker.reader.poisoned = false) (hshutting : Shutting status call)
    (hcomplete : worker.reader.shutdownComplete = true → call = .drainBatch) :
    StageInv enqueued taken (worker.drainBatch size call).2 status sink ∧
      (worker.drainBatch size call).2.reader = worker.reader := by
  unfold PersistenceWorker.drainBatch
  rw [h.alive]
  exact readNext_inv enqueued call hsize h hsane hshutting fun htrue => ⟨hcomplete htrue, rfl⟩

/-- The end of a batch keeps the invariant: a drain answers, a shutdown goes on
with the next batch. -/
theorem endBatch_inv (enqueued : List JournalRecord) (hsize : size ≠ 0) (h : Ready taken worker status sink [] 0)
    (hsane : worker.reader.poisoned = false) (hshutting : Shutting status call)
    (hcomplete : worker.reader.shutdownComplete = false) :
    StageInv enqueued taken (worker.endBatch size call count).2 status sink ∧
      (worker.endBatch size call count).2.reader = worker.reader := by
  cases call with
  | drainBatch => exact ⟨.inl (h.enter _), rfl⟩
  | shutdown =>
      refine drainBatch_inv enqueued .shutdown hsize h hsane hshutting fun htrue => ?_
      rw [hcomplete] at htrue
      cases htrue

/-- A worker that is dropped keeps the invariant of its stage. -/
theorem drop_inv (worker : PersistenceWorker) : StageInv enqueued taken worker.drop status sink := by
  unfold PersistenceWorker.drop
  cases hcomplete : worker.reader.shutdownComplete with
  | true => exact .inr hcomplete
  | false => exact hcomplete

end Local

/-! ### One step -/

namespace WorkerInput

/-- What the queue answers is the next record, or that there is none. -/
def Answers (enqueued taken : List JournalRecord) : WorkerInput → Prop
  | .popped record => taken ++ [record] <+: enqueued
  | .empty => taken = enqueued
  | _ => True

/-- The records an input takes from the queue. -/
def takes : WorkerInput → List JournalRecord
  | .popped record => [record]
  | _ => []

end WorkerInput

/-- A record in its turn is accepted. -/
theorem Stored.accept {reader : JournalReader} {record : JournalRecord}
    (h : Stored crc32c first enqueued taken reader status sink) (hnext : taken ++ [record] <+: enqueued) :
    ∃ next : U64, reader.accept crc32c record = (.ok record, { reader with expectedSequence := next }) ∧
      next.val = first.val + taken.length + 1 := by
  have hget := getElem?_of_append_prefix hnext
  obtain ⟨hsequence, hverify⟩ := h.sequenced _ _ hget
  have hlength := hnext.length_le
  rw [List.length_append, List.length_singleton] at hlength
  have hbound := h.counted
  have hexpected := h.expected
  have hsame : record.sequence = reader.expectedSequence := Fin.ext (by omega)
  have hlt : reader.expectedSequence.val + 1 < 2 ^ 64 := by omega
  have hadd : checkedAdd reader.expectedSequence 1 = some ⟨reader.expectedSequence.val + 1, hlt⟩ :=
    checkedAdd_eq_some.mpr rfl
  refine ⟨⟨reader.expectedSequence.val + 1, hlt⟩, ?_, by simp only; omega⟩
  unfold JournalReader.accept
  rw [if_neg (by simp [hverify]), if_neg (not_not_intro hsame), hadd]

/-- The popped record joins the batch. -/
theorem WorkerInv.popped {call : WorkerCall} {batch : List (List U8)} {record : JournalRecord}
    (h : WorkerInv crc32c size first enqueued taken worker status sink) (hstage : worker.stage = .popping call batch)
    (hnext : taken ++ [record] <+: enqueued) :
    WorkerInv crc32c size first enqueued (taken ++ [record]) (worker.afterPop crc32c size call batch record).2 status
      sink := by
  obtain ⟨stored, stage, built⟩ := h
  have hsize : size ≠ 0 := built (by rw [hstage]; rfl)
  simp only [StageInv, hstage] at stage
  obtain ⟨ready, hshutting, hcomplete⟩ := stage
  obtain ⟨next, haccept, hval⟩ := stored.accept hnext
  have hopen : worker.reader.shutdownComplete = false := by
    rw [← Bool.not_eq_true]
    intro htrue
    have hall := (stored.completed htrue).all
    have hlength := hnext.length_le
    rw [← hall, List.length_append, List.length_singleton] at hlength
    omega
  have hexpected := stored.expected
  have hwritten := ready.written
  simp only [PersistenceWorker.afterPop, haccept]
  have hready : Ready (taken ++ [record])
      { worker with reader := { worker.reader with expectedSequence := next } } status sink
      (batch ++ [record.encode]).flatten (batch ++ [record.encode]).length := by
    refine ⟨ready.alive, ready.sane, ?_, ?_⟩
    · rw [List.flatten_append, journalBytes_append, ← ready.bytes, journalBytes_singleton, List.append_assoc]
      simp
    · rw [List.length_append, List.length_singleton]
      simp only
      omega
  obtain ⟨hinv, hreader⟩ := readNext_inv enqueued call hsize hready stored.sane hshutting (by
    intro htrue
    simp only [hopen] at htrue
    cases htrue)
  refine ⟨?_, hinv, fun _ => hsize⟩
  rw [hreader]
  refine ⟨stored.sequenced, stored.counted, hnext, ?_, stored.sane, ?_, stored.flushed, stored.first_le,
    stored.durable_le, ?_, stored.writtenBytes, stored.durableBytes, stored.completion, ?_⟩
  · simp only [List.length_append, List.length_singleton]
    omega
  · rw [journalBytes_append]
    exact stored.content.trans (List.prefix_append _ _)
  · simp only
    omega
  · intro htrue
    simp only [hopen] at htrue
    cases htrue

/-- A turn of `write_all` moves bytes from what is pending to the sink. -/
theorem WorkerInv.written {call : WorkerCall} {count : Nat} {bytes : List U8} {rest : List (List U8)}
    (h : WorkerInv crc32c size first enqueued taken worker status sink)
    (hstage : worker.stage = .writing call count bytes rest) (response : WriteResponse) :
    WorkerInv crc32c size first enqueued taken (worker.afterWrite sink call count bytes rest response).1 status
      (worker.afterWrite sink call count bytes rest response).2 := by
  have hkeep := h
  obtain ⟨stored, stage, built⟩ := h
  have hsize : size ≠ 0 := built (by rw [hstage]; rfl)
  simp only [StageInv, hstage] at stage
  obtain ⟨ready, hshutting, hopen⟩ := stage
  cases response with
  | interrupted => exact hkeep
  | failed => exact ⟨stored, stageInv_fail _ hopen, fun _ => hsize⟩
  | ok written =>
      cases written with
      | zero => exact ⟨stored, stageInv_fail _ hopen, fun _ => hsize⟩
      | succ written =>
          have hbytes : sink.content ++ bytes.take (written + 1) ++ (bytes.drop (written + 1) ++ rest.flatten) =
              journalBytes taken := by
            rw [← ready.bytes, List.append_assoc, ← List.append_assoc (bytes.take _), List.take_append_drop]
          have hstored : Stored crc32c first enqueued taken worker.reader status
              { sink with content := sink.content ++ bytes.take (written + 1) } := by
            refine ⟨stored.sequenced, stored.counted, stored.inOrder, stored.expected, stored.sane, ⟨_, hbytes⟩,
              stored.flushed.trans (List.prefix_append _ _), stored.first_le, stored.durable_le, stored.written_le,
              ?_, stored.durableBytes, stored.completion, stored.completed⟩
            exact stored.writtenBytes.trans (List.prefix_append _ _).length_le
          unfold PersistenceWorker.afterWrite
          simp only
          split
          · refine ⟨by rw [nextWrite_reader]; exact hstored, ?_, fun _ => hsize⟩
            exact nextWrite_inv _ ⟨ready.alive, ready.sane, hbytes, ready.written⟩ hshutting hopen
          · exact ⟨hstored, stageInv_fail _ hopen, fun _ => hsize⟩

/-- With nothing pending the sink holds the journal. -/
theorem Ready.length_content {count : Nat} (h : Ready taken worker status sink [] count) :
    sink.content.length = taken.length * recordSize := by
  rw [← length_journalBytes, ← h.bytes, List.append_nil]

/-- Publishing what is completely written. -/
theorem Stored.publishWritten {reader : JournalReader} (h : Stored crc32c first enqueued taken reader status sink)
    (hcontent : sink.content.length = taken.length * recordSize) (hopen : reader.shutdownComplete = false) :
    Stored crc32c first enqueued taken reader { status with nextWrittenSequence := reader.expectedSequence } sink := by
  have hexpected := h.expected
  refine ⟨h.sequenced, h.counted, h.inOrder, h.expected, h.sane, h.content, h.flushed, h.first_le,
    h.durable_le.trans h.written_le, le_rfl, ?_, h.durableBytes, h.completion, ?_⟩
  · simp only
    rw [hexpected, Nat.add_sub_cancel_left, hcontent]
  · intro htrue
    rw [hopen] at htrue
    cases htrue

/-- Publishing what is completely flushed. -/
theorem Stored.publishDurable {reader : JournalReader} (h : Stored crc32c first enqueued taken reader status sink)
    (hcontent : sink.content.length = taken.length * recordSize) (hflushed : sink.flushed = sink.content)
    (hwritten : status.nextWrittenSequence.val = reader.expectedSequence.val)
    (hopen : reader.shutdownComplete = false) :
    Stored crc32c first enqueued taken reader { status with nextDurableSequence := reader.expectedSequence } sink := by
  have hexpected := h.expected
  have hfirst := h.first_le.trans (h.durable_le.trans h.written_le)
  refine ⟨h.sequenced, h.counted, h.inOrder, h.expected, h.sane, h.content, h.flushed, hfirst,
    hwritten.ge, h.written_le, h.writtenBytes, ?_, h.completion, ?_⟩
  · simp only
    rw [hexpected, Nat.add_sub_cancel_left, hflushed, hcontent]
  · intro htrue
    rw [hopen] at htrue
    cases htrue

/-- A successful flush covers all that was written. -/
theorem Stored.flush {reader : JournalReader} (h : Stored crc32c first enqueued taken reader status sink) :
    Stored crc32c first enqueued taken reader status { sink with flushed := sink.content } := by
  refine ⟨h.sequenced, h.counted, h.inOrder, h.expected, h.sane, h.content, List.prefix_rfl, h.first_le,
    h.durable_le, h.written_le, h.writtenBytes, ?_, h.completion, h.completed⟩
  exact h.durableBytes.trans h.flushed.length_le

/-- Poisoning contradicts completion only. -/
theorem Stored.poison {reader : JournalReader} (h : Stored crc32c first enqueued taken reader status sink)
    (hopen : reader.shutdownComplete = false) :
    Stored crc32c first enqueued taken reader { status with poisoned := true } sink := by
  refine ⟨h.sequenced, h.counted, h.inOrder, h.expected, h.sane, h.content, h.flushed, h.first_le,
    h.durable_le, h.written_le, h.writtenBytes, h.durableBytes, h.completion, ?_⟩
  intro htrue
  rw [hopen] at htrue
  cases htrue

/-- A load or store of a status word. -/
theorem WorkerInv.access {event : WorkerEvent} (h : WorkerInv crc32c size first enqueued taken worker status sink)
    (hstep : worker.advance crc32c size status sink .access = some (event, worker', status', sink')) :
    WorkerInv crc32c size first enqueued taken worker' status' sink' := by
  obtain ⟨stored, stage, built⟩ := h
  unfold PersistenceWorker.advance at hstep
  simp only at hstep
  unfold StageInv at stage
  split at hstep
  · -- the worker is built, or refused and its reader dropped
    rename_i hstage
    simp only [hstage] at stage
    split at hstep
    · cases hstep
      refine ⟨stored, drop_inv worker, fun houtside => ?_⟩
      rw [PersistenceWorker.drop, stage.2] at houtside
      cases houtside
    · rename_i haccepted
      cases hstep
      exact ⟨stored, .inl (stage.1.enter _), fun _ hzero => haccepted (.inl hzero)⟩
  · rename_i hstage
    simp only [hstage] at stage
  · rename_i hstage
    have hsize : size ≠ 0 := built (by rw [hstage]; rfl)
    simp only [hstage] at stage
    obtain ⟨ready, hshutting, hopen⟩ := stage
    have hstored := stored.publishWritten ready.length_content hopen
    have hready : Ready taken worker { status with nextWrittenSequence := worker.reader.expectedSequence } sink [] 0 :=
      ⟨ready.alive, ready.sane, ready.bytes, rfl⟩
    split at hstep
    · cases hstep
      exact ⟨hstored, ⟨hready.enter _, hshutting, hopen⟩, fun _ => hsize⟩
    · cases hstep
      obtain ⟨hinv, hreader⟩ := endBatch_inv enqueued hsize hready stored.sane hshutting hopen
      exact ⟨by rw [hreader]; exact hstored, hinv, fun _ => hsize⟩
  · rename_i hstage
    have hsize : size ≠ 0 := built (by rw [hstage]; rfl)
    simp only [hstage] at stage
    obtain ⟨ready, hshutting, hopen, hflushed⟩ := stage
    have hstored := stored.publishDurable ready.length_content hflushed ready.written hopen
    have hready : Ready taken worker { status with nextDurableSequence := worker.reader.expectedSequence } sink [] 0 :=
      ⟨ready.alive, ready.sane, ready.bytes, ready.written⟩
    cases hstep
    obtain ⟨hinv, hreader⟩ := endBatch_inv enqueued hsize hready stored.sane hshutting hopen
    exact ⟨by rw [hreader]; exact hstored, hinv, fun _ => hsize⟩
  · rename_i hstage
    have hsize : size ≠ 0 := built (by rw [hstage]; rfl)
    simp only [hstage] at stage
    obtain ⟨ready, hopen⟩ := stage
    split at hstep
    · rename_i hclosed
      cases hstep
      obtain ⟨hinv, hreader⟩ := drainBatch_inv enqueued .shutdown hsize ready stored.sane
        (fun _ => hclosed) fun htrue => by rw [hopen] at htrue; cases htrue
      exact ⟨by rw [hreader]; exact stored, hinv, fun _ => hsize⟩
    · cases hstep
      exact ⟨stored, .inl (ready.enter _), fun _ => hsize⟩
  · rename_i hstage
    have hsize : size ≠ 0 := built (by rw [hstage]; rfl)
    simp only [hstage] at stage
    obtain ⟨ready, hclosed, hall, hopen, hflushed⟩ := stage
    cases hstep
    exact ⟨stored.publishDurable ready.length_content hflushed ready.written hopen,
      ⟨⟨ready.alive, ready.sane, ready.bytes, ready.written⟩, hclosed, hall, hopen, rfl⟩, fun _ => hsize⟩
  · -- completion publishes what the final stage established
    rename_i hstage
    have hsize : size ≠ 0 := built (by rw [hstage]; rfl)
    simp only [hstage] at stage
    obtain ⟨ready, hclosed, hall, hopen, hdurable⟩ := stage
    cases hstep
    refine ⟨⟨stored.sequenced, stored.counted, stored.inOrder, stored.expected, stored.sane, stored.content,
      stored.flushed, stored.first_le, stored.durable_le, stored.written_le, stored.writtenBytes, stored.durableBytes,
      rfl, fun _ => ⟨hclosed, ready.sane, Fin.ext ready.written, hdurable, hall⟩⟩,
      .inl ⟨ready.alive, ready.sane, ready.bytes, ready.written⟩, fun _ => hsize⟩
  · rename_i hstage
    have hsize : size ≠ 0 := built (by rw [hstage]; rfl)
    simp only [hstage] at stage
    cases hstep
    exact ⟨stored.poison stage.2, .inr ⟨stage.1, rfl, stage.2⟩, fun _ => hsize⟩
  · rename_i hstage
    simp only [hstage] at stage
    cases hstep
    exact ⟨stored.poison stage, .inl rfl, fun houtside => (nomatch houtside)⟩
  · cases hstep

/-- Every step of the worker keeps the invariant, when the queue answers
truly. -/
theorem WorkerInv.advance {input : WorkerInput} {event : WorkerEvent}
    (h : WorkerInv crc32c size first enqueued taken worker status sink) (hinput : input.Answers enqueued taken)
    (hstep : worker.advance crc32c size status sink input = some (event, worker', status', sink')) :
    WorkerInv crc32c size first enqueued (taken ++ input.takes) worker' status' sink' := by
  have hkeep := h
  obtain ⟨stored, stage, built⟩ := h
  cases input with
  | access =>
      simp only [WorkerInput.takes, List.append_nil]
      exact hkeep.access hstep
  | drainBatch =>
      simp only [WorkerInput.takes, List.append_nil]
      unfold PersistenceWorker.advance at hstep
      simp only at hstep
      split at hstep
      · rename_i hstage
        have hsize : size ≠ 0 := built (by rw [hstage]; rfl)
        simp only [StageInv, hstage] at stage
        cases hstep
        rcases stage with ready | ⟨hpoisoned, hstatus, hopen⟩
        · obtain ⟨hinv, hreader⟩ := drainBatch_inv enqueued .drainBatch hsize ready stored.sane
            (fun hcall => (nomatch hcall)) fun _ => rfl
          exact ⟨by rw [hreader]; exact stored, hinv, fun _ => hsize⟩
        · unfold PersistenceWorker.drainBatch
          rw [hpoisoned]
          exact ⟨stored, .inr ⟨hpoisoned, hstatus, hopen⟩, fun _ => hsize⟩
      · cases hstep
  | shutdown =>
      simp only [WorkerInput.takes, List.append_nil]
      unfold PersistenceWorker.advance at hstep
      simp only at hstep
      split at hstep
      · rename_i hstage
        have hsize : size ≠ 0 := built (by rw [hstage]; rfl)
        split at hstep
        · cases hstep
          exact hkeep
        · split at hstep
          · cases hstep
            exact hkeep
          · rename_i hpoisoned hopen
            cases hstep
            simp only [StageInv, hstage] at stage
            rcases stage with ready | ⟨hover, _⟩
            · exact ⟨stored, ⟨ready.enter _, Bool.eq_false_of_not_eq_true hopen⟩, fun _ => hsize⟩
            · exact absurd hover hpoisoned
      · cases hstep
  | drop =>
      simp only [WorkerInput.takes, List.append_nil]
      have houtside : worker.drop.stage.outside = true := by
        unfold PersistenceWorker.drop PersistenceWorker.enter
        cases worker.reader.shutdownComplete <;> rfl
      have hdropped : WorkerInv crc32c size first enqueued taken worker.drop status sink :=
        ⟨stored, drop_inv worker, fun h => by rw [houtside] at h; cases h⟩
      unfold PersistenceWorker.advance at hstep
      simp only at hstep
      split at hstep
      · cases hstep
        exact hdropped
      · cases hstep
        exact hdropped
      · cases hstep
  | popped record =>
      unfold PersistenceWorker.advance at hstep
      simp only at hstep
      split at hstep
      · rename_i hstage
        cases hstep
        exact hkeep.popped hstage hinput
      · cases hstep
  | empty =>
      simp only [WorkerInput.takes, List.append_nil]
      unfold PersistenceWorker.advance at hstep
      simp only at hstep
      split at hstep
      · rename_i hstage
        have hsize : size ≠ 0 := built (by rw [hstage]; rfl)
        simp only [StageInv, hstage] at stage
        obtain ⟨ready, hshutting, hcomplete⟩ := stage
        cases hstep
        obtain ⟨hinv, hreader⟩ := afterRead_inv ready hshutting hcomplete fun _ _ => hinput
        exact ⟨by rw [hreader]; exact stored, hinv, fun _ => hsize⟩
      · cases hstep
  | written response =>
      simp only [WorkerInput.takes, List.append_nil]
      unfold PersistenceWorker.advance at hstep
      simp only at hstep
      split at hstep
      · rename_i hstage
        cases hstep
        exact hkeep.written hstage response
      · cases hstep
  | flushed ok =>
      simp only [WorkerInput.takes, List.append_nil]
      unfold PersistenceWorker.advance at hstep
      simp only at hstep
      split at hstep
      · rename_i hstage
        have hsize : size ≠ 0 := built (by rw [hstage]; rfl)
        simp only [StageInv, hstage] at stage
        obtain ⟨ready, hshutting, hopen⟩ := stage
        split at hstep
        · cases hstep
          exact ⟨stored.flush, ⟨⟨ready.alive, ready.sane, ready.bytes, ready.written⟩, hshutting, hopen, rfl⟩,
            fun _ => hsize⟩
        · cases hstep
          exact ⟨stored, stageInv_fail _ hopen, fun _ => hsize⟩
      · rename_i hstage
        have hsize : size ≠ 0 := built (by rw [hstage]; rfl)
        simp only [StageInv, hstage] at stage
        obtain ⟨ready, hclosed, hall, hopen⟩ := stage
        split at hstep
        · cases hstep
          exact ⟨stored.flush, ⟨⟨ready.alive, ready.sane, ready.bytes, ready.written⟩, hclosed, hall, hopen, rfl⟩,
            fun _ => hsize⟩
        · cases hstep
          exact ⟨stored, stageInv_fail _ hopen, fun _ => hsize⟩
      · cases hstep

/-! ### The producer -/

/-- A record enqueued before closure. -/
theorem WorkerInv.enqueue {record : JournalRecord} (h : WorkerInv crc32c size first enqueued taken worker status sink)
    (hopen : status.producerClosed = false) (hsequence : record.sequence.val = first.val + enqueued.length)
    (hverify : record.verify crc32c = true) (hroom : first.val + (enqueued.length + 1) < 2 ^ 64) :
    WorkerInv crc32c size first (enqueued ++ [record]) taken worker status sink := by
  obtain ⟨stored, stage, built⟩ := h
  have hnot : status.producerClosed ≠ true := by
    rw [hopen]
    exact Bool.noConfusion
  refine ⟨⟨stored.sequenced.append hsequence hverify, by simpa using hroom,
    stored.inOrder.trans (List.prefix_append _ _), stored.expected, stored.sane, stored.content, stored.flushed,
    stored.first_le, stored.durable_le, stored.written_le, stored.writtenBytes, stored.durableBytes,
    stored.completion, fun htrue => absurd (stored.completed htrue).closed hnot⟩, ?_, built⟩
  unfold StageInv at stage ⊢
  cases hstage : worker.stage with
  | finalFlushing =>
      simp only [hstage] at stage
      exact absurd stage.2.1 hnot
  | finalDurable =>
      simp only [hstage] at stage
      exact absurd stage.2.1 hnot
  | completing =>
      simp only [hstage] at stage
      exact absurd stage.2.1 hnot
  | poisoningReader call error => simp only [hstage] at stage
  | _ =>
      simp only [hstage] at stage
      exact stage

/-- Closure only adds what a shutdown waits for. -/
theorem WorkerInv.close (h : WorkerInv crc32c size first enqueued taken worker status sink) :
    WorkerInv crc32c size first enqueued taken worker { status with producerClosed := true } sink := by
  obtain ⟨stored, stage, built⟩ := h
  have hready : ∀ {pending : List U8} {count : Nat}, Ready taken worker status sink pending count →
      Ready taken worker { status with producerClosed := true } sink pending count :=
    fun ready => ⟨ready.alive, ready.sane, ready.bytes, ready.written⟩
  refine ⟨⟨stored.sequenced, stored.counted, stored.inOrder, stored.expected, stored.sane, stored.content,
    stored.flushed, stored.first_le, stored.durable_le, stored.written_le, stored.writtenBytes, stored.durableBytes,
    stored.completion, fun htrue => ?_⟩, ?_, built⟩
  · obtain ⟨_, hsane, hwritten, hdurable, hall⟩ := stored.completed htrue
    exact ⟨rfl, hsane, hwritten, hdurable, hall⟩
  · unfold StageInv at stage ⊢
    cases hstage : worker.stage with
    | unbuilt =>
        simp only [hstage] at stage
        exact ⟨hready stage.1, stage.2⟩
    | idle =>
        simp only [hstage] at stage
        exact stage.imp hready id
    | popping call batch =>
        simp only [hstage] at stage
        exact ⟨hready stage.1, fun _ => rfl, stage.2.2⟩
    | poisoningReader call error => simp only [hstage] at stage
    | writing call count bytes rest =>
        simp only [hstage] at stage
        exact ⟨hready stage.1, fun _ => rfl, stage.2.2⟩
    | publishingWritten call count =>
        simp only [hstage] at stage
        exact ⟨hready stage.1, fun _ => rfl, stage.2.2⟩
    | flushing call count =>
        simp only [hstage] at stage
        exact ⟨hready stage.1, fun _ => rfl, stage.2.2⟩
    | publishingDurable call count =>
        simp only [hstage] at stage
        exact ⟨hready stage.1, fun _ => rfl, stage.2.2⟩
    | loadingClosed =>
        simp only [hstage] at stage
        exact ⟨hready stage.1, stage.2⟩
    | finalFlushing =>
        simp only [hstage] at stage
        exact ⟨hready stage.1, rfl, stage.2.2⟩
    | finalDurable =>
        simp only [hstage] at stage
        exact ⟨hready stage.1, rfl, stage.2.2⟩
    | completing =>
        simp only [hstage] at stage
        exact ⟨hready stage.1, rfl, stage.2.2⟩
    | failing call error =>
        simp only [hstage] at stage
        exact stage
    | dropping =>
        simp only [hstage] at stage
        exact stage
    | dropped =>
        simp only [hstage] at stage
        exact stage

/-! ### Failure -/

/-- Once the channel is poisoned it stays so, and nothing more is written. -/
theorem WorkerInv.silent {input : WorkerInput} {event : WorkerEvent}
    (h : WorkerInv crc32c size first enqueued taken worker status sink) (hpoisoned : status.poisoned = true)
    (hstep : worker.advance crc32c size status sink input = some (event, worker', status', sink')) :
    status'.poisoned = true ∧ sink'.content = sink.content := by
  have hready : ∀ {pending : List U8} {count : Nat}, ¬Ready taken worker status sink pending count := by
    intro pending count ready
    rw [ready.sane] at hpoisoned
    cases hpoisoned
  have stage := h.stage
  unfold StageInv at stage
  cases hstage : worker.stage with
  | idle =>
      unfold PersistenceWorker.advance at hstep
      cases input <;> simp only [hstage, reduceCtorEq] at hstep
      · cases hstep
        exact ⟨hpoisoned, rfl⟩
      · split at hstep
        · cases hstep
          exact ⟨hpoisoned, rfl⟩
        · split at hstep
          · cases hstep
            exact ⟨hpoisoned, rfl⟩
          · cases hstep
            exact ⟨hpoisoned, rfl⟩
      · cases hstep
        exact ⟨hpoisoned, rfl⟩
  | failing call error =>
      unfold PersistenceWorker.advance at hstep
      cases input <;> simp only [hstage, reduceCtorEq] at hstep
      cases hstep
      exact ⟨rfl, rfl⟩
  | dropping =>
      unfold PersistenceWorker.advance at hstep
      cases input <;> simp only [hstage, reduceCtorEq] at hstep
      cases hstep
      exact ⟨rfl, rfl⟩
  | dropped =>
      unfold PersistenceWorker.advance at hstep
      cases input <;> simp only [hstage, reduceCtorEq] at hstep
  | poisoningReader call error => simp only [hstage] at stage
  | _ =>
      simp only [hstage] at stage
      exact absurd stage.1 hready

/-- A call returned a worker failure; `ProducerOpen` asks to come back
later. -/
def WorkerEvent.isFailure : WorkerEvent → Bool
  | .drained (.error _) => true
  | .shutDown (.error error) => decide (error ≠ .producerOpen)
  | _ => false

section Events

variable {call : WorkerCall} {count : Nat} {batch : List (List U8)}

/-- Going on after a read reports no failure. -/
theorem afterRead_quiet : (worker.afterRead call batch).1.isFailure = false := by
  cases batch <;> cases call <;> rfl

/-- Asking for the next record reports no failure. -/
theorem readNext_quiet : (worker.readNext size call batch).1.isFailure = false := by
  unfold PersistenceWorker.readNext
  split
  · split <;> rfl
  · exact afterRead_quiet

/-- Starting to drain reports no failure unless the worker is poisoned. -/
theorem drainBatch_quiet (halive : worker.poisoned = false) :
    (worker.drainBatch size call).1.isFailure = false := by
  unfold PersistenceWorker.drainBatch
  rw [halive]
  exact readNext_quiet

/-- The end of a batch reports no failure unless the worker is poisoned. -/
theorem endBatch_quiet (halive : worker.poisoned = false) :
    (worker.endBatch size call count).1.isFailure = false := by
  cases call with
  | drainBatch => rfl
  | shutdown => exact drainBatch_quiet halive

/-- A record that was taken from the queue is buffered without a failure of the
worker. -/
theorem afterPop_quiet {record : JournalRecord} :
    (worker.afterPop crc32c size call batch record).1.isFailure = false := by
  unfold PersistenceWorker.afterPop
  split
  · exact readNext_quiet
  · rfl

end Events

/-- A public call that reports a failure leaves the channel poisoned. -/
theorem WorkerInv.failed {input : WorkerInput} {event : WorkerEvent}
    (h : WorkerInv crc32c size first enqueued taken worker status sink)
    (hstep : worker.advance crc32c size status sink input = some (event, worker', status', sink'))
    (hevent : event.isFailure = true) : status'.poisoned = true := by
  have stage := h.stage
  unfold StageInv at stage
  have hquiet : ∀ {other : WorkerEvent}, other.isFailure = false → other ≠ event := by
    rintro other hother rfl
    rw [hother] at hevent
    cases hevent
  unfold PersistenceWorker.advance at hstep
  cases input with
  | drainBatch =>
      simp only at hstep
      split at hstep
      · rename_i hstage
        simp only [hstage] at stage
        cases hstep
        rcases stage with ready | ⟨_, hstatus, _⟩
        · exact absurd rfl (hquiet (drainBatch_quiet ready.alive))
        · exact hstatus
      · cases hstep
  | shutdown =>
      simp only at hstep
      split at hstep
      · rename_i hstage
        simp only [hstage] at stage
        split at hstep
        · rename_i hpoisoned
          cases hstep
          rcases stage with ready | ⟨_, hstatus, _⟩
          · rw [ready.alive] at hpoisoned
            cases hpoisoned
          · exact hstatus
        · split at hstep <;> cases hstep <;> cases hevent
      · cases hstep
  | drop =>
      simp only at hstep
      split at hstep <;> cases hstep <;> cases hevent
  | popped record =>
      simp only at hstep
      split at hstep
      · cases hstep
        exact absurd rfl (hquiet afterPop_quiet)
      · cases hstep
  | empty =>
      simp only at hstep
      split at hstep
      · cases hstep
        exact absurd rfl (hquiet afterRead_quiet)
      · cases hstep
  | written response =>
      simp only at hstep
      split at hstep <;> cases hstep
      cases hevent
  | flushed ok =>
      simp only at hstep
      split at hstep
      · split at hstep <;> cases hstep <;> cases hevent
      · split at hstep <;> cases hstep <;> cases hevent
      · cases hstep
  | access =>
      simp only at hstep
      split at hstep
      · split at hstep <;> cases hstep <;> cases hevent
      · cases hstep
        rfl
      · rename_i hstage
        simp only [hstage] at stage
        split at hstep
        · cases hstep
          cases hevent
        · cases hstep
          exact absurd rfl (hquiet (endBatch_quiet stage.1.alive))
      · rename_i hstage
        simp only [hstage] at stage
        cases hstep
        exact absurd rfl (hquiet (endBatch_quiet stage.1.alive))
      · rename_i hstage
        simp only [hstage] at stage
        split at hstep
        · cases hstep
          exact absurd rfl (hquiet (drainBatch_quiet stage.1.alive))
        · cases hstep
          cases hevent
      · cases hstep
        cases hevent
      · cases hstep
        cases hevent
      · cases hstep
        rfl
      · cases hstep
        rfl
      · cases hstep

/-! ### The status words -/

/-- Watermarks and flags only move forward, and the worker does not touch the
producer's. -/
structure Forward (status status' : StatusState) : Prop where
  written : status.nextWrittenSequence.val ≤ status'.nextWrittenSequence.val
  durable : status.nextDurableSequence.val ≤ status'.nextDurableSequence.val
  poisoned : status.poisoned = true → status'.poisoned = true
  complete : status.shutdownComplete = true → status'.shutdownComplete = true

theorem Forward.refl (status : StatusState) : Forward status status := ⟨le_rfl, le_rfl, id, id⟩

/-- A step of the worker moves the published marks forward and never opens the
producer again. -/
theorem WorkerInv.forward {input : WorkerInput} {event : WorkerEvent}
    (h : WorkerInv crc32c size first enqueued taken worker status sink)
    (hstep : worker.advance crc32c size status sink input = some (event, worker', status', sink')) :
    Forward status status' ∧ status'.producerClosed = status.producerClosed := by
  have hwritten := h.stored.written_le
  have hdurable := h.stored.durable_le.trans hwritten
  unfold PersistenceWorker.advance at hstep
  cases input with
  | access =>
      simp only at hstep
      split at hstep
      · split at hstep <;> cases hstep <;> exact ⟨Forward.refl _, rfl⟩
      · cases hstep
        exact ⟨⟨le_rfl, le_rfl, fun _ => rfl, id⟩, rfl⟩
      · split at hstep <;> cases hstep <;> exact ⟨⟨hwritten, le_rfl, id, id⟩, rfl⟩
      · cases hstep
        exact ⟨⟨le_rfl, hdurable, id, id⟩, rfl⟩
      · split at hstep <;> cases hstep <;> exact ⟨Forward.refl _, rfl⟩
      · cases hstep
        exact ⟨⟨le_rfl, hdurable, id, id⟩, rfl⟩
      · cases hstep
        exact ⟨⟨le_rfl, le_rfl, id, fun _ => rfl⟩, rfl⟩
      · cases hstep
        exact ⟨⟨le_rfl, le_rfl, fun _ => rfl, id⟩, rfl⟩
      · cases hstep
        exact ⟨⟨le_rfl, le_rfl, fun _ => rfl, id⟩, rfl⟩
      · cases hstep
  | flushed ok =>
      simp only at hstep
      split at hstep
      · split at hstep <;> cases hstep <;> exact ⟨Forward.refl _, rfl⟩
      · split at hstep <;> cases hstep <;> exact ⟨Forward.refl _, rfl⟩
      · cases hstep
  | shutdown =>
      simp only at hstep
      split at hstep
      · split at hstep
        · cases hstep
          exact ⟨Forward.refl _, rfl⟩
        · split at hstep <;> cases hstep <;> exact ⟨Forward.refl _, rfl⟩
      · cases hstep
  | _ =>
      simp only at hstep
      split at hstep <;> cases hstep <;> exact ⟨Forward.refl _, rfl⟩

/-! ### Readers -/

/-- What a `snapshot` in progress has loaded: the durable mark was loaded
before the written one, and after completion was seen every word is final. -/
def ReadingInv (final : U64) (status : StatusState) : StatusReading → Prop
  | .idle => True
  | .completion complete => complete = true → status.shutdownComplete = true
  | .durable complete durable =>
      durable.val ≤ status.nextDurableSequence.val ∧
        (complete = true → status.shutdownComplete = true ∧ durable = final)
  | .written complete durable written =>
      durable.val ≤ written.val ∧
        (complete = true → status.shutdownComplete = true ∧ durable = final ∧ written = final)
  | .closed complete durable written closed =>
      durable.val ≤ written.val ∧ (complete = true →
        status.shutdownComplete = true ∧ durable = final ∧ written = final ∧ closed = true)

/-- What a returned `snapshot` says. -/
structure Shown (final : U64) (status : StatusState) (shown : JournalStatus) : Prop where
  ordered : shown.nextDurableSequence.val ≤ shown.nextWrittenSequence.val
  complete : shown.shutdownComplete = true → status.shutdownComplete = true ∧ shown.producerClosed = true ∧
    shown.poisoned = false ∧ shown.nextWrittenSequence = final ∧ shown.nextDurableSequence = final

/-- A reading that has seen part of the fields stays below what the fields
become. -/
theorem ReadingInv.forward {final : U64} {status status' : StatusState} {reading : StatusReading}
    (h : ReadingInv final status reading) (hforward : Forward status status') : ReadingInv final status' reading := by
  cases reading with
  | idle => trivial
  | completion complete => exact fun htrue => hforward.complete (h htrue)
  | durable complete durable =>
      exact ⟨h.1.trans hforward.durable, fun htrue => ⟨hforward.complete (h.2 htrue).1, (h.2 htrue).2⟩⟩
  | written complete durable written =>
      exact ⟨h.1, fun htrue => ⟨hforward.complete (h.2 htrue).1, (h.2 htrue).2⟩⟩
  | closed complete durable written closed =>
      exact ⟨h.1, fun htrue => ⟨hforward.complete (h.2 htrue).1, (h.2 htrue).2⟩⟩

/-- Before completion no reader holds final words. -/
theorem ReadingInv.unfinished {final final' : U64} {status : StatusState} {reading : StatusReading}
    (h : ReadingInv final status reading) (hopen : status.shutdownComplete = false) :
    ReadingInv final' status reading := by
  have hnot : status.shutdownComplete ≠ true := by
    rw [hopen]
    exact Bool.noConfusion
  cases reading with
  | idle => trivial
  | completion complete => exact h
  | durable complete durable => exact ⟨h.1, fun htrue => absurd (h.2 htrue).1 hnot⟩
  | written complete durable written => exact ⟨h.1, fun htrue => absurd (h.2 htrue).1 hnot⟩
  | closed complete durable written closed => exact ⟨h.1, fun htrue => absurd (h.2 htrue).1 hnot⟩

/-- A status that was shown stays below the fields as they move on. -/
theorem Shown.forward {final : U64} {status status' : StatusState} {shown : JournalStatus}
    (h : Shown final status shown) (hforward : Forward status status') : Shown final status' shown :=
  ⟨h.ordered, fun htrue => ⟨hforward.complete (h.complete htrue).1, (h.complete htrue).2⟩⟩

/-- A status shown before the shutdown is complete claims nothing about the
final number. -/
theorem Shown.unfinished {final final' : U64} {status : StatusState} {shown : JournalStatus}
    (h : Shown final status shown) (hopen : status.shutdownComplete = false) : Shown final' status shown := by
  refine ⟨h.ordered, fun htrue => ?_⟩
  have hcomplete := (h.complete htrue).1
  rw [hopen] at hcomplete
  cases hcomplete

/-- The next load keeps what was loaded true. -/
theorem ReadingInv.load {final : U64} {reading : StatusReading} (h : ReadingInv final status reading)
    (hordered : status.nextDurableSequence.val ≤ status.nextWrittenSequence.val)
    (hfinal : status.shutdownComplete = true → status.producerClosed = true ∧ status.poisoned = false ∧
      status.nextWrittenSequence = final ∧ status.nextDurableSequence = final) :
    ReadingInv final status (reading.load status).2 ∧
      ∀ shown, (reading.load status).1 = some shown → Shown final status shown := by
  cases reading with
  | idle => exact ⟨fun htrue => htrue, fun shown hshown => (nomatch hshown)⟩
  | completion complete =>
      refine ⟨⟨le_rfl, fun htrue => ?_⟩, fun shown hshown => (nomatch hshown)⟩
      exact ⟨h htrue, (hfinal (h htrue)).2.2.2⟩
  | durable complete durable =>
      refine ⟨⟨h.1.trans hordered, fun htrue => ?_⟩, fun shown hshown => (nomatch hshown)⟩
      obtain ⟨hcomplete, hdurable⟩ := h.2 htrue
      exact ⟨hcomplete, hdurable, (hfinal hcomplete).2.2.1⟩
  | written complete durable written =>
      refine ⟨⟨h.1, fun htrue => ?_⟩, fun shown hshown => (nomatch hshown)⟩
      obtain ⟨hcomplete, hdurable, hwritten⟩ := h.2 htrue
      exact ⟨hcomplete, hdurable, hwritten, (hfinal hcomplete).1⟩
  | closed complete durable written closed =>
      refine ⟨trivial, fun shown hshown => ?_⟩
      cases hshown
      refine ⟨h.1, fun htrue => ?_⟩
      obtain ⟨hcomplete, hdurable, hwritten, hclosed⟩ := h.2 htrue
      exact ⟨hcomplete, hclosed, (hfinal hcomplete).2.1, hwritten, hdurable⟩

end HftEngine
