/-
Module: HftEngine.Proofs.Retransmit
Layer: Proofs
Purpose: The retransmission buffer against the whole history of its calls: what
  it retains are the accepted frames that no later confirmation covered, in
  order and with their bytes.
Imports: HftEngine.Core.Session, HftEngine.Lib.Transition
Trusted boundary: none (fully proved)
Main exports: RetransmitCall, RetransmitBuffer.call, unconfirmed,
  retransmit_retains_unconfirmed
-/
import HftEngine.Core.Session
import HftEngine.Lib.Transition

namespace HftEngine

open Machine Transition

/-! ### Calls and their history -/

/-- The calls of the buffer in a run. -/
inductive RetransmitCall where
  | retain (sequence : SequenceNumber) (bytes : List U8)
  | confirmThrough (confirmed : U64)
deriving DecidableEq, Repr

/-- The answer of each call. -/
inductive RetransmitAnswer where
  | retained (result : Except RetainError Unit)
  | dropped (count : Nat)
deriving DecidableEq

/-- A run with its answers, first call first. -/
abbrev RetransmitHistory := List (RetransmitCall × RetransmitAnswer)

/-- One call as a step of the buffer. Nothing in it can panic. -/
def RetransmitBuffer.call (buffer : RetransmitBuffer) : RetransmitCall → Option (RetransmitAnswer × RetransmitBuffer)
  | .retain sequence bytes =>
      let (result, buffer) := buffer.retain sequence bytes
      some (.retained result, buffer)
  | .confirmThrough confirmed =>
      let (count, buffer) := buffer.confirmThrough confirmed
      some (.dropped count, buffer)

/-- A call confirms a sequence. -/
def confirms (sequence : SequenceNumber) : RetransmitCall × RetransmitAnswer → Bool
  | (.confirmThrough confirmed, _) => decide (sequence.val ≤ confirmed.val)
  | _ => false

/-- The accepted frames of a history that no confirmation after their
acceptance covers. -/
def unconfirmed : RetransmitHistory → List (SequenceNumber × List U8)
  | [] => []
  | (.retain sequence bytes, .retained (.ok ())) :: later =>
      if later.any (confirms sequence) then unconfirmed later else (sequence, bytes) :: unconfirmed later
  | _ :: later => unconfirmed later

/-- A retained frame as its sequence number and its payload. -/
def RetainedFrame.content (frame : RetainedFrame) : SequenceNumber × List U8 := (frame.sequence, frame.slice)

/-! ### Histories -/

section Histories

variable {history : RetransmitHistory}

/-- A call that retains nothing adds nothing to what awaits confirmation. -/
theorem unconfirmed_cons_of_not_accepted {event : RetransmitCall × RetransmitAnswer}
    (h : ∀ sequence bytes, event ≠ (.retain sequence bytes, .retained (.ok ()))) :
    unconfirmed (event :: history) = unconfirmed history := by
  obtain ⟨call, answer⟩ := event
  cases call with
  | confirmThrough confirmed => rfl
  | retain sequence bytes =>
      cases answer with
      | dropped count => rfl
      | retained result =>
          cases result with
          | error error => rfl
          | ok value => exact absurd rfl (h sequence bytes)

/-- What an event that confirms nothing leaves of the frames before it. -/
theorem unconfirmed_append {event : RetransmitCall × RetransmitAnswer}
    (h : ∀ sequence, confirms sequence event = false) :
    unconfirmed (history ++ [event]) = unconfirmed history ++ unconfirmed [event] := by
  induction history with
  | nil => rfl
  | cons first history ih =>
      by_cases haccepted : ∃ sequence bytes, first = (.retain sequence bytes, .retained (.ok ()))
      · obtain ⟨sequence, bytes, rfl⟩ := haccepted
        simp only [List.cons_append, unconfirmed, List.any_append, List.any_cons, List.any_nil, h, Bool.or_false, ih]
        split <;> rfl
      · simp only [not_exists] at haccepted
        rw [List.cons_append, unconfirmed_cons_of_not_accepted haccepted, unconfirmed_cons_of_not_accepted haccepted, ih]

/-- A confirmation takes away the frames it covers. -/
theorem unconfirmed_append_confirmThrough (confirmed : U64) (answer : RetransmitAnswer) :
    unconfirmed (history ++ [(.confirmThrough confirmed, answer)])
      = (unconfirmed history).filter fun frame => decide (confirmed.val < frame.1.val) := by
  induction history with
  | nil => rfl
  | cons first history ih =>
      by_cases haccepted : ∃ sequence bytes, first = (.retain sequence bytes, .retained (.ok ()))
      · obtain ⟨sequence, bytes, rfl⟩ := haccepted
        simp only [List.cons_append, unconfirmed, List.any_append, List.any_cons, List.any_nil, confirms, Bool.or_false,
          ih]
        by_cases hlater : history.any (confirms sequence) = true
        · simp [hlater]
        · by_cases hcovered : sequence.val ≤ confirmed.val
          · rw [if_neg hlater, List.filter_cons_of_neg (by simpa using hcovered), if_pos (by simp [hcovered])]
          · rw [if_neg hlater, List.filter_cons_of_pos (by simpa using hcovered), if_neg (by simp [hlater, hcovered])]
      · simp only [not_exists] at haccepted
        rw [List.cons_append, unconfirmed_cons_of_not_accepted haccepted, unconfirmed_cons_of_not_accepted haccepted, ih]

end Histories

/-! ### The buffer -/

section Buffer

variable {buffer buffer' : RetransmitBuffer} {history : RetransmitHistory} {capacity : Nat}

/-- The copy of a payload that fits gives the payload back. -/
theorem slice_stored {bytes : List U8} (sequence : SequenceNumber) (h : bytes.length ≤ maxFrame) :
    (⟨sequence, RetransmitBuffer.stored bytes, bytes.length⟩ : RetainedFrame).slice = bytes := by
  unfold RetainedFrame.slice RetransmitBuffer.stored
  refine List.ext_getElem ?_ ?_
  · simpa using h
  · intro index hfirst hsecond
    simp [hsecond]

/-- The loop drops the confirmed front. -/
theorem dropConfirmed_eq (confirmed : U64) (entries : List RetainedFrame) (dropped : Nat) :
    RetransmitBuffer.dropConfirmed confirmed entries dropped
      = (dropped + (entries.takeWhile fun frame => decide (frame.sequence.val ≤ confirmed.val)).length,
          entries.dropWhile fun frame => decide (frame.sequence.val ≤ confirmed.val)) := by
  induction entries generalizing dropped with
  | nil => rfl
  | cons frame entries ih =>
      unfold RetransmitBuffer.dropConfirmed
      by_cases hcovered : frame.sequence.val ≤ confirmed.val
      · rw [if_pos hcovered, ih, List.takeWhile_cons_of_pos (by simpa using hcovered),
          List.dropWhile_cons_of_pos (by simpa using hcovered), List.length_cons]
        congr 1
        omega
      · rw [if_neg hcovered, List.takeWhile_cons_of_neg (by simpa using hcovered),
          List.dropWhile_cons_of_neg (by simpa using hcovered)]
        rfl

/-- What a buffer that retains a history keeps: consecutive sequences up to the
next one, within the capacity, with exactly the unconfirmed frames. -/
structure Retains (capacity : Nat) (history : RetransmitHistory) (buffer : RetransmitBuffer) : Prop where
  first : ∃ first, buffer.entries.map (fun frame => frame.sequence.val) = List.range' first buffer.entries.length ∧
    first + buffer.entries.length = buffer.nextSequence.val
  bounded : buffer.entries.length ≤ capacity
  capacity_eq : buffer.capacity = capacity
  frames : buffer.entries.map RetainedFrame.content = unconfirmed history

/-- In a window of consecutive sequences the confirmed front is everything that
is confirmed. -/
theorem dropWhile_eq_filter {first : Nat} {entries : List RetainedFrame} (confirmed : U64)
    (h : entries.map (fun frame => frame.sequence.val) = List.range' first entries.length) :
    (entries.dropWhile fun frame => decide (frame.sequence.val ≤ confirmed.val))
        = entries.filter (fun frame => decide (confirmed.val < frame.sequence.val)) := by
  induction entries generalizing first with
  | nil => rfl
  | cons frame entries ih =>
      simp only [List.map_cons, List.length_cons, List.range'_succ, List.cons.injEq] at h
      obtain ⟨hfirst, hrest⟩ := h
      by_cases hcovered : frame.sequence.val ≤ confirmed.val
      · rw [List.dropWhile_cons_of_pos (by simpa using hcovered), List.filter_cons_of_neg (by simpa using hcovered),
          ih hrest]
      · rw [List.dropWhile_cons_of_neg (by simpa using hcovered), List.filter_eq_self.mpr]
        intro other hother
        rcases List.mem_cons.mp hother with rfl | hmem
        · simpa using hcovered
        · have hval : other.sequence.val ∈ List.range' (first + 1) entries.length :=
            hrest ▸ List.mem_map_of_mem hmem
          rw [List.mem_range'_1] at hval
          simp only [decide_eq_true_eq]
          omega

/-- The window after some of its front was dropped. -/
theorem window_drop {first : Nat} {entries : List RetainedFrame} (count : Nat)
    (h : entries.map (fun frame => frame.sequence.val) = List.range' first entries.length) :
    ∃ first', (entries.drop count).map (fun frame => frame.sequence.val)
        = List.range' first' (entries.drop count).length ∧
      (count ≤ entries.length → first' + (entries.drop count).length = first + entries.length) := by
  refine ⟨first + count, ?_, ?_⟩
  · rw [List.map_drop, h, List.drop_range', List.length_drop]
    simp
  · intro hcount
    rw [List.length_drop]
    omega

namespace Retains

/-- One `retain`: the invariant of the window against the history, whatever the
answer. -/
theorem retain (h : Retains capacity history buffer) (sequence : SequenceNumber) (bytes : List U8) :
    Retains capacity (history ++ [(.retain sequence bytes, .retained (buffer.retain sequence bytes).1)])
      (buffer.retain sequence bytes).2 := by
  have hrefused : ∀ error, Retains capacity
      (history ++ [(.retain sequence bytes, .retained (.error error))]) buffer := by
    intro error
    refine { h with frames := ?_ }
    rw [unconfirmed_append (fun _ => rfl), h.frames]
    exact (List.append_nil _).symm
  unfold RetransmitBuffer.retain
  split
  · exact hrefused _
  rename_i hfits
  split
  · exact hrefused _
  rename_i hnext
  split
  · exact hrefused _
  rename_i hroom
  cases hadd : checkedAdd sequence 1 with
  | none => exact hrefused _
  | some next =>
      have hval := checkedAdd_eq_some.mp hadd
      simp only [ne_eq, not_not] at hnext
      obtain ⟨first, hsequences, hlast⟩ := h.first
      have hbounded := h.bounded
      have hcapacity := h.capacity_eq
      refine ⟨⟨first, ?_, ?_⟩, ?_, hcapacity, ?_⟩
      · simp only [List.map_append, List.map_cons, List.map_nil, List.length_append, List.length_cons,
          List.length_nil, hsequences]
        rw [List.range'_concat, hnext, ← hlast, Nat.one_mul]
      · simp only [List.length_append, List.length_cons, List.length_nil]
        rw [hval, hnext, ← hlast, Fin.val_one]
        omega
      · simp only [List.length_append, List.length_cons, List.length_nil]
        omega
      · rw [unconfirmed_append (fun _ => rfl)]
        simp only [List.map_append, List.map_cons, List.map_nil, h.frames, unconfirmed, List.any_nil,
          RetainedFrame.content, slice_stored sequence (Nat.le_of_not_lt hfits), Bool.false_eq_true, if_false]

/-- One `confirmThrough`: a prefix of the window goes, and the same frames
leave the unconfirmed part of the history. -/
theorem confirmThrough (h : Retains capacity history buffer) (confirmed : U64) :
    Retains capacity (history ++ [(.confirmThrough confirmed, .dropped (buffer.confirmThrough confirmed).1)])
      (buffer.confirmThrough confirmed).2 := by
  obtain ⟨first, hsequences, hlast⟩ := h.first
  have hfilter := dropWhile_eq_filter confirmed hsequences
  have hsuffix := List.suffix_iff_eq_drop.mp
    (List.dropWhile_suffix (fun frame : RetainedFrame => decide (frame.sequence.val ≤ confirmed.val))
      (l := buffer.entries))
  obtain ⟨first', hwindow, hend⟩ := window_drop
    (buffer.entries.length - (buffer.entries.dropWhile fun frame =>
      decide (frame.sequence.val ≤ confirmed.val)).length) hsequences
  rw [← hsuffix] at hwindow hend
  have hbounded := h.bounded
  unfold RetransmitBuffer.confirmThrough
  simp only [dropConfirmed_eq]
  refine ⟨⟨first', hwindow, (hend (Nat.sub_le _ _)).trans hlast⟩, ?_, h.capacity_eq, ?_⟩
  · exact (List.length_dropWhile_le _ _).trans hbounded
  · rw [unconfirmed_append_confirmThrough, ← h.frames, List.filter_map, hfilter]
    rfl

end Retains

/-- A confirmation returns the number of frames it removes. -/
theorem confirmThrough_count (confirmed : U64) :
    (buffer.confirmThrough confirmed).1 + (buffer.confirmThrough confirmed).2.entries.length
      = buffer.entries.length := by
  unfold RetransmitBuffer.confirmThrough
  simp only [dropConfirmed_eq]
  have hsplit := congrArg List.length
    (List.takeWhile_append_dropWhile (p := fun frame : RetainedFrame => decide (frame.sequence.val ≤ confirmed.val))
      (l := buffer.entries))
  rw [List.length_append] at hsplit
  omega

/-- A refused frame leaves the buffer as it was. -/
theorem retain_refused {sequence : SequenceNumber} {bytes : List U8} {error : RetainError}
    (h : buffer.retain sequence bytes = (.error error, buffer')) : buffer' = buffer := by
  unfold RetransmitBuffer.retain at h
  split at h
  · cases h
    rfl
  split at h
  · cases h
    rfl
  split at h
  · cases h
    rfl
  split at h
  · cases h
    rfl
  · cases h

/-- Every call keeps the buffer in step with its history. -/
theorem Retains.call {call : RetransmitCall} {answer : RetransmitAnswer} (h : Retains capacity history buffer)
    (hcall : buffer.call call = some (answer, buffer')) : Retains capacity (history ++ [(call, answer)]) buffer' := by
  cases call with
  | retain sequence bytes =>
      cases hcall
      exact h.retain sequence bytes
  | confirmThrough confirmed =>
      cases hcall
      exact h.confirmThrough confirmed

end Buffer

/-- The invariant of a buffer nobody has called. -/
theorem retains_new (capacity : Nat) : Retains capacity [] (RetransmitBuffer.new capacity) :=
  ⟨⟨1, rfl, rfl⟩, Nat.zero_le _, rfl, rfl⟩

/-- The buffer retains exactly the unconfirmed suffix. Every sequence of calls
returns; the frames left carry consecutive sequences up to the next one, no
more than the capacity of them; they are the accepted frames that no later
confirmation covered; confirmations count what they remove, and refusals change
nothing. -/
theorem retransmit_retains_unconfirmed (capacity : Nat) (calls : List RetransmitCall) :
    ∃ answers buffer, run RetransmitBuffer.call (RetransmitBuffer.new capacity) calls = some (answers, buffer) ∧
      buffer.entries.length ≤ buffer.nextSequence.val ∧
      buffer.entries.map (fun frame => frame.sequence.val)
        = List.range' (buffer.nextSequence.val - buffer.entries.length) buffer.entries.length ∧
      buffer.entries.length ≤ capacity ∧
      (∀ start : U64, (buffer.since start).map RetainedFrame.content
        = (unconfirmed (calls.zip answers)).filter fun frame => start.val ≤ frame.1.val) ∧
      (∀ confirmed, (buffer.confirmThrough confirmed).1 + (buffer.confirmThrough confirmed).2.entries.length
        = buffer.entries.length) ∧
      (∀ sequence bytes error buffer', buffer.retain sequence bytes = (.error error, buffer') → buffer' = buffer) := by
  have hmoves : ∀ {buffer : RetransmitBuffer}, True → ∀ call, ∃ answer buffer',
      buffer.call call = some (answer, buffer') ∧ True := by
    intro buffer _ call
    cases call with
    | retain sequence bytes => exact ⟨_, _, rfl, trivial⟩
    | confirmThrough confirmed => exact ⟨_, _, rfl, trivial⟩
  obtain ⟨answers, buffer, hrun, _⟩ := run_total hmoves calls (trivial : (fun _ => True) (RetransmitBuffer.new capacity))
  have hretains := run_history (Retains capacity) (fun h hcall => h.call hcall) [] (retains_new capacity) hrun
  obtain ⟨first, hsequences, hlast⟩ := hretains.first
  refine ⟨answers, buffer, hrun, by omega, ?_, hretains.bounded, ?_, confirmThrough_count,
    fun _ _ _ _ => retain_refused⟩
  · rwa [← hlast, Nat.add_sub_cancel]
  · intro start
    rw [List.nil_append] at hretains
    rw [← hretains.frames, List.filter_map]
    rfl

end HftEngine
