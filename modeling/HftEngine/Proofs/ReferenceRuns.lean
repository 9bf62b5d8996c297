/-
Module: HftEngine.Proofs.ReferenceRuns
Layer: Proofs
Purpose: The order book against the reference book over whole runs: fed the
  same commands in lockstep from the empty book, both answer alike, report the
  same fills and hold the same resting orders after every command. Neither
  panics, since every id set of a book within the index limit can be indexed.
Imports: HftEngine.Proofs.ReferenceRefinement, HftEngine.Lib.Transition
Trusted boundary: none (fully proved)
Main exports: BookCommand, OrderBook.dumpBook, bookStep, modelStep,
  fitsIndex_of_represents, book_refines_reference
-/
import HftEngine.Proofs.ReferenceRefinement
import HftEngine.Lib.Transition

namespace HftEngine

open Machine KeyedList Transition

variable {L O : Nat} {book : OrderBook L O} {model : ModelBook} {logical : LogicalBook}

/-! ### Indexing within the limit -/

/-- With an index below the limit, every set of ids from a book and one more
can be indexed. -/
theorem fitsIndex_of_represents (h : Represents book logical) (hL : 1 ≤ L) (hO : 1 ≤ O)
    (hindex : 4 * L * O ≤ 2 ^ 32) {id : OrderId} (ids : OrderId → Prop)
    (hids : ∀ other, ids other → other = id ∨ logical.Holds other) : FitsIndex L O ids := by
  classical
  have hslots : 1 ≤ L * O := Nat.mul_pos hL hO
  have hcells : L * O * orderIndexPlanes = 4 * L * O := by
    rw [orderIndexPlanes, Nat.mul_comm, Nat.mul_assoc]
  obtain ⟨held, hheld, hcount⟩ := h.ids_bound
  let keys := (insert id held).filter ids
  have hmem : ∀ other, other ∈ keys ↔ ids other := by
    intro other
    simp only [keys, Finset.mem_filter, Finset.mem_insert, and_iff_right_iff_imp]
    intro hother
    rcases hids other hother with rfl | hholds
    · exact .inl rfl
    · exact .inr (hheld other hholds)
  have hcard : keys.card ≤ L * O * orderIndexPlanes := by
    have hfilter : keys.card ≤ (insert id held).card := Finset.card_filter_le _ _
    have hinsert := Finset.card_insert_le id held
    rw [orderIndexPlanes]
    omega
  have hfits : FitsIndex L O (· ∈ keys) := OpenAddressing.fits_of_card (fun key => probeStart_lt key)
    (by rw [hcells]; exact hindex) keys hcard
  have hsame : (· ∈ keys) = ids := funext fun other => propext (hmem other)
  rwa [hsame] at hfits

/-! ### Lockstep -/

/-- A command for both books. A submission brings the report buffer it appends
to. -/
inductive BookCommand where
  | submit {N : Nat} (order : NewOrder) (reports : ReportBuffer N)
  | cancel (cancel : CancelOrder)
  | replace (replace : ReplaceOrder)

/-- The commands of a comparison: they carry the book's instrument, and amends
positive values. -/
def BookCommand.Valid (instrument : InstrumentId) : BookCommand → Prop
  | .submit order _ => order.instrumentId = instrument
  | .cancel request => request.instrumentId = instrument
  | .replace request =>
      request.instrumentId = instrument ∧ 0 < request.price.val ∧ 0 < request.quantity.val

/-- The answer to a command: the result, and for a submission the report buffer
afterwards. -/
inductive BookAnswer where
  | submitted (result : Except RejectReason (OrderState × Quantity × Quantity × Quantity))
      (reports : List ExecutionReport)
  | cancelled (result : Except RejectReason (OrderId × AccountId × Quantity))
  | replaced (result : Except RejectReason (Quantity × Bool))

/-- The answer together with the resting orders of both sides afterwards, in
priority order with their owners, and the dump that the property test of the
source compares. -/
structure Observation where
  answer : BookAnswer
  bids : ModelLevels
  asks : ModelLevels
  dump : List (Side × I64 × U64 × U64 × U64)

/-- The resting orders of a side, best level first and FIFO within a level. -/
def OrderBook.restingLevels (book : OrderBook L O) (side : Side) : ModelLevels :=
  (book.sideIndex side).entries.filterMap fun entry =>
    (book.getLevel side entry.2).map fun level => (entry.1, level.liveOrders.map RestingOrder.view)

/-- The stored levels of a side in slot order, as an iteration over the level
array meets them. -/
def OrderBook.storedLevels (book : OrderBook L O) (side : Side) : ModelLevels :=
  (book.sideLevels side).toList.reduceOption.map fun level =>
    (level.price, level.liveOrders.map RestingOrder.view)

/-- Bids then asks, prices ascending within a side, FIFO within a level: every
price of the level array is sorted and then looked up again, as the reference
dump does with its own levels. -/
def OrderBook.dumpBook (book : OrderBook L O) : List (Side × I64 × U64 × U64 × U64) :=
  dumpLevels .buy (book.storedLevels .buy) ++ dumpLevels .sell (book.storedLevels .sell)

/-- One command of the book with its answer. The mutable buffer of the source
is the last argument of a submission. -/
def OrderBook.answer (book : OrderBook L O) : BookCommand → Option (BookAnswer × OrderBook L O)
  | .submit order reports =>
      (book.submit order reports).map fun (result, book, reports) =>
        (.submitted (result.map fun summary => (summary.state, summary.filledQuantity, summary.restingQuantity,
          summary.discardedQuantity)) reports.entries, book)
  | .cancel cancel =>
      (book.cancel cancel).map fun (result, book) =>
        (.cancelled (result.map fun cancelled => (cancelled.orderId, cancelled.accountId, cancelled.quantity)),
          book)
  | .replace replace =>
      (book.replace replace).map fun (result, book) =>
        (.replaced (result.map fun replaced => (replaced.oldQuantity, replaced.priorityLost)), book)

/-- The fills a reference submission made; none when it was rejected. -/
def fillsOf : Except RejectReason ModelSummary → List ModelFill
  | .ok summary => summary.fills
  | .error _ => []

/-- One command of the reference with its answer, in the words of the book. -/
def ModelBook.answer (L O : Nat) (model : ModelBook) : BookCommand → Option (BookAnswer × ModelBook)
  | .submit order reports =>
      (model.submit order reports.remainingCapacity L O).map fun (result, model) =>
        (.submitted (result.map fun summary => (summary.state, summary.filled, summary.resting,
          summary.discarded)) (reports.entries ++ (fillsOf result).map (reportOf order)), model)
  | .cancel cancel =>
      let (result, model) := model.cancel cancel
      some (.cancelled result, model)
  | .replace replace =>
      (model.replace replace L O).map fun (result, model) => (.replaced result, model)

/-- One command of the book with everything an observer sees of it
afterwards. -/
def bookStep (book : OrderBook L O) (command : BookCommand) : Option (Observation × OrderBook L O) :=
  (book.answer command).map fun (answer, book) =>
    (⟨answer, book.restingLevels .buy, book.restingLevels .sell, book.dumpBook⟩, book)

/-- One command of the reference with what an observer sees of it
afterwards. -/
def modelStep (L O : Nat) (model : ModelBook) (command : BookCommand) : Option (Observation × ModelBook) :=
  (model.answer L O command).map fun (answer, model) =>
    (⟨answer, model.priorityLevels .buy, model.priorityLevels .sell, dumpModel model⟩, model)

/-- The resting levels of a book are those of the logical book it
represents. -/
theorem Represents.restingLevels_eq (h : Represents book logical) (side : Side) :
    book.restingLevels side = logical.levels side := by
  obtain ⟨views, rep, rfl⟩ := h
  unfold OrderBook.restingLevels
  rw [(rep.side side).entries, levels_logicalOf, List.filterMap_map]
  refine (List.filterMap_congr (g := some ∘ LevelView.logical) ?_).trans (by rw [List.filterMap_eq_map])
  intro view hview
  obtain ⟨level, free, hlevel, hprice, hrep⟩ := (rep.side side).stored view hview
  simp [hlevel, hrep.liveOrders_eq, LevelView.logical]

/-- The level array holds the levels of the logical book; their order in it is
whatever the run left. -/
theorem Represents.storedLevels_perm (h : Represents book logical) (side : Side) :
    (book.storedLevels side).Perm (logical.levels side) := by
  obtain ⟨views, rep, rfl⟩ := h
  have hrep := rep.side side
  let content : Nat → Option (I64 × List ModelOrder) := fun i =>
    (book.getLevel side i).map fun level => (level.price, level.liveOrders.map RestingOrder.view)
  have harray : book.storedLevels side = (List.range L).filterMap content := by
    have hslots : (book.sideLevels side).toList = (List.range L).map (book.getLevel side) := by
      refine List.ext_getElem? fun i => ?_
      by_cases hi : i < L
      · simp [OrderBook.getLevel, hi]
      · simp [hi]
    rw [OrderBook.storedLevels, hslots, List.reduceOption, List.filterMap_map, List.map_filterMap]
    rfl
  have hfree : (book.sideIndex side).free.filterMap content = [] :=
    List.filterMap_eq_nil_iff.mpr fun i hi => by simp [content, hrep.vacant i hi]
  have hlisted : ((views side).map LevelView.slot).filterMap content = (views side).map LevelView.logical := by
    rw [List.filterMap_map]
    refine (List.filterMap_congr (g := some ∘ LevelView.logical) ?_).trans (by rw [List.filterMap_eq_map])
    intro view hview
    obtain ⟨level, free, hlevel, hprice, hnodes⟩ := hrep.stored view hview
    simp [content, hlevel, hprice, hnodes.liveOrders_eq, LevelView.logical]
  have hperm := hrep.partition.symm.filterMap content
  rw [List.filterMap_append, hlisted, hfree, List.append_nil] at hperm
  rw [harray, levels_logicalOf]
  exact hperm

/-- The dump of a book that stores the levels of a logical book, in whatever
order it stores them. -/
theorem dumpLevels_eq (wf : logical.WellFormed) {side : Side} {first second : ModelLevels}
    (hfirst : first.Perm (logical.levels side)) (hsecond : second.Perm (logical.levels side)) :
    dumpLevels side first = dumpLevels side second := by
  rw [dumpLevels, dumpLevels, sortedLevels_eq wf hfirst, sortedLevels_eq wf hsecond]

/-- Book and reference dump the same orders. -/
theorem dumpBook_eq (represents : Represents book logical) (mirrors : Mirrors model logical) :
    book.dumpBook = dumpModel model := by
  have wf := represents.wellFormed
  rw [OrderBook.dumpBook, dumpModel]
  exact congrArg₂ _ (dumpLevels_eq wf (represents.storedLevels_perm .buy) (mirrors .buy))
    (dumpLevels_eq wf (represents.storedLevels_perm .sell) (mirrors .sell))

/-- Both books hold the same logical book. -/
def Alike (instrument : InstrumentId) (book : OrderBook L O) (model : ModelBook) : Prop :=
  ∃ logical : LogicalBook, Represents book logical ∧ Mirrors model logical ∧ logical.instrument = instrument

/-- One command: the same answer, and both still hold the same logical book. -/
theorem answer_alike (hL : 1 ≤ L) (hO : 1 ≤ O) (hindex : 4 * L * O ≤ 2 ^ 32) {instrument : InstrumentId}
    {command : BookCommand} (alike : Alike instrument book model) (hvalid : command.Valid instrument) :
    ∃ answer book' model', book.answer command = some (answer, book') ∧
      model.answer L O command = some (answer, model') ∧ Alike instrument book' model' := by
  obtain ⟨logical, represents, mirrors, rfl⟩ := alike
  have wf := represents.wellFormed
  cases command with
  | submit order reports =>
      obtain ⟨result, after, model', hlogical, hmodel, hmirrors⟩ := model_submit_eq (L := L) (O := O) wf mirrors
        order hvalid (fun ids hids => fitsIndex_of_represents represents hL hO hindex ids hids)
        reports.remainingCapacity
      have hbook := submit_refines represents order reports
      rw [hlogical] at hbook
      cases result with
      | error reason =>
          obtain ⟨hsubmit, rfl⟩ := hbook
          refine ⟨.submitted (.error reason) reports.entries, book, model', ?_, ?_,
            after, represents, hmirrors, rfl⟩
          · simp [OrderBook.answer, hsubmit, Except.map]
          · simp [ModelBook.answer, hmodel, Except.map, fillsOf]
      | ok found =>
          obtain ⟨summary, fills⟩ := found
          obtain ⟨book', reports', hsubmit, hrep, hentries, hinstr⟩ := hbook
          refine ⟨.submitted (.ok (summary.state, summary.filledQuantity, summary.restingQuantity,
            summary.discardedQuantity)) reports'.entries, book', model', ?_, ?_,
            after, hrep, hmirrors, ?_⟩
          · simp [OrderBook.answer, hsubmit, Except.map]
          · simp [ModelBook.answer, hmodel, Except.map, fillsOf, summaryOf, hentries]
          · rw [hrep.instrument_eq, hinstr, represents.instrument_eq]
  | cancel cancel =>
      obtain ⟨hresult, hmirrors⟩ := model_cancel_eq wf mirrors cancel hvalid
      obtain ⟨book', hcancel, hrep, hinstr⟩ := cancel_refines represents cancel
      refine ⟨_, book', _, by simp [OrderBook.answer, hcancel]; rfl, ?_, _, hrep, hmirrors, ?_⟩
      · simp [ModelBook.answer, hresult]
      · rw [hrep.instrument_eq, hinstr, represents.instrument_eq]
  | replace replace =>
      obtain ⟨hinstrument, hprice, hquantity⟩ := hvalid
      obtain ⟨model', hmodel, hmirrors⟩ := model_replace_eq (L := L) (O := O) wf mirrors replace hinstrument
        hprice hquantity
      obtain ⟨book', hreplace, hrep, hinstr⟩ := replace_refines represents replace
      refine ⟨_, book', model', by simp [OrderBook.answer, hreplace]; rfl, ?_, _, hrep, hmirrors, ?_⟩
      · simp [ModelBook.answer, hmodel]
      · rw [hrep.instrument_eq, hinstr, represents.instrument_eq]

/-- A valid command shows the same on both sides and leaves them alike. Every
run follows by induction. -/
theorem step_alike (hL : 1 ≤ L) (hO : 1 ≤ O) (hindex : 4 * L * O ≤ 2 ^ 32) {instrument : InstrumentId}
    {command : BookCommand} (alike : Alike instrument book model) (hvalid : command.Valid instrument) :
    ∃ observed book' model', bookStep book command = some (observed, book') ∧
      modelStep L O model command = some (observed, model') ∧ Alike instrument book' model' := by
  obtain ⟨answer, book', model', hbook, hmodel, halike⟩ := answer_alike hL hO hindex alike hvalid
  obtain ⟨logical, represents, mirrors, rfl⟩ := halike
  refine ⟨⟨answer, logical.levels .buy, logical.levels .sell, dumpModel model'⟩, book', model', ?_, ?_,
    logical, represents, mirrors, rfl⟩
  · simp [bookStep, hbook, represents.restingLevels_eq, dumpBook_eq represents mirrors]
  · simp [modelStep, hmodel, priorityLevels_eq represents.wellFormed mirrors]

/-- The order book refines the reference book: over every run of valid commands
from the empty book, both make every answer, with the same results, the same
reports, the same resting orders in priority order and the same dump after
every command. -/
theorem book_refines_reference (hL : 1 ≤ L) (hO : 1 ≤ O) (hindex : 4 * L * O ≤ 2 ^ 32)
    (instrument : InstrumentId) (commands : List (BookCommand))
    (hvalid : ∀ command ∈ commands, command.Valid instrument) :
    ∃ (observed : List Observation) (book : OrderBook L O) (model : ModelBook),
      run bookStep (OrderBook.new instrument) commands = some (observed, book) ∧
      run (modelStep L O) ModelBook.empty commands = some (observed, model) := by
  have hstart : Alike instrument (OrderBook.new instrument : OrderBook L O) ModelBook.empty := by
    refine ⟨LogicalBook.new instrument, represents_new instrument, ?_, rfl⟩
    intro side
    cases side <;> exact List.Perm.refl _
  have hmoves : ∀ {book : OrderBook L O} {model : ModelBook} {command : BookCommand},
      Alike instrument book model → command.Valid instrument →
      ∃ observed book' model', bookStep book command = some (observed, book') ∧
        modelStep L O model command = some (observed, model') ∧ Alike instrument book' model' :=
    fun alike hcommand => step_alike hL hO hindex alike hcommand
  obtain ⟨observed, book, model, hbook, hmodel, _⟩ := run_lockstep hmoves hvalid hstart
  exact ⟨observed, book, model, hbook, hmodel⟩

/-- A resting offer, a bid that trades with it, an amend and a cancel of what
is left. -/
def sampleCommands : List BookCommand :=
  [.submit ⟨1, 1, 7, Machine.i64 10, 5, 1, .sell, .gtc⟩ (ReportBuffer.empty : ReportBuffer 2),
    .submit ⟨2, 2, 7, Machine.i64 10, 2, 2, .buy, .gtc⟩ (ReportBuffer.empty : ReportBuffer 2),
    .replace ⟨1, 1, 7, 3, Machine.i64 11, 4⟩, .cancel ⟨1, 1, 7, 4⟩]

/-- The commands of the sample are ones a gateway may pass on. -/
theorem sampleCommands_valid : ∀ command ∈ sampleCommands, command.Valid 7 := by
  simp only [sampleCommands, List.forall_mem_cons, BookCommand.Valid]
  exact ⟨trivial, trivial, ⟨trivial, by decide, by decide⟩, trivial, by simp⟩

/-- The sample run on books of two levels a side with two orders each. -/
theorem book_refines_reference_sample :
    (∀ command ∈ sampleCommands, command.Valid 7) ∧
    ∃ (observed : List Observation) (book : OrderBook 2 2) (model : ModelBook),
      run bookStep (OrderBook.new 7) sampleCommands = some (observed, book) ∧
      run (modelStep 2 2) ModelBook.empty sampleCommands = some (observed, model) :=
  ⟨sampleCommands_valid, book_refines_reference (by decide) (by decide) (by decide) 7 sampleCommands
    sampleCommands_valid⟩

end HftEngine
