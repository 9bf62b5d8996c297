/-
Module: HftEngine.Proofs.EventEngine
Layer: Proofs
Purpose: What one command does to a bounded event engine. Admission refuses it
  without a trace, or the gateway makes one of its moves and exactly one batch
  is published, with events numbered from zero and all of the command's
  sequence; neither capacity check after admission can fail.
Imports: HftEngine.Core.Events, HftEngine.Proofs.GatewayInvariant
Trusted boundary: none (fully proved)
Main exports: eventsOf, Numbered, buildBatch_ok, topLevel_eq, Published,
  BoundedEventEngine.applyAdmittedCommand_answered,
  BoundedEventEngine.processCommand_cases
-/
import HftEngine.Core.Events
import HftEngine.Proofs.GatewayInvariant

namespace HftEngine

open Machine

variable {A R L O N B Q : Nat}

/-! ### The events of an answer -/

/-- One trade event per report, with ordinals from `first` on. -/
def tradeEvents (sequence : SequenceNumber) (first : Nat) : List ExecutionReport → List Event
  | [] => []
  | report :: rest => tradeEvent sequence (Fin.ofNat _ first) report :: tradeEvents sequence (first + 1) rest

/-- The top of the book, when it changed. -/
def topEvents (command : CommandIdentity) (sequence : SequenceNumber) (ordinal : Nat) (before after : Tops) :
    List Event :=
  if before ≠ after then
    [.topOfBook ⟨⟨sequence, Fin.ofNat _ ordinal⟩, command.instrumentId, after.1, after.2⟩]
  else []

/-- The events a command with this answer publishes. -/
def eventsOf (command : CommandIdentity) (sequence : SequenceNumber) (before after : Tops)
    (answer : GatewayAnswer) : List Event :=
  match answer.result with
  | .ok outcome =>
      terminalEvent outcome command sequence 0 :: (tradeEvents sequence 1 answer.reports ++
        topEvents command sequence (1 + answer.reports.length) before after)
  | .error (.risk reason) | .error (.book reason) =>
      [.rejected ⟨⟨sequence, 0⟩, command.kind, command.orderId, command.accountId, command.instrumentId, reason⟩]
  | .error _ => []

/-- An accepted answer publishes its terminal event, its trades and the top. -/
theorem eventsOf_ok (command : CommandIdentity) (sequence : SequenceNumber) (before after : Tops)
    (outcome : GatewayOutcome) (reports : List ExecutionReport) :
    eventsOf command sequence before after ⟨.ok outcome, reports⟩ =
      terminalEvent outcome command sequence 0 :: (tradeEvents sequence 1 reports ++
        topEvents command sequence (1 + reports.length) before after) := rfl

@[simp] theorem length_tradeEvents (sequence : SequenceNumber) (first : Nat) (reports : List ExecutionReport) :
    (tradeEvents sequence first reports).length = reports.length := by
  induction reports generalizing first with
  | nil => rfl
  | cons report rest ih => simp [tradeEvents, ih]

/-- The events carry the sequence and the ordinals from `first` on, without
gaps. -/
def Numbered (sequence : SequenceNumber) (first : Nat) (events : List Event) : Prop :=
  ∀ i event, events[i]? = some event → event.id.commandSequence = sequence ∧ event.id.ordinal.val = first + i

theorem numbered_nil (sequence : SequenceNumber) (first : Nat) : Numbered sequence first [] := by
  intro i event h
  simp at h

/-- An event with the first ordinal may stand before events numbered from the
next. -/
theorem numbered_cons {sequence : SequenceNumber} {first : Nat} {event : Event} {events : List Event}
    (hevent : event.id.commandSequence = sequence ∧ event.id.ordinal.val = first)
    (h : Numbered sequence (first + 1) events) : Numbered sequence first (event :: events) := by
  intro i other hother
  cases i with
  | zero =>
      obtain rfl : event = other := by simpa using hother
      exact hevent
  | succ i =>
      obtain ⟨hsequence, hordinal⟩ := h i other (by simpa using hother)
      exact ⟨hsequence, by omega⟩

/-- Two numbered lists join when the second goes on where the first stopped. -/
theorem Numbered.append {sequence : SequenceNumber} {first : Nat} {events more : List Event}
    (h : Numbered sequence first events) (h' : Numbered sequence (first + events.length) more) :
    Numbered sequence first (events ++ more) := by
  intro i event hevent
  rcases Nat.lt_or_ge i events.length with hlt | hge
  · rw [List.getElem?_append_left hlt] at hevent
    exact h i event hevent
  · rw [List.getElem?_append_right hge] at hevent
    obtain ⟨hsequence, hordinal⟩ := h' _ event hevent
    exact ⟨hsequence, by omega⟩

/-- Trade events are numbered in the order of their reports, as long as the
ordinals fit. -/
theorem numbered_tradeEvents (sequence : SequenceNumber) (first : Nat) (reports : List ExecutionReport)
    (h : first + reports.length ≤ 2 ^ 16) : Numbered sequence first (tradeEvents sequence first reports) := by
  induction reports generalizing first with
  | nil => exact numbered_nil sequence first
  | cons report rest ih =>
      rw [List.length_cons] at h
      refine numbered_cons ⟨rfl, ?_⟩ (ih (first + 1) (by omega))
      exact Nat.mod_eq_of_lt (by omega)

/-- The events of an answer are numbered from zero. -/
theorem numbered_eventsOf (command : CommandIdentity) (sequence : SequenceNumber) (before after : Tops)
    (answer : GatewayAnswer) (h : answer.reports.length + 2 ≤ 2 ^ 16) :
    Numbered sequence 0 (eventsOf command sequence before after answer) := by
  unfold eventsOf
  split
  · rename_i outcome _
    refine numbered_cons ⟨by cases outcome <;> rfl, by cases outcome <;> rfl⟩ ?_
    refine (numbered_tradeEvents sequence 1 _ (by omega)).append ?_
    rw [length_tradeEvents, topEvents]
    split
    · refine numbered_cons ⟨rfl, ?_⟩ (numbered_nil sequence _)
      exact Nat.mod_eq_of_lt (by omega)
    · exact numbered_nil sequence _
  · exact numbered_cons ⟨rfl, rfl⟩ (numbered_nil sequence _)
  · exact numbered_cons ⟨rfl, rfl⟩ (numbered_nil sequence _)
  · exact numbered_nil sequence _

/-! ### Building a batch -/

/-- A batch with room takes the event. -/
theorem pushPreflighted_ok (batch : EventBatch B) (event : Event) (h : batch.events.length < B) :
    ∃ batch', pushPreflighted batch event = .ok batch' ∧ batch'.events = batch.events ++ [event] := by
  unfold pushPreflighted EventBatch.tryPush
  rw [dif_pos h]
  exact ⟨_, rfl, rfl⟩

/-- A batch with room for all reports takes all of them, and the ordinal goes
on by as many. -/
theorem pushTrades_ok (sequence : SequenceNumber) (reports : List ExecutionReport) (batch : EventBatch B)
    (ordinal : U16) (hroom : batch.events.length + reports.length ≤ B)
    (hordinal : ordinal.val + reports.length < 2 ^ 16) :
    ∃ batch' ordinal', pushTrades sequence reports batch ordinal = some (.ok (batch', ordinal')) ∧
      batch'.events = batch.events ++ tradeEvents sequence ordinal.val reports ∧
      ordinal'.val = ordinal.val + reports.length := by
  induction reports generalizing batch ordinal with
  | nil => exact ⟨batch, ordinal, rfl, by simp [tradeEvents], by simp⟩
  | cons report rest ih =>
      rw [List.length_cons] at hroom hordinal
      obtain ⟨batch₁, hpush, hevents⟩ := pushPreflighted_ok batch (tradeEvent sequence ordinal report)
        (show batch.events.length < B by omega)
      have hnext : ordinal.val + 1 < 2 ^ 16 := by omega
      have hadd : checkedAdd ordinal 1 = some ⟨ordinal.val + 1, hnext⟩ := checkedAdd_eq_some.mpr rfl
      obtain ⟨batch₂, ordinal', htrades, hevents', hordinal'⟩ := ih batch₁ ⟨ordinal.val + 1, hnext⟩
        (by rw [hevents, List.length_append, List.length_singleton]; omega) (by simp only; omega)
      refine ⟨batch₂, ordinal', ?_, ?_, by rw [hordinal', List.length_cons]; simp only; omega⟩
      · rw [pushTrades, hpush]
        dsimp only
        rw [hadd]
        exact htrades
      · have hself : (Fin.ofNat _ ordinal.val : U16) = ordinal := Fin.ext (Nat.mod_eq_of_lt ordinal.isLt)
        rw [hevents', hevents, tradeEvents, hself, List.append_assoc]
        rfl

/-- A batch with room for every report, one terminal event and one top-of-book
event holds every answer that is published. -/
theorem buildBatch_ok (hB : N + 2 ≤ B) (hN : N + 2 ≤ 2 ^ 16) (command : CommandIdentity) (sequence : SequenceNumber)
    (before after : Tops) (reports : ReportBuffer N) {result : Except GatewayError GatewayOutcome}
    (h : (∃ outcome, result = .ok outcome) ∨ (∃ reason, result = .error (.risk reason)) ∨
      ∃ reason, result = .error (.book reason)) :
    ∃ batch : EventBatch B, buildBatch command sequence before after reports result = some (.ok batch) ∧
      batch.events = eventsOf command sequence before after ⟨result, reports.entries⟩ := by
  have hbounded := reports.bounded
  have hnew : (EventBatch.new : EventBatch B).events = [] := rfl
  rcases h with ⟨outcome, rfl⟩ | ⟨reason, rfl⟩ | ⟨reason, rfl⟩
  · obtain ⟨batch₁, hfirst, hevents₁⟩ := pushPreflighted_ok (EventBatch.new : EventBatch B)
      (terminalEvent outcome command sequence 0) (by rw [hnew, List.length_nil]; omega)
    rw [hnew, List.nil_append] at hevents₁
    obtain ⟨batch₂, ordinal, htrades, hevents₂, hordinal⟩ := pushTrades_ok sequence reports.entries batch₁ 1
      (by rw [hevents₁, List.length_singleton]; omega) (by simp only [Fin.val_one]; omega)
    have hone : ((1 : U16).val) = 1 := rfl
    rw [hone] at hordinal hevents₂
    simp only [buildBatch, hfirst, htrades, eventsOf]
    by_cases hchanged : before ≠ after
    · obtain ⟨batch₃, hlast, hevents₃⟩ := pushPreflighted_ok batch₂
        (.topOfBook ⟨⟨sequence, ordinal⟩, command.instrumentId, after.1, after.2⟩)
        (by rw [hevents₂, hevents₁, List.length_append, length_tradeEvents, List.length_singleton]; omega)
      have hself : (Fin.ofNat _ (1 + reports.entries.length) : U16) = ordinal := by
        rw [← hordinal]
        exact Fin.ext (Nat.mod_eq_of_lt ordinal.isLt)
      refine ⟨batch₃, by rw [if_pos hchanged, hlast], ?_⟩
      rw [hevents₃, hevents₂, hevents₁, topEvents, if_pos hchanged, hself]
      simp
    · refine ⟨batch₂, by rw [if_neg hchanged], ?_⟩
      rw [hevents₂, hevents₁, topEvents, if_neg hchanged]
      simp
  · obtain ⟨batch, hpush, hevents⟩ := pushPreflighted_ok (EventBatch.new : EventBatch B)
      (.rejected
        ⟨⟨sequence, 0⟩, command.kind, command.orderId, command.accountId, command.instrumentId, reason⟩)
      (by rw [hnew, List.length_nil]; omega)
    exact ⟨batch, congrArg some hpush, hevents⟩
  · obtain ⟨batch, hpush, hevents⟩ := pushPreflighted_ok (EventBatch.new : EventBatch B)
      (.rejected
        ⟨⟨sequence, 0⟩, command.kind, command.orderId, command.accountId, command.instrumentId, reason⟩)
      (by rw [hnew, List.length_nil]; omega)
    exact ⟨batch, congrArg some hpush, hevents⟩

/-! ### The top of the book -/

/-- The best of some levels. -/
def topOf (levels : ModelLevels) : Option TopLevel :=
  levels.head?.map fun level => ⟨level.1, (level.2.map fun order => order.quantity.val).sum, level.2.length⟩

/-- The stored totals of the best level are those of its orders. -/
theorem topLevel_eq {book : OrderBook L O} {logical : LogicalBook} (rep : Represents book logical) (side : Side) :
    book.topLevel side = topOf (logical.levels side) := by
  obtain ⟨views, hrep, rfl⟩ := rep
  have hside := hrep.side side
  rw [levels_logicalOf, topOf, OrderBook.topLevel, hside.entries]
  cases hviews : views side with
  | nil => rfl
  | cons view rest =>
      obtain ⟨level, free, hlevel, _, hlevelRep⟩ := hside.stored view (by rw [hviews]; simp)
      simp only [List.map_cons, List.head?_cons, Option.map_some, LevelView.logical, List.length_map,
        Option.bind_eq_bind, Option.bind_some, hlevel]
      rw [hlevelRep.aggregate, hlevelRep.len, List.map_map]
      rfl

/-! ### One command -/

/-- What an admitted command does: the gateway makes a move, and one batch with
its events is published. -/
structure Published (engine engine' : BoundedEventEngine A R L O N B Q) (logical logical' : LogicalGateway)
    (command : Command) (answer : GatewayAnswer) (batch : EventBatch B) : Prop where
  rep : GatewayRep engine'.gateway logical'
  sound : logical'.Sound
  moves : Moves N logical (some command) answer logical'
  sequence : command.sequence = logical.expectedSequence
  next : logical'.expectedSequence.val = logical.expectedSequence.val + 1
  reports : answer.reports.length ≤ N
  queued : engine'.queue.items = engine.queue.items ++ [batch]
  events : batch.events = eventsOf (CommandIdentity.fromCommand command) command.sequence engine.tops engine'.tops
    answer

namespace BoundedEventEngine

variable {engine engine' : BoundedEventEngine A R L O N B Q} {logical : LogicalGateway} {command : Command}
  {result : Except EventEngineError Unit}

/-- An engine is built when a batch holds the largest command result and
ordinals can number it. -/
theorem tryNew_eq_ok {gateway : Gateway A R L O} {queue : BoundedQueue (EventBatch B) Q}
    (h : tryNew gateway queue = .ok engine) : N + 2 ≤ 2 ^ 16 ∧ N + 2 ≤ B ∧ engine = ⟨gateway, queue⟩ := by
  unfold tryNew at h
  split at h
  · cases h
  · split at h
    · cases h
    · cases h
      exact ⟨by omega, by omega, rfl⟩

/-- What a command that passes the preflight is known to satisfy. -/
theorem preflight_eq_ok (h : engine.preflight command.sequence = .ok ()) :
    command.sequence = engine.gateway.expectedSequence ∧ engine.gateway.expectedSequence.val + 1 < 2 ^ 64 ∧
      engine.queue.hasCapacity = true := by
  unfold preflight Gateway.checkSequence at h
  by_cases hsequence : command.sequence = engine.gateway.expectedSequence
  · rw [if_neg (by simpa using hsequence)] at h
    cases hadd : checkedAdd engine.gateway.expectedSequence 1 with
    | none =>
        rw [hadd] at h
        cases h
    | some next =>
        rw [hadd] at h
        have hnext : next.val = engine.gateway.expectedSequence.val + 1 := checkedAdd_eq_some.mp hadd
        have hlt := next.isLt
        dsimp only at h
        split at h
        · rename_i hcapacity
          exact ⟨hsequence, by omega, hcapacity⟩
        · cases h
  · rw [if_pos hsequence] at h
    cases h

/-- Admission reports sequence and backpressure only. -/
theorem preflight_clean {sequence : SequenceNumber} {error : EventEngineError}
    (h : engine.preflight sequence = .error error) :
    error ≠ .eventCapacityInvariant ∧ error ≠ .publicationInvariant := by
  unfold preflight at h
  split at h
  · cases h
    simp
  · split at h
    · cases h
    · cases h
      simp

/-- An admitted command is answered by the content of the gateway and
published; nothing after admission fails. -/
theorem applyAdmittedCommand_answered (hN : N + 2 ≤ 2 ^ 16) (hB : N + 2 ≤ B)
    (rep : GatewayRep engine.gateway logical) (sound : logical.Sound)
    (hpreflight : engine.preflight command.sequence = .ok ())
    (h : engine.applyAdmittedCommand command = some (result, engine')) :
    result = .ok () ∧ ∃ logical' answer batch, logical.processCommand R L O N command = some (answer, logical') ∧
      Published engine engine' logical logical' command answer batch := by
  obtain ⟨hsequence, hroom, hcapacity⟩ := preflight_eq_ok hpreflight
  rw [rep.expectedSequence] at hsequence hroom
  unfold applyAdmittedCommand at h
  cases hprocess : engine.gateway.processCommand command (ReportBuffer.empty : ReportBuffer N) with
  | none =>
      rw [hprocess] at h
      cases h
  | some step =>
      obtain ⟨outcome, gateway', reports⟩ := step
      rw [hprocess] at h
      dsimp only at h
      have hcall : engine.gateway.call (.command command (ReportBuffer.empty : ReportBuffer N)) =
          some (⟨outcome, reports.entries⟩, gateway') := by
        rw [Gateway.call, hprocess]
        rfl
      obtain ⟨logical', hlogical, rep'⟩ := call_logical rep hcall
      have hmoves := moves_of_call sound rep.book.wellFormed rep.risk.watermark hlogical
      have hanswered : logical.processCommand R L O N command = some (⟨outcome, reports.entries⟩, logical') := hlogical
      have hdecided : ((∃ accepted, outcome = .ok accepted) ∨ (∃ reason, outcome = .error (.risk reason)) ∨
          ∃ reason, outcome = .error (.book reason)) ∧
          logical'.expectedSequence.val = logical.expectedSequence.val + 1 := by
        generalize hanswer : (⟨outcome, reports.entries⟩ : GatewayAnswer) = answer at hmoves
        simp only [GatewayCall.command?] at hmoves
        cases hmoves with
        | unsequenced _ hwrong => exact absurd hsequence hwrong
        | exhausted _ _ hlast => omega
        | refused _ hnext herror _ =>
            have hresult : outcome = _ := congrArg GatewayAnswer.result hanswer
            rw [hresult]
            refine ⟨.inr ?_, hnext⟩
            rcases herror with ⟨reason, rfl⟩ | ⟨reason, rfl⟩
            · exact .inl ⟨reason, rfl⟩
            · exact .inr ⟨reason, rfl⟩
        | accepted _ hnext haccepted =>
            have hresult := congrArg GatewayAnswer.result (hanswer.trans haccepted.answer_eq)
            exact ⟨.inl ⟨_, hresult⟩, hnext⟩
        | cancelled _ hnext hcancelled =>
            have hresult := congrArg GatewayAnswer.result (hanswer.trans hcancelled.answer_eq)
            exact ⟨.inl ⟨_, hresult⟩, hnext⟩
        | replaced _ hnext hreplaced =>
            have hresult := congrArg GatewayAnswer.result (hanswer.trans hreplaced.answer_eq)
            exact ⟨.inl ⟨_, hresult⟩, hnext⟩
      obtain ⟨batch, hbuild, hevents⟩ := buildBatch_ok hB hN (CommandIdentity.fromCommand command) command.sequence
        engine.tops ({ engine with gateway := gateway' } : BoundedEventEngine A R L O N B Q).tops reports hdecided.1
      obtain ⟨queue, hpush⟩ : ∃ queue, engine.queue.tryPush batch = some queue := by
        rw [← Option.ne_none_iff_exists', ne_eq, BoundedQueue.tryPush_eq_none, hcapacity]
        exact Bool.noConfusion
      rw [publishResult, hbuild] at h
      dsimp only at h
      rw [hpush] at h
      cases h
      refine ⟨rfl, logical', ⟨outcome, reports.entries⟩, batch, hanswered, rep', sound.moves rep.book.wellFormed hmoves, hmoves,
        hsequence, hdecided.2, reports.bounded, (BoundedQueue.tryPush_eq_some.mp hpush).2, hevents⟩

/-- An admitted command is applied and published; nothing after admission
fails. -/
theorem applyAdmittedCommand_published (hN : N + 2 ≤ 2 ^ 16) (hB : N + 2 ≤ B)
    (rep : GatewayRep engine.gateway logical) (sound : logical.Sound)
    (hpreflight : engine.preflight command.sequence = .ok ())
    (h : engine.applyAdmittedCommand command = some (result, engine')) :
    result = .ok () ∧ ∃ logical' answer batch, Published engine engine' logical logical' command answer batch := by
  obtain ⟨hok, logical', answer, batch, _, published⟩ :=
    applyAdmittedCommand_answered hN hB rep sound hpreflight h
  exact ⟨hok, logical', answer, batch, published⟩

/-- A command is refused at admission without a trace, or applied and
published. -/
theorem processCommand_cases (hN : N + 2 ≤ 2 ^ 16) (hB : N + 2 ≤ B) (rep : GatewayRep engine.gateway logical)
    (sound : logical.Sound) (h : engine.processCommand command = some (result, engine')) :
    (∃ error, engine.preflight command.sequence = .error error ∧ result = .error error ∧ engine' = engine) ∨
      (engine.preflight command.sequence = .ok () ∧ result = .ok () ∧
        ∃ logical' answer batch, Published engine engine' logical logical' command answer batch) := by
  unfold processCommand at h
  cases hpreflight : engine.preflight command.sequence with
  | error error =>
      rw [hpreflight] at h
      cases h
      exact .inl ⟨error, rfl, rfl, rfl⟩
  | ok =>
      rw [hpreflight] at h
      exact .inr ⟨rfl, applyAdmittedCommand_published hN hB rep sound hpreflight h⟩

end BoundedEventEngine

end HftEngine
