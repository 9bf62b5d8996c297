/-
Module: HftEngine.Proofs.SoakEvents
Layer: Proofs
Purpose: What the soak runner's batch check accepts: one terminal event, then
  trades when it accepts an order, then at most one top-of-book event when it
  does not reject, all of one instrument and one sequence and numbered from
  zero. Every batch an event engine publishes is of this form.
Imports: HftEngine.Core.SoakEvents, HftEngine.Proofs.EventEngine
Trusted boundary: none (fully proved)
Main exports: Followers, ValidBatch, summaryOf, validateBatch_iff,
  validBatch_of_published
-/
import HftEngine.Core.SoakEvents
import HftEngine.Proofs.EventEngine

namespace HftEngine.Soak

variable {A R L O N B Q : Nat} {instrument : InstrumentId} {sequence : SequenceNumber}

/-! ### The grammar of a batch -/

/-- What may follow a terminal event: trades when it accepts an order, then at
most one top of the book when it does not reject. -/
inductive Followers (accepted rejected : Bool) : List Event → Prop where
  | done : Followers accepted rejected []
  | trade {rest : List Event} (event : Events.Trade) (haccepted : accepted = true)
      (hrest : Followers accepted rejected rest) : Followers accepted rejected (.trade event :: rest)
  | top (event : Events.TopOfBook) (hkept : rejected = false) : Followers accepted rejected [.topOfBook event]

/-- The events of one command: a terminal event and its followers, of one
instrument and numbered under one sequence. -/
structure ValidBatch (instrument : InstrumentId) (sequence : SequenceNumber) (events : List Event) : Prop where
  instruments : ∀ event ∈ events, eventInstrument event = instrument
  numbered : Numbered sequence 0 events
  shape : ∃ first rest, events = first :: rest ∧ isTerminal first = true ∧
    Followers (isAccepted first) (isRejected first) rest

/-- What a valid batch is summed up as. -/
def summaryOf (events : List Event) : EventSummary :=
  { events.foldl EventSummary.count .zero with terminals := 1 }

/-- A numbered list begins with its first ordinal and goes on with the next. -/
theorem numbered_cons_iff {first : Nat} {event : Event} {events : List Event} :
    Numbered sequence first (event :: events) ↔
      (event.id.commandSequence = sequence ∧ event.id.ordinal.val = first) ∧ Numbered sequence (first + 1) events := by
  constructor
  · intro h
    have hhead := h 0 event rfl
    refine ⟨hhead, fun i other hother => ?_⟩
    have htail := h (i + 1) other (by simpa using hother)
    exact ⟨htail.1, by omega⟩
  · intro h
    exact numbered_cons h.1 h.2

/-! ### The check -/

/-- One event passes when it is of the batch, at its place, and may stand
there. -/
theorem checkEvent_eq_ok {shape : BatchShape} {index topCount : Nat} {event : Event} :
    checkEvent instrument sequence shape index topCount event = .ok () ↔
      eventInstrument event = instrument ∧
        (event.id.commandSequence = sequence ∧ event.id.ordinal.val = index) ∧
        (isTerminal event = true → index = 0) ∧
        (∀ trade, event = .trade trade → shape.accepted = true) ∧
        ∀ top, event = .topOfBook top → shape.rejected = false ∧ topCount = 0 ∧ index + 1 = shape.len := by
  unfold checkEvent
  by_cases hinstrument : eventInstrument event = instrument
  · rw [if_neg (not_not.mpr hinstrument)]
    by_cases hsequence : event.id.commandSequence = sequence
    · rw [if_neg (not_not.mpr hsequence)]
      by_cases hordinal : event.id.ordinal.val = index
      · rw [if_neg (not_not.mpr hordinal)]
        by_cases hterminal : isTerminal event = true ∧ index ≠ 0
        · rw [if_pos hterminal]
          constructor
          · intro h
            cases h
          · intro h
            exact absurd (h.2.2.1 hterminal.1) hterminal.2
        · rw [if_neg hterminal]
          have hfirst : isTerminal event = true → index = 0 := fun h => by_contra fun hne => hterminal ⟨h, hne⟩
          cases event with
          | trade event => simp [hinstrument, hsequence, hordinal, isTerminal]
          | topOfBook event =>
              by_cases hrejected : shape.rejected = true
              · simp [hrejected]
              · by_cases htop : topCount = 0
                · by_cases hlast : index + 1 = shape.len
                  · simp [hrejected, htop, hlast, hinstrument, hsequence, hordinal, isTerminal]
                  · simp [hrejected, htop, hlast]
                · simp [hrejected, htop]
          | accepted event =>
              exact ⟨fun _ => ⟨hinstrument, ⟨hsequence, hordinal⟩, hfirst, fun _ => Event.noConfusion, fun _ =>
                Event.noConfusion⟩, fun _ => rfl⟩
          | rejected event =>
              exact ⟨fun _ => ⟨hinstrument, ⟨hsequence, hordinal⟩, hfirst, fun _ => Event.noConfusion, fun _ =>
                Event.noConfusion⟩, fun _ => rfl⟩
          | cancelled event =>
              exact ⟨fun _ => ⟨hinstrument, ⟨hsequence, hordinal⟩, hfirst, fun _ => Event.noConfusion, fun _ =>
                Event.noConfusion⟩, fun _ => rfl⟩
          | replaced event =>
              exact ⟨fun _ => ⟨hinstrument, ⟨hsequence, hordinal⟩, hfirst, fun _ => Event.noConfusion, fun _ =>
                Event.noConfusion⟩, fun _ => rfl⟩
      · rw [if_pos hordinal]
        simp [hordinal]
    · rw [if_pos hsequence]
      simp [hsequence]
  · rw [if_pos hinstrument]
    simp [hinstrument]

/-- Counting an event that is no top of the book leaves that count. -/
theorem topOfBook_count {summary : EventSummary} {event : Event} (h : ∀ top, event ≠ .topOfBook top) :
    (summary.count event).topOfBook = summary.topOfBook := by
  cases event with
  | topOfBook top => exact absurd rfl (h top)
  | accepted event => rfl
  | rejected event => rfl
  | trade event => rfl
  | cancelled event => rfl
  | replaced event => rfl

/-- The loop behind the terminal event accepts the followers it allows and
counts them. -/
theorem checkEvents_followers (instrument : InstrumentId) (sequence : SequenceNumber) (shape : BatchShape)
    {index : Nat} (terminals : Nat) {summary : EventSummary} (events : List Event) (hindex : index ≠ 0)
    (hlen : index + events.length = shape.len) (htop : summary.topOfBook = 0) (result : Nat × EventSummary) :
    checkEvents instrument sequence shape index terminals summary events = .ok result ↔
      (∀ event ∈ events, eventInstrument event = instrument) ∧ Numbered sequence index events ∧
        Followers shape.accepted shape.rejected events ∧ result = (terminals, events.foldl EventSummary.count summary) := by
  induction events generalizing index summary with
  | nil =>
      rw [checkEvents, Except.ok.injEq]
      constructor
      · intro h
        exact ⟨by simp, numbered_nil sequence index, .done, h.symm⟩
      · intro h
        exact h.2.2.2.symm
  | cons event rest ih =>
      rw [List.length_cons] at hlen
      rw [checkEvents, List.forall_mem_cons, numbered_cons_iff, List.foldl_cons]
      cases hcheck : checkEvent instrument sequence shape index summary.topOfBook event with
      | error error =>
          have hfails : ¬checkEvent instrument sequence shape index summary.topOfBook event = .ok () := by
            rw [hcheck]
            exact nofun
          rw [checkEvent_eq_ok] at hfails
          constructor
          · intro h
            cases h
          · rintro ⟨⟨hinstrument, _⟩, ⟨hnumber, _⟩, hfollow, _⟩
            refine absurd ⟨hinstrument, hnumber, ?_, ?_, ?_⟩ hfails
            · intro hterminal
              cases hfollow <;> cases hterminal
            · rintro trade rfl
              cases hfollow with
              | trade _ haccepted _ => exact haccepted
            · rintro top rfl
              cases hfollow with
              | top _ hkept => exact ⟨hkept, htop, by simpa using hlen⟩
      | ok =>
          obtain ⟨hinstrument, hnumber, hterminal, htrade, hlast⟩ := checkEvent_eq_ok.mp hcheck
          have hplain : isTerminal event = false := Bool.of_not_eq_true fun h => hindex (hterminal h)
          rw [hplain, if_neg Bool.false_ne_true]
          cases event with
          | trade event =>
              rw [ih (Nat.succ_ne_zero index) (by omega)
                ((topOfBook_count fun top => Event.noConfusion).trans htop)]
              constructor
              · rintro ⟨hrest, hnumbers, hfollow, hresult⟩
                exact ⟨⟨hinstrument, hrest⟩, ⟨hnumber, hnumbers⟩, .trade event (htrade event rfl) hfollow, hresult⟩
              · rintro ⟨⟨_, hrest⟩, ⟨_, hnumbers⟩, hfollow, hresult⟩
                cases hfollow with
                | trade _ _ hfollow => exact ⟨hrest, hnumbers, hfollow, hresult⟩
          | topOfBook event =>
              obtain ⟨hkept, _, hend⟩ := hlast event rfl
              obtain rfl : rest = [] := List.length_eq_zero_iff.mp (by omega)
              rw [checkEvents, Except.ok.injEq]
              constructor
              · intro hresult
                exact ⟨⟨hinstrument, by simp⟩, ⟨hnumber, numbered_nil sequence _⟩, .top event hkept, hresult.symm⟩
              · intro h
                exact h.2.2.2.symm
          | accepted event => cases hplain
          | rejected event => cases hplain
          | cancelled event => cases hplain
          | replaced event => cases hplain

/-- The check accepts exactly the valid batches, and sums each of them up. -/
theorem validateBatch_eq_ok {batch : EventBatch B} {summary : EventSummary} :
    validateBatch batch instrument sequence = .ok summary ↔
      ValidBatch instrument sequence batch.events ∧ summary = summaryOf batch.events := by
  unfold validateBatch
  cases hevents : batch.events with
  | nil =>
      constructor
      · intro h
        cases h
      · rintro ⟨⟨_, _, first, rest, hcons, _⟩, _⟩
        cases hcons
  | cons first rest =>
      dsimp only
      rw [checkEvents]
      have hshape : ValidBatch instrument sequence (first :: rest) ↔
          (∀ event ∈ first :: rest, eventInstrument event = instrument) ∧ Numbered sequence 0 (first :: rest) ∧
            isTerminal first = true ∧ Followers (isAccepted first) (isRejected first) rest := by
        constructor
        · rintro ⟨hinstruments, hnumbered, _, _, hcons, hterminal, hfollow⟩
          cases hcons
          exact ⟨hinstruments, hnumbered, hterminal, hfollow⟩
        · rintro ⟨hinstruments, hnumbered, hterminal, hfollow⟩
          exact ⟨hinstruments, hnumbered, first, rest, rfl, hterminal, hfollow⟩
      rw [hshape, List.forall_mem_cons, numbered_cons_iff]
      cases hcheck : checkEvent instrument sequence ⟨isAccepted first, isRejected first, (first :: rest).length⟩ 0
          EventSummary.zero.topOfBook first with
      | error error =>
          have hfails := mt checkEvent_eq_ok.mpr (by rw [hcheck]; exact nofun)
          constructor
          · intro h
            cases h
          · rintro ⟨⟨⟨hinstrument, _⟩, ⟨hnumber, _⟩, hterminal, _⟩, _⟩
            refine absurd ⟨hinstrument, hnumber, fun _ => rfl, ?_, ?_⟩ hfails
            · rintro trade rfl
              cases hterminal
            · rintro top rfl
              cases hterminal
      | ok =>
          obtain ⟨hinstrument, hnumber, _, htrade, hlast⟩ := checkEvent_eq_ok.mp hcheck
          cases hterminal : isTerminal first with
          | true =>
              have hzero : (EventSummary.zero.count first).topOfBook = 0 :=
                topOfBook_count (by rintro top rfl; cases hterminal)
              have htail := checkEvents_followers instrument sequence
                ⟨isAccepted first, isRejected first, (first :: rest).length⟩ (0 + 1) rest (Nat.succ_ne_zero 0)
                (Nat.add_comm 1 rest.length) hzero
              dsimp only
              rw [if_pos rfl]
              cases hloop : checkEvents instrument sequence
                  ⟨isAccepted first, isRejected first, (first :: rest).length⟩ (0 + 1) (0 + 1)
                  (EventSummary.zero.count first) rest with
              | error error =>
                  constructor
                  · intro h
                    cases h
                  · rintro ⟨⟨⟨_, hrest⟩, ⟨_, hnumbers⟩, _, hfollow⟩, _⟩
                    have haccepts := (htail _).mpr ⟨hrest, hnumbers, hfollow, rfl⟩
                    rw [hloop] at haccepts
                    cases haccepts
              | ok result =>
                  obtain ⟨hrest, hnumbers, hfollow, rfl⟩ := (htail result).mp hloop
                  change Except.ok (summaryOf (first :: rest)) = Except.ok summary ↔ _
                  rw [Except.ok.injEq]
                  constructor
                  · rintro rfl
                    exact ⟨⟨⟨hinstrument, hrest⟩, ⟨hnumber, hnumbers⟩, rfl, hfollow⟩, rfl⟩
                  · rintro ⟨_, rfl⟩
                    rfl
          | false =>
              dsimp only
              rw [if_neg Bool.false_ne_true]
              constructor
              · intro h
                cases first with
                | trade event => cases htrade event rfl
                | topOfBook event =>
                    obtain ⟨_, _, hend⟩ := hlast event rfl
                    obtain rfl : rest = [] := List.length_eq_zero_iff.mp (Nat.succ.inj hend).symm
                    cases h
                | accepted event => cases hterminal
                | rejected event => cases hterminal
                | cancelled event => cases hterminal
                | replaced event => cases hterminal
              · rintro ⟨⟨_, _, h, _⟩, _⟩
                cases h

/-! ### What an engine publishes -/

/-- Changes of the best levels may end any batch that does not reject its
command. -/
theorem followers_topEvents (accepted : Bool) (command : CommandIdentity) (ordinal : Nat) (before after : Tops) :
    Followers accepted false (topEvents command sequence ordinal before after) := by
  unfold topEvents
  split
  · exact .top _ rfl
  · exact .done

/-- Trades may stand before what follows an accepted order. -/
theorem Followers.append_trades {more : List Event} (h : Followers true false more) (first : Nat)
    (reports : List ExecutionReport) : Followers true false (tradeEvents sequence first reports ++ more) := by
  induction reports generalizing first with
  | nil => exact h
  | cons report rest ih => exact .trade _ rfl (ih (first + 1))

/-- The event that settles a command names the command's instrument. -/
theorem instrument_terminalEvent (outcome : GatewayOutcome) (command : CommandIdentity) (ordinal : U16) :
    eventInstrument (terminalEvent outcome command sequence ordinal) = command.instrumentId := by
  cases outcome <;> rfl

/-- Trade events name the instrument of their reports. -/
theorem instrument_tradeEvents {reports : List ExecutionReport} {first : Nat} {event : Event}
    (h : ∀ report ∈ reports, report.instrumentId = instrument) (hevent : event ∈ tradeEvents sequence first reports) :
    eventInstrument event = instrument := by
  induction reports generalizing first with
  | nil => cases hevent
  | cons report rest ih =>
      rcases List.mem_cons.mp hevent with heq | hmem
      · rw [heq]
        exact h report List.mem_cons_self
      · exact ih (fun other hother => h other (List.mem_cons_of_mem _ hother)) hmem

/-- Changes of the best levels name the command's instrument. -/
theorem instrument_topEvents {command : CommandIdentity} {ordinal : Nat} {before after : Tops} {event : Event}
    (h : event ∈ topEvents command sequence ordinal before after) :
    eventInstrument event = command.instrumentId := by
  unfold topEvents at h
  split at h
  · rw [List.mem_singleton.mp h]
    rfl
  · cases h

/-- An accepted answer publishes a valid batch when its reports are of the
instrument and only an accepted order has any. -/
theorem validBatch_ok (command : CommandIdentity) (before after : Tops) (outcome : GatewayOutcome)
    (reports : List ExecutionReport) (hreports : ∀ report ∈ reports, report.instrumentId = command.instrumentId)
    (hquiet : reports = [] ∨ ∃ summary, outcome = .newOrder summary) (hroom : reports.length + 2 ≤ 2 ^ 16) :
    ValidBatch command.instrumentId sequence (eventsOf command sequence before after ⟨.ok outcome, reports⟩) := by
  refine ⟨?_, numbered_eventsOf command sequence before after _ hroom, ?_⟩
  · intro event hevent
    rw [eventsOf_ok] at hevent
    rcases List.mem_cons.mp hevent with heq | hrest
    · rw [heq]
      exact instrument_terminalEvent outcome command 0
    · rcases List.mem_append.mp hrest with htrade | htop
      · exact instrument_tradeEvents hreports htrade
      · exact instrument_topEvents htop
  · refine ⟨_, _, eventsOf_ok command sequence before after outcome reports, by cases outcome <;> rfl, ?_⟩
    have hkept : isRejected (terminalEvent outcome command sequence 0) = false := by cases outcome <;> rfl
    rw [hkept]
    rcases hquiet with rfl | ⟨summary, rfl⟩
    · exact followers_topEvents _ command _ before after
    · exact (followers_topEvents true command _ before after).append_trades 1 reports

theorem instrument_fromCommand (command : Command) :
    (CommandIdentity.fromCommand command).instrumentId = command.instrumentId := by
  cases command <;> rfl

/-- Every published batch is valid for its command. -/
theorem validBatch_of_published {engine engine' : BoundedEventEngine A R L O N B Q} {logical logical' : LogicalGateway}
    {command : Command} {answer : GatewayAnswer} {batch : EventBatch B} (hN : N + 2 ≤ 2 ^ 16)
    (published : Published engine engine' logical logical' command answer batch) :
    ValidBatch command.instrumentId command.sequence batch.events := by
  have hnext := published.next
  have hmoves := published.moves
  have hbound := published.reports
  rw [published.events, ← instrument_fromCommand command]
  generalize hcommand : some command = carried at hmoves
  cases hmoves with
  | malformed => cases hcommand
  | unsequenced => omega
  | exhausted => omega
  | refused _ _ herror _ =>
      have hshape : ∀ reason, ValidBatch (CommandIdentity.fromCommand command).instrumentId command.sequence
          [.rejected ⟨⟨command.sequence, 0⟩, (CommandIdentity.fromCommand command).kind,
            (CommandIdentity.fromCommand command).orderId, (CommandIdentity.fromCommand command).accountId,
            (CommandIdentity.fromCommand command).instrumentId, reason⟩] := by
        intro reason
        refine ⟨?_, numbered_cons ⟨rfl, rfl⟩ (numbered_nil _ _), _, [], rfl, rfl, .done⟩
        intro event hevent
        rw [List.mem_singleton.mp hevent]
        rfl
      rcases herror with ⟨reason, rfl⟩ | ⟨reason, rfl⟩
      · exact hshape reason
      · exact hshape reason
  | @accepted order _ _ account summary fills resting discarded _ _ haccepted =>
      cases hcommand
      rw [haccepted.answer_eq] at hbound ⊢
      apply validBatch_ok
      · intro report hreport
        obtain ⟨fill, _, rfl⟩ := List.mem_map.mp hreport
        rfl
      · exact .inr ⟨summary, rfl⟩
      · exact (Nat.add_le_add_right hbound 2).trans hN
  | cancelled _ _ hcancelled =>
      rw [hcancelled.answer_eq]
      exact validBatch_ok _ _ _ _ [] (by simp) (.inl rfl) (by simp)
  | replaced _ _ hreplaced =>
      rw [hreplaced.answer_eq]
      exact validBatch_ok _ _ _ _ [] (by simp) (.inl rfl) (by simp)

end HftEngine.Soak
