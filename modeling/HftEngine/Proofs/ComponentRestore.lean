/-
Module: HftEngine.Proofs.ComponentRestore
Layer: Proofs
Purpose: The book and the risk engine, each restored from its logical state on
  its own. What is restored is sound and exports the state again; what a
  reachable gateway exports is always restored. A validated book state is
  restored whenever the cells of the id index can be numbered in 32 bits, and a
  state is given whose order hashes to a cell beyond them.
Imports: HftEngine.Proofs.GatewayRestore, HftEngine.Proofs.RiskRuns
Trusted boundary: none (fully proved)
Main exports: fitsIndex_of_valid, riskEngine_sound_of_fromState,
  components_round_trip, validated_state_not_restored
-/
import HftEngine.Proofs.GatewayRestore
import HftEngine.Proofs.RiskRuns

namespace HftEngine

open Machine OpenAddressing KeyedList

variable {A R L O : Nat} {book : OrderBook L O} {engine : RiskEngine A R}

/-! ### The id index -/

/-- The ids of a valid state can be indexed when every cell has a 32-bit
number. -/
theorem fitsIndex_of_valid {state : BookState L O} (valid : StateValid state) (hindex : 4 * L * O ≤ 2 ^ 32) :
    FitsIndex L O state.content.Holds := by
  classical
  let keys := (levelIds (state.activeSide .buy) ++ levelIds (state.activeSide .sell)).toFinset
  have hmem : ∀ id, id ∈ keys ↔ state.content.Holds id := by
    intro id
    rw [List.mem_toFinset, List.mem_append]
    exact holds_levels.symm
  have hside : ∀ side, (levelIds (state.activeSide side)).length ≤ L * O := fun side =>
    (levelIds_length_le (valid.levels side)).trans (Nat.mul_le_mul_right O (activeSide_length_le valid side))
  have hcells : L * O * orderIndexPlanes = 4 * L * O := by
    rw [orderIndexPlanes, Nat.mul_comm, Nat.mul_assoc]
  have hcard : keys.card ≤ L * O * orderIndexPlanes := by
    have hlist := List.toFinset_card_le (levelIds (state.activeSide .buy) ++ levelIds (state.activeSide .sell))
    have hbuy := hside .buy
    have hsell := hside .sell
    rw [List.length_append] at hlist
    rw [orderIndexPlanes]
    change keys.card ≤ _ at hlist
    omega
  have hfits : FitsIndex L O (· ∈ keys) :=
    fits_of_card (fun key => probeStart_lt key) (by rw [hcells]; exact hindex) keys hcard
  have hsame : (· ∈ keys) = state.content.Holds := funext fun id => propext (hmem id)
  rwa [hsame] at hfits

/-- A single key that fits has a home among the numbered cells: nothing
displaces it. -/
theorem home_lt_of_fits {K V : Type} {home : K → Nat} {limit C : Nat} {key : K} (hhome : home key < C)
    (h : Fits home limit V C (· = key)) : home key < limit := by
  obtain ⟨table, probed, small, hkeys⟩ := h
  obtain ⟨i, v, hcell⟩ := (hkeys key).mpr rfl
  have hat : home key = i := by
    apply probeDistance_eq_zero hhome
    by_contra hfar
    obtain ⟨⟨other, w⟩, hother⟩ := Option.isSome_iff_exists.mp (probed.path hcell 0 (Nat.pos_of_ne_zero hfar))
    rw [Nat.add_zero, Nat.mod_eq_of_lt hhome] at hother
    have hsame : other = key := (hkeys other).mp ⟨_, w, hother⟩
    subst hsame
    rw [probed.unique hcell hother, probeDistance_self] at hfar
    exact hfar rfl
  exact hat ▸ small hcell

/-! ### Both components -/

/-- What a risk engine is restored from, it exports again, and its storage is
sound. -/
theorem riskEngine_sound_of_fromState {state : RiskEngineState} (h : RiskEngine.fromState state = .ok engine) :
    engine.Sound ∧ engine.exportState = state := by
  obtain ⟨valid, rep⟩ := riskRep_of_fromState h
  refine ⟨rep.sound ?_, rep.exportState_eq⟩
  constructor
  · exact valid.accountsSorted.nodup_words
  · exact valid.reservationsSorted.nodup_words
  · exact fun account hmem => (valid.balanced account hmem).reserved
  · exact fun account hmem => (valid.balanced account hmem).count
  · exact valid.owners

/-- Restored components are sound and export their state again, a validated
book state is restored when the index cells have 32-bit numbers, and both parts
of what a reachable gateway exports are restored. -/
theorem components_round_trip :
    (∀ instrument (state : BookState L O) (book : OrderBook L O), OrderBook.fromState instrument state = .ok book →
      BookInvariant book ∧ BookSound book ∧ book.exportState = state) ∧
    (4 * L * O ≤ 2 ^ 32 → ∀ state : BookState L O, OrderBook.validateState state = .ok () →
      ∃ book : OrderBook L O, OrderBook.fromState state.instrument state = .ok book) ∧
    (∀ (state : RiskEngineState) (engine : RiskEngine A R), RiskEngine.fromState state = .ok engine →
      engine.Sound ∧ engine.exportState = state) ∧
    (∀ gateway : Gateway A R L O, Reached gateway →
      (∃ book : OrderBook L O,
        OrderBook.fromState gateway.exportState.instrument gateway.exportState.book = .ok book) ∧
      ∃ engine : RiskEngine A R, RiskEngine.fromState gateway.exportState.risk = .ok engine) := by
  refine ⟨?_, ?_, fun state engine h => riskEngine_sound_of_fromState h, ?_⟩
  · intro instrument state book h
    obtain ⟨_, valid, represents⟩ := represents_of_fromState h
    refine ⟨represents.invariant, represents.sound valid.sound, ?_⟩
    rw [exportState_eq represents, valid.state_content]
  · intro hindex state hvalid
    have valid := validateState_ok_iff.mp hvalid
    obtain ⟨book, hbook, _⟩ := fromState_of_valid valid (fitsIndex_of_valid valid hindex)
    exact ⟨book, hbook⟩
  · intro gateway hreached
    obtain ⟨logical, rep, canonical⟩ := hreached.canonical
    rw [rep.exportState_eq]
    exact components_restored canonical rep

/-! ### A state beyond the numbered cells -/

/-- Queue slots for which the index has four cells more than 32 bits can
number. -/
def crowdedLevel : Nat := 2 ^ 30 + 1

/-- An id that hashes to the first cell without a number. -/
def unnumberedId : OrderId := 11040419717352259584

/-- One bid of that id. -/
def unnumberedBid : LogicalBook := ⟨7, [(i64 10, [⟨unnumberedId, 1, 5, 1⟩])], []⟩

theorem orders_unnumberedBid : unnumberedBid.orders = [(.buy, i64 10, ⟨unnumberedId, 1, 5, 1⟩)] := rfl

/-- The bid fits a book of the smallest size. -/
theorem unnumberedBid_bounded : unnumberedBid.Bounded 1 crowdedLevel := by
  constructor
  · intro side
    cases side <;> decide
  · intro side level hlevel
    cases side with
    | buy =>
        rw [List.mem_singleton.mp hlevel]
        decide
    | sell => cases hlevel

/-- As a book state it passes the checks of a restore. -/
theorem unnumberedBid_valid : StateValid (unnumberedBid.state 1 crowdedLevel) := by
  have wf : unnumberedBid.WellFormed := by
    refine ⟨?_, ?_, ?_⟩
    · intro side
      cases side with
      | buy => exact List.pairwise_singleton _ _
      | sell => exact List.Pairwise.nil
    · intro side level hlevel
      cases side with
      | buy =>
          rw [List.mem_singleton.mp hlevel]
          simp
      | sell => cases hlevel
    · rw [orders_unnumberedBid]
      exact List.nodup_singleton _
  have sound : unnumberedBid.Sound := by
    refine ⟨?_, ?_, ?_⟩
    · intro entry hentry
      rw [List.mem_singleton.mp hentry]
      decide
    · intro entry hentry
      rw [List.mem_singleton.mp hentry]
      decide
    · intro bid _ ask hask _ hsell
      rw [List.mem_singleton.mp hask] at hsell
      cases hsell
  have stamped : unnumberedBid.Stamped 2 := by
    refine ⟨?_, ?_⟩
    · intro side level hlevel
      cases side with
      | buy =>
          rw [List.mem_singleton.mp hlevel]
          decide
      | sell => cases hlevel
    · rw [orders_unnumberedBid]
      exact List.nodup_singleton _
  exact stateValid_of_content unnumberedBid_bounded wf sound stamped

/-- The unnumbered bid is the only order of its book. -/
theorem holds_unnumberedBid (id : OrderId) : unnumberedBid.Holds id ↔ id = unnumberedId := by
  rw [holds_iff_mem]
  constructor
  · rintro ⟨side, level, hlevel, order, horder, rfl⟩
    cases side with
    | buy =>
        rw [List.mem_singleton.mp hlevel] at horder
        rw [List.mem_singleton.mp horder]
    | sell => cases hlevel
  · rintro rfl
    exact ⟨.buy, _, List.mem_singleton_self _, _, List.mem_singleton_self _, rfl⟩

/-- The state passes validation, and restoring a book from it fails. -/
theorem validated_state_not_restored : ∃ state : BookState 1 crowdedLevel,
    OrderBook.validateState state = .ok () ∧
    ¬∃ book : OrderBook 1 crowdedLevel, OrderBook.fromState state.instrument state = .ok book := by
  refine ⟨unnumberedBid.state 1 crowdedLevel, validateState_ok_iff.mpr unnumberedBid_valid, ?_⟩
  rintro ⟨book, hbook⟩
  obtain ⟨_, _, views, rep, hviews⟩ := represents_of_fromState hbook
  have hfits := rep.fitsIndex book.instrument
  rw [hviews, content_state unnumberedBid_bounded] at hfits
  have hholds : unnumberedBid.Holds = (· = unnumberedId) := funext fun id => propext (holds_unnumberedBid id)
  rw [hholds] at hfits
  have hhome := home_lt_of_fits (probeStart_lt unnumberedId (by decide)) hfits
  revert hhome
  decide

end HftEngine
