/-
Module: HftEngine.Proofs.Digest
Layer: Proofs
Purpose: Which part of a gateway its stable digest depends on. The book walks
  its levels and queues in priority order, so its digest is a function of the
  exported state. The risk engine walks its slots, so its digest also depends
  on where accounts and reservations happen to be stored: two gateways that
  export the same state feed the digest the same words exactly when the slots
  hold them in the same order.
Imports: HftEngine.Core.Digest, HftEngine.Proofs.GatewayRestore,
  HftEngine.Proofs.RiskRuns
Trusted boundary: none (fully proved)
Main exports: digestWords_of_represents, SameSlots, SortedSlots,
  digestWords_eq_iff, registeredAccounts_fromState, stable_digest_of_slots,
  restored_digest_differs
-/
import HftEngine.Core.Digest
import HftEngine.Proofs.GatewayRestore
import HftEngine.Proofs.RiskRuns

namespace HftEngine

open Machine Bytes SlotArena KeyedList Transition

variable {A R L O : Nat} {gateway gateway' restored : Gateway A R L O} {engine engine' : RiskEngine A R}
  {state : RiskEngineState}

/-! ### The book -/

/-- What an order of the logical book adds to the digest. -/
def ModelOrder.words (order : ModelOrder) : List U64 :=
  [order.id, widen u32_le_u64 order.account, order.quantity, order.sequence]

/-- What one side of a logical book adds to the digest. -/
def LogicalBook.sideWords (logical : LogicalBook) (side : Side) : List U64 :=
  sideWord side :: (logical.levels side).flatMap fun level =>
    wordOfBe _ (signedBe 8 level.1) :: level.2.flatMap ModelOrder.words

/-- The words a side feeds to the digest are those of the logical book. -/
theorem sideWords_of_represents {book : OrderBook L O} {logical : LogicalBook} (h : Represents book logical)
    (side : Side) : book.sideWords side = logical.sideWords side := by
  obtain ⟨views, rep, rfl⟩ := h
  unfold OrderBook.sideWords LogicalBook.sideWords
  rw [(rep.side side).entries, levels_logicalOf, List.flatMap_map, List.flatMap_map]
  congr 1
  apply List.flatMap_congr
  intro view hview
  obtain ⟨level, free, hlevel, hprice, hrep⟩ := (rep.side side).stored view hview
  have horders : level.liveOrders.flatMap orderWords = (view.nodes.map Prod.snd).flatMap ModelOrder.words := by
    rw [← hrep.liveOrders_eq, List.flatMap_map]
    rfl
  simp only [hlevel, levelWords, hprice, horders, LevelView.logical]

/-- The digest of a book depends on its logical content only. -/
theorem bookDigest_eq {book book' : OrderBook L O} {logical : LogicalBook} (h : Represents book logical)
    (h' : Represents book' logical) : book.stableDigest = book'.stableDigest := by
  have hinstrument : book.instrument = book'.instrument := by
    obtain ⟨_, _, hfirst⟩ := h
    obtain ⟨_, _, hsecond⟩ := h'
    exact congrArg LogicalBook.instrument (hfirst.trans hsecond.symm)
  unfold OrderBook.stableDigest OrderBook.digestWords
  rw [hinstrument, sideWords_of_represents h, sideWords_of_represents h, sideWords_of_represents h',
    sideWords_of_represents h']

/-! ### The risk engine -/

/-- The accounts and the live reservations stand in the same order in the slots
of both engines. -/
structure SameSlots (engine engine' : RiskEngine A R) : Prop where
  accounts : engine.registeredAccounts.map AccountState.id = engine'.registeredAccounts.map AccountState.id
  reservations : engine.liveReservations.map Reservation.orderId = engine'.liveReservations.map Reservation.orderId

/-- The accounts and the live reservations stand in increasing order in their
slots. -/
structure SortedSlots (engine : RiskEngine A R) : Prop where
  accounts : Ascending (fun account : AccountState => account.id.val) engine.registeredAccounts
  reservations : Ascending (fun reservation : Reservation => reservation.orderId.val) engine.liveReservations

/-- Rearrangements of one list that list the keys alike are equal. -/
theorem eq_of_keys {α κ : Type} {key : α → κ} {first second items : List α} (hnodup : (items.map key).Nodup)
    (hfirst : first.Perm items) (hsecond : second.Perm items) (hkeys : first.map key = second.map key) :
    first = second := by
  have hlength : first.length = second.length := by simpa using congrArg List.length hkeys
  apply List.ext_getElem hlength
  intro i hi hi'
  apply List.inj_on_of_nodup_map hnodup (hfirst.subset (List.getElem_mem hi)) (hsecond.subset (List.getElem_mem hi'))
  have hkey : (first.map key)[i]? = (second.map key)[i]? := by rw [hkeys]
  simpa [hi, hi'] using hkey

/-- Blocks of one length that are concatenated to the same words start with the
same words. -/
theorem map_eq_of_flatMap_eq {α β : Type} {f : α → List β} {g : α → β} {size : Nat} {first second : List α}
    (hsize : ∀ x, (f x).length = size) (hhead : ∀ x, (f x).head? = some (g x))
    (h : first.flatMap f = second.flatMap f) : first.map g = second.map g := by
  have hpos : ∀ x, f x ≠ [] := by
    intro x hnil
    have hx := hhead x
    rw [hnil] at hx
    cases hx
  induction first generalizing second with
  | nil =>
      cases second with
      | nil => rfl
      | cons x rest => simp [hpos] at h
  | cons x rest ih =>
      cases second with
      | nil => simp [hpos] at h
      | cons y rest' =>
          rw [List.flatMap_cons, List.flatMap_cons] at h
          obtain ⟨hblock, hrest⟩ := List.append_inj h ((hsize x).trans (hsize y).symm)
          have hxy : some (g x) = some (g y) := by rw [← hhead x, ← hhead y, hblock]
          rw [List.map_cons, List.map_cons, ih hrest, Option.some.inj hxy]

/-- Blocks of one size make up a multiple of it. -/
theorem length_flatMap_blocks {α β : Type} {f : α → List β} {size : Nat} (hsize : ∀ x, (f x).length = size)
    (items : List α) : (items.flatMap f).length = items.length * size := by
  induction items with
  | nil => simp
  | cons x rest ih =>
      rw [List.flatMap_cons, List.length_append, hsize, ih, List.length_cons, Nat.succ_mul]
      omega

/-- The words a reservation feeds to the digest, read from its export. -/
def recordWords (record : ReservationRiskState) : List U64 := [record.orderId, record.quantity]

/-- The words of the live reservations can be read off their export. -/
theorem recordWords_eq : engine.liveReservations.flatMap reservationWords = engine.records.flatMap recordWords := by
  rw [RiskEngine.records, List.flatMap_map]
  rfl

/-- Live reservations and their export name the same orders. -/
theorem records_ids : engine.records.map ReservationRiskState.orderId = engine.liveReservations.map Reservation.orderId := by
  rw [RiskEngine.records, List.map_map]
  rfl

/-- The accounts in slot order are those of the logical state. -/
theorem RiskRep.accounts_perm (rep : RiskRep engine state) : engine.registeredAccounts.Perm state.accounts := by
  rw [registeredAccounts_eq]
  exact rep.accounts

section Words

variable (rep : RiskRep engine state) (rep' : RiskRep engine' state)
include rep rep'

/-- Engines with one content feed the digest the same words exactly when their
slots hold it in the same order. -/
theorem digestWords_eq_iff : engine.digestWords = engine'.digestWords ↔ SameSlots engine engine' := by
  have haccountSize : ∀ account, (accountWords account).length = 9 := fun _ => rfl
  have hrecordSize : ∀ record, (recordWords record).length = 2 := fun _ => rfl
  have hmaximum : engine.maximumOrderId = engine'.maximumOrderId := rep.maximumOrderId.trans rep'.maximumOrderId.symm
  have hkilled : engine.killed = engine'.killed := rep.killed.trans rep'.killed.symm
  have hcount : engine.registeredAccounts.length = engine'.registeredAccounts.length :=
    rep.accounts_perm.length_eq.trans rep'.accounts_perm.length_eq.symm
  unfold RiskEngine.digestWords
  rw [hkilled, hmaximum, recordWords_eq, recordWords_eq]
  constructor
  · intro h
    rw [List.append_assoc, List.append_assoc] at h
    obtain ⟨haccounts, hrecords⟩ := List.append_inj (List.append_cancel_left h)
      (by rw [length_flatMap_blocks haccountSize, length_flatMap_blocks haccountSize, hcount])
    constructor
    · have hkeys := map_eq_of_flatMap_eq (g := fun account : AccountState => RiskEngine.accountKey account.id)
        haccountSize (fun _ => rfl) haccounts
      have hinjective : Function.Injective RiskEngine.accountKey := fun _ _ => accountKey_inj
      apply List.map_injective_iff.mpr hinjective
      rw [List.map_map, List.map_map]
      exact hkeys
    · rw [← records_ids, ← records_ids]
      exact map_eq_of_flatMap_eq hrecordSize (fun _ => rfl) hrecords
  · rintro ⟨haccounts, hrecords⟩
    rw [← records_ids, ← records_ids] at hrecords
    have haccountIds : (state.accounts.map AccountState.id).Nodup := rep.accountsSorted.nodup_words
    have horderIds : (state.reservations.map ReservationRiskState.orderId).Nodup :=
      rep.reservationsSorted.nodup_words
    rw [eq_of_keys haccountIds rep.accounts_perm rep'.accounts_perm haccounts,
      eq_of_keys horderIds rep.records_perm rep'.records_perm hrecords]

end Words

/-! ### Restored slots -/

/-- A store that holds a list from its first place on. -/
theorem contents_getElem? {α : Type} {n : Nat} {items : List α} (h : items.length ≤ n) :
    contents n (fun i => items[i]?) = items := by
  have hrange : List.range n = List.range items.length ++ (List.range (n - items.length)).map (items.length + ·) := by
    rw [← List.range_add, Nat.add_sub_cancel' h]
  have hempty : ((List.range (n - items.length)).map (items.length + ·)).filterMap (fun i => items[i]?) = [] := by
    rw [List.filterMap_eq_nil_iff]
    intro i hi
    obtain ⟨j, _, rfl⟩ := List.mem_map.mp hi
    exact List.getElem?_eq_none (Nat.le_add_right _ _)
  have hplaces : (List.range items.length).map (fun i => items[i]?) = items.map some := by
    apply List.ext_getElem?
    intro i
    by_cases hi : i < items.length
    · simp [hi]
    · simp [hi]
  have hfull : (List.range items.length).filterMap (fun i => items[i]?) = items := by
    calc (List.range items.length).filterMap (fun i => items[i]?)
        = ((List.range items.length).map fun i => items[i]?).filterMap id := by
          rw [List.filterMap_map]
          rfl
      _ = items := by
          rw [hplaces, List.filterMap_map]
          exact List.filterMap_some
  rw [contents, hrange, List.filterMap_append, hempty, hfull, List.append_nil]

/-- Restoring accounts writes them to the slots behind those already stored. -/
theorem restoreAccounts_slots {rest : List AccountState} (stored : List AccountState)
    (h : RiskEngine.restoreAccounts rest stored.length engine = .ok engine')
    (hat : ∀ i, engine.accountAt i = stored[i]?) (hcount : (stored ++ rest).length ≤ A) :
    (∀ i, engine'.accountAt i = (stored ++ rest)[i]?) ∧ engine'.reservations = engine.reservations := by
  induction rest generalizing stored engine with
  | nil =>
      cases h
      rw [List.append_nil]
      exact ⟨hat, rfl⟩
  | cons account rest ih =>
      unfold RiskEngine.restoreAccounts at h
      split at h
      · cases h
      · cases h
      rename_i cell index _
      rw [List.length_append, List.length_cons] at hcount
      have hsplit : stored ++ account :: rest = (stored ++ [account]) ++ rest := by simp
      have hlength : stored.length + 1 = (stored ++ [account]).length := by simp
      rw [hlength] at h
      rw [hsplit]
      have hstep := ih _ h ?_ (by simp only [List.length_append, List.length_singleton]; omega)
      · exact hstep
      · intro i
        rw [accountAt_setAccount, if_pos (by omega)]
        by_cases hi : i = stored.length
        · subst hi
          simp
        · rw [Function.update_of_ne hi, List.getElem?_append]
          change engine.accountAt i = _
          rw [hat]
          split
          · rfl
          · rename_i hbeyond
            rw [List.getElem?_eq_none (by omega), List.getElem?_eq_none (by simp; omega)]

/-- Restoring reservations writes them to the slots behind those already
stored. -/
theorem restoreReservations_slots {rest : List ReservationRiskState} (stored : List ReservationRiskState)
    (h : RiskEngine.restoreReservations rest stored.length engine = .ok engine')
    (hat : ∀ i, recordAt engine.reservations i = stored[i]?) (hcount : (stored ++ rest).length ≤ R) :
    (∀ i, recordAt engine'.reservations i = (stored ++ rest)[i]?) ∧ engine'.accounts = engine.accounts := by
  induction rest generalizing stored engine with
  | nil =>
      cases h
      rw [List.append_nil]
      exact ⟨hat, rfl⟩
  | cons record rest ih =>
      unfold RiskEngine.restoreReservations at h
      split at h
      · cases h
      · cases h
      rename_i cell index _
      rw [List.length_append, List.length_cons] at hcount
      have hsplit : stored ++ record :: rest = (stored ++ [record]) ++ rest := by simp
      have hlength : stored.length + 1 = (stored ++ [record]).length := by simp
      rw [hlength] at h
      rw [hsplit]
      have hstep := ih _ h ?_ (by simp only [List.length_append, List.length_singleton]; omega)
      · exact hstep
      · intro i
        change recordAt (setSlot engine.reservations stored.length _) i = _
        rw [recordAt_setSlot (by omega)]
        by_cases hi : i = stored.length
        · subst hi
          simp [RiskEngine.exportReservation]
        · rw [Function.update_of_ne hi, List.getElem?_append, hat]
          split
          · rfl
          · rename_i hbeyond
            rw [List.getElem?_eq_none (by omega), List.getElem?_eq_none (by simp; omega)]

/-- Freeing slots that hold nothing changes no record. -/
theorem recordAt_restoreFree {first : Nat} (hvacant : ∀ i, first ≤ i → recordAt engine.reservations i = none) :
    recordAt (engine.restoreFree first).reservations = recordAt engine.reservations := by
  have hkeep : ∀ (slots : List Nat) (reservations : Vector (Slot Reservation) R),
      (∀ i ∈ slots, i < R ∧ recordAt reservations i = none) →
      recordAt (slots.foldl (fun reservations i =>
        setSlot reservations i (.free (if i + 1 < R then some (i + 1) else none))) reservations)
        = recordAt reservations := by
    intro slots
    induction slots with
    | nil => exact fun _ _ => rfl
    | cons i rest ih =>
        intro reservations hslots
        obtain ⟨⟨hi, hnone⟩, hrest⟩ := List.forall_mem_cons.mp hslots
        have hsame : recordAt (setSlot reservations i (.free (if i + 1 < R then some (i + 1) else none)))
            = recordAt reservations := by
          rw [recordAt_setSlot hi]
          exact Function.update_eq_self_iff.mpr hnone.symm
        rw [List.foldl_cons, ih _ (by rw [hsame]; exact hrest), hsame]
  apply hkeep
  intro i hi
  rw [List.mem_range'_1] at hi
  exact ⟨by omega, hvacant i hi.1⟩

/-- A restored engine holds accounts and reservations in the order of the
state. -/
theorem slots_of_fromState (h : RiskEngine.fromState state = .ok engine) :
    engine.registeredAccounts = state.accounts ∧ engine.records = state.reservations := by
  have valid := (riskRep_of_fromState h).1
  unfold RiskEngine.fromState at h
  obtain ⟨_, _, h⟩ := bind_eq_ok.mp h
  obtain ⟨held, hheld, h⟩ := bind_eq_ok.mp h
  obtain ⟨filled, hfilled, hpure⟩ := bind_eq_ok.mp h
  cases hpure
  have haccounts := restoreAccounts_slots [] hheld (by
    intro i
    simp only [RiskEngine.accountAt, RiskEngine.new, Vector.getElem?_replicate, List.getElem?_nil]
    split <;> rfl) valid.accountCount
  have hrecords := restoreReservations_slots [] hfilled (by
    intro i
    rw [haccounts.2, recordAt]
    simp [RiskEngine.new, liveAt_freshSlots]) valid.reservationCount
  rw [List.nil_append] at haccounts hrecords
  constructor
  · rw [registeredAccounts_eq]
    have hat : (filled.restoreFree state.reservations.length).accountAt = fun i => state.accounts[i]? := by
      funext i
      rw [← haccounts.1 i]
      simp only [RiskEngine.accountAt, RiskEngine.restoreFree, hrecords.2]
    rw [hat]
    exact contents_getElem? valid.accountCount
  · rw [RiskEngine.records, liveReservations_eq, recordAt_restoreFree]
    · rw [show recordAt filled.reservations = fun i => state.reservations[i]? from funext hrecords.1]
      exact contents_getElem? valid.reservationCount
    · intro i hi
      rw [hrecords.1 i]
      exact List.getElem?_eq_none hi

/-- A restored engine holds its content in the slots of the original exactly
when those are in increasing order. -/
theorem sameSlots_restored_iff (rep : RiskRep engine state) (h : RiskEngine.fromState state = .ok engine') :
    SameSlots engine engine' ↔ SortedSlots engine := by
  obtain ⟨haccounts, hrecords⟩ := slots_of_fromState h
  constructor
  · rintro ⟨hids, horders⟩
    rw [haccounts] at hids
    rw [← records_ids, ← records_ids, hrecords] at horders
    constructor
    · have hpairwise : (state.accounts.map AccountState.id).Pairwise fun first second => first.val < second.val :=
        List.pairwise_map.mpr rep.accountsSorted
      rw [← hids, List.pairwise_map] at hpairwise
      exact hpairwise
    · have hpairwise : (state.reservations.map ReservationRiskState.orderId).Pairwise
          fun first second => first.val < second.val := List.pairwise_map.mpr rep.reservationsSorted
      rw [← horders, records_ids, List.pairwise_map] at hpairwise
      exact hpairwise
  · rintro ⟨hids, horders⟩
    have hsorted : Ascending (fun record : ReservationRiskState => record.orderId.val) engine.records :=
      List.pairwise_map.mpr horders
    constructor
    · rw [haccounts, ← insertionSort_eq hids rep.accounts_perm.symm, insertionSort_eq rep.accountsSorted (List.Perm.refl _)]
    · rw [← records_ids, ← records_ids, hrecords, ← insertionSort_eq hsorted rep.records_perm.symm,
        insertionSort_eq rep.reservationsSorted (List.Perm.refl _)]

/-! ### The gateway -/

/-- A gateway reached from a configured engine, or restored from what one
exports. -/
def Obtained (gateway : Gateway A R L O) : Prop :=
  Reached gateway ∨ ∃ origin : Gateway A R L O, Reached origin ∧ Gateway.fromState origin.exportState = .ok gateway

/-- A gateway that was obtained by runs and restores represents a logical
one. -/
theorem Obtained.rep (h : Obtained gateway) : ∃ logical, GatewayRep gateway logical := by
  rcases h with hreached | ⟨origin, _, hrestored⟩
  · obtain ⟨logical, rep, _⟩ := hreached.sound
    exact ⟨logical, rep⟩
  · exact ⟨_, (gatewayRep_of_fromState hrestored).1⟩

/-- The risk engine of a restored gateway is restored from the risk part of the
state. -/
theorem risk_of_fromState {exported : GatewayState L O} (h : Gateway.fromState exported = .ok restored) :
    RiskEngine.fromState exported.risk = .ok restored.risk := by
  unfold Gateway.fromState at h
  split at h
  · cases h
  split at h
  · cases h
  rename_i risk hrisk
  obtain ⟨_, _, hpure⟩ := bind_eq_ok.mp h
  cases hpure
  exact hrisk

/-- Equal exports mean equal content. -/
theorem sameContent_of_exportState (h : Obtained gateway) (h' : Obtained gateway')
    (hexport : gateway.exportState = gateway'.exportState) : SameContent gateway gateway' := by
  obtain ⟨logical, rep⟩ := h.rep
  obtain ⟨logical', rep'⟩ := h'.rep
  have hcontent : logical = logical' := by
    rw [← content_gatewayState rep, ← content_gatewayState rep', ← rep.exportState_eq, ← rep'.exportState_eq, hexport]
  exact ⟨logical, rep, hcontent ▸ rep'⟩

/-- Gateways with the same content and the same slots have the same digest. -/
theorem gatewayDigest_eq (h : SameContent gateway gateway') (hslots : SameSlots gateway.risk gateway'.risk) :
    gateway.stableDigest = gateway'.stableDigest := by
  obtain ⟨logical, rep, rep'⟩ := h
  unfold Gateway.stableDigest RiskEngine.stableDigest
  rw [bookDigest_eq rep.book rep'.book, (digestWords_eq_iff rep.risk rep'.risk).mpr hslots, rep.expectedSequence,
    rep'.expectedSequence, rep.maximumReceivedOrderId, rep'.maximumReceivedOrderId]

/-- Gateways that export the same state and hold accounts and live reservations
in the same slot order have the same digest; a restored copy does so exactly
when the original holds them in increasing order. -/
theorem stable_digest_of_slots (h : Obtained gateway) (h' : Obtained gateway')
    (hexport : gateway.exportState = gateway'.exportState) :
    (SameSlots gateway.risk gateway'.risk → gateway.stableDigest = gateway'.stableDigest) ∧
      (SameSlots gateway.risk gateway'.risk ↔ gateway.risk.digestWords = gateway'.risk.digestWords) ∧
      (Gateway.fromState gateway.exportState = .ok gateway' →
        (SameSlots gateway.risk gateway'.risk ↔ SortedSlots gateway.risk)) := by
  have hsame := sameContent_of_exportState h h' hexport
  refine ⟨gatewayDigest_eq hsame, ?_, ?_⟩
  · obtain ⟨logical, rep, rep'⟩ := hsame
    exact (digestWords_eq_iff rep.risk rep'.risk).symm
  · intro hrestored
    obtain ⟨logical, rep⟩ := h.rep
    have hrisk := risk_of_fromState hrestored
    rw [rep.exportState_eq] at hrisk
    exact sameSlots_restored_iff rep.risk hrisk

/-- A gateway with one offer and its restored copy have the same digest. -/
theorem stable_digest_of_slots_sample : ∃ gateway restored : Gateway 1 1 1 1, Reached gateway ∧
    Gateway.fromState gateway.exportState = .ok restored ∧ gateway.stableDigest = restored.stableDigest := by
  obtain ⟨⟨answers, gateway⟩, hrun, hok, haccounts, hreservations⟩ := exists_of_any
    (run Gateway.call tightGateway ((amendedOffer (i64 15) 8).take 1))
    (fun result => (Gateway.fromState result.2.exportState :
        Except GatewayStateError (Gateway 1 1 1 1)).toOption.isSome = true ∧
      (result.2.risk.registeredAccounts.Pairwise fun first second => first.id.val < second.id.val) ∧
      (result.2.risk.liveReservations.Pairwise fun first second => first.orderId.val < second.orderId.val))
    (by decide +kernel)
  cases hrestored : (Gateway.fromState gateway.exportState : Except GatewayStateError (Gateway 1 1 1 1)) with
  | error => rw [hrestored] at hok; cases hok
  | ok restored =>
      have hreached : Reached gateway := ⟨_, 7, _, answers, .registerAccount _ _ .new, hrun⟩
      have hdigest := stable_digest_of_slots (.inl hreached) (.inr ⟨gateway, hreached, hrestored⟩)
        (gatewayRep_of_fromState hrestored).2.symm
      exact ⟨gateway, restored, hreached, hrestored,
        hdigest.1 ((hdigest.2.2 hrestored).mpr ⟨haccounts, hreservations⟩)⟩

/-- A fresh gateway whose accounts 2 and 1 were registered in this order. -/
def registeredDownwards : Gateway 2 1 1 1 :=
  Gateway.new ((RiskEngine.new.registerAccount 2 ⟨10, 1000, 1000, 10, i64 5, i64 20⟩).2.registerAccount 1
    ⟨10, 1000, 1000, 10, i64 5, i64 20⟩).2 7

/-- Its restored copy exports the same state and has another digest. -/
theorem restored_digest_differs : ∃ gateway restored : Gateway 2 1 1 1, Reached gateway ∧
    Gateway.fromState gateway.exportState = .ok restored ∧ restored.exportState = gateway.exportState ∧
    restored.stableDigest ≠ gateway.stableDigest := by
  obtain ⟨restored, hrestored, hdigest⟩ := exists_of_any
    (Gateway.fromState registeredDownwards.exportState : Except GatewayStateError (Gateway 2 1 1 1)).toOption
    (fun restored => restored.stableDigest ≠ registeredDownwards.stableDigest) (by decide +kernel)
  have hok : Gateway.fromState registeredDownwards.exportState = .ok restored := by
    cases hresult : (Gateway.fromState registeredDownwards.exportState : Except GatewayStateError (Gateway 2 1 1 1)) with
    | error => rw [hresult] at hrestored; cases hrestored
    | ok found => rw [hresult] at hrestored; cases hrestored; rfl
  exact ⟨registeredDownwards, restored, ⟨_, 7, [], [], .registerAccount _ _ (.registerAccount _ _ .new), rfl⟩, hok,
    (gatewayRep_of_fromState hok).2, hdigest⟩

end HftEngine
