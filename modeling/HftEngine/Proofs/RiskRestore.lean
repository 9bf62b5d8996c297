/-
Module: HftEngine.Proofs.RiskRestore
Layer: Proofs
Purpose: Restoring a risk engine from its logical state. A state passes
  validation exactly when it is a canonical, consistent ledger within the
  capacities, and what is rebuilt from it stores exactly that ledger.
Imports: HftEngine.Proofs.RiskSetup
Trusted boundary: none (fully proved)
Main exports: RiskStateValid, validateRiskState_ok_iff, riskRep_of_fromState,
  riskEngine_fromState_of_valid
-/
import HftEngine.Proofs.RiskSetup

namespace HftEngine

open Machine SlotArena OpenAddressing KeyedList

variable {A R : Nat} {engine engine' : RiskEngine A R} {state : RiskEngineState} {account : AccountState}
  {reservations : List ReservationRiskState} {slot : Nat}

/-! ### Validation -/

/-- Lists in increasing key order pass the neighbour checks, and no others
do. -/
theorem validateAscending_ok_iff {α : Type} {key : α → Nat} {duplicate : RiskStateError} {items : List α} :
    validateAscending key duplicate items = .ok () ↔ Ascending key items := by
  have htrans : IsTrans α fun first second => key first < key second := ⟨fun _ _ _ => lt_trans⟩
  have hchain : validateAscending key duplicate items = .ok () ↔
      items.IsChain fun first second => key first < key second := by
    induction items with
    | nil => simp [validateAscending]
    | cons first rest ih =>
        cases rest with
        | nil => simp [validateAscending]
        | cons second rest =>
            rw [List.isChain_cons_cons, ← ih, validateAscending]
            rcases lt_trichotomy (key first) (key second) with hlt | heq | hgt
            · rw [if_neg (by omega), if_neg (by omega)]
              simp [hlt]
            · rw [if_pos heq]
              simp [heq]
            · rw [if_neg (by omega), if_pos hgt]
              simp only [reduceCtorEq, false_iff, not_and]
              intro hlt
              omega
  rw [hchain, List.isChain_iff_pairwise]
  rfl

/-- The conversion of a missing sum into an error lets the sums through that
are there. -/
theorem orStateOverflow_eq_ok {α : Type} {x : Option α} {a : α} : orStateOverflow x = .ok a ↔ x = some a := by
  cases x <;> simp [orStateOverflow]

/-- Quantity on one side, whoever owns it. -/
def sideTotal (side : Side) (reservations : List ReservationRiskState) : Nat :=
  (reservations.map fun reservation => if reservation.side = side then reservation.quantity.val else 0).sum

@[simp] theorem sideTotal_cons {side : Side} {reservation : ReservationRiskState} :
    sideTotal side (reservation :: reservations)
      = (if reservation.side = side then reservation.quantity.val else 0) + sideTotal side reservations := by
  simp [sideTotal]

/-- The tally is the totals, unless one of them leaves its word. -/
theorem tallyReservations_ok_iff {buys sells buys' sells' : U128} {count count' : U32} :
    tallyReservations reservations buys sells count = .ok (buys', sells', count') ↔
      buys'.val = buys.val + sideTotal .buy reservations ∧ sells'.val = sells.val + sideTotal .sell reservations ∧
        count'.val = count.val + reservations.length := by
  induction reservations generalizing buys sells count with
  | nil =>
      simp only [tallyReservations, Except.ok.injEq, Prod.mk.injEq, sideTotal, List.map_nil, List.sum_nil,
        List.length_nil, Nat.add_zero, Fin.ext_iff]
      exact and_congr eq_comm (and_congr eq_comm eq_comm)
  | cons reservation rest ih =>
      have hbound := buys'.isLt
      have hbound' := sells'.isLt
      have hbound'' := count'.isLt
      cases hside : reservation.side with
      | buy =>
          simp only [tallyReservations, hside, bind_eq_ok, orStateOverflow_eq_ok, checkedAdd_eq_some, pure, Except.pure,
            Except.ok.injEq, ih, sideTotal_cons, if_true, reduceCtorEq, if_false, List.length_cons, u128OfU64_val,
            Prod.exists, Prod.mk.injEq, Fin.val_one]
          constructor
          · rintro ⟨middle, hmiddle, _, _, ⟨rfl, rfl⟩, next, hnext, hbuys, hsells, hcount⟩
            omega
          · rintro ⟨hbuys, hsells, hcount⟩
            obtain ⟨middle, hmiddle⟩ : ∃ middle : U128, middle.val = buys.val + reservation.quantity.val :=
              ⟨⟨_, by omega⟩, rfl⟩
            obtain ⟨next, hnext⟩ : ∃ next : U32, next.val = count.val + 1 := ⟨⟨_, by omega⟩, rfl⟩
            exact ⟨middle, hmiddle, _, _, ⟨rfl, rfl⟩, next, hnext, by omega, by omega, by omega⟩
      | sell =>
          simp only [tallyReservations, hside, bind_eq_ok, orStateOverflow_eq_ok, checkedAdd_eq_some, pure, Except.pure,
            Except.ok.injEq, ih, sideTotal_cons, if_true, reduceCtorEq, if_false, List.length_cons, u128OfU64_val,
            Prod.exists, Prod.mk.injEq, Fin.val_one]
          constructor
          · rintro ⟨middle, hmiddle, _, _, ⟨rfl, rfl⟩, next, hnext, hbuys, hsells, hcount⟩
            omega
          · rintro ⟨hbuys, hsells, hcount⟩
            obtain ⟨middle, hmiddle⟩ : ∃ middle : U128, middle.val = sells.val + reservation.quantity.val :=
              ⟨⟨_, by omega⟩, rfl⟩
            obtain ⟨next, hnext⟩ : ∃ next : U32, next.val = count.val + 1 := ⟨⟨_, by omega⟩, rfl⟩
            exact ⟨middle, hmiddle, _, _, ⟨rfl, rfl⟩, next, hnext, by omega, by omega, by omega⟩

/-- The totals of one account are those of its reservations. -/
theorem sideTotal_filter (side : Side) (id : AccountId) (reservations : List ReservationRiskState) :
    sideTotal side (reservations.filter fun reservation => reservation.accountId = id)
      = reservedTotal side id reservations := by
  induction reservations with
  | nil => rfl
  | cons reservation rest ih =>
      rw [List.filter_cons, reservedTotal_cons, claim]
      by_cases hown : reservation.accountId = id
      · simp [hown, ih]
      · simp [hown, ih]

/-- The open orders of an account are its reservations. -/
theorem length_filter_owned (id : AccountId) (reservations : List ReservationRiskState) :
    (reservations.filter fun reservation => reservation.accountId = id).length = openCount id reservations := by
  rw [openCount, List.countP_eq_length_filter]

/-- The two worst cases of an account are within its position limit, and then
neither sum leaves its word. -/
theorem worstCases_ok_iff {buys sells : U128} :
    (do
      let long ← orStateOverflow (i128OfU128 buys)
      let short ← orStateOverflow (i128OfU128 sells)
      let worstLong ← orStateOverflow (checkedAddSigned account.settledPosition long)
      let worstShort ← orStateOverflow (checkedSubSigned account.settledPosition short)
      if worstLong.val > (account.limits.maxAbsPosition.val : Int) ∨
          worstShort.val < -(account.limits.maxAbsPosition.val : Int) then
        Except.error RiskStateError.positionLimit else .ok ()) = .ok () ↔
      ∀ side : Side, side.sign * account.settledPosition.val + (reservedOn buys sells side).val
        ≤ account.limits.maxAbsPosition.val := by
  simp only [bind_eq_ok, orStateOverflow_eq_ok, i128OfU128, checkedAddSigned, checkedSubSigned, signedOf_eq_some,
    forall_side, Side.sign, reservedOn]
  have hmaximum := account.limits.maxAbsPosition.isLt
  have hlower := account.settledPosition.lower
  constructor
  · rintro ⟨long, hlong, short, hshort, worstLong, hworstLong, worstShort, hworstShort, hwithin⟩
    split at hwithin
    · cases hwithin
    · rename_i hinside
      push Not at hinside
      omega
  · rintro ⟨hlong, hshort⟩
    refine ⟨⟨buys.val, by omega, by omega⟩, rfl, ⟨sells.val, by omega, by omega⟩, rfl,
      ⟨account.settledPosition.val + buys.val, by omega, by omega⟩, rfl,
      ⟨account.settledPosition.val - sells.val, by omega, by omega⟩, rfl, ?_⟩
    rw [if_neg (by simp only; omega)]

/-- An account passes exactly when it is balanced. -/
theorem validateAccountState_ok_iff :
    validateAccountState account reservations = .ok () ↔ Balanced account reservations := by
  rw [validateAccountState, bind_eq_ok]
  simp only [Prod.exists, tallyReservations_ok_iff, sideTotal_filter, length_filter_owned]
  constructor
  · rintro ⟨buys, sells, count, ⟨hbuys, hsells, hcount⟩, hrest⟩
    split at hrest
    · cases hrest
    rename_i hexposure
    split at hrest
    · cases hrest
    rename_i hopen
    push Not at hexposure hopen
    obtain ⟨rfl, rfl⟩ := hexposure
    obtain ⟨rfl, hlimit⟩ := hopen
    refine ⟨forall_side.mpr ⟨?_, ?_⟩, ?_, worstCases_ok_iff.mp hrest, hlimit⟩
    · simpa [AccountState.reserved, reservedOn] using hbuys
    · simpa [AccountState.reserved, reservedOn] using hsells
    · simpa using hcount
  · intro balanced
    refine ⟨account.reservedBuys, account.reservedSells, account.openOrders, ⟨?_, ?_, ?_⟩, ?_⟩
    · simpa [AccountState.reserved, reservedOn] using balanced.reserved .buy
    · simpa [AccountState.reserved, reservedOn] using balanced.reserved .sell
    · simpa using balanced.count
    · rw [if_neg (by simp), if_neg (by simpa using balanced.limit)]
      exact worstCases_ok_iff.mpr balanced.exposed

/-- The accounts pass exactly when each of them balances with its
reservations. -/
theorem validateAccounts_ok_iff {accounts : List AccountState} :
    validateAccounts reservations accounts = .ok () ↔ ∀ account ∈ accounts, Balanced account reservations := by
  induction accounts with
  | nil => simp [validateAccounts]
  | cons account rest ih =>
      rw [validateAccounts, bind_eq_ok, List.forall_mem_cons, ← validateAccountState_ok_iff, ← ih]
      constructor
      · rintro ⟨_, hfirst, hrest⟩
        exact ⟨hfirst, hrest⟩
      · rintro ⟨hfirst, hrest⟩
        exact ⟨(), hfirst, hrest⟩

/-- What a state has to satisfy for an engine with room for `A` accounts and
`R` reservations. -/
structure RiskStateValid (A R : Nat) (state : RiskEngineState) : Prop where
  accountCount : state.accounts.length ≤ A
  reservationCount : state.reservations.length ≤ R
  accountsSorted : Ascending (fun account : AccountState => account.id.val) state.accounts
  reservationsSorted : Ascending (fun record : ReservationRiskState => record.orderId.val) state.reservations
  limits : ∀ account ∈ state.accounts, RiskEngine.invalidLimits account.limits = false
  quantities : ∀ record ∈ state.reservations, record.quantity.val ≠ 0
  watermark : ∀ record ∈ state.reservations, ∃ maximum, state.maximumOrderId = some maximum ∧
    record.orderId.val ≤ maximum.val
  owners : ∀ record ∈ state.reservations, ∃ account ∈ state.accounts, account.id = record.accountId
  balanced : ∀ account ∈ state.accounts, Balanced account state.reservations

/-- In ascending records the check of the last one covers them all. -/
theorem watermark_of_last {records : List ReservationRiskState} {maximum : Option OrderId}
    (hsorted : Ascending (fun record : ReservationRiskState => record.orderId.val) records) :
    (records.getLast?.any fun record => aboveWatermark maximum record.orderId) = false ↔
      ∀ record ∈ records, ∃ highest, maximum = some highest ∧ record.orderId.val ≤ highest.val := by
  rcases List.eq_nil_or_concat records with rfl | ⟨before, last, rfl⟩
  · simp
  simp only [List.concat_eq_append, List.getLast?_append, List.getLast?_singleton, Option.some_or, Option.any_some]
  have hbelow : ∀ record ∈ before, record.orderId.val < last.orderId.val := by
    intro record hrecord
    rw [List.concat_eq_append, Ascending, List.pairwise_append] at hsorted
    exact hsorted.2.2 record hrecord last (by simp)
  cases maximum with
  | none =>
      simp only [aboveWatermark, Bool.true_eq_false, reduceCtorEq, false_and, exists_false, false_iff, not_forall]
      exact ⟨last, by simp, not_false⟩
  | some highest =>
      simp only [aboveWatermark, decide_eq_false_iff_not, not_lt, Option.some.injEq]
      constructor
      · intro hlast record hrecord
        refine ⟨highest, rfl, ?_⟩
        rcases List.mem_append.mp hrecord with hmem | hmem
        · exact (hbelow record hmem).le.trans hlast
        · rwa [List.mem_singleton.mp hmem]
      · intro h
        obtain ⟨_, rfl, hle⟩ := h last (by simp)
        exact hle

/-- Validation accepts exactly the valid states. -/
theorem validateRiskState_ok_iff : validateRiskState A R state = .ok () ↔ RiskStateValid A R state := by
  unfold validateRiskState
  constructor
  · intro h
    split at h
    · cases h
    rename_i haccountCount
    split at h
    · cases h
    rename_i hreservationCount
    obtain ⟨_, haccounts, h⟩ := bind_eq_ok.mp h
    split at h
    · cases h
    rename_i hlimits
    obtain ⟨_, hreservations, h⟩ := bind_eq_ok.mp h
    split at h
    · cases h
    rename_i hquantities
    split at h
    · cases h
    rename_i hwatermark
    split at h
    · cases h
    rename_i howners
    have hsorted := validateAscending_ok_iff.mp hreservations
    refine ⟨by omega, by omega, validateAscending_ok_iff.mp haccounts, hsorted, ?_, ?_,
      (watermark_of_last hsorted).mp (by simpa using hwatermark), ?_, validateAccounts_ok_iff.mp h⟩
    · simpa using hlimits
    · simpa using hquantities
    · simpa using howners
  · intro valid
    rw [if_neg (by have := valid.accountCount; omega), if_neg (by have := valid.reservationCount; omega),
      validateAscending_ok_iff.mpr valid.accountsSorted]
    simp only [bind, Except.bind]
    rw [if_neg (by simpa using valid.limits), validateAscending_ok_iff.mpr valid.reservationsSorted]
    simp only
    rw [if_neg (by simpa using valid.quantities),
      if_neg (by rw [(watermark_of_last valid.reservationsSorted).mpr valid.watermark]; simp),
      if_neg (by simpa using valid.owners)]
    exact validateAccounts_ok_iff.mpr valid.balanced

/-! ### Accounts -/

/-- Fewer accounts than can be indexed, can be indexed. -/
theorem FitsAccounts.mono {ids : AccountId → Prop} (h : FitsAccounts A ids) (accounts : List AccountState)
    (hsub : ∀ account ∈ accounts, ids account.id) (hcount : accounts.length ≤ A) (hA : 0 < A) :
    FitsAccounts A fun id => ∃ account ∈ accounts, account.id = id := by
  classical
  have hcard := List.toFinset_card_le (accounts.map fun account => RiskEngine.accountKey account.id)
  rw [List.length_map] at hcard
  refine Fits.mono (fun key => probeStart_lt key) h ?_
    (accounts.map fun account => RiskEngine.accountKey account.id).toFinset ?_ (by rw [indexPlanes]; omega)
  · rintro key ⟨_, ⟨account, haccount, rfl⟩, rfl⟩
    exact ⟨account.id, hsub account haccount, rfl⟩
  · rintro key ⟨_, ⟨account, haccount, rfl⟩, rfl⟩
    exact List.mem_toFinset.mpr (List.mem_map_of_mem haccount)

/-- What storing accounts leaves alone. -/
structure SameReservations (engine engine' : RiskEngine A R) : Prop where
  reservations : engine'.reservations = engine.reservations
  reservationFreeHead : engine'.reservationFreeHead = engine.reservationFreeHead

/-- Accounts are stored slot by slot, unless their ids cannot be indexed. -/
theorem restoreAccounts_spec (state : RiskEngineState) (rest : List AccountState) (stored : List AccountState)
    (rep : RiskRep engine { state with accounts := stored })
    (hvacant : ∀ i, stored.length ≤ i → engine.accountAt i = none)
    (hsorted : Ascending (fun account : AccountState => account.id.val) (stored ++ rest))
    (hcount : (stored ++ rest).length ≤ A) :
    (∃ engine', RiskEngine.restoreAccounts rest stored.length engine = .ok engine' ∧
        RiskRep engine' { state with accounts := stored ++ rest } ∧ SameReservations engine engine') ∨
      ((∃ error, RiskEngine.restoreAccounts rest stored.length engine = .error error) ∧
        ¬FitsAccounts A fun id => ∃ account ∈ stored ++ rest, account.id = id) := by
  induction rest generalizing stored engine with
  | nil =>
      left
      rw [List.append_nil]
      exact ⟨engine, rfl, rep, rfl, rfl⟩
  | cons account rest ih =>
      have hslot : stored.length < A := by
        simp only [List.length_append, List.length_cons] at hcount
        omega
      have happend : stored ++ account :: rest = (stored ++ [account]) ++ rest := by simp
      rw [happend] at hsorted hcount ⊢
      have hfront : Ascending (fun account : AccountState => account.id.val) (stored ++ [account]) :=
        List.Pairwise.sublist (List.sublist_append_left _ _) hsorted
      have hnew : ∀ other ∈ stored, other.id ≠ account.id := by
        intro other hother heq
        rw [Ascending, List.pairwise_append] at hfront
        exact absurd (hfront.2.2 other hother account (by simp)) (by rw [heq]; exact lt_irrefl _)
      rcases rep.storeAccount_spec account hslot (hvacant _ (Nat.le_refl _)) hnew with
        ⟨cell, index, hinsert, _, hstored⟩ | ⟨hinsert, hfits⟩
      · have hrep := hstored (stored ++ [account]) (List.perm_append_singleton _ _).symm hfront
        have hvacant' : ∀ i, (stored ++ [account]).length ≤ i →
            ({ engine with accountIndex := index }.setAccount stored.length account).accountAt i = none := by
          intro i hi
          rw [List.length_append, List.length_singleton] at hi
          rw [accountAt_setAccount, if_pos hslot, Function.update_of_ne (by omega)]
          exact hvacant i (by omega)
        have hstep := ih (stored ++ [account]) hrep hvacant' hsorted hcount
        rw [List.length_append, List.length_singleton] at hstep
        simp only [RiskEngine.restoreAccounts, hinsert]
        rcases hstep with ⟨engine', hok, hrep', hsame⟩ | hrefused
        · exact .inl ⟨engine', hok, hrep', hsame.reservations, hsame.reservationFreeHead⟩
        · exact .inr hrefused
      · right
        refine ⟨⟨.accountCapacity, by simp [RiskEngine.restoreAccounts, hinsert]⟩, fun hall => hfits ?_⟩
        have hone := hall.mono (account :: stored) ?_ (by simp; omega) (by omega)
        · simpa [eq_comm (a := account.id)] using hone
        · intro other hother
          exact ⟨other, by simp at hother ⊢; tauto, rfl⟩

/-! ### Reservations -/

/-- The reservations an engine stores can be indexed. -/
theorem RiskRep.fitsReservations (rep : RiskRep engine state) :
    FitsReservations R fun id => ∃ record ∈ state.reservations, record.orderId = id := by
  refine ⟨engine.reservationIndex, rep.tracked.probed, rep.tracked.small, fun key => ?_⟩
  constructor
  · rintro ⟨i, v, hcell⟩
    obtain ⟨slot, cell, _, _, hhandle⟩ := (rep.tracked.graph i key v).mp hcell
    obtain ⟨reservation, hlive, hpair⟩ := Option.map_eq_some_iff.mp hhandle
    exact ⟨RiskEngine.exportReservation reservation,
      rep.mem_reservations.mpr ⟨slot, lt_of_liveAt hlive, by simp [recordAt, hlive]⟩, (Prod.mk.inj hpair).1⟩
  · rintro ⟨record, hrecord, rfl⟩
    obtain ⟨slot, _, hat⟩ := rep.mem_reservations.mp hrecord
    obtain ⟨reservation, hlive, rfl⟩ := Option.map_eq_some_iff.mp hat
    exact ⟨_, _, rep.tracked.cell_of_handle (w := slot) (by rw [reservationHandle, hlive]; rfl)⟩

/-- Fewer reservations than can be indexed, can be indexed. -/
theorem FitsReservations.mono {ids : OrderId → Prop} (h : FitsReservations R ids) (keys : List OrderId)
    (hsub : ∀ id ∈ keys, ids id) (hcount : keys.length ≤ R) (hR : 0 < R) : FitsReservations R (· ∈ keys) := by
  classical
  have hcard := List.toFinset_card_le keys
  refine Fits.mono (fun key => probeStart_lt key) h hsub keys.toFinset ?_ (by rw [indexPlanes]; omega)
  intro key hkey
  exact List.mem_toFinset.mpr hkey

/-- The slots from `first` on are as in a new engine. -/
def Untouched (reservations : Vector (Slot Reservation) R) (first : Nat) : Prop :=
  ∀ i, first ≤ i → i < R → freeAt reservations i = some (if i + 1 < R then some (i + 1) else none)

/-- The engine a restore has reached, as if the stored reservations had been
made one by one: the free list starts behind them and the watermark is the last
of them. -/
def RiskEngine.reservedUpTo (engine : RiskEngine A R) (stored : List ReservationRiskState) : RiskEngine A R :=
  { engine with
    reservationFreeHead := if stored.length < R then some stored.length else none
    maximumOrderId := stored.getLast?.map ReservationRiskState.orderId }

/-- Reservations are stored slot by slot, unless their ids cannot be
indexed. -/
theorem restoreReservations_spec (rest : List ReservationRiskState) (stored : List ReservationRiskState)
    (rep : RiskRep (engine.reservedUpTo stored) { state with
      reservations := stored, maximumOrderId := stored.getLast?.map ReservationRiskState.orderId })
    (huntouched : Untouched engine.reservations stored.length)
    (hsorted : Ascending (fun record : ReservationRiskState => record.orderId.val) (stored ++ rest))
    (hcount : (stored ++ rest).length ≤ R) :
    (∃ engine', RiskEngine.restoreReservations rest stored.length engine = .ok engine' ∧
        RiskRep (engine'.reservedUpTo (stored ++ rest)) { state with
          reservations := stored ++ rest,
          maximumOrderId := (stored ++ rest).getLast?.map ReservationRiskState.orderId } ∧
        Untouched engine'.reservations (stored ++ rest).length ∧
        engine'.maximumOrderId = engine.maximumOrderId) ∨
      ((∃ error, RiskEngine.restoreReservations rest stored.length engine = .error error) ∧
        ¬FitsReservations R fun id => ∃ record ∈ stored ++ rest, record.orderId = id) := by
  induction rest generalizing stored engine with
  | nil =>
      left
      rw [List.append_nil]
      exact ⟨engine, rfl, rep, huntouched, rfl⟩
  | cons record rest ih =>
      have hslot : stored.length < R := by
        simp only [List.length_append, List.length_cons] at hcount
        omega
      have happend : stored ++ record :: rest = (stored ++ [record]) ++ rest := by simp
      rw [happend] at hsorted hcount ⊢
      have hfront : Ascending (fun record : ReservationRiskState => record.orderId.val) (stored ++ [record]) :=
        List.Pairwise.sublist (List.sublist_append_left _ _) hsorted
      have hnew : ∀ maximum, stored.getLast?.map ReservationRiskState.orderId = some maximum →
          maximum.val < record.orderId.val := by
        intro maximum hmaximum
        obtain ⟨last, hlast, rfl⟩ := Option.map_eq_some_iff.mp hmaximum
        rw [Ascending, List.pairwise_append] at hfront
        exact hfront.2.2 last (List.mem_of_getLast? hlast) record (by simp)
      have hhead : (engine.reservedUpTo stored).reservationFreeHead = some stored.length := by
        simp [RiskEngine.reservedUpTo, hslot]
      obtain ⟨nextFree, hfree, hreserve⟩ := rep.reserve_spec hhead hnew record.accountId record.side record.quantity
      have hnext : nextFree = if stored.length + 1 < R then some (stored.length + 1) else none :=
        Option.some.inj (hfree.symm.trans (huntouched _ (Nat.le_refl _) hslot))
      rcases hreserve with ⟨cell, index, hinsert, _, hrep⟩ | ⟨hinsert, hfits⟩
      · have huntouched' : Untouched ({ engine with reservationIndex := index }.setReservation stored.length
            ⟨record.orderId, record.accountId, cell, record.side, record.quantity⟩).reservations
            (stored ++ [record]).length := by
          intro i hi hlt
          rw [List.length_append, List.length_singleton] at hi
          simp only [RiskEngine.setReservation]
          rw [freeAt_setSlot_of_ne (by omega)]
          exact huntouched i (by omega) hlt
        have hinsert' : engine.reservationIndex.insert record.orderId stored.length = .ok (cell, index) := hinsert
        have hstep := ih (stored ++ [record]) ?_ huntouched' hsorted hcount
        · rw [List.length_append, List.length_singleton] at hstep
          simp only [RiskEngine.restoreReservations, hinsert']
          exact hstep
        · refine cast ?_ hrep
          subst hnext
          simp [RiskEngine.reservedUpTo, RiskEngine.setReservation, RiskEngineState.reserve]
      · right
        have hinsert' : engine.reservationIndex.insert record.orderId stored.length = .error .full := hinsert
        refine ⟨⟨.reservationCapacity, by simp [RiskEngine.restoreReservations, hinsert']⟩, fun hall => hfits ?_⟩
        have hone := hall.mono ((record :: stored).map ReservationRiskState.orderId) ?_ (by simp; omega) (by omega)
        · refine cast ?_ hone
          congr 1
          funext id
          simp only [RiskEngineState.reservation, List.find?_isSome, decide_eq_true_eq, List.map_cons, List.mem_cons,
            List.mem_map]
        · intro id hid
          obtain ⟨other, hother, rfl⟩ := List.mem_map.mp hid
          exact ⟨other, by simp at hother ⊢; tauto, rfl⟩

/-- Rewriting slots that are as in a new engine only moves the head of the free
list. -/
theorem restoreFree_eq {first : Nat} (huntouched : Untouched engine.reservations first) :
    engine.restoreFree first = { engine with reservationFreeHead := if first = R then none else some first } := by
  have hkeep : ∀ slots : List Nat, (∀ i ∈ slots, first ≤ i ∧ i < R) →
      slots.foldl (fun reservations i => setSlot reservations i (.free (if i + 1 < R then some (i + 1) else none)))
        engine.reservations = engine.reservations := by
    intro slots hslots
    induction slots with
    | nil => rfl
    | cons i rest ih =>
        rw [List.forall_mem_cons] at hslots
        rw [List.foldl_cons, setSlot_self (getElem?_eq_free_iff.mpr (huntouched i hslots.1.1 hslots.1.2))]
        exact ih hslots.2
  rw [RiskEngine.restoreFree, hkeep]
  intro i hi
  rw [List.mem_range'_1] at hi
  omega

/-! ### The whole engine -/

/-- A valid state is rebuilt, unless its ids cannot be indexed. -/
theorem restore_riskEngine (valid : RiskStateValid A R state) :
    (∃ engine : RiskEngine A R, RiskEngine.fromState state = .ok engine ∧ RiskRep engine state) ∨
      ((∃ error, (RiskEngine.fromState state : Except _ (RiskEngine A R)) = .error error) ∧
        ¬((FitsAccounts A fun id => ∃ account ∈ state.accounts, account.id = id) ∧
          FitsReservations R fun id => ∃ record ∈ state.reservations, record.orderId = id)) := by
  let start : RiskEngine A R := { RiskEngine.new with killed := state.killed, maximumOrderId := state.maximumOrderId }
  have hstart : RiskRep start { state with accounts := [], reservations := [] } :=
    { riskRep_new with watermark := by simp, maximumOrderId := rfl, killed := rfl }
  have hvacant : ∀ i, ([] : List AccountState).length ≤ i → start.accountAt i = none := by
    intro i _
    simp only [RiskEngine.accountAt, start, RiskEngine.new, Vector.getElem?_replicate]
    split <;> rfl
  have haccounts := restoreAccounts_spec { state with reservations := [] } state.accounts [] hstart hvacant
    valid.accountsSorted valid.accountCount
  rw [List.length_nil] at haccounts
  rcases haccounts with ⟨held, hheld, hrep, hsame⟩ | ⟨⟨error, herror⟩, hfits⟩
  · have huntouched : Untouched held.reservations 0 := by
      rw [hsame.reservations]
      intro i _ hlt
      exact freeAt_freshSlots hlt
    have hnone : RiskRep (held.reservedUpTo []) { state with
        reservations := [], maximumOrderId := ([] : List ReservationRiskState).getLast?.map ReservationRiskState.orderId } := by
      obtain ⟨free, hchain, hfree⟩ := hrep.free
      rw [hsame.reservationFreeHead] at hchain
      exact { hrep with watermark := by simp, maximumOrderId := rfl, free := ⟨free, hchain, hfree⟩ }
    have hreservations := restoreReservations_spec state.reservations [] hnone huntouched valid.reservationsSorted
      valid.reservationCount
    rw [List.length_nil, List.nil_append] at hreservations
    rcases hreservations with ⟨filled, hfilled, hrep', huntouched', hmaximum⟩ | ⟨⟨error, herror⟩, hfits⟩
    · left
      refine ⟨filled.restoreFree state.reservations.length, ?_, ?_⟩
      · simp only [RiskEngine.fromState, validateRiskState_ok_iff.mpr valid, bind, Except.bind]
        rw [show RiskEngine.restoreAccounts state.accounts 0 _ = .ok held from hheld]
        simp only
        rw [hfilled]
        rfl
      · rw [restoreFree_eq huntouched']
        obtain ⟨free, hchain, hfree⟩ := hrep'.free
        have hhead : (filled.reservedUpTo state.reservations).reservationFreeHead
            = if state.reservations.length = R then none else some state.reservations.length := by
          have hcount := valid.reservationCount
          simp only [RiskEngine.reservedUpTo]
          by_cases hfull : state.reservations.length = R
          · rw [if_neg (by omega), if_pos hfull]
          · rw [if_pos (by omega), if_neg hfull]
        rw [hhead] at hchain
        exact { hrep' with
          free := ⟨free, hchain, hfree⟩
          watermark := valid.watermark
          maximumOrderId := by
            rw [hmaximum]
            exact hrep.maximumOrderId }
    · right
      refine ⟨⟨error, ?_⟩, fun hall => hfits hall.2⟩
      simp only [RiskEngine.fromState, validateRiskState_ok_iff.mpr valid, bind, Except.bind]
      rw [show RiskEngine.restoreAccounts state.accounts 0 _ = .ok held from hheld]
      simp only
      rw [herror]
  · right
    refine ⟨⟨error, ?_⟩, fun hall => hfits hall.1⟩
    simp only [RiskEngine.fromState, validateRiskState_ok_iff.mpr valid, bind, Except.bind]
    rw [show RiskEngine.restoreAccounts state.accounts 0 _ = .error error from herror]

/-- What is rebuilt stores exactly the state it was rebuilt from, and that
state is valid. -/
theorem riskRep_of_fromState (h : RiskEngine.fromState state = .ok engine) :
    RiskStateValid A R state ∧ RiskRep engine state := by
  obtain ⟨_, hvalid, _⟩ := bind_eq_ok.mp h
  have valid := validateRiskState_ok_iff.mp hvalid
  refine ⟨valid, ?_⟩
  rcases restore_riskEngine valid with ⟨rebuilt, hok, rep⟩ | ⟨⟨error, herror⟩, _⟩
  · rw [hok] at h
    cases h
    exact rep
  · rw [herror] at h
    cases h

/-- A valid state whose ids can be indexed is rebuilt. -/
theorem riskEngine_fromState_of_valid (valid : RiskStateValid A R state)
    (haccounts : FitsAccounts A fun id => ∃ account ∈ state.accounts, account.id = id)
    (hreservations : FitsReservations R fun id => ∃ record ∈ state.reservations, record.orderId = id) :
    ∃ engine : RiskEngine A R, RiskEngine.fromState state = .ok engine ∧ RiskRep engine state := by
  rcases restore_riskEngine valid with hok | ⟨_, hfits⟩
  · exact hok
  · exact absurd ⟨haccounts, hreservations⟩ hfits

end HftEngine
