/-
Module: HftEngine.Proofs.RiskSetup
Layer: Proofs
Purpose: Risk engines before trading starts: registering accounts and setting
  kill switches leaves a ledger without reservations in which every account is
  at zero with valid limits.
Imports: HftEngine.Proofs.RiskRefinement, HftEngine.Proofs.RiskBalance
Trusted boundary: none (fully proved)
Main exports: FitsAccounts, storeAccount_spec, riskRep_new, Configured,
  RiskEngineState.Fresh, Configured.ledger
-/
import HftEngine.Proofs.RiskRefinement
import HftEngine.Proofs.RiskBalance

namespace HftEngine

open Machine SlotArena OpenAddressing KeyedList

variable {A R : Nat} {engine : RiskEngine A R} {state : RiskEngineState} {account : AccountState}
  {slot : Nat}

/-- Whether a set of account ids can be indexed by an engine with room for `A`
accounts. -/
def FitsAccounts (A : Nat) (ids : AccountId → Prop) : Prop :=
  Fits (probeStart (A * indexPlanes)) indexLimit Nat (A * indexPlanes)
    fun key => ∃ id, ids id ∧ RiskEngine.accountKey id = key

/-! ### Storing accounts -/

namespace RiskRep

variable (rep : RiskRep engine state)
include rep

/-- The accounts an engine stores can be indexed. -/
theorem fitsAccounts : FitsAccounts A fun id => ∃ account ∈ state.accounts, account.id = id := by
  obtain ⟨cells, tracked⟩ := rep.accountCells
  refine ⟨engine.accountIndex, tracked.probed, tracked.small, fun key => ?_⟩
  constructor
  · rintro ⟨i, v, hcell⟩
    obtain ⟨slot, cell, _, _, hhandle⟩ := (tracked.graph i key v).mp hcell
    obtain ⟨account, hat, hpair⟩ := Option.map_eq_some_iff.mp hhandle
    exact ⟨account.id, ⟨account, rep.mem_accounts.mpr ⟨slot, accountAt_lt hat, hat⟩, rfl⟩, (Prod.mk.inj hpair).1⟩
  · rintro ⟨_, ⟨account, haccount, rfl⟩, rfl⟩
    obtain ⟨slot, _, hat⟩ := rep.mem_accounts.mp haccount
    exact ⟨_, _, tracked.cell_of_handle (w := slot) (by rw [hat]; rfl)⟩

/-- Storing one more account in a vacant slot, once its id has an index
cell. -/
theorem storeAccount_spec (account : AccountState) (hslot : slot < A) (hvacant : engine.accountAt slot = none)
    (hnew : ∀ other ∈ state.accounts, other.id ≠ account.id) :
    (∃ cell index, engine.accountIndex.insert (RiskEngine.accountKey account.id) slot = .ok (cell, index) ∧
        FitsAccounts A (fun id => id = account.id ∨ ∃ other ∈ state.accounts, other.id = id) ∧
        ∀ accounts, (account :: state.accounts).Perm accounts →
          Ascending (fun account : AccountState => account.id.val) accounts →
          RiskRep ({ engine with accountIndex := index }.setAccount slot account)
            { state with accounts := accounts }) ∨
      (engine.accountIndex.insert (RiskEngine.accountKey account.id) slot = .error .full ∧
        ¬FitsAccounts A fun id => id = account.id ∨ ∃ other ∈ state.accounts, other.id = id) := by
  obtain ⟨cells, tracked⟩ := rep.accountCells
  have hempty : (engine.accountAt slot).map (fun account => (RiskEngine.accountKey account.id, cells slot)) = none := by
    rw [hvacant]
    rfl
  have hstored : ∀ {slot' key cell}, (engine.accountAt slot').map
      (fun account => (RiskEngine.accountKey account.id, cells slot')) = some (key, cell) →
      ∃ other ∈ state.accounts, RiskEngine.accountKey other.id = key := by
    intro slot' key cell hhandle
    obtain ⟨other, hat, hpair⟩ := Option.map_eq_some_iff.mp hhandle
    exact ⟨other, rep.mem_accounts.mpr ⟨slot', accountAt_lt hat, hat⟩, (Prod.mk.inj hpair).1⟩
  have habsent : ∀ slot' cell, (engine.accountAt slot').map
      (fun account => (RiskEngine.accountKey account.id, cells slot')) ≠ some (RiskEngine.accountKey account.id, cell) := by
    intro slot' cell hhandle
    obtain ⟨other, hother, hkey⟩ := hstored hhandle
    exact hnew other hother (accountKey_inj hkey)
  have hinside : ∀ slot', ((engine.accountAt slot').map
      fun account => (RiskEngine.accountKey account.id, cells slot')).isSome → slot' ∈ Finset.range A := by
    intro slot' hsome
    rw [Option.isSome_map] at hsome
    obtain ⟨other, hat⟩ := Option.isSome_iff_exists.mp hsome
    exact Finset.mem_range.mpr (accountAt_lt hat)
  have hkeys : (fun key => key = RiskEngine.accountKey account.id ∨ ∃ slot' cell, (engine.accountAt slot').map
      (fun account => (RiskEngine.accountKey account.id, cells slot')) = some (key, cell))
      = fun key => ∃ id, (id = account.id ∨ ∃ other ∈ state.accounts, other.id = id) ∧
          RiskEngine.accountKey id = key := by
    funext key
    refine propext ⟨?_, ?_⟩
    · rintro (rfl | ⟨slot', cell, hhandle⟩)
      · exact ⟨account.id, .inl rfl, rfl⟩
      · obtain ⟨other, hother, hkey⟩ := hstored hhandle
        exact ⟨other.id, .inr ⟨other, hother, rfl⟩, hkey⟩
    · rintro ⟨_, rfl | ⟨other, hother, rfl⟩, rfl⟩
      · exact .inl rfl
      · obtain ⟨slot', _, hat⟩ := rep.mem_accounts.mp hother
        exact .inr ⟨slot', cells slot', by rw [hat]; rfl⟩
  rcases tracked.insert_spec (fun key => probeStart_lt key) hempty habsent (by simp) hinside
    (Finset.mem_range.mpr hslot) (card_range_lt hslot) with
    ⟨cell, index, hinsert, htracked, hfits⟩ | ⟨hinsert, hfits⟩
  · refine .inl ⟨cell, index, hinsert, by rw [FitsAccounts, ← hkeys]; exact hfits, ?_⟩
    intro accounts hperm hsorted
    have haccountAt : ({ engine with accountIndex := index }.setAccount slot account).accountAt
        = Function.update engine.accountAt slot (some account) := by
      rw [accountAt_setAccount, if_pos hslot]
      rfl
    refine ⟨⟨Function.update cells slot cell, ?_⟩, rep.tracked, rep.free, ?_, rep.reservations, hsorted,
      rep.reservationsSorted, rep.watermark, rep.maximumOrderId, rep.killed⟩
    · rw [haccountAt]
      refine cast ?_ htracked
      congr 1
      funext i
      by_cases hi : i = slot
      · subst hi
        simp
      · simp [hi]
    · obtain ⟨rest, hbefore, hafter⟩ := contents_update (f := engine.accountAt) hslot
      rw [hvacant] at hbefore
      rw [haccountAt]
      refine (hafter (some account)).trans (List.Perm.trans ?_ hperm)
      exact (hbefore.symm.trans rep.accounts).cons account
  · exact .inr ⟨hinsert, by rw [FitsAccounts, ← hkeys]; exact hfits⟩

end RiskRep

/-! ### Before trading -/

/-- A new engine holds nothing. -/
theorem riskRep_new : RiskRep (RiskEngine.new : RiskEngine A R) ⟨[], [], none, false⟩ := by
  have haccount : ∀ slot, (RiskEngine.new : RiskEngine A R).accountAt slot = none := by
    intro slot
    simp only [RiskEngine.accountAt, RiskEngine.new, Vector.getElem?_replicate]
    split <;> rfl
  have hlive : ∀ slot, liveAt (RiskEngine.new : RiskEngine A R).reservations slot = none := by
    intro slot
    exact liveAt_freshSlots slot
  refine ⟨⟨fun _ => 0, ?_⟩, ?_, ⟨List.range R, ?_, List.nodup_range, ?_⟩, ?_, ?_, List.Pairwise.nil,
    List.Pairwise.nil, by simp, rfl, rfl⟩
  · exact tracks_emptyTable fun slot => by rw [haccount]; rfl
  · exact tracks_emptyTable fun slot => by rw [reservationHandle, hlive]; rfl
  · exact freeChain_freshSlots
  · intro slot
    simp [hlive]
  · simp [contents, haccount]
  · simp [contents, recordAt, hlive]

/-- An account as it is registered, possibly killed: valid limits, nothing
settled, reserved or open. -/
structure AccountState.Unused (account : AccountState) : Prop where
  limits : RiskEngine.invalidLimits account.limits = false
  settledPosition : account.settledPosition.val = 0
  reserved : ∀ side, (account.reserved side).val = 0
  openOrders : account.openOrders.val = 0

/-- A ledger before trading. -/
structure RiskEngineState.Fresh (state : RiskEngineState) : Prop where
  accounts : ∀ account ∈ state.accounts, account.Unused
  reservations : state.reservations = []
  maximumOrderId : state.maximumOrderId = none

/-- The engines one can build before trading. -/
inductive Configured : RiskEngine A R → Prop
  | new : Configured RiskEngine.new
  | registerAccount {engine : RiskEngine A R} (id : AccountId) (limits : RiskLimits) : Configured engine →
      Configured (engine.registerAccount id limits).2
  | setKillSwitch {engine : RiskEngine A R} (killed : Bool) : Configured engine →
      Configured (engine.setKillSwitch killed)
  | setAccountKillSwitch {engine engine' : RiskEngine A R} (accountId : AccountId) (killed : Bool)
      {result : Except RejectReason Unit} : Configured engine →
      engine.setAccountKillSwitch accountId killed = some (result, engine') → Configured engine'

/-- The record of a newly registered account. -/
def registeredAccount (id : AccountId) (limits : RiskLimits) : AccountState where
  id := id
  limits := limits
  settledPosition := i128Zero
  reservedBuys := 0
  reservedSells := 0
  openOrders := 0
  killed := false

/-- Registering an account that the ledger does not have adds its record; a
refusal changes nothing. -/
theorem registerAccount_cases (rep : RiskRep engine state) (id : AccountId) (limits : RiskLimits) :
    (∃ error, engine.registerAccount id limits = (.error error, engine)) ∨
      ∃ engine' accounts, engine.registerAccount id limits = (.ok (), engine') ∧
        (registeredAccount id limits).Unused ∧ state.account id = none ∧
        (registeredAccount id limits :: state.accounts).Perm accounts ∧
        RiskRep engine' { state with accounts := accounts } := by
  unfold RiskEngine.registerAccount
  split
  · exact .inl ⟨_, rfl⟩
  rename_i hlimits
  split
  · exact .inl ⟨_, rfl⟩
  rename_i hslot
  cases hfree : engine.accounts.toList.findIdx? Option.isNone with
  | none => exact .inl ⟨_, rfl⟩
  | some slot =>
      obtain ⟨hlt, hnone, _⟩ := List.findIdx?_eq_some_iff_getElem.mp hfree
      have hslotLt : slot < A := by simpa using hlt
      have hvacant : engine.accountAt slot = none := by
        rw [RiskEngine.accountAt, Vector.getElem?_eq_getElem hslotLt]
        simpa using hnone
      have habsent : state.account id = none := by
        rcases rep.findAccount_spec id with ⟨_, account, hfound, _⟩ | ⟨_, habsent⟩
        · simp only [Bool.not_eq_true, Option.isSome_eq_false_iff, Option.isNone_iff_eq_none] at hslot
          simp [RiskEngine.findAccount, hslot] at hfound
        · exact habsent
      have hnew : ∀ other ∈ state.accounts, other.id ≠ id := by
        intro other hother
        simpa using List.find?_eq_none.mp habsent other hother
      have hunused : (registeredAccount id limits).Unused := by
        refine ⟨by simpa [registeredAccount] using hlimits, rfl, ?_, rfl⟩
        intro side
        cases side <;> rfl
      rcases rep.storeAccount_spec (registeredAccount id limits) hslotLt hvacant hnew with
        ⟨cell, index, hinsert, _, hstored⟩ | ⟨hinsert, _⟩
      · refine .inr ⟨({ engine with accountIndex := index } : RiskEngine A R).setAccount slot (registeredAccount id limits),
          (registeredAccount id limits :: state.accounts).insertionSort (fun first second => first.id.val ≤ second.id.val),
          ?_, hunused, habsent, (List.perm_insertionSort _ _).symm, ?_⟩
        · simp only [show engine.accountIndex.insert (RiskEngine.accountKey id) slot = .ok (cell, index) from hinsert]
          rfl
        refine hstored _ (List.perm_insertionSort _ _).symm (ascending_insertionSort ?_)
        rw [List.map_cons, List.nodup_cons]
        refine ⟨?_, rep.accountsSorted.nodup⟩
        intro hmem
        obtain ⟨other, hother, heq⟩ := List.mem_map.mp hmem
        exact hnew other hother (Fin.ext heq)
      · simp only [show engine.accountIndex.insert (RiskEngine.accountKey id) slot = .error .full from hinsert]
        exact .inl ⟨_, rfl⟩

/-- Registering an account adds it to the ledger or changes nothing. -/
theorem registerAccount_spec (rep : RiskRep engine state) (id : AccountId) (limits : RiskLimits) :
    (engine.registerAccount id limits).2 = engine ∨
      ∃ account accounts, account.Unused ∧ (account :: state.accounts).Perm accounts ∧
        RiskRep (engine.registerAccount id limits).2 { state with accounts := accounts } := by
  rcases registerAccount_cases rep id limits with
    ⟨_, hrefused⟩ | ⟨engine', accounts, hregister, hunused, _, hperm, rep'⟩
  · rw [hrefused]
    exact .inl rfl
  · rw [hregister]
    exact .inr ⟨_, accounts, hunused, hperm, rep'⟩

/-- A configured engine holds a fresh ledger. -/
theorem Configured.ledger (h : Configured engine) : ∃ state, RiskRep engine state ∧ state.Fresh := by
  induction h with
  | new => exact ⟨_, riskRep_new, by simp, rfl, rfl⟩
  | registerAccount id limits _ ih =>
      obtain ⟨state, rep, fresh⟩ := ih
      rcases registerAccount_spec rep id limits with hsame | ⟨account, accounts, hunused, hperm, rep'⟩
      · rw [hsame]
        exact ⟨state, rep, fresh⟩
      · refine ⟨_, rep', ?_, fresh.reservations, fresh.maximumOrderId⟩
        intro other hother
        rcases List.mem_cons.mp (hperm.symm.subset hother) with rfl | hold
        · exact hunused
        · exact fresh.accounts other hold
  | setKillSwitch killed _ ih =>
      obtain ⟨state, rep, fresh⟩ := ih
      exact ⟨{ state with killed := killed }, { rep with killed := rfl }, fresh.accounts, fresh.reservations,
        fresh.maximumOrderId⟩
  | setAccountKillSwitch accountId killed _ hset ih =>
      obtain ⟨state, rep, fresh⟩ := ih
      unfold RiskEngine.setAccountKillSwitch at hset
      rcases rep.findAccount_spec accountId with ⟨slot, account, hfound, hat, hid, hledger⟩ | ⟨hfound, _⟩
      · rw [hfound] at hset
        cases hset
        refine ⟨_, rep.setAccount_spec { account with killed := killed } hat rfl, ?_, fresh.reservations,
          fresh.maximumOrderId⟩
        intro other hother
        obtain ⟨stored, hstored, rfl⟩ := List.mem_map.mp hother
        split
        · have hold := fresh.accounts account (account_eq_some hledger).1
          exact ⟨hold.limits, hold.settledPosition, hold.reserved, hold.openOrders⟩
        · exact fresh.accounts stored hstored
      · rw [hfound] at hset
        cases hset
        exact ⟨state, rep, fresh⟩

/-- A fresh ledger is consistent. -/
theorem RiskEngineState.Fresh.consistent (fresh : state.Fresh) (rep : RiskRep engine state) : state.Consistent := by
  refine ⟨?_, ?_, ?_, ?_⟩
  · exact rep.accountsSorted.nodup_words
  · simp [fresh.reservations]
  · intro account haccount
    have hunused := fresh.accounts account haccount
    refine ⟨fun side => ?_, ?_, fun side => ?_, ?_⟩
    · simp [fresh.reservations, hunused.reserved]
    · simp [fresh.reservations, hunused.openOrders, openCount]
    · simp [hunused.settledPosition, hunused.reserved]
    · simp [hunused.openOrders]
  · simp [fresh.reservations]

end HftEngine
