/-
Module: HftEngine.Proofs.SoakSound
Layer: Proofs
Purpose: What it means that the soak runner's table accepts a stream, whoever
  produced it. When the new orders carry different ids, every accepted batch is
  a valid batch whose trades sum to the filled quantity, and a consumer that
  replays the stream event by event ends with the orders and the tops of the
  table.
Imports: HftEngine.Proofs.SoakMirror
Trusted boundary: none (fully proved)
Main exports: LiveOrders.copy, Trusted, applyTrades_sound, apply_sound,
  soak_accepts_replayable
-/
import HftEngine.Proofs.SoakMirror

namespace HftEngine.Soak

open Machine KeyedList

variable {B K : Nat} {live live' next : LiveOrders K}

/-! ### The orders of a table -/

/-- What a consumer of the event stream would know of the listed orders. -/
def LiveOrders.copy (live : LiveOrders K) (id : OrderId) : Option HftEngine.LiveOrder :=
  (live.flatten.find? fun order => order.orderId = id).map fun order =>
    ⟨order.accountId, order.side, order.price, order.quantity⟩

/-- A listed order as an entry of a book; the table does not know its
sequence. -/
def asEntry (order : LiveOrder) : BookEntry :=
  (order.side, order.price, ⟨order.orderId, order.accountId, order.quantity, 0⟩)

/-- The listed orders as entries of a book. -/
def LiveOrders.entries (live : LiveOrders K) : List BookEntry := live.flatten.map asEntry

/-- What the table answers for an id is the copy of its entries. -/
theorem copy_eq (live : LiveOrders K) : live.copy = copyOf live.entries := by
  funext id
  rw [LiveOrders.copy, copyOf, LiveOrders.entries, List.find?_map, Option.map_map]
  rfl

/-- A slot that is found holds the order it was looked up for. -/
theorem slot_eq_ok {id : OrderId} {index : Nat} {order : LiveOrder} (h : live.slot id = .ok (index, order)) :
    order.orderId = id ∧ live.orders.toList[index]? = some (some order) := by
  unfold LiveOrders.slot at h
  split at h
  · cases h
  · rename_i found hfind
    split at h
    · rename_i listed hslot
      cases h
      obtain ⟨hi, hany, _⟩ := List.findIdx?_eq_some_iff_getElem.mp hfind
      rw [List.getElem?_eq_getElem hi, Option.some.injEq] at hslot
      rw [hslot, Option.any_some] at hany
      refine ⟨of_decide_eq_true hany, ?_⟩
      rw [List.getElem?_eq_getElem hi, hslot]
    · cases h

/-- Rewriting the slot of an order: the others stay, and the copy changes at
that order only. -/
theorem copy_setSlot {index : Nat} {order : LiveOrder} (hdistinct : Distinct live.entries)
    (hslot : live.orders.toList[index]? = some (some order)) (after : Option LiveOrder)
    (hafter : ∀ other ∈ after, other.orderId = order.orderId) :
    Distinct (live.setSlot index after).entries ∧
      (live.setSlot index after).copy = Function.update live.copy order.orderId
        ((after.map asEntry).map liveOf) ∧
      ∀ listed ∈ (live.setSlot index after).flatten, ∃ before ∈ live.flatten, before.orderId = listed.orderId := by
  obtain ⟨others, hbefore, hset⟩ := SlotBag.reduceOption_set hslot
  have hsplit : live.entries.Perm (asEntry order :: others.map asEntry) := hbefore.map asEntry
  have hnext : (live.setSlot index after).entries.Perm ((after.map asEntry).toList ++ others.map asEntry) := by
    rw [LiveOrders.entries, flatten_setSlot]
    apply ((hset after).map asEntry).trans
    cases after <;> exact List.Perm.refl _
  have hids : Distinct (asEntry order :: others.map asEntry) := (hsplit.map _).nodup_iff.mp hdistinct
  have hrest : copyOf (others.map asEntry) order.orderId = none := by
    apply copyOf_eq_none
    intro other hother heq
    exact (List.nodup_cons.mp hids).1 (List.mem_map.mpr ⟨other, hother, heq⟩)
  have hdistinct' : Distinct ((after.map asEntry).toList ++ others.map asEntry) := by
    cases after with
    | none => exact (List.nodup_cons.mp hids).2
    | some other =>
        have hsame : (asEntry other).2.2.id = (asEntry order).2.2.id := hafter other rfl
        rw [Distinct, Option.map_some, Option.toList_some, List.singleton_append, List.map_cons, hsame]
        exact hids
  refine ⟨(hnext.map _).nodup_iff.mpr hdistinct', ?_, ?_⟩
  · rw [copy_eq, copy_eq, copyOf_perm hdistinct' hnext, copyOf_perm hids hsplit, copyOf_cons]
    have hid : (asEntry order).2.2.id = order.orderId := rfl
    rw [hid, Function.update_idem]
    cases after with
    | none => exact (Function.update_eq_self_iff.mpr hrest.symm).symm
    | some other =>
        rw [Option.map_some, Option.toList_some, List.singleton_append, copyOf_cons]
        have hsame : (asEntry other).2.2.id = order.orderId := hafter other rfl
        rw [hsame]
        rfl
  · intro listed hlisted
    rw [flatten_setSlot] at hlisted
    rcases List.mem_append.mp ((hset after).subset hlisted) with hnew | hother
    · exact ⟨order, hbefore.symm.subset List.mem_cons_self, (hafter listed (Option.mem_toList.mp hnew)).symm⟩
    · exact ⟨listed, hbefore.symm.subset (List.mem_cons_of_mem _ hother), rfl⟩

/-- An order in a slot is what the table answers for its id. -/
theorem copy_of_slot {index : Nat} {order : LiveOrder} (hdistinct : Distinct live.entries)
    (hslot : live.orders.toList[index]? = some (some order)) :
    live.copy order.orderId = some (liveOf (asEntry order)) := by
  have hmem : order ∈ live.flatten := List.reduceOption_mem_iff.mpr (List.mem_of_getElem? hslot)
  rw [copy_eq]
  exact copyOf_of_mem hdistinct (List.mem_map_of_mem hmem)

/-! ### Trades -/

/-- One accepted trade is a trade with a listed order, and takes the copy where
the consumer's fold takes it. -/
theorem applyTrade_sound {taker : NewOrder} {traded traded' : U64} {trade : Events.Trade}
    (hdistinct : Distinct live.entries)
    (h : live.applyTrade (.newOrder taker) traded trade = .ok (traded', live')) :
    traded'.val = traded.val + trade.quantity.val ∧ Distinct live'.entries ∧
      live'.copy = Function.update live.copy trade.makerOrderId
        ((live.copy trade.makerOrderId).bind (Replica.reduce trade.quantity)) ∧
      (∃ maker ∈ live.flatten, maker.orderId = trade.makerOrderId) ∧
      ∀ listed ∈ live'.flatten, ∃ before ∈ live.flatten, before.orderId = listed.orderId := by
  unfold LiveOrders.applyTrade at h
  dsimp only at h
  split at h
  · cases h
  · split at h
    · cases h
    · rename_i index maker hslot
      obtain ⟨hid, hat⟩ := slot_eq_ok hslot
      split at h
      · cases h
      · cases hadd : checkedAdd traded trade.quantity with
        | none =>
            rw [hadd] at h
            cases h
        | some total =>
            rw [hadd] at h
            dsimp only at h
            cases hsub : checkedSub maker.quantity trade.quantity with
            | none =>
                rw [hsub] at h
                cases h
            | some left =>
                rw [hsub] at h
                cases h
                have hleft : maker.quantity.val = left.val + trade.quantity.val := checkedSub_eq_some.mp hsub
                obtain ⟨hdistinct', hcopy, hids⟩ := copy_setSlot hdistinct hat
                  (if left.val = 0 then none else some { maker with quantity := left }) (by
                    intro other hother
                    split at hother
                    · cases hother
                    · cases hother
                      rfl)
                refine ⟨checkedAdd_eq_some.mp hadd, hdistinct', ?_, ⟨maker, List.reduceOption_mem_iff.mpr
                  (List.mem_of_getElem? hat), hid⟩, hids⟩
                rw [hcopy, ← hid, copy_of_slot hdistinct hat, Option.bind_some, Replica.reduce]
                have hsame : (liveOf (asEntry maker)).quantity = maker.quantity := rfl
                rw [hsame]
                by_cases hzero : left.val = 0
                · rw [if_pos hzero, if_pos (by omega)]
                  rfl
                · have hrest : satSub maker.quantity trade.quantity = left := by
                    apply Fin.ext
                    rw [satSub_val]
                    omega
                  rw [if_neg hzero, if_neg (by omega), hrest]
                  rfl

/-- The trades that follow an accepted order: the table and the consumer's fold
agree on every other order. -/
theorem applyTrades_sound {order : NewOrder} {accepted rejected : Bool} {events : List Event} {id : OrderId}
    {entered : Option HftEngine.LiveOrder} {replica : Replica} {traded traded' : U64}
    (hfollow : Followers accepted rejected events) (hdistinct : Distinct live.entries)
    (hfresh : ∀ listed ∈ live.flatten, listed.orderId ≠ id)
    (hcopy : replica.orders = Function.update live.copy id entered)
    (h : live.applyTrades (.newOrder order) traded events = .ok (traded', live')) :
    (replica.applyAll (.newOrder order) events).orders = Function.update live'.copy id entered ∧
      traded'.val = traded.val + tradedIn events ∧ Distinct live'.entries ∧
      ∀ listed ∈ live'.flatten, ∃ before ∈ live.flatten, before.orderId = listed.orderId := by
  induction hfollow generalizing live replica traded with
  | done =>
      cases h
      exact ⟨hcopy, rfl, hdistinct, fun listed hlisted => ⟨listed, hlisted, rfl⟩⟩
  | top event hkept =>
      cases h
      exact ⟨hcopy, rfl, hdistinct, fun listed hlisted => ⟨listed, hlisted, rfl⟩⟩
  | @trade rest event haccepted hrest ih =>
      rw [LiveOrders.applyTrades] at h
      cases htrade : live.applyTrade (.newOrder order) traded event with
      | error error =>
          rw [htrade] at h
          cases h
      | ok result =>
          obtain ⟨total, middle⟩ := result
          rw [htrade] at h
          obtain ⟨htotal, hdistinct', hmiddle, ⟨maker, hmaker, hid⟩, hids⟩ := applyTrade_sound hdistinct htrade
          have hother : event.makerOrderId ≠ id := hid ▸ hfresh maker hmaker
          have hfresh' : ∀ listed ∈ middle.flatten, listed.orderId ≠ id := by
            intro listed hlisted
            obtain ⟨before, hbefore, hsame⟩ := hids listed hlisted
            exact hsame ▸ hfresh before hbefore
          have hstep : (replica.apply (.newOrder order) (.trade event)).orders =
              Function.update middle.copy id entered := by
            rw [hmiddle, Function.update_comm hother, ← hcopy]
            have hkept : replica.orders event.makerOrderId = live.copy event.makerOrderId := by
              rw [hcopy, Function.update_of_ne hother]
            rw [← hkept]
            rfl
          obtain ⟨horders, hsum, hlast, hall⟩ := ih hdistinct' hfresh' hstep h
          refine ⟨horders, ?_, hlast, ?_⟩
          · have hadds : tradedIn (.trade event :: rest) = event.quantity.val + tradedIn rest := rfl
            rw [hsum, htotal, hadds, Nat.add_assoc]
          · intro listed hlisted
            obtain ⟨between, hbetween, hsame⟩ := hall listed hlisted
            obtain ⟨before, hbefore, hsame'⟩ := hids between hbetween
            exact ⟨before, hbefore, hsame'.trans hsame⟩

/-! ### Batches -/

/-- The tops after a batch with this last event. -/
def topsAfter (last : Option Event) (tops : Tops) : Tops :=
  match last with
  | some (.topOfBook event) => (event.bid, event.ask)
  | _ => tops

/-- A batch that passes the check of the best levels says what they are
afterwards. -/
theorem topsAfter_of_checkTops {last : Option Event} {before after : Tops}
    (h : LiveOrders.checkTops last before after = .ok ()) : topsAfter last before = after := by
  have hquiet : (if before = after then Except.ok () else
      Except.error (RoutedError.eventContents "missing top of book")) = .ok () → before = after := by
    intro hok
    split at hok
    · assumption
    · cases hok
  cases last with
  | none => exact hquiet h
  | some event =>
      cases event with
      | topOfBook event =>
          unfold LiveOrders.checkTops at h
          dsimp only at h
          split at h
          · cases h
          · split at h
            · cases h
            · rename_i hpayload
              exact not_not.mp hpayload
      | accepted event => exact hquiet h
      | rejected event => exact hquiet h
      | trade event => exact hquiet h
      | cancelled event => exact hquiet h
      | replaced event => exact hquiet h

/-- A consumer's tops after the followers of an event are those the last event
tells. -/
theorem applyAll_followers_tops {command : Command} {accepted rejected : Bool} {rest : List Event}
    (hfollow : Followers accepted rejected rest) {first : Event} (hfirst : ∀ top, first ≠ .topOfBook top)
    (replica : Replica) :
    (replica.applyAll command rest).tops = topsAfter (first :: rest).getLast? replica.tops := by
  induction hfollow generalizing first replica with
  | done =>
      cases first with
      | topOfBook event => exact absurd rfl (hfirst event)
      | accepted event => rfl
      | rejected event => rfl
      | trade event => rfl
      | cancelled event => rfl
      | replaced event => rfl
  | trade event haccepted hrest ih =>
      rw [Replica.applyAll_cons, List.getLast?_cons_cons]
      exact ih (fun _ => Event.noConfusion) _
  | top event hkept => rfl

/-- Only an accepted order fills anything. -/
theorem filledIn_followers {accepted rejected : Bool} {rest : List Event} (hfollow : Followers accepted rejected rest) :
    filledIn rest = 0 := by
  induction hfollow with
  | done => rfl
  | trade event haccepted hrest ih => exact ih
  | top event hkept => rfl

/-- Without an accepted order there are no trades. -/
theorem followers_quiet {rejected : Bool} {rest : List Event} (hfollow : Followers false rejected rest) :
    tradedIn rest = 0 ∧ filledIn rest = 0 ∧
      (∀ (K : Nat) (live : LiveOrders K) (command : Command) (traded : U64),
        live.applyTrades command traded rest = .ok (traded, live)) ∧
      ∀ (command : Command) (replica : Replica), (replica.applyAll command rest).orders = replica.orders := by
  cases hfollow with
  | done => exact ⟨rfl, rfl, fun _ _ _ _ => rfl, fun _ _ => rfl⟩
  | trade event haccepted hrest => cases haccepted
  | top event hkept => exact ⟨rfl, rfl, fun _ _ _ _ => rfl, fun _ _ => rfl⟩

/-- What an accepted batch leaves behind: distinct ids, and the copy and the
tops of a consumer that folds its events. -/
structure Taken (live next : LiveOrders K) (command : Command) (batch : EventBatch B) : Prop where
  valid : ValidBatch command.instrumentId command.sequence batch.events
  traded : tradedIn batch.events = filledIn batch.events
  distinct : Distinct next.entries
  copy : ∀ replica : Replica, replica.orders = live.copy → (replica.applyAll command batch.events).orders = next.copy
  tops : ∀ replica : Replica, replica.tops = live.tops → (replica.applyAll command batch.events).tops = next.tops
  listed : ∀ listed ∈ next.flatten, (∃ before ∈ live.flatten, before.orderId = listed.orderId) ∨
    ∃ order, command = .newOrder order ∧ listed.orderId = order.orderId

/-- Entering an order under a new id: the copy gains it. -/
theorem copy_insert {index : Nat} (order : LiveOrder) (hdistinct : Distinct live.entries)
    (hfree : live.orders.toList.findIdx? Option.isNone = some index)
    (hfresh : ∀ listed ∈ live.flatten, listed.orderId ≠ order.orderId) :
    Distinct (live.setSlot index (some order)).entries ∧
      (live.setSlot index (some order)).copy = Function.update live.copy order.orderId (some (liveOf (asEntry order))) ∧
      (live.setSlot index (some order)).flatten.Perm (order :: live.flatten) := by
  obtain ⟨hi, hnone, _⟩ := List.findIdx?_eq_some_iff_getElem.mp hfree
  have hslot : live.orders.toList[index]? = some none := by
    rw [List.getElem?_eq_getElem hi]
    exact congrArg some (Option.isNone_iff_eq_none.mp hnone)
  obtain ⟨others, hbefore, hset⟩ := SlotBag.reduceOption_set hslot
  have hperm : (live.setSlot index (some order)).flatten.Perm (order :: live.flatten) := by
    rw [flatten_setSlot]
    exact (hset (some order)).trans (hbefore.symm.cons order)
  have hentries : (live.setSlot index (some order)).entries.Perm (asEntry order :: live.entries) := hperm.map asEntry
  have hdistinct' : Distinct (asEntry order :: live.entries) := by
    apply List.nodup_cons.mpr
    refine ⟨fun hmem => ?_, hdistinct⟩
    obtain ⟨entry, hentry, hid⟩ := List.mem_map.mp hmem
    obtain ⟨listed, hlisted, rfl⟩ := List.mem_map.mp hentry
    exact hfresh listed hlisted hid
  refine ⟨(hentries.map _).nodup_iff.mpr hdistinct', ?_, hperm⟩
  rw [copy_eq, copy_eq, copyOf_perm hdistinct' hentries, copyOf_cons]
  rfl

/-- For an id that is not listed the table answers nothing. -/
theorem copy_eq_none {id : OrderId} (h : ∀ listed ∈ live.flatten, listed.orderId ≠ id) : live.copy id = none := by
  rw [copy_eq]
  apply copyOf_eq_none
  intro entry hentry
  obtain ⟨listed, hlisted, rfl⟩ := List.mem_map.mp hentry
  exact h listed hlisted

/-- The accounting check compares the filled quantity with what was traded. -/
theorem validateAccepted_filled {event : Events.Accepted} {order : NewOrder} {traded : U64}
    (h : validateAccepted event order traded = .ok ()) : event.filledQuantity = traded := by
  unfold validateAccepted at h
  dsimp only at h
  split at h
  · cases h
  · rename_i hfair
    exact not_not.mp (not_or.mp (not_or.mp hfair).2).2

section Accepts

variable {batch : EventBatch B} {command : Command} {summary : EventSummary}

/-- An accepted new order: the trades come off first, then the remainder is
entered. -/
theorem taken_accepted {order : NewOrder} {event : Events.Accepted} {rest : List Event} {traded : U64}
    {matched : LiveOrders K} (hdistinct : Distinct live.entries)
    (hfresh : ∀ listed ∈ live.flatten, listed.orderId ≠ order.orderId)
    (hfollow : Followers true false rest)
    (htrades : live.applyTrades (.newOrder order) 0 rest = .ok (traded, matched)) (hid : event.orderId = order.orderId)
    (haccepted : matched.applyAccepted event order traded = .ok next) :
    tradedIn rest = event.filledQuantity.val ∧ Distinct next.entries ∧
      (∀ replica : Replica, replica.orders = live.copy →
        (replica.applyAll (.newOrder order) (.accepted event :: rest)).orders = next.copy) ∧
      ∀ listed ∈ next.flatten, (∃ before ∈ live.flatten, before.orderId = listed.orderId) ∨
        listed.orderId = order.orderId := by
  unfold LiveOrders.applyAccepted at haccepted
  cases hvalid : validateAccepted event order traded with
  | error error =>
      rw [hvalid] at haccepted
      cases haccepted
  | ok =>
      rw [hvalid] at haccepted
      dsimp only at haccepted
      have hfilled := validateAccepted_filled hvalid
      have hmatched : ∀ (entered : Option HftEngine.LiveOrder) (replica : Replica),
          replica.orders = Function.update live.copy order.orderId entered →
          (replica.applyAll (.newOrder order) rest).orders = Function.update matched.copy order.orderId entered ∧
            traded.val = (0 : U64).val + tradedIn rest ∧ Distinct matched.entries ∧
            ∀ listed ∈ matched.flatten, ∃ before ∈ live.flatten, before.orderId = listed.orderId :=
        fun entered replica hcopy => applyTrades_sound hfollow hdistinct hfresh hcopy htrades
      obtain ⟨_, htotal, hdistinct', hids⟩ := hmatched none
        ⟨Function.update live.copy order.orderId none, (none, none)⟩ rfl
      have hsum : tradedIn rest = event.filledQuantity.val := by
        rw [hfilled, htotal, Fin.val_zero, Nat.zero_add]
      have hfresh' : ∀ listed ∈ matched.flatten, listed.orderId ≠ order.orderId := by
        intro listed hlisted
        obtain ⟨before, hbefore, hsame⟩ := hids listed hlisted
        exact hsame ▸ hfresh before hbefore
      refine ⟨hsum, ?_⟩
      by_cases hzero : event.restingQuantity.val = 0
      · rw [if_pos hzero] at haccepted
        cases haccepted
        refine ⟨hdistinct', fun replica hreplica => ?_, fun listed hlisted => .inl (hids listed hlisted)⟩
        have hunchanged : live.copy = Function.update live.copy order.orderId none :=
          (Function.update_eq_self_iff.mpr (copy_eq_none hfresh).symm).symm
        have hrest := (hmatched none replica (hreplica.trans hunchanged)).1
        rw [Function.update_eq_self_iff.mpr (copy_eq_none hfresh').symm] at hrest
        have happly : replica.apply (.newOrder order) (.accepted event) = replica := if_pos hzero
        rw [Replica.applyAll_cons, happly]
        exact hrest
      · rw [if_neg hzero] at haccepted
        split at haccepted
        · cases haccepted
        · cases hfind : matched.orders.toList.findIdx? Option.isNone with
          | none =>
              rw [hfind] at haccepted
              cases haccepted
          | some index =>
              rw [hfind] at haccepted
              cases haccepted
              obtain ⟨hlast, hcopy, hperm⟩ := copy_insert ⟨order.orderId, order.accountId, order.price,
                event.restingQuantity, order.side⟩ hdistinct' hfind hfresh'
              refine ⟨hlast, fun replica hreplica => ?_, fun listed hlisted => ?_⟩
              · have happly : (replica.apply (.newOrder order) (.accepted event)).orders =
                    Function.update live.copy order.orderId
                      (some ⟨order.accountId, order.side, order.price, event.restingQuantity⟩) := by
                  rw [Replica.apply]
                  dsimp only
                  rw [if_neg hzero, hid, hreplica]
                rw [Replica.applyAll_cons, (hmatched _ _ happly).1, hcopy]
                rfl
              · rcases List.mem_cons.mp (hperm.subset hlisted) with heq | hbefore
                · rw [heq]
                  exact .inr rfl
                · exact .inl (hids listed hbefore)

/-- An accepted cancel removes its order. -/
theorem taken_cancelled {cancel : CancelOrder} {event : Events.Cancelled} {rest : List Event} {traded : U64}
    (hdistinct : Distinct live.entries)
    (h : live.applyTerminal (Event.cancelled event :: rest).head? (.cancelOrder cancel) traded = .ok next) :
    Distinct next.entries ∧ next.copy = Function.update live.copy event.orderId none ∧
      ∀ listed ∈ next.flatten, ∃ before ∈ live.flatten, before.orderId = listed.orderId := by
  unfold LiveOrders.applyTerminal at h
  dsimp only [List.head?_cons] at h
  split at h
  · unfold LiveOrders.applyCancelled at h
    split at h
    · cases h
    · rename_i index order hslot
      split at h
      · cases h
      · cases h
        obtain ⟨hid, hat⟩ := slot_eq_ok hslot
        rw [← hid]
        exact copy_setSlot hdistinct hat none (by simp)
  · cases h

/-- An accepted amend rewrites its order in place. -/
theorem taken_replaced {replace : ReplaceOrder} {event : Events.Replaced} {rest : List Event} {traded : U64}
    (hdistinct : Distinct live.entries)
    (h : live.applyTerminal (Event.replaced event :: rest).head? (.replaceOrder replace) traded = .ok next) :
    Distinct next.entries ∧
      next.copy = Function.update live.copy event.orderId ((live.copy event.orderId).map fun order =>
        { order with price := event.price, quantity := event.newQuantity }) ∧
      ∀ listed ∈ next.flatten, ∃ before ∈ live.flatten, before.orderId = listed.orderId := by
  unfold LiveOrders.applyTerminal at h
  dsimp only [List.head?_cons] at h
  split at h
  · unfold LiveOrders.applyReplaced at h
    split at h
    · cases h
    · rename_i index order hslot
      dsimp only at h
      split at h
      · cases h
      · cases h
        obtain ⟨hid, hat⟩ := slot_eq_ok hslot
        obtain ⟨hlast, hcopy, hids⟩ := copy_setSlot hdistinct hat
          (some { order with quantity := event.newQuantity, price := event.price }) (by
            intro other hother
            cases hother
            rfl)
        refine ⟨hlast, ?_, hids⟩
        rw [hcopy, ← hid, copy_of_slot hdistinct hat]
        rfl
  · cases h

/-- A terminal event leaves a consumer's tops alone. -/
theorem tops_apply_terminal {first : Event} (hterminal : isTerminal first = true) (replica : Replica) :
    (replica.apply command first).tops = replica.tops := by
  cases first with
  | accepted event =>
      cases command with
      | newOrder order =>
          rw [Replica.apply]
          dsimp only
          split <;> rfl
      | cancelOrder cancel => rfl
      | replaceOrder replace => rfl
  | rejected event => rfl
  | trade event => cases hterminal
  | cancelled event => rfl
  | replaced event => rfl
  | topOfBook event => cases hterminal

/-- Whatever batch the table accepts, it takes it in as a consumer of the
events would. -/
theorem apply_sound (hdistinct : Distinct live.entries)
    (hfresh : ∀ order, command = .newOrder order → ∀ listed ∈ live.flatten, listed.orderId ≠ order.orderId)
    (h : live.apply batch command = .ok (summary, next)) : Taken live next command batch := by
  unfold LiveOrders.apply at h
  cases hvalidate : validateBatch batch command.instrumentId command.sequence with
  | error error =>
      rw [hvalidate] at h
      cases h
  | ok counted =>
      rw [hvalidate] at h
      dsimp only at h
      obtain ⟨hvalid, _⟩ := validateBatch_eq_ok.mp hvalidate
      obtain ⟨first, rest, hevents, hterminal, hfollow⟩ := hvalid.shape
      cases htrades : live.applyTrades command 0 batch.events with
      | error error =>
          rw [htrades] at h
          cases h
      | ok result =>
          obtain ⟨traded, matched⟩ := result
          rw [htrades] at h
          dsimp only at h
          cases happlied : matched.applyTerminal batch.events.head? command traded with
          | error error =>
              rw [happlied] at h
              cases h
          | ok last =>
              rw [happlied] at h
              dsimp only at h
              cases hchecked : LiveOrders.checkTops batch.events.getLast? live.tops last.tops with
              | error error =>
                  rw [hchecked] at h
                  cases h
              | ok =>
                  rw [hchecked] at h
                  cases h
                  have hfirst : ∀ top, first ≠ .topOfBook top := by
                    rintro top rfl
                    cases hterminal
                  have htops : ∀ replica : Replica, replica.tops = live.tops →
                      (replica.applyAll command batch.events).tops = next.tops := by
                    intro replica hreplica
                    rw [hevents, Replica.applyAll_cons, applyAll_followers_tops hfollow hfirst,
                      tops_apply_terminal hterminal, hreplica, ← hevents]
                    exact topsAfter_of_checkTops hchecked
                  rw [hevents] at htrades happlied
                  cases first with
                  | trade event => cases hterminal
                  | topOfBook event => cases hterminal
                  | accepted event =>
                      cases command with
                      | cancelOrder cancel => cases happlied
                      | replaceOrder replace => cases happlied
                      | newOrder order =>
                          unfold LiveOrders.applyTerminal at happlied
                          dsimp only [List.head?_cons] at happlied
                          split at happlied
                          · rename_i hsame
                            obtain ⟨hsum, hlast, hcopy, hids⟩ := taken_accepted hdistinct (hfresh order rfl) hfollow
                              htrades hsame.1 happlied
                            refine ⟨hvalid, ?_, hlast, hevents ▸ hcopy, htops, fun listed hlisted => ?_⟩
                            · have htraded : tradedIn (.accepted event :: rest) = tradedIn rest := rfl
                              have hfilled : filledIn (.accepted event :: rest) = event.filledQuantity.val + filledIn rest :=
                                rfl
                              rw [hevents, htraded, hfilled, filledIn_followers hfollow, hsum, Nat.add_zero]
                            · exact (hids listed hlisted).imp_right fun heq => ⟨order, rfl, heq⟩
                          · cases happlied
                  | rejected event =>
                      obtain ⟨hquiet, hnone, hpassed, hkept⟩ := followers_quiet hfollow
                      cases (hpassed K live command 0).symm.trans htrades
                      unfold LiveOrders.applyTerminal at happlied
                      dsimp only [List.head?_cons] at happlied
                      split at happlied
                      · cases happlied
                      · cases happlied
                        refine ⟨hvalid, ?_, hdistinct, fun replica hreplica => ?_, htops, fun listed hlisted =>
                          .inl ⟨listed, hlisted, rfl⟩⟩
                        · rw [hevents]
                          exact hquiet.trans hnone.symm
                        · rw [hevents, Replica.applyAll_cons, hkept]
                          exact hreplica
                  | cancelled event =>
                      obtain ⟨hquiet, hnone, hpassed, hkept⟩ := followers_quiet hfollow
                      cases (hpassed K live command 0).symm.trans htrades
                      cases command with
                      | newOrder order => cases happlied
                      | replaceOrder replace => cases happlied
                      | cancelOrder cancel =>
                          obtain ⟨hlast, hcopy, hids⟩ := taken_cancelled hdistinct happlied
                          refine ⟨hvalid, ?_, hlast, fun replica hreplica => ?_, htops, fun listed hlisted =>
                            .inl (hids listed hlisted)⟩
                          · rw [hevents]
                            exact hquiet.trans hnone.symm
                          · rw [hevents, Replica.applyAll_cons, hkept, hcopy, ← hreplica]
                            rfl
                  | replaced event =>
                      obtain ⟨hquiet, hnone, hpassed, hkept⟩ := followers_quiet hfollow
                      cases (hpassed K live command 0).symm.trans htrades
                      cases command with
                      | newOrder order => cases happlied
                      | cancelOrder cancel => cases happlied
                      | replaceOrder replace =>
                          obtain ⟨hlast, hcopy, hids⟩ := taken_replaced hdistinct happlied
                          refine ⟨hvalid, ?_, hlast, fun replica hreplica => ?_, htops, fun listed hlisted =>
                            .inl (hids listed hlisted)⟩
                          · rw [hevents]
                            exact hquiet.trans hnone.symm
                          · rw [hevents, Replica.applyAll_cons, hkept, hcopy, ← hreplica]
                            rfl

end Accepts

/-! ### Streams -/

/-- The id of a new order. -/
def newOrderId : Command → Option OrderId
  | .newOrder order => some order.orderId
  | .cancelOrder _ | .replaceOrder _ => none

/-- What the table accepts, a consumer replays: whoever produced the batches,
when a stream whose new orders carry different ids is taken in from an empty
table, every batch is valid for its command, trades exactly what it reports
filled, and a consumer that folds the events ends with the orders and the tops
of the table. -/
theorem soak_accepts_replayable {stream : List (Command × EventBatch B)}
    (hids : (stream.filterMap fun item => newOrderId item.1).Nodup)
    (h : (LiveOrders.new : LiveOrders K).replay stream = .ok next) :
    (∀ item ∈ stream, ValidBatch item.1.instrumentId item.1.sequence item.2.events ∧
        tradedIn item.2.events = filledIn item.2.events) ∧
      (Replica.empty.replay stream).orders = next.copy ∧ (Replica.empty.replay stream).tops = next.tops := by
  have hgeneral : ∀ (live : LiveOrders K) (replica : Replica), Distinct live.entries →
      (∀ listed ∈ live.flatten, listed.orderId ∉ stream.filterMap fun item => newOrderId item.1) →
      replica.orders = live.copy → replica.tops = live.tops → live.replay stream = .ok next →
      (∀ item ∈ stream, ValidBatch item.1.instrumentId item.1.sequence item.2.events ∧
          tradedIn item.2.events = filledIn item.2.events) ∧
        (replica.replay stream).orders = next.copy ∧ (replica.replay stream).tops = next.tops := by
    clear h
    induction stream with
    | nil =>
        intro live replica _ _ horders htops h
        cases h
        exact ⟨by simp, horders, htops⟩
    | cons item rest ih =>
        intro live replica hdistinct hfresh horders htops h
        obtain ⟨command, batch⟩ := item
        rw [LiveOrders.replay] at h
        cases happly : live.apply batch command with
        | error error =>
            rw [happly] at h
            cases h
        | ok result =>
            obtain ⟨summary, middle⟩ := result
            rw [happly] at h
            have hnew : ∀ order, command = .newOrder order → ∀ listed ∈ live.flatten, listed.orderId ≠ order.orderId := by
              rintro order rfl listed hlisted heq
              exact hfresh listed hlisted (heq ▸ List.mem_cons_self)
            have htaken := apply_sound hdistinct hnew happly
            have hlater : (rest.filterMap fun item => newOrderId item.1).Nodup ∧
                ∀ id ∈ newOrderId command, id ∉ rest.filterMap fun item => newOrderId item.1 := by
              rw [List.filterMap_cons] at hids
              cases hcommand : newOrderId command with
              | none =>
                  simp only [hcommand] at hids
                  exact ⟨hids, by simp⟩
              | some id =>
                  simp only [hcommand, List.nodup_cons] at hids
                  refine ⟨hids.2, fun other hother => ?_⟩
                  rw [← Option.mem_some.mp hother]
                  exact hids.1
            have hfresh' : ∀ listed ∈ middle.flatten,
                listed.orderId ∉ rest.filterMap fun item => newOrderId item.1 := by
              intro listed hlisted hmem
              rcases htaken.listed listed hlisted with ⟨before, hbefore, hsame⟩ | ⟨order, rfl, hsame⟩
              · apply hfresh before hbefore
                rw [hsame, List.filterMap_cons]
                cases newOrderId command with
                | none => exact hmem
                | some id => exact List.mem_cons_of_mem _ hmem
              · exact hlater.2 order.orderId rfl (hsame ▸ hmem)
            obtain ⟨hvalid, horders', htops'⟩ := ih hlater.1 middle (replica.applyAll command batch.events) htaken.distinct
              hfresh' (htaken.copy replica horders) (htaken.tops replica htops) h
            refine ⟨?_, horders', htops'⟩
            intro item hitem
            rcases List.mem_cons.mp hitem with rfl | hmem
            · exact ⟨htaken.valid, htaken.traded⟩
            · exact hvalid item hmem
  have hempty : (LiveOrders.new : LiveOrders K).flatten = [] := List.perm_nil.mp holds_new
  apply hgeneral LiveOrders.new Replica.empty
  · rw [LiveOrders.entries, hempty]
    exact List.nodup_nil
  · rw [hempty]
    simp
  · funext id
    rw [LiveOrders.copy, hempty]
    rfl
  · rw [LiveOrders.tops, LiveOrders.top, LiveOrders.top, hempty]
    rfl
  · exact h

end HftEngine.Soak
