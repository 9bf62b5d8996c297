/-
Module: HftEngine.Proofs.GatewaySteps
Layer: Proofs
Purpose: What one call of the logical gateway can do, said once. While the
  ledger mirrors the book, every fill, release and rollback the gateway books
  after a book operation succeeds; a call is malformed, out of sequence,
  refused without a trace but watermarks, or it is an accepted order, cancel or
  amend.
Imports: HftEngine.Spec.LogicalGateway, HftEngine.Proofs.GatewayRefinement,
  HftEngine.Proofs.RiskBalance, HftEngine.Proofs.BookSound
Trusted boundary: none (fully proved)
Main exports: claimOf, LogicalGateway.Sound, Booked, recordFills_booked,
  Marked, Accepted, Cancelled, Replaced, Moves, moves_of_call
-/
import HftEngine.Spec.LogicalGateway
import HftEngine.Proofs.GatewayRefinement
import HftEngine.Proofs.RiskBalance
import HftEngine.Proofs.BookSound

namespace HftEngine

open Machine KeyedList

variable {R L O N : Nat} {gateway gateway' : LogicalGateway} {risk risk' risk'' : RiskEngineState}
  {order : NewOrder} {fills : List ModelFill} {entries : List BookEntry} {left : Quantity}
  {owner : OrderId → Option (AccountId × Side)}

/-! ### The ledger and the book -/

/-- The reservation that stands behind a resting order. -/
def claimOf (entry : BookEntry) : ReservationRiskState :=
  ⟨entry.2.2.id, entry.2.2.account, entry.1, entry.2.2.quantity⟩

/-- The claim of the part of an order that is not filled. -/
def takerClaims (order : NewOrder) (left : Quantity) : List ReservationRiskState :=
  if left.val = 0 then [] else [⟨order.orderId, order.accountId, order.side, left⟩]

/-- What rests of an order is what its reservation is left with. -/
theorem map_claimOf_restEntries : (restEntries order left).map claimOf = takerClaims order left := by
  unfold restEntries takerClaims
  split <;> rfl

/-- A consistent ledger whose reservations are the resting orders of a sound
book, below both watermarks. -/
structure LogicalGateway.Sound (gateway : LogicalGateway) : Prop where
  risk : gateway.risk.Consistent
  book : gateway.book.Sound
  ledger : gateway.risk.reservations.Perm (gateway.book.orders.map claimOf)
  marks : ∀ reserved ∈ gateway.risk.maximumOrderId, ∃ received ∈ gateway.maximumReceivedOrderId,
    reserved.val ≤ received.val

/-- The reservation of a resting order. -/
theorem LogicalGateway.Sound.reservation_of_mem (sound : gateway.Sound) {entry : BookEntry}
    (h : entry ∈ gateway.book.orders) : gateway.risk.reservation entry.2.2.id = some (claimOf entry) :=
  sound.risk.reservation_iff.mpr ⟨sound.ledger.symm.subset (List.mem_map_of_mem h), rfl⟩

/-! ### Booking -/

/-- What one side of a trade adds to the position of an account, for a given
owner of each order. -/
def share (owner : OrderId → Option (AccountId × Side)) (id : AccountId) (orderId : OrderId)
    (quantity : Quantity) : Int :=
  (owner orderId).elim 0 fun found => if id = found.1 then found.2.sign * quantity.val else 0

/-- What a report adds to the position of an account. -/
def explained (owner : OrderId → Option (AccountId × Side)) (id : AccountId) (report : ExecutionReport) : Int :=
  share owner id report.makerOrderId report.quantity + share owner id report.takerOrderId report.quantity

/-- The owner of a resting order. -/
def owned (entry : BookEntry) : OrderId × AccountId × Side := (entry.2.2.id, entry.2.2.account, entry.1)

/-- What booking some reports does to the ledger besides its reservations: it
stays consistent, the terms of the accounts stay, and every position moves by
what the reports say. -/
structure Booked (risk risk' : RiskEngineState) (owners : List (OrderId × AccountId × Side))
    (reports : List ExecutionReport) : Prop where
  consistent : risk'.Consistent
  terms : risk'.terms = risk.terms
  killed : risk'.killed = risk.killed
  total : risk'.settledTotal = risk.settledTotal
  position : ∀ owner : OrderId → Option (AccountId × Side), (∀ known ∈ owners, owner known.1 = some known.2) →
    ∀ id, risk'.position id = risk.position id + (reports.map (explained owner id)).sum

/-- More known owners do no harm to a booking. -/
theorem Booked.mono {owners owners' : List (OrderId × AccountId × Side)} {reports : List ExecutionReport}
    (h : Booked risk risk' owners reports) (hsub : ∀ known ∈ owners, known ∈ owners') :
    Booked risk risk' owners' reports :=
  { h with position := fun owner howner => h.position owner fun known hknown => howner known (hsub known hknown) }

/-- Bookings of two lists of reports make up the booking of both. -/
theorem Booked.trans {owners : List (OrderId × AccountId × Side)} {first second : List ExecutionReport}
    (h : Booked risk risk' owners first) (h' : Booked risk' risk'' owners second) :
    Booked risk risk'' owners (first ++ second) := by
  refine ⟨h'.consistent, h'.terms.trans h.terms, h'.killed.trans h.killed, h'.total.trans h.total, ?_⟩
  intro owner howner id
  rw [h'.position owner howner id, h.position owner howner id, List.map_append, List.sum_append, add_assoc]

/-- An exchange that moves no position books nothing. -/
theorem Exchange.booked {id : AccountId} {before after : List ReservationRiskState}
    (h : Exchange risk risk' id 0 before after) (hconsistent : risk.Consistent)
    (hid : ∃ account ∈ risk.accounts, account.id = id) : Booked risk risk' [] [] := by
  refine ⟨h.consistent, h.terms, h.killed, by simpa using h.total hconsistent hid, ?_⟩
  intro owner _ other
  simpa using h.position other

/-- What a fill leaves of a maker's claim. -/
theorem map_claimOf_fillEntry {fill : ModelFill} {entry : BookEntry} (hid : entry.2.2.id = fill.makerOrderId) :
    (fillEntry fill entry).toList.map claimOf = leftover (claimOf entry) fill.quantity := by
  unfold fillEntry leftover
  rw [if_pos hid]
  by_cases hwhole : entry.2.2.quantity = fill.quantity
  · rw [if_pos hwhole, if_pos (show (claimOf entry).quantity = _ from hwhole)]
    rfl
  · rw [if_neg hwhole, if_neg (show ¬(claimOf entry).quantity = _ from hwhole)]
    rfl

/-- What a fill leaves of the taker's claim. -/
theorem leftover_taker {filled : Quantity} (hle : filled.val ≤ left.val) :
    leftover ⟨order.orderId, order.accountId, order.side, left⟩ filled = takerClaims order (satSub left filled) := by
  unfold leftover takerClaims
  by_cases hwhole : left = filled
  · rw [if_pos hwhole, if_pos (by simp [hwhole])]
  · have hne : left.val ≠ filled.val := fun heq => hwhole (Fin.ext heq)
    rw [if_neg hwhole, if_neg (by simp only [satSub_val]; omega)]

/-- One report: the maker's fill, then the taker's. -/
theorem recordFill_both (h : risk.Consistent) {fill : ModelFill} {entry : BookEntry} (hentry : entry ∈ entries)
    (hids : (entries.map fun entry => entry.2.2.id).Nodup) (hid : entry.2.2.id = fill.makerOrderId)
    (hside : entry.1 = order.side.opposite) (hpos : fill.quantity.val ≠ 0)
    (hmaker : fill.quantity.val ≤ entry.2.2.quantity.val) (hleft : fill.quantity.val ≤ left.val)
    (hledger : risk.reservations.Perm (takerClaims order left ++ entries.map claimOf)) :
    ∃ risk₁ risk₂, risk.recordFill fill.makerOrderId fill.quantity = (.ok (), risk₁) ∧
      risk₁.recordFill order.orderId fill.quantity = (.ok (), risk₂) ∧
      Booked risk risk₂ ((order.orderId, order.accountId, order.side) :: entries.map owned) [reportOf order fill] ∧
      risk₂.maximumOrderId = risk.maximumOrderId ∧
      risk₂.reservations.Perm (takerClaims order (satSub left fill.quantity) ++
        (entries.filterMap (fillEntry fill)).map claimOf) := by
  have htaker : takerClaims order left = [⟨order.orderId, order.accountId, order.side, left⟩] :=
    if_neg (by omega)
  have hsplit := List.perm_cons_erase hentry
  -- the maker
  have hmakerFind : risk.reservation fill.makerOrderId = some (claimOf entry) :=
    h.reservation_iff.mpr ⟨hledger.symm.subset (List.mem_append_right _ (List.mem_map_of_mem hentry)), hid⟩
  obtain ⟨risk₁, hfill₁, hexchange₁⟩ := recordFill_exchange h hmakerFind hpos hmaker
  have hafter₁ : risk₁.reservations.Perm (takerClaims order left ++ (entries.filterMap (fillEntry fill)).map claimOf) := by
    have hbefore : risk.reservations.Perm ([claimOf entry] ++ (takerClaims order left ++ (entries.erase entry).map claimOf)) :=
      hledger.trans (((hsplit.map claimOf).append_left _).trans List.perm_middle)
    have hmade := perm_filterMap (f := fillEntry fill) hids hsplit fun other hne => if_neg (hid ▸ hne)
    have hmapped := hmade.map claimOf
    rw [List.map_append, map_claimOf_fillEntry hid] at hmapped
    refine (hexchange₁.reservations _ hbefore).trans (List.Perm.trans ?_ (hmapped.append_left _).symm)
    rw [← List.append_assoc, ← List.append_assoc]
    exact List.perm_append_comm.append_right _
  -- the taker
  have hclaim : ⟨order.orderId, order.accountId, order.side, left⟩ ∈ risk₁.reservations :=
    hafter₁.symm.subset (by simp [htaker])
  obtain ⟨risk₂, hfill₂, hexchange₂⟩ := recordFill_exchange hexchange₁.consistent
    (hexchange₁.consistent.reservation_iff.mpr ⟨hclaim, rfl⟩) hpos hleft
  refine ⟨risk₁, risk₂, hfill₁, hfill₂, ?_, hexchange₂.maximumOrderId.trans hexchange₁.maximumOrderId, ?_⟩
  · refine ⟨hexchange₂.consistent, hexchange₂.terms.trans hexchange₁.terms,
      hexchange₂.killed.trans hexchange₁.killed, ?_, ?_⟩
    · -- maker and taker stand on opposite sides, so the two moves cancel
      rw [hexchange₂.total hexchange₁.consistent (hexchange₁.consistent.owners _ hclaim),
        hexchange₁.total h (h.owners _ (reservation_eq_some hmakerFind).1)]
      simp only [claimOf, hside]
      cases order.side <;> simp only [Side.opposite, Side.sign] <;> omega
    · intro owner howner id
      have hmakerOwner : owner fill.makerOrderId = some (entry.2.2.account, entry.1) := by
        rw [← hid]
        exact howner (owned entry) (List.mem_cons_of_mem _ (List.mem_map_of_mem hentry))
      have htakerOwner : owner order.orderId = some (order.accountId, order.side) :=
        howner (order.orderId, order.accountId, order.side) (by simp)
      rw [hexchange₂.position, hexchange₁.position]
      simp only [List.map_cons, List.map_nil, List.sum_cons, List.sum_nil, add_zero, explained, share, reportOf,
        hmakerOwner, htakerOwner, Option.elim_some, claimOf, add_assoc]
      rfl
  · rw [htaker] at hafter₁
    have hafter₂ := hexchange₂.reservations _ hafter₁
    rwa [leftover_taker hleft] at hafter₂

/-- Fills bring in no owner that was not there. -/
theorem mem_owned_filterMap {fill : ModelFill} {known : OrderId × AccountId × Side}
    (h : known ∈ (entries.filterMap (fillEntry fill)).map owned) : known ∈ entries.map owned := by
  obtain ⟨entry', hentry', rfl⟩ := List.mem_map.mp h
  obtain ⟨entry, hentry, hfill⟩ := List.mem_filterMap.mp hentry'
  obtain ⟨hside, _, hid, haccount, _⟩ := fillEntry_kept hfill
  refine List.mem_map.mpr ⟨entry, hentry, ?_⟩
  unfold owned
  rw [hside, hid, haccount]

/-- All reports of an accepted order are booked: the claims that remain are
those of the unfilled part and of the makers left standing. -/
theorem recordFills_booked (h : risk.Consistent) (hids : (entries.map fun entry => entry.2.2.id).Nodup)
    (hfillable : Fillable order.side fills entries left.val)
    (hledger : risk.reservations.Perm (takerClaims order left ++ entries.map claimOf)) :
    ∃ risk' rest, risk.recordFills (fills.map (reportOf order)) = (.ok (), risk') ∧
      Booked risk risk' ((order.orderId, order.accountId, order.side) :: entries.map owned)
        (fills.map (reportOf order)) ∧
      risk'.maximumOrderId = risk.maximumOrderId ∧ rest.val + fillTotal fills = left.val ∧
      risk'.reservations.Perm (takerClaims order rest ++ (fillEntries fills entries).map claimOf) := by
  induction fills generalizing risk entries left with
  | nil =>
      refine ⟨risk, left, rfl, ⟨h, rfl, rfl, rfl, by simp⟩, rfl, rfl, hledger⟩
  | cons fill fills ih =>
      obtain ⟨hpos, hleft, ⟨entry, hentry, hid, hside, hmaker⟩, hrest⟩ := hfillable
      obtain ⟨risk₁, risk₂, hfill₁, hfill₂, hbooked, hmark, hafter⟩ :=
        recordFill_both h hentry hids hid hside hpos hmaker hleft hledger
      rw [← satSub_val] at hrest
      obtain ⟨risk', rest, hrecord, hbooked', hmark', htotal, hafter'⟩ :=
        ih hbooked.consistent (nodup_filterMap_fillEntry hids) hrest hafter
      refine ⟨risk', rest, ?_, ?_, hmark'.trans hmark, ?_, hafter'⟩
      · simp only [List.map_cons, RiskEngineState.recordFills, reportOf, hfill₁, hfill₂]
        exact hrecord
      · refine hbooked.trans (hbooked'.mono fun known hknown => ?_)
        rcases List.mem_cons.mp hknown with rfl | hother
        · simp
        · exact List.mem_cons_of_mem _ (mem_owned_filterMap hother)
      · rw [satSub_val] at htotal
        rw [fillTotal_cons]
        omega

/-! ### What a call can do -/

/-- The watermarks after a refused command: kept, or raised by a new order to
its id. -/
inductive Marked (gateway : LogicalGateway) : Command → Option OrderId → Option OrderId → Prop
  | kept (command : Command) :
      Marked gateway command gateway.maximumReceivedOrderId gateway.risk.maximumOrderId
  | received (order : NewOrder)
      (hnew : ∀ maximum ∈ gateway.maximumReceivedOrderId, maximum.val < order.orderId.val) :
      Marked gateway (.newOrder order) (some order.orderId) gateway.risk.maximumOrderId
  | reserved (order : NewOrder)
      (hnew : ∀ maximum ∈ gateway.maximumReceivedOrderId, maximum.val < order.orderId.val) :
      Marked gateway (.newOrder order) (some order.orderId) (some order.orderId)

/-- The gateway after a refused command. -/
def LogicalGateway.marked (gateway : LogicalGateway) (next : SequenceNumber) (received reserved : Option OrderId) :
    LogicalGateway :=
  { gateway with
    expectedSequence := next
    maximumReceivedOrderId := received
    risk := { gateway.risk with maximumOrderId := reserved } }

/-- An accepted new order: it was within its account's limits, the book matched
it, its fills are booked and the ledger mirrors the book again. -/
structure Accepted (N : Nat) (gateway gateway' : LogicalGateway) (order : NewOrder) (answer : GatewayAnswer)
    (account : AccountState) (summary : MatchSummary) (fills : List ModelFill) (resting discarded : Quantity) :
    Prop where
  new : ∀ maximum ∈ gateway.maximumReceivedOrderId, maximum.val < order.orderId.val
  account_eq : gateway.risk.account order.accountId = some account
  admits : account.limits.Admits order.price order.quantity
  submitted : Submitted N gateway.book order summary fills gateway'.book resting discarded
  answer_eq : answer = ⟨.ok (.newOrder summary), fills.map (reportOf order)⟩
  booked : Booked gateway.risk gateway'.risk
    ((order.orderId, order.accountId, order.side) :: gateway.book.orders.map owned) answer.reports
  ledger : gateway'.risk.reservations.Perm (gateway'.book.orders.map claimOf)
  reserved : gateway'.risk.maximumOrderId = some order.orderId
  received : gateway'.maximumReceivedOrderId = some order.orderId

/-- What accepted cancels and amends have in common: no position moves and the
watermarks stay. -/
structure Rearranged (gateway gateway' : LogicalGateway) : Prop where
  booked : Booked gateway.risk gateway'.risk [] []
  ledger : gateway'.risk.reservations.Perm (gateway'.book.orders.map claimOf)
  reserved : gateway'.risk.maximumOrderId = gateway.risk.maximumOrderId
  received : gateway'.maximumReceivedOrderId = gateway.maximumReceivedOrderId

/-- An accepted cancel. -/
structure Cancelled (gateway gateway' : LogicalGateway) (request : CancelOrder) (answer : GatewayAnswer)
    (entry : BookEntry) : Prop where
  found : gateway.book.find request.orderId = some entry
  owner : entry.2.2.account = request.accountId
  orders : gateway'.book.orders
    = gateway.book.orders.filter fun other => decide (other.2.2.id ≠ request.orderId)
  instrument_eq : gateway'.book.instrument = gateway.book.instrument
  answer_eq : answer = ⟨.ok (.cancelled ⟨entry.2.2.id, entry.2.2.account, entry.2.2.quantity⟩), []⟩
  rearranged : Rearranged gateway gateway'

/-- An accepted amend. -/
structure Replaced (gateway gateway' : LogicalGateway) (request : ReplaceOrder) (answer : GatewayAnswer)
    (replaced : ReplacedOrder) (side : Side) (price : PriceTicks) (old : ModelOrder) (sequence : SequenceNumber) :
    Prop where
  amended : Amended gateway.book request replaced gateway'.book side price old sequence
  answer_eq : answer = ⟨.ok (.replaced replaced), []⟩
  rearranged : Rearranged gateway gateway'

/-- Everything a call can do, by the command it carries; a frame that does not
parse carries none. -/
inductive Moves (N : Nat) (gateway : LogicalGateway) : Option Command → GatewayAnswer → LogicalGateway → Prop
  | malformed (error : ParseError) : Moves N gateway none ⟨.error (.parse error), []⟩ gateway
  | unsequenced (command : Command) (hsequence : command.sequence ≠ gateway.expectedSequence) :
      Moves N gateway (some command) ⟨.error (.sequence gateway.expectedSequence command.sequence), []⟩ gateway
  | exhausted (command : Command) (hsequence : command.sequence = gateway.expectedSequence)
      (hlast : gateway.expectedSequence.val + 1 = 2 ^ 64) :
      Moves N gateway (some command) ⟨.error (.riskState .arithmeticOverflow), []⟩ gateway
  | refused {command : Command} {error : GatewayError} {next : SequenceNumber} {received reserved : Option OrderId}
      (hsequence : command.sequence = gateway.expectedSequence)
      (hnext : next.val = gateway.expectedSequence.val + 1)
      (herror : (∃ reason, error = .risk reason) ∨ ∃ reason, error = .book reason)
      (hmarked : Marked gateway command received reserved) :
      Moves N gateway (some command) ⟨.error error, []⟩ (gateway.marked next received reserved)
  | accepted {order : NewOrder} {answer : GatewayAnswer} {gateway' : LogicalGateway} {account : AccountState}
      {summary : MatchSummary} {fills : List ModelFill} {resting discarded : Quantity}
      (hsequence : order.sequence = gateway.expectedSequence)
      (hnext : gateway'.expectedSequence.val = gateway.expectedSequence.val + 1)
      (haccepted : Accepted N gateway gateway' order answer account summary fills resting discarded) :
      Moves N gateway (some (.newOrder order)) answer gateway'
  | cancelled {request : CancelOrder} {answer : GatewayAnswer} {gateway' : LogicalGateway} {entry : BookEntry}
      (hsequence : request.sequence = gateway.expectedSequence)
      (hnext : gateway'.expectedSequence.val = gateway.expectedSequence.val + 1)
      (hcancelled : Cancelled gateway gateway' request answer entry) :
      Moves N gateway (some (.cancelOrder request)) answer gateway'
  | replaced {request : ReplaceOrder} {answer : GatewayAnswer} {gateway' : LogicalGateway} {result : ReplacedOrder}
      {side : Side} {price : PriceTicks} {old : ModelOrder} {sequence : SequenceNumber}
      (hsequence : request.sequence = gateway.expectedSequence)
      (hnext : gateway'.expectedSequence.val = gateway.expectedSequence.val + 1)
      (hreplaced : Replaced gateway gateway' request answer result side price old sequence) :
      Moves N gateway (some (.replaceOrder request)) answer gateway'

/-! ### Handlers -/

/-- The watermark of the ledger stands above its reservations. -/
def RiskEngineState.Watermarked (risk : RiskEngineState) : Prop :=
  ∀ reservation ∈ risk.reservations, ∃ maximum, risk.maximumOrderId = some maximum ∧
    reservation.orderId.val ≤ maximum.val

/-- An id above the watermark, spelled as the check of the source spells it. -/
theorem not_any_le_iff {maximum : Option OrderId} {id : OrderId} :
    ¬(maximum.any fun maximum => decide (id.val ≤ maximum.val)) = true ↔
      ∀ found ∈ maximum, found.val < id.val := by
  cases maximum <;> simp

section Handlers

variable {answer : GatewayAnswer} {next : SequenceNumber}

/-- An accepted check adds the reservation of its order, for the full
quantity. -/
theorem reservations_of_checkAndReserve (h : risk.checkAndReserve R order = (.ok (), risk')) :
    risk'.reservations = risk.reservations ++ [⟨order.orderId, order.accountId, order.side, order.quantity⟩] := by
  unfold RiskEngineState.checkAndReserve at h
  split at h
  · cases h
  split at h
  · cases h
  split at h
  · cases h
  split at h
  · cases h
  split at h
  · cases h
  split at h
  · cases h
  split at h
  · cases h
    rfl
  · cases h

/-- Settling an order takes its reservation away. -/
theorem reservations_of_settle {orderId : OrderId} {filled : Quantity}
    (h : risk.settle orderId filled = (.ok (), risk')) :
    risk'.reservations = risk.reservations.filter fun reservation => reservation.orderId ≠ orderId := by
  unfold RiskEngineState.settle at h
  split at h
  · cases h
  rename_i reservation hfind
  split at h
  · cases h
  unfold RiskEngineState.settleReservation at h
  split at h
  · cases h
  split at h
  · cases h
  split at h
  · cases h
  · cases h
    rw [← (reservation_eq_some hfind).2]
    rfl

/-- A reserved order that the book refuses leaves the ledger as it was, but for
the watermark. -/
theorem settle_refused (h : risk.Consistent) (hwatermark : risk.Watermarked)
    (hnew : ∀ maximum ∈ risk.maximumOrderId, maximum.val < order.orderId.val)
    (hreserve : risk.checkAndReserve R order = (.ok (), risk')) :
    risk'.settle order.orderId 0 = (.ok (), { risk with maximumOrderId := some order.orderId }) := by
  have hlist := reservations_of_checkAndReserve hreserve
  rcases checkAndReserve_exchange h R order hwatermark with
    ⟨reason, herror⟩ | ⟨reserved, account, hok, hexchange, _, haccount, _⟩
  · cases hreserve.symm.trans herror
  cases hreserve.symm.trans hok
  have hfind : risk'.reservation order.orderId
      = some ⟨order.orderId, order.accountId, order.side, order.quantity⟩ :=
    hexchange.consistent.reservation_iff.mpr ⟨by rw [hlist]; simp, rfl⟩
  obtain ⟨released, hsettle, hexchange'⟩ := settle_exchange hexchange.consistent hfind
  have hreservations : released.reservations = risk.reservations := by
    rw [reservations_of_settle hsettle, hlist, List.filter_append]
    have hkept : risk.reservations.filter (fun reservation => decide (reservation.orderId ≠ order.orderId))
        = risk.reservations := by
      refine List.filter_eq_self.mpr fun reservation hmem => ?_
      obtain ⟨maximum, hmaximum, hle⟩ := hwatermark reservation hmem
      have hbelow := hnew maximum hmaximum
      simp only [ne_eq, decide_not, Bool.not_eq_true', decide_eq_false_iff_not]
      rintro heq
      rw [heq] at hle
      omega
    rw [hkept]
    simp
  have haccounts : released.accounts = risk.accounts := by
    refine h.accounts_eq hexchange'.consistent (hexchange'.terms.trans hexchange.terms) (fun other => ?_)
      (List.Perm.of_eq hreservations)
    rw [hexchange'.position, hexchange.position]
    simp [RiskEngineState.position, RiskEngineState.account]
  rw [hsettle]
  obtain ⟨accounts, reservations, maximum, killed⟩ := released
  have hmaximum := hexchange'.maximumOrderId.trans hexchange.maximumOrderId
  have hkilled := hexchange'.killed.trans hexchange.killed
  simp only at haccounts hreservations hmaximum hkilled
  rw [haccounts, hreservations, hmaximum, hkilled]

/-- A reserved order that the book accepts is booked without fail. -/
theorem settleSubmitted_booked (gateway : LogicalGateway) (h : gateway.risk.Consistent) {logical logical' : LogicalBook}
    {summary : MatchSummary} {resting discarded : Quantity} (wf : logical.WellFormed) (hsound : logical.Sound)
    (hsubmitted : Submitted N logical order summary fills logical' resting discarded)
    (hledger : gateway.risk.reservations.Perm (takerClaims order order.quantity ++ logical.orders.map claimOf)) :
    ∃ risk', gateway.settleSubmitted order summary (fills.map (reportOf order))
        = (⟨.ok (.newOrder summary), fills.map (reportOf order)⟩, { gateway with risk := risk' }) ∧
      Booked gateway.risk risk' ((order.orderId, order.accountId, order.side) :: logical.orders.map owned)
        (fills.map (reportOf order)) ∧
      risk'.maximumOrderId = gateway.risk.maximumOrderId ∧
      risk'.reservations.Perm (logical'.orders.map claimOf) := by
  obtain ⟨booked, rest, hrecord, hbooked, hmark, htotal, hafter⟩ :=
    recordFills_booked h wf.ids (hsubmitted.fillable hsound.quantities) hledger
  have hsplit := hsubmitted.split
  have hsingle := hsubmitted.single
  have hsummary := hsubmitted.summary_eq
  have hresting : summary.restingQuantity = resting := by rw [hsummary]; rfl
  have hfilled : summary.filledQuantity.val = fillTotal fills := by
    rw [hsummary]
    simp only [LogicalBook.summary, satSub_val]
    omega
  have hmirror := hsubmitted.orders.map claimOf
  rw [List.map_append, map_claimOf_restEntries] at hmirror
  unfold LogicalGateway.settleSubmitted
  rw [hrecord]
  simp only
  by_cases hrelease : summary.restingQuantity.val = 0 ∧ summary.filledQuantity.val < order.quantity.val
  · -- nothing rests behind a remainder: it is released
    rw [if_pos hrelease]
    rw [hresting, hfilled] at hrelease
    have hclaims : takerClaims order rest = [⟨order.orderId, order.accountId, order.side, rest⟩] :=
      if_neg (by omega)
    rw [hclaims] at hafter
    have hmem := hafter.symm.subset (List.mem_append_left _ (List.mem_singleton.mpr rfl))
    obtain ⟨released, hsettle, hexchange⟩ := settle_exchange hbooked.consistent
      (hbooked.consistent.reservation_iff.mpr ⟨hmem, rfl⟩)
    rw [hsettle]
    refine ⟨released, rfl, ?_, hexchange.maximumOrderId.trans hmark, ?_⟩
    · have hnone := hexchange.booked hbooked.consistent (hbooked.consistent.owners _ hmem)
      simpa using hbooked.trans (hnone.mono (by simp))
    · refine (hexchange.reservations _ hafter).trans (hmirror.trans (List.Perm.of_eq ?_)).symm
      rw [takerClaims, if_pos hrelease.1]
  · rw [if_neg hrelease]
    rw [hresting, hfilled] at hrelease
    obtain rfl : rest = resting := Fin.ext (by omega)
    exact ⟨booked, rfl, hbooked, hmark, hafter.trans hmirror.symm⟩

variable (sound : gateway.Sound) (wf : gateway.book.WellFormed)
include sound wf

/-- A new order moves the gateway as its answer says: accepted, refused by the
risk engine or refused by the book. -/
theorem processNewOrder_moves (hwatermark : gateway.risk.Watermarked)
    (hsequence : order.sequence = gateway.expectedSequence) (hnext : next.val = gateway.expectedSequence.val + 1)
    (h : ({ gateway with expectedSequence := next } : LogicalGateway).processNewOrder R L O N order
      = some (answer, gateway')) :
    Moves N gateway (some (.newOrder order)) answer gateway' := by
  unfold LogicalGateway.processNewOrder at h
  simp only at h
  split at h
  · cases h
    exact .refused hsequence hnext (.inl ⟨_, rfl⟩) (.kept _)
  rename_i hreceived
  rw [not_any_le_iff] at hreceived
  have hnew : ∀ maximum ∈ gateway.risk.maximumOrderId, maximum.val < order.orderId.val := by
    intro maximum hmaximum
    obtain ⟨received, hmem, hle⟩ := sound.marks maximum hmaximum
    exact hle.trans_lt (hreceived received hmem)
  rcases checkAndReserve_exchange sound.risk R order hwatermark with
    ⟨reason, herror⟩ | ⟨reserved, account, hreserve, hexchange, hquantity, haccount, hadmits⟩
  · rw [herror] at h
    cases h
    exact .refused hsequence hnext (.inl ⟨_, rfl⟩) (.received order hreceived)
  rw [hreserve] at h
  simp only [LogicalGateway.submitReserved] at h
  cases hsubmit : gateway.book.submit L O order N with
  | none =>
      rw [hsubmit] at h
      cases h
  | some found =>
      obtain ⟨outcome, book'⟩ := found
      rw [hsubmit] at h
      cases outcome with
      | error reason =>
          rw [settle_refused sound.risk hwatermark hnew hreserve, submit_refused hsubmit] at h
          cases h
          exact .refused hsequence hnext (.inr ⟨_, rfl⟩) (.reserved order hreceived)
      | ok matched =>
          obtain ⟨summary, fills⟩ := matched
          obtain ⟨resting, discarded, hsubmitted⟩ := submit_effect wf hsubmit
          have hledger : reserved.reservations.Perm (takerClaims order order.quantity ++
              gateway.book.orders.map claimOf) := by
            rw [takerClaims, if_neg hquantity]
            exact hexchange.reservations _ sound.ledger
          obtain ⟨risk', hsettled, hbooked, hmark, hmirror⟩ := settleSubmitted_booked
            ⟨reserved, book', next, some order.orderId⟩ hexchange.consistent wf sound.book hsubmitted
            hledger
          simp only [hsettled] at h
          cases h
          have hreserved : Booked gateway.risk reserved [] [] := by
            have hconsistent : ({ gateway.risk with maximumOrderId := some order.orderId } : RiskEngineState).Consistent :=
              ⟨sound.risk.accountIds, sound.risk.orderIds, sound.risk.balanced, sound.risk.owners⟩
            obtain ⟨hmem, hid⟩ := account_eq_some haccount
            have hbooked' := hexchange.booked hconsistent ⟨account, hmem, hid⟩
            exact ⟨hbooked'.consistent, hbooked'.terms, hbooked'.killed, hbooked'.total, hbooked'.position⟩
          refine .accepted hsequence hnext ⟨hreceived, haccount, hadmits, hsubmitted, rfl, ?_, hmirror,
            hmark.trans hexchange.maximumOrderId, rfl⟩
          exact (hreserved.mono (by simp)).trans hbooked

/-- A cancel moves the gateway as its answer says: the order and its
reservation go together. -/
theorem processCancel_moves {request : CancelOrder} (hsequence : request.sequence = gateway.expectedSequence)
    (hnext : next.val = gateway.expectedSequence.val + 1)
    (h : ({ gateway with expectedSequence := next } : LogicalGateway).processCancel request = (answer, gateway')) :
    Moves N gateway (some (.cancelOrder request)) answer gateway' := by
  unfold LogicalGateway.processCancel RiskEngineState.canCancel at h
  simp only at h
  cases hfind : gateway.risk.reservation request.orderId with
  | none =>
      rw [hfind] at h
      cases h
      exact .refused hsequence hnext (.inl ⟨_, rfl⟩) (.kept _)
  | some reservation =>
      rw [hfind] at h
      by_cases howner : reservation.accountId = request.accountId
      · simp only [howner, ne_eq, not_true_eq_false, if_false] at h
        cases hcancel : gateway.book.cancel request with
        | mk outcome book' =>
            rw [hcancel] at h
            cases outcome with
            | error reason =>
                rw [cancel_refused hcancel] at h
                cases h
                exact .refused hsequence hnext (.inr ⟨_, rfl⟩) (.kept _)
            | ok result =>
                obtain ⟨side, price, resting, hfound, haccount, rfl, horders, hinstrument⟩ := cancel_effect wf hcancel
                obtain ⟨hentry, hid⟩ := mem_of_find hfound
                -- the reservation of the cancelled order is its claim
                obtain rfl : reservation = claimOf (side, price, resting) := by
                  have hclaim := sound.reservation_of_mem hentry
                  rw [hid, hfind] at hclaim
                  exact Option.some.inj hclaim
                obtain ⟨risk', hrelease, hexchange⟩ := cancelReservation_exchange sound.risk hfind
                rw [howner] at hrelease
                simp only [hrelease, claimOf, not_true_eq_false, if_false] at h
                cases h
                refine .cancelled hsequence hnext ⟨hfound, haccount, horders, hinstrument, rfl,
                  hexchange.booked sound.risk (sound.risk.owners _ (reservation_eq_some hfind).1), ?_,
                  hexchange.maximumOrderId, rfl⟩
                have hledger := sound.ledger.trans ((orders_split wf hfound).map claimOf)
                rw [horders]
                exact hexchange.reservations _ hledger
      · simp only [howner, ne_eq, not_false_eq_true, if_true] at h
        cases h
        exact .refused hsequence hnext (.inl ⟨_, rfl⟩) (.kept _)

/-- An amend moves the gateway as its answer says; a refusal of the book gives
the reservation back. -/
theorem processReplace_moves {request : ReplaceOrder} (hsequence : request.sequence = gateway.expectedSequence)
    (hnext : next.val = gateway.expectedSequence.val + 1)
    (h : ({ gateway with expectedSequence := next } : LogicalGateway).processReplace L O request
      = (answer, gateway')) :
    Moves N gateway (some (.replaceOrder request)) answer gateway' := by
  unfold LogicalGateway.processReplace at h
  simp only at h
  rcases adjustReservation_exchange sound.risk request.orderId request.accountId request.price request.quantity with
    ⟨reason, herror⟩ | ⟨reservation, released, risk', hfind, howner, hadjust, hexchange, hrestore⟩
  · rw [herror] at h
    cases h
    exact .refused hsequence hnext (.inl ⟨_, rfl⟩) (.kept _)
  rw [hadjust] at h
  simp only at h
  cases hreplace : gateway.book.replace L O request with
  | mk outcome book' =>
      rw [hreplace] at h
      cases outcome with
      | error reason =>
          rw [replace_refused hreplace] at h
          simp only [hrestore] at h
          cases h
          exact .refused hsequence hnext (.inr ⟨_, rfl⟩) (.kept _)
      | ok result =>
          cases h
          obtain ⟨side, price, old, sequence, hamended⟩ := replace_effect wf hreplace
          obtain ⟨hentry, hid⟩ := mem_of_find hamended.found
          obtain rfl : reservation = claimOf (side, price, old) := by
            have hclaim := sound.reservation_of_mem hentry
            rw [hid, hfind] at hclaim
            exact Option.some.inj hclaim
          refine .replaced hsequence hnext ⟨hamended, rfl,
            hexchange.booked sound.risk (howner ▸ sound.risk.owners _ (reservation_eq_some hfind).1), ?_,
            hexchange.maximumOrderId, rfl⟩
          have hledger := sound.ledger.trans ((orders_split wf hamended.found).map claimOf)
          refine (hexchange.reservations _ hledger).trans ((hamended.orders.map claimOf).trans ?_).symm
          refine List.Perm.of_eq ?_
          rw [List.map_cons, List.singleton_append]
          simp only [claimOf, ← hid, hamended.owner]

end Handlers

/-! ### Calls -/

namespace GatewayCall

/-- The command a call carries, unless its frame does not parse. -/
def command? : GatewayCall → Option Command
  | .command carried _ => some carried
  | .frame bytes _ => (parseMessage bytes).toOption.map BorrowedMessage.toCommand

/-- The capacity of the caller's report buffer. -/
def capacity : GatewayCall → Nat
  | @GatewayCall.command N _ _ => N
  | @GatewayCall.frame N _ _ => N

end GatewayCall

/-- Every command moves the gateway as its answer says, a wrong sequence number
included. -/
theorem processCommand_moves {answer : GatewayAnswer} (sound : gateway.Sound) (wf : gateway.book.WellFormed)
    (hwatermark : gateway.risk.Watermarked) {command : Command}
    (h : gateway.processCommand R L O N command = some (answer, gateway')) :
    Moves N gateway (some command) answer gateway' := by
  unfold LogicalGateway.processCommand LogicalGateway.nextSequence at h
  by_cases hsequence : command.sequence = gateway.expectedSequence
  · rw [if_neg (by simpa using hsequence)] at h
    cases hadd : checkedAdd gateway.expectedSequence 1 with
    | none =>
        rw [hadd] at h
        cases h
        rw [checkedAdd_eq_none] at hadd
        have hbound := gateway.expectedSequence.isLt
        refine .exhausted command hsequence ?_
        simp only [Fin.val_one] at hadd
        omega
    | some next =>
        rw [hadd] at h
        have hnext : next.val = gateway.expectedSequence.val + 1 := checkedAdd_eq_some.mp hadd
        cases command with
        | newOrder order => exact processNewOrder_moves sound wf hwatermark hsequence hnext h
        | cancelOrder request => exact processCancel_moves sound wf hsequence hnext (Option.some.inj h)
        | replaceOrder request => exact processReplace_moves sound wf hsequence hnext (Option.some.inj h)
  · rw [if_pos hsequence] at h
    cases h
    exact .unsequenced command hsequence

/-- Every call makes one of the moves. -/
theorem moves_of_call {answer : GatewayAnswer} (sound : gateway.Sound) (wf : gateway.book.WellFormed)
    (hwatermark : gateway.risk.Watermarked) {call : GatewayCall}
    (h : gateway.call R L O call = some (answer, gateway')) :
    Moves call.capacity gateway call.command? answer gateway' := by
  cases call with
  | command command reports => exact processCommand_moves sound wf hwatermark h
  | frame frame reports =>
      simp only [LogicalGateway.call, LogicalGateway.processFrame] at h
      simp only [GatewayCall.command?]
      cases hparse : parseMessage frame with
      | error error =>
          rw [hparse] at h
          cases h
          exact .malformed error
      | ok message =>
          rw [hparse] at h
          exact processCommand_moves sound wf hwatermark h

end HftEngine
