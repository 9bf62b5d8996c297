/-
Module: HftEngine.Proofs.CommandGen
Layer: Proofs
Purpose: What a generated session is, for every seed and in either build. Draws
  stay within their bounds and nothing overflows, so a session of any length
  below the sequence space is produced: its commands are numbered from 1, carry
  the instrument, an account, a price and a quantity of the configuration, and
  name an order that was issued before or is the next fresh one. Without
  amends, the gateway and its reference engine show the same throughout every
  such session.
Imports: HftEngine.Core.CommandGen, HftEngine.Proofs.ReferenceEngine,
  HftEngine.Proofs.WireCodec
Trusted boundary: none (fully proved)
Main exports: GenConfig.Fits, Generated, GeneratedSession,
  nextCommand_generated, generated_session, generated_sessions_agree
-/
import HftEngine.Core.CommandGen
import HftEngine.Proofs.ReferenceEngine
import HftEngine.Proofs.WireCodec

namespace HftEngine

open Machine Transition

variable {build : Build} {config : GenConfig} {gen gen' gen'' : CommandGen} {bound span : U64}
    {instrument : InstrumentId}

/-! ### Sessions -/

/-- A valid configuration whose price band and amend quantities stay inside
their words. -/
structure GenConfig.Fits (config : GenConfig) : Prop where
  valid : config.Valid
  width : config.maximumPrice.val - config.minimumPrice.val + 1 < 2 ^ 63
  amends : config.maxQuantity.val * 2 < 2 ^ 64

/-- The accounts a generator draws from. -/
def GenConfig.HasAccount (config : GenConfig) (id : AccountId) : Prop := 1 ≤ id.val ∧ id.val ≤ config.accounts.val

/-- The prices it draws from. -/
def GenConfig.HasPrice (config : GenConfig) (price : PriceTicks) : Prop :=
  config.minimumPrice.val ≤ price.val ∧ price.val ≤ config.maximumPrice.val

/-- An id that was issued: fresh ids are given out from 1. -/
def Issued (issued : Nat) (id : OrderId) : Prop := 1 ≤ id.val ∧ id.val ≤ issued

/-- A command of a session, by the count of ids issued before and after it. -/
def Generated (config : GenConfig) (instrument : InstrumentId) (sequence issued issued' : Nat) : Command → Prop
  | .newOrder order => order.sequence.val = sequence ∧ order.instrumentId = instrument ∧
      config.HasAccount order.accountId ∧ config.HasPrice order.price ∧
      1 ≤ order.quantity.val ∧ order.quantity.val ≤ config.maxQuantity.val ∧
      (order.orderId.val = issued + 1 ∧ issued' = issued + 1 ∨
        Issued issued order.orderId ∧ issued' = issued ∧ 0 < config.duplicateIdProbabilityPct.val)
  | .cancelOrder cancel => cancel.sequence.val = sequence ∧ cancel.instrumentId = instrument ∧
      config.HasAccount cancel.accountId ∧ Issued issued cancel.orderId ∧ issued' = issued ∧
      0 < config.cancelProbabilityPct.val
  | .replaceOrder replace => replace.sequence.val = sequence ∧ replace.instrumentId = instrument ∧
      config.HasAccount replace.accountId ∧ config.HasPrice replace.price ∧
      1 ≤ replace.quantity.val ∧ replace.quantity.val ≤ config.maxQuantity.val * 2 ∧
      Issued issued replace.orderId ∧ issued' = issued ∧
      0 < config.cancelProbabilityPct.val ∧ 0 < config.replaceProbabilityPct.val

/-- A session from a sequence on, `issued` ids into the stream. -/
def GeneratedSession (config : GenConfig) (instrument : InstrumentId) : Nat → Nat → List Command → Prop
  | _, _, [] => True
  | sequence, issued, command :: rest => ∃ issued', Generated config instrument sequence issued issued' command ∧
      GeneratedSession config instrument (sequence + 1) issued' rest

/-! ### Draws -/

/-- Only the random words moved on. -/
structure Drawn (gen gen' : CommandGen) : Prop where
  config : gen'.config = gen.config
  instrument : gen'.instrument = gen.instrument
  nextSequence : gen'.nextSequence = gen.nextSequence
  freshIds : gen'.freshIds = gen.freshIds

theorem Drawn.trans (h : Drawn gen gen') (h' : Drawn gen' gen'') : Drawn gen gen'' :=
  ⟨h'.config.trans h.config, h'.instrument.trans h.instrument, h'.nextSequence.trans h.nextSequence,
    h'.freshIds.trans h.freshIds⟩

/-- The high word of the product is below the bound. -/
theorem below_draws (gen : CommandGen) (bound : U64) (hbound : 0 < bound.val) :
    ∃ value gen', gen.below bound = some (value, gen') ∧ value.val < bound.val ∧ Drawn gen gen' := by
  have hnonzero : bound.val ≠ 0 := Nat.pos_iff_ne_zero.mp hbound
  unfold CommandGen.below Rng.below
  rw [if_neg hnonzero]
  refine ⟨_, _, rfl, ?_, ⟨rfl, rfl, rfl, rfl⟩⟩
  show (gen.rng.nextU64.1.val * bound.val) >>> 64 < bound.val
  rw [Nat.shiftRight_eq_div_pow]
  apply Nat.div_lt_of_lt_mul
  exact Nat.mul_lt_mul_of_pos_right gen.rng.nextU64.1.isLt hbound

/-- A draw from a bound that is not zero returns a value from one to the
bound. -/
theorem drawFrom_draws (gen : CommandGen) (bound : U64) (hbound : 0 < bound.val) :
    ∃ value gen', gen.drawFrom bound = some (value, gen') ∧ 1 ≤ value.val ∧ value.val ≤ bound.val ∧ Drawn gen gen' := by
  obtain ⟨value, gen', hbelow, hlt, hdrawn⟩ := below_draws gen bound hbound
  have hfits : 1 + value.val < 2 ^ 64 := by
    have := bound.isLt
    omega
  have hadd : checkedAdd 1 value = some ⟨1 + value.val, hfits⟩ := checkedAdd_eq_some.mpr rfl
  refine ⟨⟨1 + value.val, hfits⟩, gen', ?_, Nat.le_add_right 1 value.val, ?_, hdrawn⟩
  · simp only [CommandGen.drawFrom, hbelow, Option.bind_eq_bind, Option.bind_some, hadd]
    rfl
  · show 1 + value.val ≤ bound.val
    omega

/-- The account drawn is one of those configured. -/
theorem nextAccount_draws (hconfig : gen.config = config) (hvalid : config.Valid) :
    ∃ id gen', gen.nextAccount = some (id, gen') ∧ config.HasAccount id ∧ Drawn gen gen' := by
  subst hconfig
  obtain ⟨value, gen', hdraw, hlower, hupper, hdrawn⟩ :=
    drawFrom_draws gen (u64OfU32 gen.config.accounts) hvalid.accounts
  rw [u64OfU32_val] at hupper
  have hfits : value.val < 2 ^ 32 := lt_of_le_of_lt hupper gen.config.accounts.isLt
  refine ⟨⟨value.val, hfits⟩, gen', ?_, ⟨hlower, hupper⟩, hdrawn⟩
  simp only [CommandGen.nextAccount, hdraw, Option.bind_eq_bind, Option.bind_some, dif_pos hfits]

/-- The span of a configuration counts the prices of its band. -/
theorem span_of_fits (hfits : config.Fits) : ∃ span : U64, config.span = some span ∧
    (span.val : Int) = config.maximumPrice.val - config.minimumPrice.val + 1 := by
  have hordered := hfits.valid.prices
  have hwidth := hfits.width
  obtain ⟨width, hwidth', hwidthval⟩ := signedOf_isSome (2 ^ 63)
    (config.maximumPrice.val - config.minimumPrice.val) (by omega) (by omega)
  have hone : (i64 1).val = 1 := by decide
  obtain ⟨count, hcount, hcountval⟩ := signedOf_isSome (2 ^ 63) (width.val + (i64 1).val) (by omega) (by omega)
  have hlarge : count.val.toNat < 2 ^ 64 := by omega
  refine ⟨⟨count.val.toNat, hlarge⟩, ?_, ?_⟩
  · unfold GenConfig.span checkedSubSigned checkedAddSigned
    simp only [hwidth', hcount, Option.bind_eq_bind, Option.bind_some]
    apply unsignedOf_eq_some.mpr
    exact (Int.toNat_of_nonneg (by omega)).symm
  · show (count.val.toNat : Int) = _
    rw [Int.toNat_of_nonneg (by omega)]
    omega

/-- The price drawn lies within the configured range. -/
theorem nextPrice_draws (gen : CommandGen) (hconfig : gen.config = config) (hfits : config.Fits)
    (hspan : (span.val : Int) = config.maximumPrice.val - config.minimumPrice.val + 1) :
    ∃ price gen', gen.nextPrice span = some (price, gen') ∧ config.HasPrice price ∧ Drawn gen gen' := by
  subst hconfig
  have hordered := hfits.valid.prices
  have hwidth := hfits.width
  obtain ⟨offset, gen', hbelow, hlt, hdrawn⟩ := below_draws gen span (by omega)
  obtain ⟨signed, hsigned, hsignedval⟩ := signedOf_isSome (2 ^ 63) (offset.val : Int) (by omega) (by omega)
  have hmax := gen.config.maximumPrice.upper
  have hmin := gen.config.minimumPrice.lower
  obtain ⟨price, hprice, hpriceval⟩ := signedOf_isSome (2 ^ 63)
    (gen.config.minimumPrice.val + signed.val) (by omega) (by omega)
  refine ⟨price, gen', ?_, ⟨by omega, by omega⟩, hdrawn⟩
  rw [CommandGen.nextPrice, hbelow, Option.bind_eq_bind, Option.bind_some]
  show (signedOf (2 ^ 63) (offset.val : Int)).bind _ = _
  rw [hsigned, Option.bind_some, hdrawn.config]
  exact congrArg (Option.bind · _) hprice

/-! ### Commands -/

/-- A command was emitted: the session goes on after it. -/
structure Emitted (gen gen' : CommandGen) (command : Command) : Prop where
  config : gen'.config = gen.config
  instrument : gen'.instrument = gen.instrument
  nextSequence : gen'.nextSequence.val = gen.nextSequence.val + 1
  generated : Generated gen.config gen.instrument gen.nextSequence.val gen.freshIds.val gen'.freshIds.val command

/-- Fewer ids were issued than commands emitted, and another command has a
sequence. -/
structure Running (gen : CommandGen) : Prop where
  issued : gen.freshIds.val < gen.nextSequence.val
  room : gen.nextSequence.val + 1 < 2 ^ 64

/-- Commands are numbered without a gap until the numbers run out. -/
theorem sequence_draws (hrunning : Running gen) : ∃ next : U64, next.val = gen.nextSequence.val + 1 ∧
    gen.sequence = some (gen.nextSequence, { gen with nextSequence := next }) := by
  have hadd : checkedAdd gen.nextSequence 1 = some ⟨gen.nextSequence.val + 1, hrunning.room⟩ :=
    checkedAdd_eq_some.mpr rfl
  refine ⟨⟨gen.nextSequence.val + 1, hrunning.room⟩, rfl, ?_⟩
  simp only [CommandGen.sequence, Option.bind_eq_bind, hadd, Option.bind_some]
  rfl

/-- An order id: an issued one, or the next fresh one. -/
theorem nextOrderId_draws (build : Build) (gen : CommandGen) (hroom : gen.freshIds.val + 1 < 2 ^ 64) :
    ∃ id gen', gen.nextOrderId build = some (id, gen') ∧ gen'.config = gen.config ∧ gen'.instrument = gen.instrument ∧
      gen'.nextSequence = gen.nextSequence ∧
      (id.val = gen.freshIds.val + 1 ∧ gen'.freshIds.val = gen.freshIds.val + 1 ∨
        Issued gen.freshIds.val id ∧ gen'.freshIds.val = gen.freshIds.val ∧
          0 < gen.config.duplicateIdProbabilityPct.val) := by
  unfold CommandGen.nextOrderId
  split
  · have hadd : addAssign build gen.freshIds 1 = some ⟨gen.freshIds.val + 1, hroom⟩ := addAssign_of_lt hroom
    simp only [Option.bind_eq_bind, hadd, Option.bind_some]
    exact ⟨_, _, rfl, rfl, rfl, rfl, .inl ⟨rfl, rfl⟩⟩
  · rename_i hsome
    obtain ⟨draw, drawn, hbelow, _, hdrawn⟩ := below_draws gen 100 (by decide)
    have hsame := hdrawn.freshIds
    simp only [hbelow, Option.bind_eq_bind, Option.bind_some]
    split
    · rename_i hless
      have hduplicates : 0 < gen.config.duplicateIdProbabilityPct.val := by
        rw [← hdrawn.config]
        exact Nat.zero_lt_of_lt hless
      obtain ⟨id, gen', hdraw, hlower, hupper, hdrawn'⟩ :=
        drawFrom_draws drawn drawn.freshIds (by rw [hsame]; exact Nat.pos_of_ne_zero hsome)
      have hall := hdrawn.trans hdrawn'
      rw [hsame] at hupper
      exact ⟨id, gen', hdraw, hall.config, hall.instrument, hall.nextSequence,
        .inr ⟨⟨hlower, hupper⟩, congrArg Fin.val hall.freshIds, hduplicates⟩⟩
    · have hadd : addAssign build drawn.freshIds 1 = some ⟨gen.freshIds.val + 1, hroom⟩ := by
        rw [hsame]
        exact addAssign_of_lt hroom
      simp only [hadd, Option.bind_some]
      exact ⟨_, _, rfl, hdrawn.config, hdrawn.instrument, hdrawn.nextSequence, .inl ⟨rfl, rfl⟩⟩

/-- A new order has the next fresh id, or as a duplicate one that was issued
before, with a configured account and price and a quantity that is not zero. -/
theorem nextNew_generated (build : Build) (hfits : gen.config.Fits) (hrunning : Running gen) :
    ∃ order gen', gen.nextNew build = some (order, gen') ∧ Emitted gen gen' (.newOrder order) := by
  obtain ⟨next, hnext, hsequence⟩ := sequence_draws hrunning
  have hissued := hrunning.issued
  have hroom := hrunning.room
  obtain ⟨id, ided, hid, hconfig, hinstrument, hkept, hfresh⟩ :=
    nextOrderId_draws build { gen with nextSequence := next } (show gen.freshIds.val + 1 < 2 ^ 64 by omega)
  obtain ⟨span, hspan, hspanval⟩ := span_of_fits hfits
  obtain ⟨tif, tifed, htif, _, hdrawn₁⟩ := below_draws ided 100 (by decide)
  obtain ⟨account, accounted, haccount, howned, hdrawn₂⟩ :=
    nextAccount_draws (hdrawn₁.config.trans hconfig) hfits.valid
  obtain ⟨price, priced, hprice, hbanded, hdrawn₃⟩ :=
    nextPrice_draws accounted (hdrawn₂.config.trans (hdrawn₁.config.trans hconfig)) hfits hspanval
  have hdrawn := (hdrawn₁.trans hdrawn₂).trans hdrawn₃
  have hpriced : priced.config = gen.config := hdrawn.config.trans hconfig
  obtain ⟨quantity, sized, hquantity, hlower, hupper, hdrawn₄⟩ :=
    drawFrom_draws priced priced.config.maxQuantity (by rw [hpriced]; exact hfits.valid.quantities)
  rw [hpriced] at hupper
  have hall := hdrawn.trans hdrawn₄
  have hspan' : ided.config.span = some span := (congrArg GenConfig.span hconfig).trans hspan
  have hsided : sized.instrument = gen.instrument := hall.instrument.trans hinstrument
  refine ⟨⟨id, account, sized.instrument, price, quantity, gen.nextSequence,
    if sized.rng.coin.1 then .buy else .sell, CommandGen.timeInForceOf sized.config tif⟩,
    { sized with rng := sized.rng.coin.2 }, ?_, ?_⟩
  · unfold CommandGen.nextNew
    simp only [hsequence, hid, hspan', htif, haccount, hprice, hquantity, Option.bind_eq_bind, Option.bind_some]
    rfl
  · refine ⟨hall.config.trans hconfig, hsided, ?_, ?_⟩
    · exact (congrArg Fin.val (hall.nextSequence.trans hkept)).trans hnext
    · refine ⟨rfl, hsided, howned, hbanded, hlower, hupper, ?_⟩
      rw [show (({ sized with rng := sized.rng.coin.2 } : CommandGen).freshIds) = ided.freshIds from hall.freshIds]
      exact hfresh

/-- A cancel names an id that was issued before. -/
theorem nextCancel_generated (hfits : gen.config.Fits) (hrunning : Running gen) (hsome : gen.freshIds.val ≠ 0)
    (hcancels : 0 < gen.config.cancelProbabilityPct.val) :
    ∃ cancel gen', gen.nextCancel = some (cancel, gen') ∧ Emitted gen gen' (.cancelOrder cancel) := by
  obtain ⟨next, hnext, hsequence⟩ := sequence_draws hrunning
  obtain ⟨id, ided, hid, hlower, hupper, hdrawn₁⟩ :=
    drawFrom_draws { gen with nextSequence := next } gen.freshIds (Nat.pos_of_ne_zero hsome)
  obtain ⟨account, accounted, haccount, howned, hdrawn₂⟩ := nextAccount_draws hdrawn₁.config hfits.valid
  have hall := hdrawn₁.trans hdrawn₂
  refine ⟨⟨id, account, accounted.instrument, gen.nextSequence⟩, accounted, ?_,
    ⟨hall.config, hall.instrument, ?_, ?_⟩⟩
  · unfold CommandGen.nextCancel
    simp only [hsome, if_false, hsequence, hid, haccount, Option.bind_eq_bind, Option.bind_some]
    rfl
  · exact (congrArg Fin.val hall.nextSequence).trans hnext
  · exact ⟨rfl, hall.instrument, howned, ⟨hlower, hupper⟩, congrArg Fin.val hall.freshIds, hcancels⟩

/-- An amend names an id that was issued before, with a configured price and a
quantity up to twice the largest of a new order. -/
theorem nextReplace_generated (build : Build) (hfits : gen.config.Fits) (hrunning : Running gen)
    (hsome : gen.freshIds.val ≠ 0) (hcancels : 0 < gen.config.cancelProbabilityPct.val)
    (hreplaces : 0 < gen.config.replaceProbabilityPct.val) :
    ∃ replace gen', gen.nextReplace build = some (replace, gen') ∧ Emitted gen gen' (.replaceOrder replace) := by
  obtain ⟨next, hnext, hsequence⟩ := sequence_draws hrunning
  obtain ⟨span, hspan, hspanval⟩ := span_of_fits hfits
  obtain ⟨price, priced, hprice, hbanded, hdrawn₁⟩ :=
    nextPrice_draws { gen with nextSequence := next } rfl hfits hspanval
  obtain ⟨id, ided, hid, hlower, hupper, hdrawn₂⟩ :=
    drawFrom_draws priced priced.freshIds (by rw [hdrawn₁.freshIds]; exact Nat.pos_of_ne_zero hsome)
  rw [hdrawn₁.freshIds] at hupper
  have hdrawn := hdrawn₁.trans hdrawn₂
  obtain ⟨account, accounted, haccount, howned, hdrawn₃⟩ := nextAccount_draws hdrawn.config hfits.valid
  have hdrawn' := hdrawn.trans hdrawn₃
  have hbound : mulOperator build accounted.config.maxQuantity 2
      = some ⟨gen.config.maxQuantity.val * 2, hfits.amends⟩ := by
    rw [hdrawn'.config]
    exact mulOperator_of_lt hfits.amends
  have hquantities := hfits.valid.quantities
  obtain ⟨quantity, sized, hquantity, hleast, hmost, hdrawn₄⟩ :=
    drawFrom_draws accounted ⟨gen.config.maxQuantity.val * 2, hfits.amends⟩
      (show 0 < gen.config.maxQuantity.val * 2 by omega)
  have hall := hdrawn'.trans hdrawn₄
  refine ⟨⟨id, account, sized.instrument, gen.nextSequence, price, quantity⟩, sized, ?_,
    ⟨hall.config, hall.instrument, ?_, ?_⟩⟩
  · unfold CommandGen.nextReplace
    simp only [hsome, if_false, hsequence, hspan, hprice, hid, haccount, hbound, hquantity, Option.bind_eq_bind,
      Option.bind_some]
    rfl
  · exact (congrArg Fin.val hall.nextSequence).trans hnext
  · exact ⟨rfl, hall.instrument, howned, hbanded, hleast, hmost, ⟨hlower, hupper⟩, congrArg Fin.val hall.freshIds,
      hcancels, hreplaces⟩

/-- A command emitted after the random words moved on was emitted before they
did. -/
theorem Emitted.after {command : Command} (hdrawn : Drawn gen gen') (h : Emitted gen' gen'' command) :
    Emitted gen gen'' command := by
  refine ⟨h.config.trans hdrawn.config, h.instrument.trans hdrawn.instrument, ?_, ?_⟩
  · rw [← hdrawn.nextSequence]
    exact h.nextSequence
  · rw [← hdrawn.config, ← hdrawn.instrument, ← hdrawn.nextSequence, ← hdrawn.freshIds]
    exact h.generated

/-- Draws from the random source leave the generator running. -/
theorem Running.after (hdrawn : Drawn gen gen') (h : Running gen) : Running gen' := by
  refine ⟨?_, ?_⟩
  · rw [hdrawn.freshIds, hdrawn.nextSequence]
    exact h.issued
  · rw [hdrawn.nextSequence]
    exact h.room

/-- The branch for amends and cancels always yields one of the two. -/
theorem nextAmendOrCancel_generated (build : Build) (hfits : gen.config.Fits) (hrunning : Running gen)
    (hsome : gen.freshIds.val ≠ 0) (hcancels : 0 < gen.config.cancelProbabilityPct.val) :
    ∃ command gen', gen.nextAmendOrCancel build = some (command, gen') ∧ Emitted gen gen' command := by
  obtain ⟨draw, drawn, hbelow, _, hdrawn⟩ := below_draws gen 100 (by decide)
  have hfits' : drawn.config.Fits := hdrawn.config ▸ hfits
  have hsome' : drawn.freshIds.val ≠ 0 := hdrawn.freshIds ▸ hsome
  have hcancels' : 0 < drawn.config.cancelProbabilityPct.val := hdrawn.config ▸ hcancels
  unfold CommandGen.nextAmendOrCancel
  simp only [hbelow, Option.bind_eq_bind, Option.bind_some]
  split
  · rename_i hless
    obtain ⟨replace, gen', hreplace, hemitted⟩ :=
      nextReplace_generated build hfits' (hrunning.after hdrawn) hsome' hcancels' (Nat.zero_lt_of_lt hless)
    refine ⟨_, gen', ?_, hemitted.after hdrawn⟩
    rw [hreplace]
    rfl
  · obtain ⟨cancel, gen', hcancel, hemitted⟩ := nextCancel_generated hfits' (hrunning.after hdrawn) hsome' hcancels'
    refine ⟨_, gen', ?_, hemitted.after hdrawn⟩
    rw [hcancel]
    rfl

/-- One command: a new order until the first id exists, then what the draws
say. -/
theorem nextCommand_generated (build : Build) (hfits : gen.config.Fits) (hrunning : Running gen) :
    ∃ command gen', gen.nextCommand build = some (command, gen') ∧ Emitted gen gen' command := by
  unfold CommandGen.nextCommand
  split
  · obtain ⟨order, gen', hnew, hemitted⟩ := nextNew_generated build hfits hrunning
    refine ⟨_, gen', ?_, hemitted⟩
    rw [hnew]
    rfl
  · rename_i hsome
    obtain ⟨draw, drawn, hbelow, _, hdrawn⟩ := below_draws gen 100 (by decide)
    have hfits' : drawn.config.Fits := hdrawn.config ▸ hfits
    simp only [hbelow, Option.bind_eq_bind, Option.bind_some]
    split
    · obtain ⟨order, gen', hnew, hemitted⟩ := nextNew_generated build hfits' (hrunning.after hdrawn)
      refine ⟨_, gen', ?_, hemitted.after hdrawn⟩
      rw [hnew]
      rfl
    · rename_i hless
      obtain ⟨command, gen', hnext, hemitted⟩ := nextAmendOrCancel_generated build hfits' (hrunning.after hdrawn)
        (hdrawn.freshIds ▸ hsome) (Nat.zero_lt_of_lt (Nat.lt_of_not_le hless))
      exact ⟨command, gen', hnext, hemitted.after hdrawn⟩

/-- At most one id is issued with a command. -/
theorem Generated.issued_le {sequence issued issued' : Nat} {command : Command}
    (h : Generated config instrument sequence issued issued' command) : issued' ≤ issued + 1 := by
  cases command with
  | newOrder order =>
      obtain ⟨_, _, _, _, _, _, ⟨_, hfresh⟩ | ⟨_, hkept, _⟩⟩ := h
      · exact hfresh.le
      · exact hkept.le.trans (Nat.le_succ issued)
  | cancelOrder cancel =>
      obtain ⟨_, _, _, _, hkept, _⟩ := h
      exact hkept.le.trans (Nat.le_succ issued)
  | replaceOrder replace =>
      obtain ⟨_, _, _, _, _, _, _, hkept, _⟩ := h
      exact hkept.le.trans (Nat.le_succ issued)

/-- Sessions from any point of the stream on. -/
theorem session_generated (gen : CommandGen) {count : Nat} (hfits : gen.config.Fits)
    (hissued : gen.freshIds.val < gen.nextSequence.val) (hroom : gen.nextSequence.val + count < 2 ^ 64) :
    ∃ commands gen', gen.session build count = some (commands, gen') ∧ commands.length = count ∧
      GeneratedSession gen.config gen.instrument gen.nextSequence.val gen.freshIds.val commands := by
  induction count generalizing gen with
  | zero => exact ⟨[], gen, rfl, rfl, trivial⟩
  | succ count ih =>
      have hrunning : Running gen := ⟨hissued, by omega⟩
      obtain ⟨command, middle, hnext, hemitted⟩ := nextCommand_generated build hfits hrunning
      have hnumbered := hemitted.nextSequence
      have hcounted := hemitted.generated.issued_le
      obtain ⟨rest, gen', hrest, hlength, hgenerated⟩ :=
        ih middle (hemitted.config ▸ hfits) (by omega) (by omega)
      refine ⟨command :: rest, gen', ?_, ?_, ?_⟩
      · simp only [CommandGen.session, hnext, hrest, Option.bind_eq_bind, Option.bind_some]
        rfl
      · rw [List.length_cons, hlength]
      · refine ⟨middle.freshIds.val, hemitted.generated, ?_⟩
        rw [← hemitted.config, ← hemitted.instrument, ← hnumbered]
        exact hgenerated

/-- Sessions are produced for every seed: with a valid configuration whose band
and amend quantities stay inside their words, a session of any length that the
sequence space holds is generated without a panic; its commands are numbered
from 1 and stay within the configuration, fresh order ids go up by one, and
every other order id was issued before. -/
theorem generated_session (hfits : config.Fits) (instrument : InstrumentId) (seed : U64) {count : Nat}
    (hcount : count + 1 < 2 ^ 64) :
    ∃ gen commands gen', CommandGen.new config instrument seed = some gen ∧
      gen.session build count = some (commands, gen') ∧ commands.length = count ∧
      GeneratedSession config instrument 1 0 commands := by
  have hroom : (1 : U64).val + count < 2 ^ 64 := by
    rw [Nat.add_comm]
    exact hcount
  obtain ⟨commands, gen', hsession, hlength, hgenerated⟩ :=
    session_generated ⟨config, instrument, Rng.new seed, 1, 0⟩ hfits
      (show (0 : U64).val < (1 : U64).val by decide) hroom
  exact ⟨_, commands, gen', if_pos hfits.valid, hsession, hlength, hgenerated⟩

/-! ### Sessions through both engines -/

/-- The calls of a session: every command as its frame, with a report buffer of
a capacity. -/
def framesOf (N : Nat) (commands : List Command) : List GatewayCall :=
  commands.map fun command => .frame (encodeCommand command) (ReportBuffer.empty : ReportBuffer N)

section Agree

variable {A R L O N sequence issued issued' : Nat} {command : Command} {commands : List Command}
  {accounts : List (AccountId × RiskLimits)} {riskEngine : RiskEngine A R}

/-- A generated command comes out of its frame as it went in. -/
theorem carried_frame (N : Nat) (command : Command) :
    (GatewayCall.frame (encodeCommand command) (ReportBuffer.empty : ReportBuffer N)).command? = some command := by
  obtain ⟨message, hparse, hcommand, _⟩ := parseMessage_encodeCommand command
  rw [GatewayCall.command?, hparse]
  exact congrArg some hcommand

/-- Generated commands are well formed for the instrument, given a positive
lowest price. -/
theorem Generated.wellFormed (hpositive : 0 < config.minimumPrice.val)
    (h : Generated config instrument sequence issued issued' command) :
    command.sequence.val = sequence ∧ command.WellFormed instrument := by
  cases command with
  | newOrder order =>
      obtain ⟨hsequence, hinstrument, _, hprice, hquantity, _⟩ := h
      exact ⟨hsequence, hinstrument, lt_of_lt_of_le hpositive hprice.1, hquantity⟩
  | cancelOrder cancel =>
      obtain ⟨hsequence, hinstrument, _⟩ := h
      exact ⟨hsequence, hinstrument⟩
  | replaceOrder replace =>
      obtain ⟨hsequence, hinstrument, _, hprice, hquantity, _⟩ := h
      exact ⟨hsequence, hinstrument, lt_of_lt_of_le hpositive hprice.1, hquantity⟩

/-- A generated session carries the sequence numbers a gateway expects. -/
theorem GeneratedSession.sequenced (hpositive : 0 < config.minimumPrice.val)
    (h : GeneratedSession config instrument sequence issued commands) :
    SequencedCalls instrument sequence (framesOf N commands) := by
  induction commands generalizing sequence issued with
  | nil => trivial
  | cons command rest ih =>
      obtain ⟨issued', hgenerated, hrest⟩ := h
      obtain ⟨hsequence, hformed⟩ := hgenerated.wellFormed hpositive
      exact ⟨⟨command, carried_frame N command, hsequence, hformed⟩, ih hrest⟩

/-- A configuration without amends generates none, so every state permits what
comes next. -/
theorem GeneratedSession.permitted
    (hamends : config.cancelProbabilityPct.val = 0 ∨ config.replaceProbabilityPct.val = 0)
    (h : GeneratedSession config instrument sequence issued commands) (hroom : sequence + commands.length < 2 ^ 64)
    (gateway : Gateway A R L O) : Permitted gateway (framesOf N commands) := by
  induction commands generalizing sequence issued gateway with
  | nil => trivial
  | cons command rest ih =>
      obtain ⟨issued', hgenerated, hrest⟩ := h
      rw [List.length_cons] at hroom
      refine ⟨fun carried hcarried => ?_, ?_⟩
      · rw [carried_frame] at hcarried
        cases hcarried
        cases command with
        | newOrder order =>
            have hnumbered : order.sequence.val = sequence := hgenerated.1
            exact ⟨show order.sequence.val + 1 < 2 ^ 64 by omega, trivial⟩
        | cancelOrder cancel =>
            have hnumbered : cancel.sequence.val = sequence := hgenerated.1
            exact ⟨show cancel.sequence.val + 1 < 2 ^ 64 by omega, trivial⟩
        | replaceOrder replace =>
            obtain ⟨_, _, _, _, _, _, _, _, hcancels, hreplaces⟩ := hgenerated
            rcases hamends with hnone | hnone
            · exact absurd hnone hcancels.ne'
            · exact absurd hnone hreplaces.ne'
      · split
        · trivial
        · exact ih hrest (by omega) _

/-- The generated comparison never fails: whatever the seed, the length, the
accounts and their limits, when the configuration has positive prices and
generates no amends, a gateway that receives the session as frames and the
reference engine with the same accounts give the same verdict and show the same
accounts after every command. -/
theorem generated_sessions_agree (hfits : config.Fits) (hpositive : 0 < config.minimumPrice.val)
    (hamends : config.cancelProbabilityPct.val = 0 ∨ config.replaceProbabilityPct.val = 0) (hL : 1 ≤ L) (hO : 1 ≤ O)
    (hroom : 2 * L * O + 1 ≤ R) (hindex : 4 * L * O ≤ 2 ^ 32) (hreservations : 2 * R ≤ 2 ^ 32)
    (instrument : InstrumentId) (seed : U64)
    (hregister : EngineBuilder.registerAll accounts RiskEngine.new = .ok riskEngine) (N : Nat) {count : Nat}
    (hcount : count + 1 < 2 ^ 64) :
    ∃ gen commands gen' engine observed gateway' engine', CommandGen.new config instrument seed = some gen ∧
      gen.session build count = some (commands, gen') ∧ commands.length = count ∧
      ModelEngine.registerAll accounts (ModelEngine.new instrument L O) = some engine ∧
      run gatewayStep (Gateway.new riskEngine instrument : Gateway A R L O) (framesOf N commands)
        = some (observed, gateway') ∧
      run referenceStep engine (framesOf N commands) = some (observed, engine') := by
  have hfirst : (1 : U64).val + count < 2 ^ 64 := by
    rw [Nat.add_comm]
    exact hcount
  obtain ⟨commands, gen', hsession, hlength, hgenerated⟩ :=
    session_generated ⟨config, instrument, Rng.new seed, 1, 0⟩ hfits
      (show (0 : U64).val < (1 : U64).val by decide) hfirst
  obtain ⟨engine, gateway, hmodel, hpaired⟩ := paired_new hregister instrument L O
  obtain ⟨observed, gateway', engine', hreal, hengine⟩ := run_follows hpaired hL hO hroom hindex hreservations
    (hgenerated.sequenced hpositive) (hgenerated.permitted hamends (hlength ▸ hfirst) _)
  exact ⟨_, commands, gen', engine, observed, gateway', engine', if_pos hfits.valid, hsession, hlength, hmodel, hreal,
    hengine⟩

/-- Traffic without amends on one account. -/
def plainConfig : GenConfig := ⟨1, i64 95, i64 105, 10, 30, 10, 10, 10, 10, 0⟩

/-- A thousand commands without amends, through a book of one level a side. -/
theorem generated_sessions_agree_plain :
    ∃ gen commands gen' engine observed gateway' engine', CommandGen.new plainConfig 7 1 = some gen ∧
      gen.session build 1000 = some (commands, gen') ∧ commands.length = 1000 ∧
      ModelEngine.registerAll [(1, smallLimits)] (ModelEngine.new 7 1 1) = some engine ∧
      run gatewayStep (Gateway.new smallRisk 7 : Gateway 1 4 1 1) (framesOf 2 commands) = some (observed, gateway') ∧
      run referenceStep engine (framesOf 2 commands) = some (observed, engine') :=
  generated_sessions_agree ⟨by decide, by decide, by decide⟩ (by decide) (.inr rfl) (by decide) (by decide) (by decide)
    (by decide) (by decide) 7 1 registerAll_smallRisk 2 (by decide)

end Agree

end HftEngine
