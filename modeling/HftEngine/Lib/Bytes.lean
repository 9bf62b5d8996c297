/-
Module: HftEngine.Lib.Bytes
Layer: Lib
Purpose: Big-endian byte codecs. Unsigned words and two's-complement signed
  words have fixed-width encodings; fixed layouts are read at offsets; streams
  are read by parsers over the remaining bytes. `Codec parser encode valid`
  says that a parser accepts exactly the encodings of the valid values and
  never panics.
Imports: HftEngine.Lib.Machine
Trusted boundary: none (fully proved)
Main exports: toBe, ofBe, unsignedBe, signedBe, wordOfBe, signedOfBe, field,
  field_flatten, Checked, Parser, Parses, Codec, Codec.repeatParser
-/
import HftEngine.Lib.Machine

namespace HftEngine.Bytes

/-! ### Big-endian words -/

/-- The low `width` bytes of a number, most significant first. -/
def toBe : (width : Nat) → Nat → List U8
  | 0, _ => []
  | width + 1, x => Fin.ofNat (2 ^ 8) (x / 256 ^ width) :: toBe width x

/-- The number spelled by big-endian bytes. -/
def ofBe : List U8 → Nat
  | [] => 0
  | byte :: rest => byte.val * 256 ^ rest.length + ofBe rest

/-- `to_be_bytes` of an unsigned word. -/
def unsignedBe (width : Nat) {n : Nat} (word : Fin n) : List U8 := toBe width word.val

/-- `from_be_bytes` of an unsigned word. -/
def wordOfBe (n : Nat) [NeZero n] (bytes : List U8) : Fin n := Fin.ofNat n (ofBe bytes)

/-- `to_be_bytes` of a signed word: its two's complement. -/
def signedBe (width : Nat) {half : Nat} (word : Signed half) : List U8 :=
  toBe width (word.val % (2 * half : Nat)).toNat

/-- `from_be_bytes` of a signed word. -/
def signedOfBe (half : Nat) [NeZero half] (bytes : List U8) : Signed half :=
  let value : Int := ((ofBe bytes % (2 * half) : Nat) : Int)
  if h : value < half then ⟨value, by omega, h⟩
  else
    ⟨value - (2 * half : Nat), by omega, by
      have := Nat.mod_lt (ofBe bytes) (show 0 < 2 * half by have := NeZero.pos half; omega)
      omega⟩

/-- A number takes the bytes it was given, whatever its size. -/
@[simp] theorem length_toBe (width x : Nat) : (toBe width x).length = width := by
  induction width with
  | zero => rfl
  | succ width ih => simp [toBe, ih]

@[simp] theorem length_unsignedBe (width : Nat) {n : Nat} (word : Fin n) :
    (unsignedBe width word).length = width := length_toBe _ _

@[simp] theorem length_signedBe (width : Nat) {half : Nat} (word : Signed half) :
    (signedBe width word).length = width := length_toBe _ _

/-- Writing a number in `width` bytes and reading it back loses what the width
cannot hold, and nothing else. -/
theorem ofBe_toBe (width x : Nat) : ofBe (toBe width x) = x % 256 ^ width := by
  induction width with
  | zero => simp [toBe, ofBe, Nat.mod_one]
  | succ width ih =>
      rw [toBe, ofBe, ih, length_toBe, Nat.mod_pow_succ]
      simp only [Fin.val_ofNat, Nat.reducePow]
      rw [Nat.mul_comm]
      omega

/-- A word whose range is that of its bytes survives writing and reading. -/
theorem wordOfBe_unsignedBe {width n : Nat} [NeZero n] (hn : n = 256 ^ width) (word : Fin n) :
    wordOfBe n (unsignedBe width word) = word := by
  apply Fin.ext
  have hlt := word.isLt
  rw [wordOfBe, unsignedBe, Fin.val_ofNat, ofBe_toBe, ← hn, Nat.mod_mod, Nat.mod_eq_of_lt hlt]

/-- A signed word survives being written in two's complement and read back,
given the bytes its range calls for. -/
theorem signedOfBe_signedBe {width half : Nat} [NeZero half] (hhalf : 2 * half = 256 ^ width)
    (word : Signed half) : signedOfBe half (signedBe width word) = word := by
  have hlow := word.lower
  have hhigh := word.upper
  have hraw : ofBe (signedBe width word) % (2 * half) = (word.val % (2 * half : Nat)).toNat := by
    have hpos : 0 < 2 * half := by have := NeZero.pos half; omega
    have hmod := Int.emod_lt_of_pos word.val (show (0 : Int) < (2 * half : Nat) by omega)
    rw [signedBe, ofBe_toBe, ← hhalf, Nat.mod_mod, Nat.mod_eq_of_lt (by omega)]
  -- the two's complement is the value itself, or the value shifted up by the modulus
  have hcases : (word.val % (2 * half : Nat)).toNat = word.val ∧ 0 ≤ word.val ∨
      ((word.val % (2 * half : Nat)).toNat : Int) = word.val + (2 * half : Nat) ∧ word.val < 0 := by
    rcases Int.lt_or_le word.val 0 with hneg | hpos
    · right
      have hshift : word.val % (2 * half : Nat) = word.val + (2 * half : Nat) := by
        rw [← Int.add_emod_right, Int.emod_eq_of_lt (by omega) (by omega)]
      omega
    · left
      rw [Int.emod_eq_of_lt hpos (by omega)]
      omega
  apply Signed.ext
  unfold signedOfBe
  simp only [hraw]
  split
  all_goals
    simp only
    omega

/-- The bytes bound the number they spell. -/
theorem ofBe_lt (bytes : List U8) : ofBe bytes < 256 ^ bytes.length := by
  induction bytes with
  | nil => simp [ofBe]
  | cons byte rest ih =>
      have hbyte := byte.isLt
      rw [ofBe, List.length_cons]
      calc byte.val * 256 ^ rest.length + ofBe rest
          < byte.val * 256 ^ rest.length + 256 ^ rest.length := by omega
        _ = (byte.val + 1) * 256 ^ rest.length := by ring
        _ ≤ 256 * 256 ^ rest.length := Nat.mul_le_mul_right _ (by omega)
        _ = 256 ^ (rest.length + 1) := by ring

/-- Higher bytes do not show in the low ones. -/
theorem toBe_add_mul (width high low : Nat) : toBe width (high * 256 ^ width + low) = toBe width low := by
  induction width generalizing high with
  | zero => rfl
  | succ width ih =>
      have hlow : high * 256 ^ (width + 1) + low = (high * 256) * 256 ^ width + low := by ring
      have hpos : 0 < 256 ^ width := Nat.pow_pos (by decide)
      rw [toBe, toBe, hlow, ih, Nat.mul_comm (high * 256), Nat.mul_add_div hpos]
      congr 1
      apply Fin.ext
      simp only [Fin.val_ofNat]
      rw [show (2 : Nat) ^ 8 = 256 by norm_num, Nat.mul_add_mod_self_right]

/-- Reading bytes and writing the number back gives the same bytes: there is
one spelling for each number of a width. -/
theorem toBe_ofBe (bytes : List U8) : toBe bytes.length (ofBe bytes) = bytes := by
  induction bytes with
  | nil => rfl
  | cons byte rest ih =>
      have hlt := ofBe_lt rest
      have hpos : 0 < 256 ^ rest.length := Nat.pow_pos (by decide)
      rw [List.length_cons, toBe, ofBe, toBe_add_mul, ih]
      congr 1
      apply Fin.ext
      rw [Nat.mul_comm, Nat.mul_add_div hpos, Nat.div_eq_of_lt hlt, Nat.add_zero, Fin.val_ofNat]
      exact Nat.mod_eq_of_lt byte.isLt

/-- The bytes of a word are the bytes it was read from. -/
theorem unsignedBe_wordOfBe {width n : Nat} [NeZero n] (hn : n = 256 ^ width) {bytes : List U8}
    (hlength : bytes.length = width) : unsignedBe width (wordOfBe n bytes) = bytes := by
  have hlt := ofBe_lt bytes
  rw [hlength, ← hn] at hlt
  rw [unsignedBe, wordOfBe, Fin.val_ofNat, Nat.mod_eq_of_lt hlt, ← hlength, toBe_ofBe]

/-- The bytes of a signed word are the bytes it was read from. -/
theorem signedBe_signedOfBe {width half : Nat} [NeZero half] (hhalf : 2 * half = 256 ^ width) {bytes : List U8}
    (hlength : bytes.length = width) : signedBe width (signedOfBe half bytes) = bytes := by
  have hlt := ofBe_lt bytes
  rw [hlength, ← hhalf] at hlt
  have hraw : ((signedOfBe half bytes).val % (2 * half : Nat)).toNat = ofBe bytes := by
    unfold signedOfBe
    simp only [Nat.mod_eq_of_lt hlt]
    split
    · simp only
      rw [Int.emod_eq_of_lt (by omega) (by omega)]
      omega
    · simp only
      rw [← Int.add_emod_right, Int.emod_eq_of_lt (by omega) (by omega)]
      omega
  rw [signedBe, hraw, ← hlength, toBe_ofBe]

/-! ### Fixed layouts -/

/-- The bytes `bytes[offset .. offset + width]`. -/
def field (bytes : List U8) (offset width : Nat) : List U8 := (bytes.drop offset).take width

/-- In a layout written part after part, the bytes at a part's offset are that
part. -/
theorem field_flatten {parts : List (List U8)} {part : List U8} (k : Nat) {offset width : Nat}
    (hpart : parts[k]? = some part) (hoffset : ((parts.take k).map List.length).sum = offset)
    (hwidth : part.length = width) : field parts.flatten offset width = part := by
  subst hoffset
  subst hwidth
  induction parts generalizing k with
  | nil => simp at hpart
  | cons first rest ih =>
      cases k with
      | zero =>
          simp only [List.getElem?_cons_zero, Option.some.injEq] at hpart
          subst hpart
          simp [field]
      | succ k =>
          simp only [List.getElem?_cons_succ] at hpart
          have hrest := ih k hpart
          rw [List.take_succ_cons, List.map_cons, List.sum_cons, List.flatten_cons]
          unfold field at hrest ⊢
          rw [← List.drop_drop, List.drop_left, hrest]

/-- A part at an offset and the bytes behind it. -/
theorem field_append_drop (bytes : List U8) (offset width : Nat) :
    field bytes offset width ++ bytes.drop (offset + width) = bytes.drop offset := by
  rw [field, ← List.drop_drop]
  exact List.take_append_drop width _

/-- The fields of given widths, one behind the other from an offset on. -/
def fieldsFrom (bytes : List U8) : Nat → List Nat → List (List U8)
  | _, [] => []
  | offset, width :: widths => field bytes offset width :: fieldsFrom bytes (offset + width) widths

/-- Fields that cover the bytes give them back. -/
theorem flatten_fieldsFrom {bytes : List U8} {offset : Nat} {widths : List Nat}
    (h : bytes.length ≤ offset + widths.sum) : (fieldsFrom bytes offset widths).flatten = bytes.drop offset := by
  induction widths generalizing offset with
  | nil =>
      rw [List.sum_nil, Nat.add_zero] at h
      rw [fieldsFrom, List.flatten_nil, List.drop_of_length_le h]
  | cons width widths ih =>
      rw [List.sum_cons, ← Nat.add_assoc] at h
      rw [fieldsFrom, List.flatten_cons, ih h, field_append_drop]

/-- A field within the buffer has its full width. -/
theorem length_field {bytes : List U8} {offset width : Nat} (h : offset + width ≤ bytes.length) :
    (field bytes offset width).length = width := by
  rw [field, List.length_take, List.length_drop]
  omega

/-! ### Computations that may panic

`none` is a panic; otherwise the computation returns a value or fails with an error. -/

section Checked

variable {E α β : Type}

/-- A computation that can fail with an error of its own or panic, as an index
past the end of a slice does; the outer option is the panic. -/
abbrev Checked (E α : Type) := ExceptT E Option α

/-- A returned value. -/
def Checked.Returns (x : Checked E α) (value : α) : Prop := x = some (.ok value)

/-- No panic. -/
def Checked.Safe (x : Checked E α) : Prop := x ≠ none

/-- Refuses with an error unless a condition holds. -/
def ensure (condition : Prop) [Decidable condition] (error : E) : Checked E Unit :=
  if condition then some (.ok ()) else some (.error error)

/-- `bytes[low..high]`, which panics out of bounds. -/
def slice (bytes : List U8) (low high : Nat) : Checked E (List U8) :=
  if low ≤ high ∧ high ≤ bytes.length then some (.ok (field bytes low (high - low))) else none

/-- A fallible result without panics. -/
def liftResult (result : Except E α) : Checked E α := some result

/-- A value whose computation may panic. -/
def unwrapped (value : Option α) : Checked E α := value.map .ok

/-- `map_err`. -/
def mapError {E' : Type} (f : E → E') (x : Checked E α) : Checked E' α := Option.map (Except.mapError f) x

/-- Two computations in sequence return what the second returns on the result
of the first. -/
@[simp] theorem returns_bind_iff {x : Checked E α} {f : α → Checked E β} {b : β} :
    Checked.Returns (x >>= f) b ↔ ∃ a, Checked.Returns x a ∧ Checked.Returns (f a) b := by
  unfold Checked.Returns
  match x with
  | none => exact ⟨fun h => (nomatch h), fun ⟨_, h, _⟩ => (nomatch h)⟩
  | some (.error e) => exact ⟨fun h => (nomatch h), fun ⟨_, h, _⟩ => (nomatch h)⟩
  | some (.ok a) => exact ⟨fun h => ⟨a, rfl, h⟩, fun ⟨_, h, h'⟩ => by cases h; exact h'⟩

@[simp] theorem returns_pure_iff {a b : α} : Checked.Returns (pure a : Checked E α) b ↔ a = b := by
  constructor
  · intro h
    cases h
    rfl
  · rintro rfl
    rfl

@[simp] theorem returns_map_iff {f : α → β} {x : Checked E α} {b : β} :
    Checked.Returns (f <$> x) b ↔ ∃ a, Checked.Returns x a ∧ f a = b := by
  rw [map_eq_pure_bind, returns_bind_iff]
  exact exists_congr fun a => and_congr_right fun _ => returns_pure_iff

/-- A check lets the computation pass exactly when its condition holds. -/
@[simp] theorem returns_ensure_iff {condition : Prop} [Decidable condition] {error : E} {u : Unit} :
    Checked.Returns (ensure condition error) u ↔ condition := by
  unfold Checked.Returns ensure
  split
  · rename_i h
    exact ⟨fun _ => h, fun _ => rfl⟩
  · rename_i h
    exact ⟨fun h' => (nomatch h'), fun h' => absurd h' h⟩

/-- A slice is returned when its bounds are in order and within the bytes. -/
@[simp] theorem returns_slice_iff {bytes part : List U8} {low high : Nat} :
    Checked.Returns (slice bytes low high : Checked E (List U8)) part ↔
      low ≤ high ∧ high ≤ bytes.length ∧ part = field bytes low (high - low) := by
  unfold Checked.Returns slice
  split
  · rename_i h
    constructor
    · intro heq
      cases heq
      exact ⟨h.1, h.2, rfl⟩
    · rintro ⟨_, _, rfl⟩
      rfl
  · rename_i h
    exact ⟨fun h' => (nomatch h'), fun h' => absurd ⟨h'.1, h'.2.1⟩ h⟩

@[simp] theorem returns_liftResult_iff {result : Except E α} {value : α} :
    Checked.Returns (liftResult result) value ↔ result = .ok value := by
  unfold Checked.Returns liftResult
  exact ⟨fun h => Option.some.inj h, fun h => congrArg some h⟩

@[simp] theorem returns_unwrapped_iff {value : Option α} {a : α} :
    Checked.Returns (unwrapped value : Checked E α) a ↔ value = some a := by
  unfold Checked.Returns unwrapped
  cases value with
  | none => exact ⟨fun h => (nomatch h), fun h => (nomatch h)⟩
  | some b =>
      constructor
      · intro h
        cases h
        rfl
      · rintro ⟨⟩
        rfl

/-- Renaming errors changes no result. -/
@[simp] theorem returns_mapError_iff {E' : Type} {f : E → E'} {x : Checked E α} {a : α} :
    Checked.Returns (mapError f x) a ↔ Checked.Returns x a := by
  unfold Checked.Returns mapError
  match x with
  | none => exact ⟨fun h => (nomatch h), fun h => (nomatch h)⟩
  | some (.error e) => exact ⟨fun h => (nomatch h), fun h => (nomatch h)⟩
  | some (.ok b) =>
      constructor
      · intro h
        cases h
        rfl
      · rintro ⟨⟩
        rfl

/-- A sequence is safe when its first part is, and the rest on every value the
first part returns. -/
theorem safe_bind {x : Checked E α} {f : α → Checked E β} (hx : Checked.Safe x)
    (hf : ∀ a, Checked.Returns x a → Checked.Safe (f a)) : Checked.Safe (x >>= f) := by
  unfold Checked.Safe Checked.Returns at *
  match x with
  | none => exact absurd rfl hx
  | some (.error e) => exact fun h => (nomatch h)
  | some (.ok a) => exact hf a rfl

theorem safe_pure (a : α) : Checked.Safe (pure a : Checked E α) := fun h => (nomatch h)

/-- A check may refuse but never panics. -/
theorem safe_ensure (condition : Prop) [Decidable condition] (error : E) : Checked.Safe (ensure condition error) := by
  unfold Checked.Safe ensure
  split <;> exact fun h => (nomatch h)

/-- A slice within bounds does not panic. -/
theorem safe_slice {bytes : List U8} {low high : Nat} (h : low ≤ high ∧ high ≤ bytes.length) :
    Checked.Safe (slice bytes low high : Checked E (List U8)) := by
  unfold Checked.Safe slice
  rw [if_pos h]
  exact fun h => (nomatch h)

theorem safe_liftResult (result : Except E α) : Checked.Safe (liftResult result) := fun h => (nomatch h)

end Checked

/-! ### Stream parsers -/

section Stream

variable {E α β : Type}

/-- A parser over the remaining bytes of a stream. -/
abbrev Parser (E α : Type) := StateT (List U8) (ExceptT E Option) α

/-- Refuses with an error. -/
def fail (error : E) : Parser E α := fun _ => some (.error error)

/-- An access that panics when there is nothing to access. -/
def access (found : Option α) : Parser E α := fun bytes => found.map fun value => .ok (value, bytes)

/-- The next `len` bytes. -/
def take (truncated : E) (len : Nat) : Parser E (List U8) := fun bytes =>
  if len ≤ bytes.length then some (.ok (bytes.take len, bytes.drop len)) else some (.error truncated)

/-- Runs a parser a fixed number of times. -/
def repeatParser (item : Parser E α) : Nat → Parser E (List α)
  | 0 => pure []
  | count + 1 => do
      let first ← item
      let rest ← repeatParser item count
      pure (first :: rest)

/-- From these bytes the parser returns a value and leaves the rest. -/
def Parses (parser : Parser E α) (bytes : List U8) (value : α) (rest : List U8) : Prop :=
  parser bytes = some (.ok (value, rest))

/-- The parser accepts exactly the encodings of the valid values, whatever
follows, and never panics. -/
structure Codec (parser : Parser E α) (encode : α → List U8) (valid : α → Prop) : Prop where
  safe : ∀ bytes, parser bytes ≠ none
  accepts : ∀ bytes value rest, Parses parser bytes value rest ↔ valid value ∧ bytes = encode value ++ rest

/-- Two parsers in sequence: the second goes on where the first stopped. -/
@[simp] theorem parses_bind_iff {parser : Parser E α} {next : α → Parser E β} {bytes rest : List U8} {b : β} :
    Parses (parser >>= next) bytes b rest ↔
      ∃ a middle, Parses parser bytes a middle ∧ Parses (next a) middle b rest := by
  have h := returns_bind_iff (x := parser bytes) (f := fun result => next result.1 result.2) (b := (b, rest))
  unfold Checked.Returns at h
  unfold Parses
  refine Iff.trans h ?_
  simp only [Prod.exists]

@[simp] theorem parses_pure_iff {a b : α} {bytes rest : List U8} :
    Parses (pure a : Parser E α) bytes b rest ↔ a = b ∧ bytes = rest := by
  constructor
  · intro h
    cases h
    exact ⟨rfl, rfl⟩
  · rintro ⟨rfl, rfl⟩
    rfl

@[simp] theorem parses_fail_iff {error : E} {bytes rest : List U8} {a : α} :
    Parses (fail error) bytes a rest ↔ False :=
  ⟨fun h => (nomatch h), False.elim⟩

/-- Access to what was read before consumes nothing. -/
@[simp] theorem parses_access_iff {found : Option α} {bytes rest : List U8} {a : α} :
    Parses (access found : Parser E α) bytes a rest ↔ found = some a ∧ bytes = rest := by
  cases found with
  | none => exact ⟨fun h => (nomatch h), fun h => (nomatch h.1)⟩
  | some value =>
      constructor
      · intro h
        cases h
        exact ⟨rfl, rfl⟩
      · rintro ⟨heq, rfl⟩
        cases heq
        rfl

/-- Taking `len` bytes splits them off the front. -/
@[simp] theorem parses_take_iff {truncated : E} {len : Nat} {bytes part rest : List U8} :
    Parses (take truncated len) bytes part rest ↔ part.length = len ∧ bytes = part ++ rest := by
  unfold Parses take
  by_cases h : len ≤ bytes.length
  · rw [if_pos h]
    constructor
    · intro heq
      cases heq
      exact ⟨by simpa using h, (List.take_append_drop len bytes).symm⟩
    · rintro ⟨rfl, rfl⟩
      simp
  · rw [if_neg h]
    constructor
    · exact fun heq => (nomatch heq)
    · rintro ⟨rfl, rfl⟩
      simp at h

/-- Two parsers in a row never panic when the first never does, nor the second
on what the first returns. -/
theorem safe_parser_bind {parser : Parser E α} {next : α → Parser E β} (hparser : ∀ bytes, parser bytes ≠ none)
    (hnext : ∀ a, (∃ bytes rest, Parses parser bytes a rest) → ∀ bytes, next a bytes ≠ none) (bytes : List U8) :
    (parser >>= next) bytes ≠ none :=
  safe_bind (x := parser bytes) (f := fun result => next result.1 result.2) (hparser bytes)
    fun a ha => hnext a.1 ⟨bytes, a.2, ha⟩ a.2

theorem safe_parser_pure (a : α) (bytes : List U8) : (pure a : Parser E α) bytes ≠ none := fun h => (nomatch h)

theorem safe_fail (error : E) (bytes : List U8) : (fail error : Parser E α) bytes ≠ none := fun h => (nomatch h)

/-- Taking bytes refuses a short input and does not panic on it. -/
theorem safe_take (truncated : E) (len : Nat) (bytes : List U8) : take truncated len bytes ≠ none := by
  unfold take
  split <;> exact fun h => (nomatch h)

/-- A reader before a parser that never panics. -/
theorem Codec.safe_bind {parser : Parser E α} {encode : α → List U8} {valid : α → Prop} {next : α → Parser E β}
    (codec : Codec parser encode valid) (hnext : ∀ a bytes, next a bytes ≠ none) (bytes : List U8) :
    (parser >>= next) bytes ≠ none :=
  safe_parser_bind codec.safe (fun a _ => hnext a) bytes

/-- A counted run of items. -/
theorem Codec.repeatParser {item : Parser E α} {encode : α → List U8} {valid : α → Prop}
    (codec : Codec item encode valid) (count : Nat) :
    Codec (Bytes.repeatParser item count) (fun items => items.flatMap encode)
      fun items => items.length = count ∧ ∀ value ∈ items, valid value := by
  induction count with
  | zero =>
      refine ⟨safe_parser_pure [], fun bytes items rest => ?_⟩
      rw [Bytes.repeatParser, parses_pure_iff]
      constructor
      · rintro ⟨rfl, rfl⟩
        simp
      · rintro ⟨⟨hlength, _⟩, rfl⟩
        simp [List.length_eq_zero_iff.mp hlength]
  | succ count ih =>
      constructor
      · apply safe_parser_bind codec.safe
        rintro first -
        apply safe_parser_bind ih.safe
        rintro others - bytes
        exact safe_parser_pure _ bytes
      · intro bytes items rest
        rw [Bytes.repeatParser]
        simp only [parses_bind_iff, parses_pure_iff, codec.accepts, ih.accepts]
        constructor
        · rintro ⟨first, _, ⟨hfirst, rfl⟩, others, _, ⟨⟨hlength, hothers⟩, rfl⟩, rfl, rfl⟩
          simp only [List.length_cons, hlength, List.forall_mem_cons, hfirst, true_and, List.flatMap_cons,
            List.append_assoc, and_true]
          exact hothers
        · rintro ⟨⟨hlength, hvalid⟩, rfl⟩
          cases items with
          | nil => simp at hlength
          | cons first others =>
              rw [List.forall_mem_cons] at hvalid
              exact ⟨first, _, ⟨hvalid.1, by rw [List.flatMap_cons, List.append_assoc]⟩, others, _,
                ⟨⟨by simpa using hlength, hvalid.2⟩, rfl⟩, rfl, rfl⟩

end Stream

end HftEngine.Bytes
