/-
Module: HftEngine.Proofs.JournalScan
Layer: Proofs
Purpose: The journal's codec and scan are exact. A block that decodes is the
  encoding of what it decodes to, and the scan accepts a byte string exactly
  when it is a concatenation of decodable blocks with consecutive sequences,
  however the reader cuts it up and however often it is interrupted.
Imports: HftEngine.Proofs.JournalCodec
Trusted boundary: none (fully proved)
Main exports: JournalRecord.encode_decode, ScanAccepts, recoverFrom_ok_iff,
  journal_codec_and_scan
-/
import HftEngine.Proofs.JournalCodec

namespace HftEngine

open Machine Bytes

variable {crc32c : List U8 → U32}

namespace JournalRecord

/-- A block that decodes is the encoding of the record it decodes to, padding
included. -/
theorem encode_decode {bytes : List U8} {record : JournalRecord} (hsize : bytes.length = recordSize)
    (h : decode crc32c bytes = .ok record) : record.encode = bytes := by
  have hlength : bytes.length = 64 := hsize
  unfold decode at h
  simp only at h
  split at h
  · cases h
  split at h
  · cases h
  split at h
  · cases h
  split at h
  · cases h
  split at h
  · cases h
    have hsplit : (fieldsFrom bytes 0 [2, 1, 1, 8, 2, 4, 46]).flatten = bytes.drop 0 :=
      flatten_fieldsFrom (by simp [hlength])
    have hpayload : (Vector.ofFn fun i : Fin maxPayload => readU8 bytes (payloadOffset + i.val)).toList =
        field bytes 18 46 := by
      refine List.ext_getElem (by simp [length_field, hlength, maxPayload]) fun i hi hi' => ?_
      have hlt : i < 46 := by simpa [maxPayload] using hi
      simp only [Vector.getElem_toList, Vector.getElem_ofFn, field, List.getElem_take, List.getElem_drop, readU8]
      rw [List.getD_eq_getElem?_getD, List.getElem?_eq_getElem (by rw [hlength, payloadOffset]; omega)]
      rfl
    rw [List.drop_zero] at hsplit
    conv_rhs => rw [← hsplit]
    simp only [encode, layout, fieldsFrom, Nat.reduceAdd, hpayload, checksumOffset]
    rw [unsignedBe_readU64 (by omega), unsignedBe_readU32 (by omega),
      field_of_readU8 (by omega) (rfl : readU8 bytes 2 = _), field_of_readU8 (by omega) (rfl : readU8 bytes 3 = _),
      field_of_readU16 (by omega) (rfl : (readU16 bytes 0).val = _),
      field_of_readU16 (by omega) (rfl : (readU16 bytes 12).val = _)]
    rfl
  · cases h

end JournalRecord

/-! ### What the scan accepts -/

/-- The bytes are blocks that decode to consecutive sequences, counted from
`expected` and `records`. -/
inductive ScanAccepts (crc32c : List U8 → U32) : U64 → U64 → List U8 → Recovery → Prop where
  | done (expected records : U64) : ScanAccepts crc32c expected records [] ⟨records, expected⟩
  | block {expected records expected' records' : U64} {buffer rest : List U8} {recovery : Recovery}
      (hsize : buffer.length = recordSize)
      (haccept : acceptRecord crc32c buffer expected records = .ok (expected', records'))
      (hrest : ScanAccepts crc32c expected' records' rest recovery) :
      ScanAccepts crc32c expected records (buffer ++ rest) recovery

/-- The end of the input is accepted with what was counted so far. -/
theorem scanAccepts_nil_iff {expected records : U64} {recovery : Recovery} :
    ScanAccepts crc32c expected records [] recovery ↔ recovery = ⟨records, expected⟩ := by
  constructor
  · intro h
    generalize hbytes : ([] : List U8) = bytes at h
    cases h with
    | done => rfl
    | block hsize =>
        rename_i buffer rest _
        obtain ⟨rfl, -⟩ := List.append_eq_nil_iff.mp hbytes.symm
        cases hsize
  · rintro rfl
    exact .done expected records

/-- A torn tail is not accepted. -/
theorem not_scanAccepts_of_short {expected records : U64} {bytes : List U8} {recovery : Recovery}
    (hpos : bytes ≠ []) (hshort : bytes.length < recordSize) :
    ¬ScanAccepts crc32c expected records bytes recovery := by
  intro h
  cases h with
  | done => exact hpos rfl
  | block hsize =>
      rw [List.length_append, hsize] at hshort
      omega

/-- The scan of a full block and what follows. -/
theorem scanAccepts_append_iff {expected records : U64} {buffer rest : List U8} {recovery : Recovery}
    (hsize : buffer.length = recordSize) :
    ScanAccepts crc32c expected records (buffer ++ rest) recovery ↔
      ∃ expected' records', acceptRecord crc32c buffer expected records = .ok (expected', records') ∧
        ScanAccepts crc32c expected' records' rest recovery := by
  constructor
  · intro h
    generalize hbytes : buffer ++ rest = bytes at h
    cases h with
    | done =>
        obtain ⟨rfl, -⟩ := List.append_eq_nil_iff.mp hbytes
        cases hsize
    | block hsize' haccept hrest =>
        obtain ⟨rfl, rfl⟩ := List.append_inj hbytes (hsize.trans hsize'.symm)
        exact ⟨_, _, haccept, hrest⟩
  · rintro ⟨expected', records', haccept, hrest⟩
    exact .block hsize haccept hrest

/-! ### The reader -/

namespace Reader

/-- The bytes the reader has to deliver. -/
def contents : Reader → List U8
  | [] => []
  | .chunk bytes :: rest => bytes ++ contents rest
  | _ :: rest => contents rest

/-- The reader never fails and returns no bytes only at its end. -/
def Steady (reader : Reader) : Prop := ∀ event ∈ reader, event = .interrupted ∨ ∃ bytes ≠ [], event = .chunk bytes

/-- What one call can do to a steady reader when there is room. -/
theorem read_steady {reader : Reader} (h : reader.Steady) {room : Nat} (hroom : 0 < room) :
    (reader = [] ∧ reader.read room = (.ok [], [])) ∨
    (∃ rest, reader.read room = (.interrupted, rest) ∧ rest.Steady ∧ rest.contents = reader.contents) ∨
    ∃ byte bytes rest, reader.read room = (.ok (byte :: bytes), rest) ∧ (byte :: bytes).length ≤ room ∧
      rest.Steady ∧ reader.contents = byte :: bytes ++ rest.contents := by
  cases reader with
  | nil => exact .inl ⟨rfl, rfl⟩
  | cons event rest =>
      have hrest : Steady rest := fun other hmem => h other (by simp [hmem])
      rcases h event (by simp) with rfl | ⟨bytes, hne, rfl⟩
      · exact .inr (.inl ⟨rest, rfl, hrest, rfl⟩)
      · refine .inr (.inr ?_)
        obtain ⟨byte, tail, rfl⟩ := List.exists_cons_of_ne_nil hne
        rw [read]
        split
        · rename_i hle
          exact ⟨byte, tail, rest, rfl, hle, hrest, rfl⟩
        · rename_i hgt
          obtain ⟨room, rfl⟩ := Nat.exists_eq_add_one.mpr hroom
          refine ⟨byte, tail.take room, _, rfl, ?_, ?_, ?_⟩
          · rw [List.length_cons, List.length_take]
            omega
          · intro other hmem
            rcases List.mem_cons.mp hmem with rfl | hmem
            · refine .inr ⟨_, ?_, rfl⟩
              rw [List.length_cons] at hgt
              rw [ne_eq, List.drop_eq_nil_iff, List.length_cons]
              omega
            · exact hrest other hmem
          · simp only [contents, List.drop_succ_cons, List.cons_append, ← List.append_assoc, List.take_append_drop]

end Reader

/-! ### The loop -/

/-- Overwriting bytes within a buffer keeps its length. -/
theorem length_overwrite {buffer bytes : List U8} {filled : Nat} (h : filled + bytes.length ≤ buffer.length) :
    (overwrite buffer filled bytes).length = buffer.length := by
  simp only [overwrite, List.length_append, List.length_take, List.length_drop]
  omega

/-- What was filled before the overwritten bytes is still there. -/
theorem take_overwrite {buffer bytes : List U8} {filled : Nat} (h : filled ≤ buffer.length) :
    (overwrite buffer filled bytes).take (filled + bytes.length) = buffer.take filled ++ bytes := by
  rw [overwrite, List.take_left']
  rw [List.length_append, List.length_take, Nat.min_eq_left h]

/-- The scan with `filled` bytes in its buffer accepts exactly when those bytes
and what the reader still has are blocks in sequence. -/
theorem recoverFrom_ok_iff {buffer : List U8} {filled : Nat} {expected records : U64} {reader : Reader}
    {recovery : Recovery} (hsteady : reader.Steady) (hbuffer : buffer.length = recordSize)
    (hfilled : filled < recordSize) :
    recoverFrom crc32c buffer filled expected records reader = .ok recovery ↔
      ScanAccepts crc32c expected records (buffer.take filled ++ reader.contents) recovery := by
  -- every call of `read` leaves a smaller reader, until the end
  induction hn : reader.size using Nat.strong_induction_on generalizing buffer filled expected records reader with
  | _ n ih =>
  subst hn
  have hroom : 0 < recordSize - filled := by omega
  have hprogress := Reader.read_size (recordSize - filled) reader
  rw [recoverFrom]
  rcases Reader.read_steady hsteady hroom with ⟨rfl, hread⟩ | ⟨rest, hread, hrest, hcontents⟩ |
    ⟨byte, bytes, rest, hread, hle, hrest, hcontents⟩
  · rw [hread]
    dsimp only
    rw [Reader.contents, List.append_nil]
    split
    · rename_i hzero
      rw [hzero, List.take_zero, scanAccepts_nil_iff, Except.ok.injEq, eq_comm]
    · rename_i hpos
      have hlength : (buffer.take filled).length = filled := by
        rw [List.length_take, hbuffer]
        omega
      refine iff_of_false (fun h => nomatch h) (not_scanAccepts_of_short ?_ (by omega))
      rintro hnil
      rw [hnil] at hlength
      exact hpos hlength.symm
  · rw [hread] at hprogress ⊢
    dsimp only
    rw [ih rest.size (hprogress (by simp)) hrest hbuffer hfilled rfl, hcontents]
  · rw [hread] at hprogress ⊢
    dsimp only
    have hless : rest.size < reader.size := hprogress (by simp)
    have hfits : filled + (byte :: bytes).length ≤ buffer.length := by omega
    have hbuffer' : (overwrite buffer filled (byte :: bytes)).length = recordSize :=
      (length_overwrite hfits).trans hbuffer
    have htake : (overwrite buffer filled (byte :: bytes)).take (filled + (byte :: bytes).length) =
        buffer.take filled ++ byte :: bytes := take_overwrite (by omega)
    split
    · rename_i hmore
      rw [ih rest.size hless hrest hbuffer' hmore rfl, htake, hcontents, List.append_assoc]
    · rename_i hfull
      -- the buffer now holds a whole block, none of it left from an earlier record
      rw [List.take_of_length_le (by omega)] at htake
      rw [hcontents, ← List.append_assoc, ← htake, scanAccepts_append_iff hbuffer']
      cases haccept : acceptRecord crc32c (overwrite buffer filled (byte :: bytes)) expected records with
      | error error =>
          refine iff_of_false (fun h => nomatch h) ?_
          rintro ⟨_, _, h, _⟩
          cases h
      | ok next =>
          obtain ⟨expected', records'⟩ := next
          dsimp only
          rw [ih rest.size hless hrest hbuffer' (by decide) rfl, List.take_zero, List.nil_append]
          constructor
          · intro h
            exact ⟨expected', records', rfl, h⟩
          · rintro ⟨_, _, heq, h⟩
            cases heq
            exact h

/-! ### Blocks -/

/-- Blocks of the record size that decode to the sequences from `first` on. -/
def InSequence (crc32c : List U8 → U32) (first : Nat) (blocks : List (List U8)) : Prop :=
  ∀ i block, blocks[i]? = some block → block.length = recordSize ∧
    ∃ record, JournalRecord.decode crc32c block = .ok record ∧ record.sequence.val = first + i

/-- A sequence of blocks is a block that decodes to the first number and a
sequence from the next. -/
theorem inSequence_cons_iff {first : Nat} {block : List U8} {blocks : List (List U8)} :
    InSequence crc32c first (block :: blocks) ↔
      (block.length = recordSize ∧
        ∃ record, JournalRecord.decode crc32c block = .ok record ∧ record.sequence.val = first) ∧
      InSequence crc32c (first + 1) blocks := by
  constructor
  · intro h
    refine ⟨h 0 block rfl, fun i other hother => ?_⟩
    obtain ⟨hsize, record, hdecode, hsequence⟩ := h (i + 1) other hother
    exact ⟨hsize, record, hdecode, by omega⟩
  · rintro ⟨hhead, htail⟩ i other hother
    cases i with
    | zero =>
        obtain rfl : block = other := by simpa using hother
        exact hhead
    | succ i =>
        obtain ⟨hsize, record, hdecode, hsequence⟩ := htail i other (by simpa using hother)
        exact ⟨hsize, record, hdecode, by omega⟩

/-- A block is accepted when it decodes to the expected sequence and neither
counter is at its end. -/
theorem acceptRecord_ok_iff {buffer : List U8} {expected records expected' records' : U64} :
    acceptRecord crc32c buffer expected records = .ok (expected', records') ↔
      (∃ record, JournalRecord.decode crc32c buffer = .ok record ∧ record.sequence = expected) ∧
        expected'.val = expected.val + 1 ∧ records'.val = records.val + 1 := by
  unfold acceptRecord
  cases hdecode : JournalRecord.decode crc32c buffer with
  | error source => simp
  | ok record =>
      dsimp only
      split
      · rename_i hne
        simp [hne]
      · rename_i heq
        have heq' : record.sequence = expected := not_not.mp heq
        have hexpected : expected'.val = expected.val + 1 ↔ checkedAdd expected 1 = some expected' := by
          rw [checkedAdd_eq_some]
          rfl
        have hrecords : records'.val = records.val + 1 ↔ checkedAdd records 1 = some records' := by
          rw [checkedAdd_eq_some]
          rfl
        rw [hexpected, hrecords]
        cases checkedAdd expected 1 with
        | none => simp
        | some next =>
            cases checkedAdd records 1 with
            | none => simp
            | some count => simp [heq']

/-- The accepted strings are the concatenations of blocks in sequence that
leave the sequence counter room. -/
theorem scanAccepts_iff {expected records : U64} {bytes : List U8} {recovery : Recovery}
    (hcount : records.val ≤ expected.val) :
    ScanAccepts crc32c expected records bytes recovery ↔
      ∃ blocks : List (List U8), bytes = blocks.flatten ∧ InSequence crc32c expected.val blocks ∧
        expected.val + blocks.length ≤ 2 ^ 64 - 1 ∧ recovery.records.val = records.val + blocks.length ∧
        recovery.nextSequence.val = expected.val + blocks.length := by
  constructor
  · intro h
    induction h with
    | done expected records =>
        have := expected.isLt
        exact ⟨[], rfl, fun i block h => by simp at h, by simp; omega, rfl, rfl⟩
    | @block expected records expected' records' buffer rest recovery hsize haccept hrest ih =>
        obtain ⟨⟨record, hdecode, hsequence⟩, hexpected, hrecords⟩ := acceptRecord_ok_iff.mp haccept
        obtain ⟨blocks, rfl, hblocks, hroom, hcounted, hnext⟩ := ih (by omega)
        rw [hexpected] at hblocks hroom hnext
        refine ⟨buffer :: blocks, by simp, ?_, ?_, ?_, ?_⟩
        · exact inSequence_cons_iff.mpr ⟨⟨hsize, record, hdecode, congrArg Fin.val hsequence⟩, hblocks⟩
        all_goals
          rw [List.length_cons]
          omega
  · rintro ⟨blocks, rfl, hblocks, hroom, hcounted, hnext⟩
    induction blocks generalizing expected records with
    | nil =>
        rw [List.flatten_nil, scanAccepts_nil_iff]
        obtain ⟨counted, next⟩ := recovery
        obtain rfl : counted = records := Fin.ext hcounted
        obtain rfl : next = expected := Fin.ext hnext
        rfl
    | cons block blocks ih =>
        obtain ⟨⟨hsize, record, hdecode, hsequence⟩, htail⟩ := inSequence_cons_iff.mp hblocks
        rw [List.length_cons] at hroom hcounted hnext
        have hexpected : expected.val + 1 < 2 ^ 64 := by omega
        have hrecords : records.val + 1 < 2 ^ 64 := by omega
        rw [List.flatten_cons, scanAccepts_append_iff hsize]
        refine ⟨⟨_, hexpected⟩, ⟨_, hrecords⟩, ?_, ?_⟩
        · exact acceptRecord_ok_iff.mpr ⟨⟨record, hdecode, Fin.ext hsequence⟩, rfl, rfl⟩
        · apply ih
          · exact Nat.succ_le_succ hcount
          · exact htail
          · simp only
            omega
          · simp only
            omega
          · simp only
            omega

/-- Blocks in sequence have the size of records. -/
theorem length_flatten_blocks {first : Nat} {blocks : List (List U8)} (h : InSequence crc32c first blocks) :
    blocks.flatten.length = recordSize * blocks.length := by
  induction blocks generalizing first with
  | nil => rfl
  | cons block blocks ih =>
      obtain ⟨⟨hsize, -⟩, htail⟩ := inSequence_cons_iff.mp h
      rw [List.flatten_cons, List.length_append, ih htail, hsize, List.length_cons, Nat.mul_succ, Nat.add_comm]

/-- The whole scan of what a reader delivers. -/
theorem recover_ok_iff {reader : Reader} {first : U64} {recovery : Recovery} (hsteady : reader.Steady) :
    recover crc32c reader first = .ok recovery ↔
      ∃ blocks : List (List U8), reader.contents = blocks.flatten ∧ InSequence crc32c first.val blocks ∧
        first.val + blocks.length ≤ 2 ^ 64 - 1 ∧ recovery.records.val = blocks.length ∧
        recovery.nextSequence.val = first.val + blocks.length := by
  rw [recover, recoverFrom_ok_iff hsteady (List.length_replicate ..) (by decide), List.take_zero, List.nil_append,
    scanAccepts_iff (Nat.zero_le _)]
  simp only [Fin.val_zero, Nat.zero_add]

/-! ### The journal codec -/

/-- Records give their payload back through their bytes; a block that decodes
is what its record encodes to; and the scan of a byte string, through every
steady reader of it, returns exactly for the blocks in sequence that leave the
counter room, with their number and the sequence behind them. -/
theorem journal_codec_and_scan (crc32c : List U8 → U32) :
    (∀ (sequence : SequenceNumber) (payload : List U8), payload.length ≤ maxPayload →
      ∃ record decoded, JournalRecord.new crc32c sequence payload = .ok record ∧
        JournalRecord.decode crc32c record.encode = .ok decoded ∧ decoded.sequence = sequence ∧
        decoded.slice = some payload) ∧
    (∀ (block : List U8) (record : JournalRecord), block.length = recordSize →
      JournalRecord.decode crc32c block = .ok record → record.encode = block) ∧
    ∀ (bytes : List U8) (first : U64) (reader : Reader), reader.Steady → reader.contents = bytes →
      (∀ recovery, recover crc32c reader first = .ok recovery ↔
        ∃ blocks : List (List U8), bytes = blocks.flatten ∧ InSequence crc32c first.val blocks ∧
          first.val + blocks.length ≤ 2 ^ 64 - 1 ∧ recovery.records.val = blocks.length ∧
          recovery.nextSequence.val = first.val + blocks.length) ∧
      (bytes.length % recordSize ≠ 0 → ∀ recovery, recover crc32c reader first ≠ .ok recovery) := by
  refine ⟨?_, fun block record hsize => JournalRecord.encode_decode hsize, ?_⟩
  · intro sequence payload hle
    obtain ⟨record, hnew⟩ : ∃ record, JournalRecord.new crc32c sequence payload = .ok record :=
      JournalRecord.exists_new sequence hle
    obtain ⟨hsequence, hslice, hverify⟩ := JournalRecord.of_new hnew
    exact ⟨record, record, hnew, JournalRecord.decode_encode hverify, hsequence, hslice⟩
  · rintro bytes first reader hsteady rfl
    refine ⟨fun recovery => recover_ok_iff hsteady, fun hpartial recovery hok => ?_⟩
    obtain ⟨blocks, hcontents, hblocks, -⟩ := (recover_ok_iff hsteady).mp hok
    apply hpartial
    rw [hcontents, length_flatten_blocks hblocks, Nat.mul_mod_right]

end HftEngine
