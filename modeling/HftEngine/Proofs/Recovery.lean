/-
Module: HftEngine.Proofs.Recovery
Layer: Proofs
Purpose: Recovery is replay. Histories of commands that a gateway admits by
  sequence, the journal that records them, and the theorem that a decodable
  snapshot followed by the journal of the later commands gives a gateway that
  cannot be told from the one that processed every command.
Imports: HftEngine.Core.Recovery, HftEngine.Proofs.JournalCodec,
  HftEngine.Proofs.SnapshotRestore
Trusted boundary: none (fully proved)
Main exports: Applied, recordOf, journalOf, processFrame_encodeCommand,
  admitted_call, replayRecords_of_applied, recovery_equals_replay
-/
import HftEngine.Core.Recovery
import HftEngine.Proofs.JournalCodec
import HftEngine.Proofs.SnapshotRestore

namespace HftEngine

open Machine Bytes Transition

variable {A R L O N : Nat} {gateway gateway' middle restored : Gateway A R L O} {command : Command}
  {commands before after : List Command} {answer : GatewayAnswer} {crc32c : List U8 → U32}
  {sha256 : List U8 → Digest}

/-! ### Histories -/

/-- One command with room for `N` reports. -/
def commandCall (N : Nat) (command : Command) : GatewayCall := .command command (ReportBuffer.empty : ReportBuffer N)

/-- The commands are admitted by sequence one after another and lead from one
gateway to the other; business rejections count. -/
inductive Applied (N : Nat) : Gateway A R L O → List Command → Gateway A R L O → Prop
  | nil (gateway : Gateway A R L O) : Applied N gateway [] gateway
  | cons {gateway middle gateway' : Gateway A R L O} {command : Command} {commands : List Command}
      {answer : GatewayAnswer} (hadmitted : gateway.checkSequence command.sequence = .ok ())
      (hcall : gateway.call (commandCall N command) = some (answer, middle))
      (hrest : Applied N middle commands gateway') : Applied N gateway (command :: commands) gateway'

/-- A history in two parts. -/
theorem applied_append :
    Applied N gateway (before ++ after) gateway' ↔
      ∃ middle, Applied N gateway before middle ∧ Applied N middle after gateway' := by
  induction before generalizing gateway with
  | nil =>
      constructor
      · exact fun h => ⟨gateway, .nil gateway, h⟩
      · rintro ⟨_, ⟨⟩, h⟩
        exact h
  | cons command before ih =>
      constructor
      · rintro (_ | ⟨hadmitted, hcall, hrest⟩)
        obtain ⟨middle, hbefore, hafter⟩ := ih.mp hrest
        exact ⟨middle, .cons hadmitted hcall hbefore, hafter⟩
      · rintro ⟨middle, _ | ⟨hadmitted, hcall, hbefore⟩, hafter⟩
        exact .cons hadmitted hcall (ih.mpr ⟨middle, hbefore, hafter⟩)

/-- A history determines the gateway: nothing in the calls is random. -/
theorem Applied.unique (h : Applied N gateway commands middle) (h' : Applied N gateway commands gateway') :
    middle = gateway' := by
  induction h with
  | nil =>
      cases h'
      rfl
  | cons _ hcall _ ih =>
      cases h' with
      | cons _ hcall' hrest' =>
          cases hcall.symm.trans hcall'
          exact ih hrest'

theorem Applied.sound (h : Applied N gateway commands gateway') (hsound : GatewaySound gateway) :
    GatewaySound gateway' := by
  induction h with
  | nil => exact hsound
  | cons _ hcall _ ih => exact ih (call_sound hsound hcall)

theorem Applied.canonical (h : Applied N gateway commands gateway') (hcanonical : GatewayCanonical gateway) :
    GatewayCanonical gateway' := by
  induction h with
  | nil => exact hcanonical
  | cons _ hcall _ ih => exact ih (call_canonical hcanonical hcall)

/-! ### One admitted command -/

/-- When a sequence number is admitted: it is the expected one, and there is
another after it. -/
theorem checkSequence_ok_iff {received : SequenceNumber} :
    gateway.checkSequence received = .ok () ↔
      received = gateway.expectedSequence ∧ gateway.expectedSequence.val + 1 < 2 ^ 64 := by
  unfold Gateway.checkSequence
  by_cases hreceived : received = gateway.expectedSequence
  · rw [if_neg (by simp [hreceived]), and_iff_right hreceived]
    have hbound := gateway.expectedSequence.isLt
    cases hnext : checkedAdd gateway.expectedSequence 1 with
    | none =>
        have hover : ¬gateway.expectedSequence.val + 1 < 2 ^ 64 := by
          intro hlt
          have hsome := checkedAdd_eq_some.mpr (show (⟨gateway.expectedSequence.val + 1, hlt⟩ : U64).val
            = gateway.expectedSequence.val + (1 : U64).val from rfl)
          rw [hnext] at hsome
          cases hsome
        exact ⟨fun h => (nomatch h), fun h => absurd h hover⟩
    | some next =>
        have hval := checkedAdd_eq_some.mp hnext
        rw [Fin.val_one] at hval
        have := next.isLt
        exact ⟨fun _ => by omega, fun _ => rfl⟩
  · rw [if_pos hreceived]
    exact ⟨fun h => (nomatch h), fun h => absurd h.1 hreceived⟩

/-- A result with which a command counts as applied: accepted, or rejected for
business reasons. -/
def Settled : Except GatewayError GatewayOutcome → Prop
  | .ok _ => True
  | .error (.risk _) => True
  | .error (.book _) => True
  | .error _ => False

/-- An admitted command is settled and takes one sequence number. -/
theorem admitted_call (hsound : GatewaySound gateway) (hadmitted : gateway.checkSequence command.sequence = .ok ())
    (hcall : gateway.call (commandCall N command) = some (answer, gateway')) :
    Settled answer.result ∧ gateway'.expectedSequence.val = gateway.expectedSequence.val + 1 := by
  obtain ⟨logical, rep, sound⟩ := hsound
  obtain ⟨logical', rep', hmoves⟩ := call_moves rep sound hcall
  obtain ⟨hsequence, hbound⟩ := checkSequence_ok_iff.mp hadmitted
  rw [rep.expectedSequence] at hsequence hbound ⊢
  rw [rep'.expectedSequence]
  have hcommand : (commandCall N command).command? = some command := rfl
  rw [hcommand] at hmoves
  cases hmoves with
  | unsequenced _ hother => exact absurd hsequence hother
  | exhausted _ _ hlast => omega
  | refused _ hnext herror _ =>
      refine ⟨?_, hnext⟩
      rcases herror with ⟨reason, rfl⟩ | ⟨reason, rfl⟩ <;> trivial
  | accepted _ hnext haccepted =>
      refine ⟨?_, hnext⟩
      rw [haccepted.answer_eq]
      trivial
  | cancelled _ hnext hcancelled =>
      refine ⟨?_, hnext⟩
      rw [hcancelled.answer_eq]
      trivial
  | replaced _ hnext hreplaced =>
      refine ⟨?_, hnext⟩
      rw [hreplaced.answer_eq]
      trivial

/-- Processing the frame of a command is processing the command. -/
theorem processFrame_encodeCommand (gateway : Gateway A R L O) (command : Command) (reports : ReportBuffer N) :
    gateway.processFrame (encodeCommand command) reports = gateway.processCommand command reports := by
  obtain ⟨message, hparse, hcommand, hsequence⟩ := parseMessage_encodeCommand command
  simp only [Gateway.processFrame, hparse, hsequence, hcommand, Gateway.processCommand]

/-! ### Journals -/

/-- The journal record of a command. -/
def recordOf (crc32c : List U8 → U32) (command : Command) : Except JournalError JournalRecord :=
  JournalRecord.new crc32c command.sequence (encodeCommand command)

/-- The journal of a history: one encoded record for each command. -/
def journalOf (crc32c : List U8 → U32) : List Command → Except JournalError (List U8)
  | [] => .ok []
  | command :: rest => do
      let record ← recordOf crc32c command
      let others ← journalOf crc32c rest
      pure (record.encode ++ others)

/-- Every command has a record, since every frame fits a payload. -/
theorem exists_recordOf (crc32c : List U8 → U32) (command : Command) :
    ∃ record, recordOf crc32c command = .ok record :=
  JournalRecord.exists_new _ (length_encodeCommand command)

/-- The chunks of bytes that begin with a whole chunk. -/
theorem chunksExact_append {size : Nat} (hsize : 0 < size) {chunk : List U8} (hchunk : chunk.length = size)
    (bytes : List U8) : chunksExact size (chunk ++ bytes) = chunk :: chunksExact size bytes := by
  have hcount : (chunk ++ bytes).length / size = bytes.length / size + 1 := by
    rw [List.length_append, hchunk, Nat.add_div_left _ hsize]
  unfold chunksExact
  rw [hcount, List.range_succ_eq_map, List.map_cons, List.map_map]
  congr 1
  · rw [field, Nat.zero_mul, List.drop_zero, ← hchunk, List.take_left]
  · refine List.map_congr_left fun index _ => ?_
    simp only [Function.comp_apply, field]
    rw [Nat.succ_mul, Nat.add_comm, ← hchunk, ← List.drop_drop, List.drop_left]

/-- The journal of a history begins with the record of its first command. -/
theorem journalOf_cons {journal : List U8} (h : journalOf crc32c (command :: commands) = .ok journal) :
    ∃ record others, recordOf crc32c command = .ok record ∧ journalOf crc32c commands = .ok others ∧
      journal = record.encode ++ others := by
  obtain ⟨record, hrecord, hrest⟩ := bind_eq_ok.mp h
  obtain ⟨others, hothers, hpure⟩ := bind_eq_ok.mp hrest
  cases hpure
  exact ⟨record, others, hrecord, hothers, rfl⟩

/-- Every history has a journal. -/
theorem exists_journalOf (crc32c : List U8 → U32) (commands : List Command) :
    ∃ journal, journalOf crc32c commands = .ok journal := by
  induction commands with
  | nil => exact ⟨[], rfl⟩
  | cons command rest ih =>
      obtain ⟨record, hrecord⟩ := exists_recordOf crc32c command
      obtain ⟨others, hothers⟩ := ih
      exact ⟨record.encode ++ others, bind_eq_ok.mpr ⟨record, hrecord, bind_eq_ok.mpr ⟨others, hothers, rfl⟩⟩⟩

/-- A journal is as long as its records; no part of it is left over when it is
cut into chunks. -/
theorem length_journalOf {journal : List U8} (h : journalOf crc32c commands = .ok journal) :
    journal.length = commands.length * recordSize := by
  induction commands generalizing journal with
  | nil =>
      cases h
      simp
  | cons command rest ih =>
      obtain ⟨record, others, _, hothers, rfl⟩ := journalOf_cons h
      rw [List.length_append, record.length_encode, ih hothers, List.length_cons]
      ring

/-! ### Replay -/

/-- A record at the expected sequence gives its frame. -/
theorem replayFrame_encode {record : JournalRecord} (h : recordOf crc32c command = .ok record) (index : Nat) :
    replayFrame crc32c index command.sequence record.encode = .ok (encodeCommand command) := by
  obtain ⟨hsequence, hslice, hverify⟩ := JournalRecord.of_new h
  obtain ⟨message, hparse, _, hmessage⟩ := parseMessage_encodeCommand command
  unfold replayFrame
  rw [if_neg (by simp [record.length_encode]), JournalRecord.decode_encode hverify]
  simp only [hsequence, hslice, hparse, hmessage, ne_eq, not_true_eq_false, if_false]

/-- A command that was settled when it was journaled is accepted by the replay,
refusals of risk and book included. -/
theorem replayOutcome_of_settled {result : Except GatewayError GatewayOutcome} (h : Settled result) :
    replayOutcome result = .ok () := by
  match result, h with
  | .ok _, _ => rfl
  | .error (.risk _), _ => rfl
  | .error (.book _), _ => rfl

/-- The successor of a sequence number that has one. -/
theorem nextSequence_of_bound {sequence next : U64} (h : next.val = sequence.val + 1) :
    nextSequence sequence = .ok next := by
  have hnext : checkedAdd sequence 1 = some next := checkedAdd_eq_some.mpr (by rw [h, Fin.val_one])
  rw [nextSequence, hnext]

/-- Gateways with the same content answer a command alike, whatever buffer it
is given. -/
theorem SameContent.processCommand (h : SameContent gateway restored) (reports : ReportBuffer N)
    (hcall : gateway.call (commandCall N command) = some (answer, gateway')) :
    ∃ restored' reports', restored.processCommand command reports = some (answer.result, restored', reports') ∧
      SameContent gateway' restored' := by
  obtain ⟨logical, rep, rep'⟩ := h
  have hcalls := rel_common (call_refines rep (commandCall N command)) (call_refines rep' (commandCall N command))
  rw [hcall] at hcalls
  -- the buffer is cleared first
  have hclear : restored.processCommand command reports
      = restored.processCommand command (ReportBuffer.empty : ReportBuffer N) := rfl
  rw [hclear]
  cases hprocessed : restored.processCommand command (ReportBuffer.empty : ReportBuffer N) with
  | none =>
      simp only [commandCall, Gateway.call, hprocessed, Option.map_none] at hcalls
      cases hcalls
  | some processed =>
      obtain ⟨result, restored', reports'⟩ := processed
      simp only [commandCall, Gateway.call, hprocessed, Option.map_some] at hcalls
      cases hcalls with
      | some hsame =>
          obtain ⟨hanswer, hcontent⟩ := hsame
          obtain rfl : answer.result = result := congrArg GatewayAnswer.result hanswer
          exact ⟨restored', reports', rfl, hcontent⟩

/-- Replaying the journal of a history on a gateway with the same content
follows the history. -/
theorem replayRecords_of_applied (happlied : Applied N gateway commands gateway') (hsound : GatewaySound gateway)
    (hsame : SameContent gateway restored) {journal : List U8} (hjournal : journalOf crc32c commands = .ok journal)
    (index : Nat) (reports : ReportBuffer N) :
    ∃ restored', Checked.Returns (replayRecords crc32c (chunksExact recordSize journal) index
        gateway.expectedSequence restored reports) restored' ∧ SameContent gateway' restored' := by
  induction happlied generalizing restored journal index reports with
  | nil =>
      cases hjournal
      exact ⟨restored, rfl, hsame⟩
  | cons hadmitted hcall hrest ih =>
      obtain ⟨record, others, hrecord, hothers, rfl⟩ := journalOf_cons hjournal
      obtain ⟨hsettled, hnext⟩ := admitted_call hsound hadmitted hcall
      obtain ⟨middle', reports', hprocessed, hcontent⟩ := hsame.processCommand reports hcall
      obtain ⟨hsequence, _⟩ := checkSequence_ok_iff.mp hadmitted
      obtain ⟨restored', hreplayed, hcontent'⟩ := ih (call_sound hsound hcall) hcontent hothers (index + 1) reports'
      refine ⟨restored', ?_, hcontent'⟩
      rw [chunksExact_append (by decide) record.length_encode, replayRecords]
      simp only [returns_bind_iff, returns_liftResult_iff, returns_unwrapped_iff, Prod.exists]
      refine ⟨_, hsequence ▸ replayFrame_encode hrecord index, _, middle', reports', ?_, (),
        replayOutcome_of_settled hsettled, _, nextSequence_of_bound hnext, hreplayed⟩
      rw [processFrame_encodeCommand, hprocessed]

/-- A snapshot that decodes, and the journal of the commands applied after it,
recover the content they lead to. -/
theorem recover_of_applied (hcanonical : GatewayCanonical middle) (happlied : Applied N middle after gateway)
    {applied : U64} {snapshot : Snapshot} (hencoded : encodeSnapshot sha256 middle applied = .ok snapshot)
    {decoded : DecodedSnapshot A R L O} (hdecodes : Checked.Returns (decodeSnapshot sha256 snapshot.bytes) decoded)
    {journal : List U8} (hjournal : journalOf crc32c after = .ok journal) :
    ∃ recovered : Gateway A R L O,
      Checked.Returns (recoverSnapshotAndTail crc32c sha256 N snapshot.bytes journal) recovered ∧
      SameContent gateway recovered := by
  obtain ⟨hrestored, hfollows⟩ := fromState_of_decoded hcanonical hencoded hdecodes
  obtain ⟨logical, rep, canonical⟩ := hcanonical
  have hnext : nextSequence decoded.appliedSequence = .ok middle.expectedSequence := by
    simp only [followsApplied, decide_eq_true_eq] at hfollows
    rw [nextSequence, hfollows]
  obtain ⟨recovered, hreplayed, hcontent⟩ := replayRecords_of_applied happlied ⟨logical, rep, canonical.sound⟩
    (sameContent_of_fromState rep hrestored) hjournal 0 (ReportBuffer.empty : ReportBuffer N)
  refine ⟨recovered, ?_, hcontent⟩
  unfold recoverSnapshotAndTail
  simp only [returns_bind_iff, returns_mapError_iff, returns_ensure_iff, returns_liftResult_iff]
  refine ⟨decoded, hdecodes, (), ?_, _, hnext, hreplayed⟩
  rw [length_journalOf hjournal, Nat.mul_mod_left]

/-- Whatever the checksum and the hash, a decodable snapshot taken after the
first commands of a history and the journal of the others recover a gateway
that exports the same state, expects the same sequence and cannot be told from
the gateway that processed the whole history. -/
theorem recovery_equals_replay (crc32c : List U8 → U32) (sha256 : List U8 → Digest) {risk : RiskEngine A R}
    (hconfigured : Configured risk) (instrument : InstrumentId)
    (hwhole : Applied N (Gateway.new risk instrument : Gateway A R L O) (before ++ after) gateway)
    (hbefore : Applied N (Gateway.new risk instrument : Gateway A R L O) before middle) {applied : U64}
    {snapshot : Snapshot} (hencoded : encodeSnapshot sha256 middle applied = .ok snapshot)
    {decoded : DecodedSnapshot A R L O} (hdecodes : Checked.Returns (decodeSnapshot sha256 snapshot.bytes) decoded) :
    ∃ journal, journalOf crc32c after = .ok journal ∧ ∃ recovered : Gateway A R L O,
      Checked.Returns (recoverSnapshotAndTail crc32c sha256 N snapshot.bytes journal) recovered ∧
      recovered.exportState = gateway.exportState ∧ recovered.expectedSequence = gateway.expectedSequence ∧
      ∀ calls, (run Gateway.observed gateway calls).map Prod.fst
        = (run Gateway.observed recovered calls).map Prod.fst := by
  obtain ⟨middle', hfirst, hafter⟩ := applied_append.mp hwhole
  obtain rfl := hfirst.unique hbefore
  obtain ⟨state, rep, fresh⟩ := hconfigured.ledger
  have hcanonical : GatewayCanonical middle' :=
    hbefore.canonical ⟨_, gatewayRep_new rep instrument, canonical_new rep fresh instrument⟩
  obtain ⟨journal, hjournal⟩ := exists_journalOf crc32c after
  obtain ⟨recovered, hrecovered, hcontent⟩ := recover_of_applied hcanonical hafter hencoded hdecodes hjournal
  have hstate := hcontent.exportState_eq
  exact ⟨journal, hjournal, recovered, hrecovered, hstate.symm,
    (congrArg GatewayState.expectedSequence hstate).symm, hcontent.run_observed⟩

/-- The offer of 5 at 10 and its amend to 8 at 15, as commands. -/
def offerCommand : Command := .newOrder ⟨1, 1, 7, i64 10, 5, 1, .sell, .gtc⟩
def amendCommand : Command := .replaceOrder ⟨1, 1, 7, 2, i64 15, 8⟩

/-- A snapshot between the offer and its amend recovers the gateway with the
amended offer. -/
theorem recovery_equals_replay_sample : ∃ gateway middle recovered : Gateway 1 1 1 1,
    ∃ snapshot journal,
    Applied 1 tightGateway ([offerCommand] ++ [amendCommand]) gateway ∧
    encodeSnapshot countingHash middle 1 = .ok snapshot ∧ journalOf (fun _ => 0) [amendCommand] = .ok journal ∧
    Checked.Returns (recoverSnapshotAndTail (fun _ => 0) countingHash 1 snapshot.bytes journal) recovered ∧
    recovered.exportState = gateway.exportState := by
  obtain ⟨⟨_, middle⟩, hoffer, hadmitted, hamend, hdecodes⟩ := exists_of_any (tightGateway.call (commandCall 1 offerCommand))
    (fun result => result.2.checkSequence amendCommand.sequence = .ok () ∧
      (result.2.call (commandCall 1 amendCommand)).isSome = true ∧ snapshotDecodes countingHash result.2 1 = true)
    (by decide +kernel)
  obtain ⟨⟨_, gateway⟩, hcall⟩ := Option.isSome_iff_exists.mp hamend
  obtain ⟨snapshot, decoded, hencoded, hdecoded⟩ := exists_of_snapshotDecodes hdecodes
  have hfirst : Applied 1 tightGateway [offerCommand] middle := .cons rfl hoffer (.nil middle)
  have hwhole : Applied 1 tightGateway ([offerCommand] ++ [amendCommand]) gateway :=
    .cons rfl hoffer (.cons hadmitted hcall (.nil gateway))
  obtain ⟨journal, hjournal, recovered, hrecovered, hstate, _⟩ := recovery_equals_replay (fun _ => 0) countingHash
    (.registerAccount _ _ .new) 7 hwhole hfirst hencoded hdecoded
  exact ⟨gateway, middle, recovered, snapshot, journal, hwhole, hencoded, hjournal, hrecovered, hstate⟩

end HftEngine
