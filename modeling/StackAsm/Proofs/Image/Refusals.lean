import StackAsm.Proofs.Image.Codec

/-!
# Which bytes are refused

`Refused` says for every refusal what stands at the front of the bytes.  It has
one case for the magic number, one for the version, one for a header that is cut
short and one for the first instruction that cannot be read, and the reader of
images fails exactly in these cases.

A refusal for any other reason than a lack of bytes is final: it stays whatever
follows.  Where bytes are lacking behind the magic number, some more would make
an image.  So the bytes that lack more are the strict beginnings of images.
-/

set_option autoImplicit false

namespace StackAsm

def Opcode.operandWidth : Opcode → Nat
  | .push => 8
  | .jump | .jumpIfZero | .jumpIfNonZero | .call | .get | .set | .getArg | .setArg => 4
  | .noop | .print | .pop | .add | .sub | .mul | .div | .ret => 0

theorem Opcode.ofByte?_eq_none_iff (byte : UInt8) :
    ofByte? byte = none ↔ ∀ opcode : Opcode, opcode.toByte ≠ byte := by
  constructor
  · intro absent opcode same
    rw [← same, ofByte?_toByte] at absent
    cases absent
  · intro unused
    cases found : ofByte? byte with
    | none => rfl
    | some opcode => exact absurd (toByte_of_ofByte? found) (unused opcode)

namespace Image

/-! ## Operands -/

theorem readNumber_eq_error_iff {width : Nat} {bytes : Bytes} {error : DecodeError} :
    readNumber width bytes = .error error ↔ bytes.length < width ∧ error = .truncated := by
  unfold readNumber Bytes.readNat?
  by_cases enough : width ≤ bytes.length
  · have notShort : ¬ bytes.length < width := by omega
    simp [enough, notShort]
  · have short : bytes.length < width := by omega
    simp [enough, short, eq_comm]

theorem readPointer_eq_error_iff {make : Nat → Instruction} {bytes : Bytes}
    {error : DecodeError} :
    readPointer make bytes = .error error ↔ bytes.length < 4 ∧ error = .truncated := by
  rw [← readNumber_eq_error_iff, readPointer]
  cases readNumber 4 bytes <;> simp

theorem readValue_eq_error_iff {make : Value → Instruction} {bytes : Bytes}
    {error : DecodeError} :
    readValue make bytes = .error error ↔ bytes.length < 8 ∧ error = .truncated := by
  rw [← readNumber_eq_error_iff, readValue]
  cases readNumber 8 bytes <;> simp

theorem readOperand_eq_error_iff {opcode : Opcode} {bytes : Bytes} {error : DecodeError} :
    readOperand bytes opcode = .error error ↔
      bytes.length < opcode.operandWidth ∧ error = .truncated := by
  cases opcode with
  | push => exact readValue_eq_error_iff
  | jump | jumpIfZero | jumpIfNonZero | call | get | set | getArg | setArg =>
    exact readPointer_eq_error_iff
  | noop | print | pop | add | sub | mul | div | ret =>
    simp [readOperand, Opcode.operandWidth]

theorem length_of_encodeOperand {instruction : Instruction} {operand : Bytes}
    (written : encodeOperand instruction = ⟨operand, none⟩) :
    operand.length = instruction.opcode.operandWidth := by
  cases instruction with
  | push value =>
    obtain rfl : Bytes.bigEndian 8 value.toUInt64.toNat = operand := by
      simpa [encodeOperand] using written
    exact Bytes.length_bigEndian 8 _
  | jump pointer | jumpIfZero pointer | jumpIfNonZero pointer | call pointer | get pointer
  | set pointer | getArg pointer | setArg pointer =>
    obtain ⟨_, rfl⟩ := encodePointer_eq_whole_iff.mp written
    exact Bytes.length_bigEndian 4 pointer
  | noop | print | pop | add | sub | mul | div | ret =>
    obtain rfl : [] = operand := congrArg Written.bytes written
    rfl

theorem exists_encodeOperand {opcode : Opcode} {operand : Bytes}
    (length : operand.length = opcode.operandWidth) :
    ∃ instruction, instruction.opcode = opcode ∧ encodeOperand instruction = ⟨operand, none⟩ := by
  cases read : readOperand operand opcode with
  | error error =>
    have short := (readOperand_eq_error_iff.mp read).1
    omega
  | ok reading =>
    obtain ⟨instruction, rest⟩ := reading
    obtain ⟨rfl, front, written, rfl⟩ := readOperand_writes read
    have same := length_of_encodeOperand written
    rw [List.length_append] at length
    obtain rfl : rest = [] := List.eq_nil_of_length_eq_zero (by omega)
    rw [List.append_nil]
    exact ⟨instruction, rfl, written⟩

/-! ## Instructions -/

/-- Bytes at whose front no instruction stands, and why. -/
inductive NoInstruction (index : Nat) : Bytes → DecodeError → Prop where
  | missing : NoInstruction index [] .truncated
  | unknown {byte : UInt8} (unused : ∀ opcode : Opcode, opcode.toByte ≠ byte) (rest : Bytes) :
      NoInstruction index (byte :: rest) (.unknownOpcode byte index)
  | cut {opcode : Opcode} {operand : Bytes} (short : operand.length < opcode.operandWidth) :
      NoInstruction index (opcode.toByte :: operand) .truncated

theorem readInstruction_eq_error_iff {index : Nat} {bytes : Bytes} {error : DecodeError} :
    readInstruction index bytes = .error error ↔ NoInstruction index bytes error := by
  constructor
  · intro failed
    cases bytes with
    | nil =>
      cases failed
      exact .missing
    | cons byte rest =>
      cases found : Opcode.ofByte? byte with
      | none =>
        simp only [readInstruction, readByte, found, Except.error.injEq] at failed
        subst failed
        exact .unknown ((Opcode.ofByte?_eq_none_iff byte).mp found) rest
      | some opcode =>
        simp only [readInstruction, readByte, found] at failed
        obtain ⟨short, rfl⟩ := readOperand_eq_error_iff.mp failed
        rw [← Opcode.toByte_of_ofByte? found]
        exact .cut short
  · intro absent
    cases absent with
    | missing => rfl
    | unknown unused rest =>
      simp [readInstruction, readByte, (Opcode.ofByte?_eq_none_iff _).mpr unused]
    | cut short =>
      simp only [readInstruction, readByte, Opcode.ofByte?_toByte]
      exact readOperand_eq_error_iff.mpr ⟨short, rfl⟩

/-- A lack of bytes in an instruction can be made good. -/
theorem NoInstruction.completes {index : Nat} {bytes : Bytes}
    (absent : NoInstruction index bytes .truncated) :
    ∃ instruction more, more ≠ [] ∧ encodeInstruction instruction = ⟨bytes ++ more, none⟩ := by
  cases absent with
  | missing => exact ⟨.noop, [Opcode.noop.toByte], List.cons_ne_nil _ _, rfl⟩
  | @cut opcode operand short =>
    have filled : (operand ++ List.replicate (opcode.operandWidth - operand.length) 0).length =
        opcode.operandWidth := by
      rw [List.length_append, List.length_replicate]
      omega
    obtain ⟨instruction, rfl, written⟩ := exists_encodeOperand filled
    refine ⟨instruction, _, ?_, encodeInstruction_eq_whole_iff.mpr ⟨_, written, rfl⟩⟩
    intro empty
    have nothing := congrArg List.length empty
    rw [List.length_replicate, List.length_nil] at nothing
    omega

theorem Written.andThen_assoc (first second third : Written) :
    (first.andThen second).andThen third = first.andThen (second.andThen third) := by
  obtain ⟨front, failure⟩ := first
  obtain ⟨middle, secondFailure⟩ := second
  cases failure with
  | some error => rfl
  | none =>
    cases secondFailure with
    | some error => rfl
    | none => simp [andThen]

theorem encodeInstructions_append (first second : List Instruction) :
    encodeInstructions (first ++ second) =
      (encodeInstructions first).andThen (encodeInstructions second) := by
  induction first with
  | nil => rfl
  | cons instruction rest ih =>
    rw [List.cons_append, encodeInstructions, encodeInstructions, ih, Written.andThen_assoc]

theorem encodeInstructions_replicate_noop (count : Nat) :
    encodeInstructions (List.replicate count .noop) =
      ⟨List.replicate count Opcode.noop.toByte, none⟩ := by
  induction count with
  | zero => rfl
  | succ count ih =>
    rw [List.replicate_succ, encodeInstructions, ih]
    rfl

/-- A number of instructions is not read when fewer of them are complete and no
instruction stands after these. -/
theorem readInstructions_eq_error_iff {done : Array Instruction} {count : Nat} {bytes : Bytes}
    {error : DecodeError} :
    readInstructions done count bytes = .error error ↔
      ∃ instructions front rest, instructions.length < count ∧
        encodeInstructions instructions = ⟨front, none⟩ ∧ bytes = front ++ rest ∧
          NoInstruction (done.size + instructions.length) rest error := by
  induction count generalizing done bytes with
  | zero => simp [readInstructions]
  | succ count ih =>
    have placed : ∀ instruction (later : List Instruction),
        done.size + (instruction :: later).length =
          (done.push instruction).size + later.length := by
      intro instruction later
      rw [List.length_cons, Array.size_push]
      omega
    rw [readInstructions]
    constructor
    · intro failed
      cases call : readInstruction done.size bytes with
      | error cause =>
        simp only [call, Except.error.injEq] at failed
        subst failed
        exact ⟨[], [], bytes, Nat.succ_pos count, rfl, rfl, readInstruction_eq_error_iff.mp call⟩
      | ok reading =>
        obtain ⟨instruction, later⟩ := reading
        simp only [call] at failed
        obtain ⟨head, writtenHead, rfl⟩ := readInstruction_eq_ok_iff.mp call
        obtain ⟨instructions, tail, rest, fewer, writtenTail, rfl, absent⟩ := ih.mp failed
        rw [← placed] at absent
        refine ⟨instruction :: instructions, head ++ tail, rest, ?_, ?_, by simp, absent⟩
        · rw [List.length_cons]
          omega
        · exact Written.andThen_eq_whole_iff.mpr ⟨head, tail, writtenHead, writtenTail, rfl⟩
    · intro stops
      obtain ⟨instructions, front, rest, fewer, written, rfl, absent⟩ := stops
      cases instructions with
      | nil =>
        obtain rfl : [] = front := congrArg Written.bytes written
        have failed := readInstruction_eq_error_iff.mpr absent
        rw [List.length_nil, Nat.add_zero] at failed
        rw [List.nil_append, failed]
      | cons instruction later =>
        obtain ⟨head, tail, writtenHead, writtenTail, rfl⟩ :=
          Written.andThen_eq_whole_iff.mp written
        have read : readInstruction done.size (head ++ (tail ++ rest)) =
            .ok (instruction, tail ++ rest) :=
          readInstruction_eq_ok_iff.mpr ⟨head, writtenHead, rfl⟩
        rw [List.append_assoc, read]
        have fewerLater : later.length < count := by
          rw [List.length_cons] at fewer
          omega
        rw [placed] at absent
        exact ih.mpr ⟨later, tail, rest, fewerLater, writtenTail, rfl, absent⟩

/-! ## The header -/

theorem readMagic_eq_error_iff {bytes : Bytes} {error : DecodeError} :
    readMagic bytes = .error error ↔
      bytes.length < magic.length ∧ error = .truncated ∨
        magic.length ≤ bytes.length ∧ bytes.take magic.length ≠ magic ∧ error = .badMagic := by
  unfold readMagic
  by_cases short : bytes.length < magic.length
  · have notLong : ¬ magic.length ≤ bytes.length := by omega
    simp [short, notLong, eq_comm]
  · have long : magic.length ≤ bytes.length := by omega
    by_cases same : bytes.take magic.length = magic
    · simp [short, same]
    · simp [short, long, same, eq_comm]

theorem readVersion_eq_error_iff {bytes : Bytes} {error : DecodeError} :
    readVersion bytes = .error error ↔
      (bytes = [] ∨ ∃ rest, bytes = version :: rest ∧ rest.length < 3) ∧ error = .truncated ∨
        ∃ major rest, bytes = major :: rest ∧ major ≠ version ∧
          error = .unsupportedVersion major := by
  cases bytes with
  | nil => simp [readVersion, readByte, eq_comm]
  | cons major rest =>
    by_cases supported : major = version
    · subst supported
      cases call : readNumber 3 rest with
      | error cause =>
        obtain ⟨short, rfl⟩ := readNumber_eq_error_iff.mp call
        simp [readVersion, readByte, call, short, eq_comm]
      | ok reading =>
        have enough : ¬ rest.length < 3 := by
          intro short
          rw [readNumber_eq_error_iff.mpr ⟨short, rfl⟩] at call
          cases call
        simp [readVersion, readByte, call, enough]
    · simp [readVersion, readByte, supported, eq_comm]

def header (minor patchHigh patchLow : UInt8) (count : Nat) : Bytes :=
  magic ++ version :: minor :: patchHigh :: patchLow :: Bytes.bigEndian 4 count

theorem exists_header {rest : Bytes} (length : rest.length = 7) :
    ∃ minor patchHigh patchLow count, count < 0x100000000 ∧
      magic ++ version :: rest = header minor patchHigh patchLow count := by
  obtain ⟨minor, patchHigh, patchLow, number, rfl⟩ :
      ∃ minor patchHigh patchLow number, rest = minor :: patchHigh :: patchLow :: number := by
    match rest with
    | minor :: patchHigh :: patchLow :: number => exact ⟨minor, patchHigh, patchLow, number, rfl⟩
  have four : number.length = 4 := by simpa using length
  have small := Bytes.toNat_lt number
  have written := Bytes.bigEndian_toNat number
  rw [four] at small written
  exact ⟨minor, patchHigh, patchLow, Bytes.toNat number, small, by rw [header, written]⟩

/-! ## Whole images -/

/-- Bytes that are refused, and why. -/
inductive Refused : Bytes → DecodeError → Prop where
  | short {bytes : Bytes} (lacking : bytes.length < magic.length) : Refused bytes .truncated
  | magic {bytes : Bytes} (enough : magic.length ≤ bytes.length)
      (other : bytes.take magic.length ≠ magic) : Refused bytes .badMagic
  | version {major : UInt8} (other : major ≠ version) (rest : Bytes) :
      Refused (magic ++ major :: rest) (.unsupportedVersion major)
  | header {rest : Bytes} (supported : ∀ major ∈ rest.head?, major = version)
      (lacking : rest.length < 8) : Refused (magic ++ rest) .truncated
  | instruction (minor patchHigh patchLow : UInt8) {count : Nat}
      {instructions : List Instruction} {front rest : Bytes} {error : DecodeError}
      (counted : count < 0x100000000) (fewer : instructions.length < count)
      (written : encodeInstructions instructions = ⟨front, none⟩)
      (absent : NoInstruction instructions.length rest error) :
      Refused (header minor patchHigh patchLow count ++ (front ++ rest)) error

theorem decode_of_magic (rest : Bytes) :
    decode (magic ++ rest) =
      match readVersion rest with
      | .error error => .error error
      | .ok rest =>
        match readNumber 4 rest with
        | .error error => .error error
        | .ok (count, rest) => readInstructions #[] count rest := by
  rewrite [decode, readMagic_eq_ok_iff.mpr rfl]
  rfl

theorem decode_of_version (minor patchHigh patchLow : UInt8) (rest : Bytes) :
    decode (magic ++ version :: minor :: patchHigh :: patchLow :: rest) =
      match readNumber 4 rest with
      | .error error => .error error
      | .ok (count, rest) => readInstructions #[] count rest := by
  have versionRead : readVersion (version :: minor :: patchHigh :: patchLow :: rest) = .ok rest :=
    readVersion_eq_ok_iff.mpr ⟨minor, patchHigh, patchLow, rfl⟩
  rewrite [decode_of_magic, versionRead]
  rfl

theorem decode_of_header (minor patchHigh patchLow : UInt8) {count : Nat}
    (counted : count < 0x100000000) (rest : Bytes) :
    decode (header minor patchHigh patchLow count ++ rest) = readInstructions #[] count rest := by
  have countRead : readNumber 4 (Bytes.bigEndian 4 count ++ rest) = .ok (count, rest) :=
    readNumber_eq_ok_iff.mpr ⟨counted, rfl⟩
  rw [header, List.append_assoc]
  simp only [List.cons_append, decode_of_version, countRead]

theorem refused_of_version {minor patchHigh patchLow : UInt8} {rest : Bytes}
    {error : DecodeError}
    (failed : decode (magic ++ version :: minor :: patchHigh :: patchLow :: rest) =
      .error error) :
    Refused (magic ++ version :: minor :: patchHigh :: patchLow :: rest) error := by
  rw [decode_of_version] at failed
  cases countCall : readNumber 4 rest with
  | error cause =>
    simp only [countCall, Except.error.injEq] at failed
    subst failed
    obtain ⟨lacking, rfl⟩ := readNumber_eq_error_iff.mp countCall
    refine .header (by simp) ?_
    simp only [List.length_cons]
    omega
  | ok reading =>
    obtain ⟨count, afterCount⟩ := reading
    simp only [countCall] at failed
    obtain ⟨counted, rfl⟩ := readNumber_eq_ok_iff.mp countCall
    obtain ⟨instructions, front, later, fewer, written, rfl, absent⟩ :=
      readInstructions_eq_error_iff.mp failed
    rw [Array.size_empty, Nat.zero_add] at absent
    have stops := Refused.instruction minor patchHigh patchLow counted fewer written absent
    simpa [header] using stops

theorem decode_of_cutHeader {rest : Bytes} (supported : ∀ major ∈ rest.head?, major = version)
    (lacking : rest.length < 8) : decode (magic ++ rest) = .error .truncated := by
  cases versionCall : readVersion rest with
  | error cause =>
    rw [decode_of_magic, versionCall]
    obtain ⟨_, rfl⟩ | ⟨major, later, rfl, other, rfl⟩ := readVersion_eq_error_iff.mp versionCall
    · rfl
    · exact absurd (supported major rfl) other
  | ok afterVersion =>
    obtain ⟨minor, patchHigh, patchLow, rfl⟩ := readVersion_eq_ok_iff.mp versionCall
    have lackingCount : afterVersion.length < 4 := by
      simp only [List.length_cons] at lacking
      omega
    rw [decode_of_version, readNumber_eq_error_iff.mpr ⟨lackingCount, rfl⟩]

/-- Bytes are refused exactly in the cases of `Refused`. -/
theorem decode_eq_error_iff {bytes : Bytes} {error : DecodeError} :
    decode bytes = .error error ↔ Refused bytes error := by
  constructor
  · intro failed
    cases magicCall : readMagic bytes with
    | error cause =>
      simp only [decode, magicCall, Except.error.injEq] at failed
      subst failed
      obtain ⟨lacking, rfl⟩ | ⟨enough, other, rfl⟩ := readMagic_eq_error_iff.mp magicCall
      · exact .short lacking
      · exact .magic enough other
    | ok afterMagic =>
      obtain rfl := readMagic_eq_ok_iff.mp magicCall
      cases versionCall : readVersion afterMagic with
      | error cause =>
        simp only [decode_of_magic, versionCall, Except.error.injEq] at failed
        subst failed
        obtain ⟨rfl | ⟨rest, rfl, lacking⟩, rfl⟩ | ⟨major, rest, rfl, other, rfl⟩ :=
          readVersion_eq_error_iff.mp versionCall
        · exact .header (by simp) (by simp)
        · refine .header (by simp) ?_
          rw [List.length_cons]
          omega
        · exact .version other rest
      | ok afterVersion =>
        obtain ⟨minor, patchHigh, patchLow, rfl⟩ := readVersion_eq_ok_iff.mp versionCall
        exact refused_of_version failed
  · intro refused
    cases refused with
    | short lacking => simp [decode, readMagic_eq_error_iff.mpr (.inl ⟨lacking, rfl⟩)]
    | magic enough other =>
      simp [decode, readMagic_eq_error_iff.mpr (.inr ⟨enough, other, rfl⟩)]
    | version other rest =>
      rw [decode_of_magic, readVersion_eq_error_iff.mpr (.inr ⟨_, rest, rfl, other, rfl⟩)]
    | header supported lacking => exact decode_of_cutHeader supported lacking
    | @instruction minor patchHigh patchLow count instructions front rest error counted fewer
        written absent =>
      rw [decode_of_header minor patchHigh patchLow counted]
      refine readInstructions_eq_error_iff.mpr ⟨instructions, front, rest, fewer, written, rfl, ?_⟩
      rwa [Array.size_empty, Nat.zero_add]

/-- Bytes refused for another reason than a lack of bytes are refused for the
same reason whatever follows. -/
theorem Refused.append {bytes : Bytes} {error : DecodeError} (refused : Refused bytes error)
    (final : error ≠ .truncated) (more : Bytes) : Refused (bytes ++ more) error := by
  cases refused with
  | short | header => exact absurd rfl final
  | magic enough other =>
    refine .magic ?_ ?_
    · rw [List.length_append]
      omega
    · rwa [List.take_append_of_le_length enough]
  | version other rest =>
    rw [List.append_assoc, List.cons_append]
    exact .version other (rest ++ more)
  | instruction minor patchHigh patchLow counted fewer written absent =>
    rw [List.append_assoc, List.append_assoc]
    refine .instruction minor patchHigh patchLow counted fewer written ?_
    cases absent with
    | missing | cut => exact absurd rfl final
    | unknown unused rest => exact .unknown unused (rest ++ more)

/-- Complete instructions that are fewer than counted become an image when
instructions without effect fill up their number. -/
theorem decode_filled (minor patchHigh patchLow : UInt8) {count : Nat}
    {instructions : List Instruction} {front : Bytes} (counted : count < 0x100000000)
    (fewer : instructions.length ≤ count)
    (written : encodeInstructions instructions = ⟨front, none⟩) :
    ∃ program, decode (header minor patchHigh patchLow count ++
      (front ++ List.replicate (count - instructions.length) Opcode.noop.toByte)) =
        .ok (program, []) := by
  rw [decode_of_header minor patchHigh patchLow counted]
  refine ⟨_, readInstructions_eq_ok_iff.mpr
    ⟨instructions ++ List.replicate (count - instructions.length) .noop, _, ?_, rfl, ?_,
      (List.append_nil _).symm⟩⟩
  · rw [List.length_append, List.length_replicate]
    omega
  · rw [encodeInstructions_append, written, encodeInstructions_replicate_noop]
    rfl

theorem exists_filling {rest : Bytes} (supported : ∀ major ∈ rest.head?, major = version)
    (lacking : rest.length < 8) :
    ∃ filling later, rest ++ filling = version :: later ∧ later.length = 7 := by
  cases rest with
  | nil => exact ⟨version :: List.replicate 7 0, List.replicate 7 0, rfl, rfl⟩
  | cons major later =>
    obtain rfl := supported major rfl
    refine ⟨List.replicate (7 - later.length) 0, later ++ List.replicate (7 - later.length) 0,
      rfl, ?_⟩
    rw [List.length_append, List.length_replicate]
    rw [List.length_cons] at lacking
    omega

/-- A lack of bytes behind the magic number can be made good. -/
theorem Refused.completes {bytes : Bytes} (refused : Refused bytes .truncated)
    (enough : Image.magic.length ≤ bytes.length) :
    ∃ more program, more ≠ [] ∧ decode (bytes ++ more) = .ok (program, []) := by
  cases refused with
  | short lacking => omega
  | @header rest supported lacking =>
    obtain ⟨filling, later, filled, length⟩ := exists_filling supported lacking
    obtain ⟨minor, patchHigh, patchLow, count, counted, whole⟩ := exists_header length
    have nothing : encodeInstructions [] = ⟨[], none⟩ := rfl
    have fewer : ([] : List Instruction).length ≤ count := Nat.zero_le count
    obtain ⟨program, decoded⟩ := decode_filled minor patchHigh patchLow counted fewer nothing
    refine ⟨filling ++ List.replicate count Opcode.noop.toByte, program, ?_, ?_⟩
    · intro empty
      have counts := congrArg List.length filled
      rw [(List.append_eq_nil_iff.mp empty).1, List.append_nil, List.length_cons] at counts
      omega
    · rw [List.append_assoc, ← List.append_assoc rest, filled, ← List.append_assoc, whole]
      exact decoded
  | @instruction minor patchHigh patchLow count instructions front rest _ counted fewer written
      absent =>
    obtain ⟨instruction, more, visible, completed⟩ := absent.completes
    have extended : encodeInstructions (instructions ++ [instruction]) =
        ⟨front ++ (rest ++ more), none⟩ := by
      rw [encodeInstructions_append, written, encodeInstructions, completed]
      simp [encodeInstructions, Written.andThen]
    have enoughCounted : (instructions ++ [instruction]).length ≤ count := by
      rw [List.length_append, List.length_singleton]
      omega
    obtain ⟨program, decoded⟩ :=
      decode_filled minor patchHigh patchLow counted enoughCounted extended
    refine ⟨more ++ List.replicate (count - (instructions ++ [instruction]).length)
      Opcode.noop.toByte, program, ?_, ?_⟩
    · intro empty
      exact visible (List.append_eq_nil_iff.mp empty).1
    · rw [← decoded]
      simp only [List.append_assoc]

/-! ## Beginnings of images -/

theorem decode_consumed {bytes rest : Bytes} {program : Program}
    (decoded : decode bytes = .ok (program, rest)) :
    decode (consumed bytes rest) = .ok (program, []) := by
  obtain ⟨_, minor, patchHigh, patchLow, body, written, image⟩ := consumed_of_decode decoded
  rw [image]
  exact decode_eq_ok_iff.mpr ⟨minor, patchHigh, patchLow, body, written, by simp⟩

theorem decode_append {bytes rest : Bytes} {program : Program}
    (decoded : decode bytes = .ok (program, rest)) (more : Bytes) :
    decode (bytes ++ more) = .ok (program, rest ++ more) := by
  obtain ⟨minor, patchHigh, patchLow, body, written, rfl⟩ := decode_eq_ok_iff.mp decoded
  exact decode_eq_ok_iff.mpr ⟨minor, patchHigh, patchLow, body, written, by simp⟩

/-- A strict beginning of an image lacks bytes. -/
theorem decode_of_beginning {image part : Bytes} {program : Program}
    (decoded : decode image = .ok (program, [])) (begins : part <+: image)
    (strict : part ≠ image) : decode part = .error .truncated := by
  obtain ⟨more, rfl⟩ := begins
  have visible : more ≠ [] := by
    intro empty
    rw [empty, List.append_nil] at strict
    exact strict rfl
  cases result : decode part with
  | ok reading =>
    obtain ⟨other, rest⟩ := reading
    rw [decode_append result more] at decoded
    have unread : rest ++ more = [] := (Prod.mk.inj (Except.ok.inj decoded)).2
    exact absurd (List.append_eq_nil_iff.mp unread).2 visible
  | error error =>
    by_cases lacking : error = .truncated
    · rw [lacking]
    · have final := (decode_eq_error_iff.mp result).append lacking more
      rw [decode_eq_error_iff.mpr final] at decoded
      cases decoded

/-! ## The four refusals -/

theorem decode_eq_badMagic_iff (bytes : Bytes) :
    decode bytes = .error .badMagic ↔
      magic.length ≤ bytes.length ∧ bytes.take magic.length ≠ magic := by
  rw [decode_eq_error_iff]
  constructor
  · intro refused
    cases refused with
    | magic enough other => exact ⟨enough, other⟩
    | instruction _ _ _ _ _ _ absent => cases absent
  · intro stands
    exact .magic stands.1 stands.2

theorem decode_eq_unsupportedVersion_iff (bytes : Bytes) (major : UInt8) :
    decode bytes = .error (.unsupportedVersion major) ↔
      major ≠ version ∧ ∃ rest, bytes = magic ++ major :: rest := by
  rw [decode_eq_error_iff]
  constructor
  · intro refused
    cases refused with
    | version other rest => exact ⟨other, rest, rfl⟩
    | instruction _ _ _ _ _ _ absent => cases absent
  · intro stands
    obtain ⟨other, rest, rfl⟩ := stands
    exact .version other rest

/-- A whole header that counts more instructions than the given ones, these
instructions, and a byte after them. -/
def StandsAfter (bytes : Bytes) (instructions : List Instruction) (byte : UInt8) : Prop :=
  ∃ minor patchHigh patchLow count front rest,
    count < 0x100000000 ∧ instructions.length < count ∧
      encodeInstructions instructions = ⟨front, none⟩ ∧
        bytes = header minor patchHigh patchLow count ++ (front ++ byte :: rest)

theorem decode_eq_unknownOpcode_iff (bytes : Bytes) (byte : UInt8) (index : Nat) :
    decode bytes = .error (.unknownOpcode byte index) ↔
      (∀ opcode : Opcode, opcode.toByte ≠ byte) ∧
        ∃ instructions, instructions.length = index ∧ StandsAfter bytes instructions byte := by
  rw [decode_eq_error_iff]
  constructor
  · intro refused
    cases refused with
    | instruction minor patchHigh patchLow counted fewer written absent =>
      cases absent with
      | unknown unused rest =>
        exact ⟨unused, _, rfl, minor, patchHigh, patchLow, _, _, rest, counted, fewer, written,
          rfl⟩
  · intro stands
    obtain ⟨unused, instructions, rfl, minor, patchHigh, patchLow, count, front, rest, counted,
      fewer, written, rfl⟩ := stands
    exact .instruction minor patchHigh patchLow counted fewer written (.unknown unused rest)

theorem decode_eq_truncated_iff (bytes : Bytes) :
    decode bytes = .error .truncated ↔
      bytes.length < magic.length ∨
        ∃ whole program rest, decode whole = .ok (program, rest) ∧
          bytes <+: consumed whole rest ∧ bytes ≠ consumed whole rest := by
  constructor
  · intro failed
    by_cases short : bytes.length < magic.length
    · exact .inl short
    · obtain ⟨more, program, visible, decoded⟩ :=
        (decode_eq_error_iff.mp failed).completes (by omega)
      have whole := consumed_append (bytes ++ more) []
      rw [List.append_nil] at whole
      refine .inr ⟨bytes ++ more, program, [], decoded, ?_, ?_⟩
      · rw [whole]
        exact List.prefix_append bytes more
      · rw [whole]
        intro same
        exact visible (List.self_eq_append_right.mp same)
  · intro lacks
    obtain short | ⟨whole, program, rest, decoded, begins, strict⟩ := lacks
    · exact decode_eq_error_iff.mpr (.short short)
    · exact decode_of_beginning (decode_consumed decoded) begins strict

/-- Bytes are refused in exactly four ways.  Those that lack more bytes are too
short for the magic number or are a strict beginning of an image.  So no image
that was cut short is read as a shorter program. -/
theorem decode_refuses (bytes : Bytes) :
    (decode bytes = .error .badMagic ↔
        magic.length ≤ bytes.length ∧ bytes.take magic.length ≠ magic) ∧
      (∀ major, decode bytes = .error (.unsupportedVersion major) ↔
        major ≠ version ∧ ∃ rest, bytes = magic ++ major :: rest) ∧
      (∀ byte index, decode bytes = .error (.unknownOpcode byte index) ↔
        (∀ opcode : Opcode, opcode.toByte ≠ byte) ∧
          ∃ instructions, instructions.length = index ∧ StandsAfter bytes instructions byte) ∧
      (decode bytes = .error .truncated ↔
        bytes.length < magic.length ∨
          ∃ whole program rest, decode whole = .ok (program, rest) ∧
            bytes <+: consumed whole rest ∧ bytes ≠ consumed whole rest) ∧
      ∀ program rest, decode bytes = .ok (program, rest) →
        ∀ part, part <+: consumed bytes rest → part ≠ consumed bytes rest →
          decode part = .error .truncated := by
  refine ⟨decode_eq_badMagic_iff bytes, decode_eq_unsupportedVersion_iff bytes,
    decode_eq_unknownOpcode_iff bytes, decode_eq_truncated_iff bytes, ?_⟩
  intro program rest decoded part begins strict
  exact decode_of_beginning (decode_consumed decoded) begins strict

example :
    decode (header 0 0 0 2 ++ [0x11, 0x63, 0, 3]) = .error .truncated ∧
      decode (header 0 0 0 2 ++ [0x11, 0xEE, 0, 3]) = .error (.unknownOpcode 0xEE 1) :=
  ⟨rfl, rfl⟩

end Image

end StackAsm
