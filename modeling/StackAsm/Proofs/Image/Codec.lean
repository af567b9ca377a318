import StackAsm.Proofs.Image.BigEndian

/-!
# Images are read exactly where they were written

Each reader is the inverse of its writer: it accepts bytes exactly when they
begin with what the writer makes of the value read, and it leaves the bytes
after that.  Only the three bytes of the minor and patch version are read
without being looked at.  Hence a program that fits is read back from its image,
and an accepted image is the image of its program up to these three bytes.
-/

set_option autoImplicit false

namespace StackAsm.Image

/-! ## Writing one thing after another -/

theorem Written.andThen_eq_whole_iff {first next : Written} {bytes : Bytes} :
    first.andThen next = ⟨bytes, none⟩ ↔
      ∃ front back, first = ⟨front, none⟩ ∧ next = ⟨back, none⟩ ∧ bytes = front ++ back := by
  obtain ⟨front, failure⟩ := first
  obtain ⟨back, nextFailure⟩ := next
  cases failure with
  | some error => simp [andThen]
  | none =>
    simp only [andThen, mk.injEq, and_true]
    constructor
    · rintro ⟨rfl, rfl⟩
      exact ⟨front, back, rfl, ⟨rfl, rfl⟩, rfl⟩
    · rintro ⟨_, _, rfl, ⟨rfl, rfl⟩, rfl⟩
      exact ⟨rfl, rfl⟩

theorem Written.bounded_eq_whole_iff {n bound : Nat} {written bytes : Bytes}
    {error : EncodeError} :
    (if n < bound then (⟨written, none⟩ : Written) else ⟨[], some error⟩) = ⟨bytes, none⟩ ↔
      n < bound ∧ bytes = written := by
  split
  · rename_i fits
    simp [fits, eq_comm]
  · rename_i wide
    simp [wide]

theorem encodePointer_eq_whole_iff {operand : Nat} {bytes : Bytes} :
    encodePointer operand = ⟨bytes, none⟩ ↔
      operand < 0x100000000 ∧ bytes = Bytes.bigEndian 4 operand :=
  Written.bounded_eq_whole_iff

theorem encodeCount_eq_whole_iff {count : Nat} {bytes : Bytes} :
    encodeCount count = ⟨bytes, none⟩ ↔
      count < 0x100000000 ∧ bytes = Bytes.bigEndian 4 count :=
  Written.bounded_eq_whole_iff

theorem encodeInstruction_eq_whole_iff {instruction : Instruction} {bytes : Bytes} :
    encodeInstruction instruction = ⟨bytes, none⟩ ↔
      ∃ operand, encodeOperand instruction = ⟨operand, none⟩ ∧
        bytes = instruction.opcode.toByte :: operand := by
  rw [encodeInstruction, Written.andThen_eq_whole_iff]
  constructor
  · rintro ⟨front, operand, first, written, rfl⟩
    obtain rfl : [instruction.opcode.toByte] = front := by simpa using first
    exact ⟨operand, written, rfl⟩
  · rintro ⟨operand, written, rfl⟩
    exact ⟨_, operand, rfl, written, rfl⟩

/-! ## Operands -/

theorem readNumber_eq_ok_iff {width n : Nat} {bytes rest : Bytes} :
    readNumber width bytes = .ok (n, rest) ↔
      n < 256 ^ width ∧ bytes = Bytes.bigEndian width n ++ rest := by
  rw [← Bytes.readNat?_eq_some_iff, readNumber]
  cases Bytes.readNat? width bytes <;> simp

theorem readPointer_eq_ok_iff {make : Nat → Instruction} {bytes rest : Bytes}
    {instruction : Instruction} :
    readPointer make bytes = .ok (instruction, rest) ↔
      ∃ operand, operand < 0x100000000 ∧ make operand = instruction ∧
        bytes = Bytes.bigEndian 4 operand ++ rest := by
  have number : ∀ operand, readNumber 4 bytes = .ok (operand, rest) ↔
      operand < 0x100000000 ∧ bytes = Bytes.bigEndian 4 operand ++ rest :=
    fun _ => readNumber_eq_ok_iff
  rw [readPointer]
  constructor
  · intro read
    cases call : readNumber 4 bytes with
    | error error => simp [call] at read
    | ok reading =>
      obtain ⟨operand, later⟩ := reading
      simp only [call, Except.ok.injEq, Prod.mk.injEq] at read
      obtain ⟨made, rfl⟩ := read
      obtain ⟨fits, written⟩ := (number operand).mp call
      exact ⟨operand, fits, made, written⟩
  · rintro ⟨operand, fits, rfl, written⟩
    rw [(number operand).mpr ⟨fits, written⟩]

theorem readValue_eq_ok_iff {make : Value → Instruction} {bytes rest : Bytes}
    {instruction : Instruction} :
    readValue make bytes = .ok (instruction, rest) ↔
      ∃ value : Value, make value = instruction ∧
        bytes = Bytes.bigEndian 8 value.toUInt64.toNat ++ rest := by
  rw [readValue]
  constructor
  · intro read
    cases call : readNumber 8 bytes with
    | error error => simp [call] at read
    | ok reading =>
      obtain ⟨n, later⟩ := reading
      simp only [call, Except.ok.injEq, Prod.mk.injEq] at read
      obtain ⟨made, rfl⟩ := read
      obtain ⟨fits, written⟩ := readNumber_eq_ok_iff.mp call
      have same : ((UInt64.ofNat n).toInt64.toUInt64).toNat = n := by
        rw [UInt64.toUInt64_toInt64, UInt64.toNat_ofNat_of_lt' fits]
      exact ⟨_, made, by rw [same, written]⟩
  · rintro ⟨value, rfl, written⟩
    have fits : value.toUInt64.toNat < 256 ^ 8 := value.toUInt64.toNat_lt
    rw [readNumber_eq_ok_iff.mpr ⟨fits, written⟩]
    simp

theorem readPointer_writes {make : Nat → Instruction} {opcode : Opcode} {bytes rest : Bytes}
    {instruction : Instruction} (named : ∀ operand, (make operand).opcode = opcode)
    (carries : ∀ operand, encodeOperand (make operand) = encodePointer operand)
    (read : readPointer make bytes = .ok (instruction, rest)) :
    instruction.opcode = opcode ∧
      ∃ front, encodeOperand instruction = ⟨front, none⟩ ∧ bytes = front ++ rest := by
  obtain ⟨operand, fits, rfl, written⟩ := readPointer_eq_ok_iff.mp read
  refine ⟨named operand, Bytes.bigEndian 4 operand, ?_, written⟩
  rw [carries]
  exact encodePointer_eq_whole_iff.mpr ⟨fits, rfl⟩

/-- What is read after an opcode is what the instruction writes after it. -/
theorem readOperand_writes {opcode : Opcode} {bytes rest : Bytes} {instruction : Instruction}
    (read : readOperand bytes opcode = .ok (instruction, rest)) :
    instruction.opcode = opcode ∧
      ∃ front, encodeOperand instruction = ⟨front, none⟩ ∧ bytes = front ++ rest := by
  cases opcode with
  | push =>
    obtain ⟨value, rfl, written⟩ := readValue_eq_ok_iff.mp read
    exact ⟨rfl, _, rfl, written⟩
  | jump | jumpIfZero | jumpIfNonZero | call | get | set | getArg | setArg =>
    exact readPointer_writes (fun _ => rfl) (fun _ => rfl) read
  | noop | print | pop | add | sub | mul | div | ret =>
    obtain ⟨rfl, rfl⟩ := Prod.mk.inj (Except.ok.inj read)
    exact ⟨rfl, [], rfl, rfl⟩

theorem readOperand_of_written {instruction : Instruction} {front : Bytes}
    (written : encodeOperand instruction = ⟨front, none⟩) (rest : Bytes) :
    readOperand (front ++ rest) instruction.opcode = .ok (instruction, rest) := by
  cases instruction with
  | push value =>
    obtain rfl : Bytes.bigEndian 8 value.toUInt64.toNat = front := by
      simpa [encodeOperand] using written
    exact readValue_eq_ok_iff.mpr ⟨value, rfl, rfl⟩
  | jump operand | jumpIfZero operand | jumpIfNonZero operand | call operand | get operand
  | set operand | getArg operand | setArg operand =>
    obtain ⟨fits, rfl⟩ := encodePointer_eq_whole_iff.mp written
    exact readPointer_eq_ok_iff.mpr ⟨operand, fits, rfl, rfl⟩
  | noop | print | pop | add | sub | mul | div | ret =>
    obtain rfl : [] = front := congrArg Written.bytes written
    rfl

/-! ## Instructions -/

theorem readInstruction_eq_ok_iff {index : Nat} {bytes rest : Bytes}
    {instruction : Instruction} :
    readInstruction index bytes = .ok (instruction, rest) ↔
      ∃ front, encodeInstruction instruction = ⟨front, none⟩ ∧ bytes = front ++ rest := by
  constructor
  · intro read
    cases bytes with
    | nil => simp [readInstruction, readByte] at read
    | cons byte later =>
      cases found : Opcode.ofByte? byte with
      | none => simp [readInstruction, readByte, found] at read
      | some opcode =>
        simp only [readInstruction, readByte, found] at read
        obtain ⟨rfl, operand, written, rfl⟩ := readOperand_writes read
        refine ⟨byte :: operand, encodeInstruction_eq_whole_iff.mpr ⟨operand, written, ?_⟩, rfl⟩
        rw [Opcode.toByte_of_ofByte? found]
  · rintro ⟨front, written, rfl⟩
    obtain ⟨operand, writtenOperand, rfl⟩ := encodeInstruction_eq_whole_iff.mp written
    simp only [List.cons_append, readInstruction, readByte, Opcode.ofByte?_toByte]
    exact readOperand_of_written writtenOperand rest

theorem readInstructions_eq_ok_iff {done program : Array Instruction} {count : Nat}
    {bytes rest : Bytes} :
    readInstructions done count bytes = .ok (program, rest) ↔
      ∃ instructions front, instructions.length = count ∧
        program = done ++ instructions.toArray ∧
        encodeInstructions instructions = ⟨front, none⟩ ∧ bytes = front ++ rest := by
  induction count generalizing done bytes with
  | zero =>
    simp only [readInstructions, Except.ok.injEq, Prod.mk.injEq, List.length_eq_zero_iff]
    constructor
    · rintro ⟨rfl, rfl⟩
      exact ⟨[], [], rfl, by simp, rfl, rfl⟩
    · rintro ⟨_, front, rfl, rfl, written, rfl⟩
      obtain rfl : [] = front := congrArg Written.bytes written
      simp
  | succ count ih =>
    rw [readInstructions]
    constructor
    · intro read
      cases call : readInstruction done.size bytes with
      | error error => simp [call] at read
      | ok reading =>
        obtain ⟨instruction, later⟩ := reading
        simp only [call] at read
        obtain ⟨head, writtenHead, rfl⟩ := readInstruction_eq_ok_iff.mp call
        obtain ⟨instructions, tail, rfl, rfl, writtenTail, rfl⟩ := ih.mp read
        refine ⟨instruction :: instructions, head ++ tail, rfl, by simp, ?_, by simp⟩
        exact Written.andThen_eq_whole_iff.mpr ⟨head, tail, writtenHead, writtenTail, rfl⟩
    · rintro ⟨instructions, front, length, rfl, written, rfl⟩
      cases instructions with
      | nil => simp at length
      | cons instruction later =>
        obtain ⟨head, tail, writtenHead, writtenTail, rfl⟩ :=
          Written.andThen_eq_whole_iff.mp written
        have read : readInstruction done.size (head ++ (tail ++ rest)) =
            .ok (instruction, tail ++ rest) :=
          readInstruction_eq_ok_iff.mpr ⟨head, writtenHead, rfl⟩
        rw [List.append_assoc, read]
        have shorter : later.length = count := by simpa using length
        exact ih.mpr ⟨later, tail, shorter, by simp, writtenTail, rfl⟩

/-! ## The header -/

theorem readMagic_eq_ok_iff {bytes rest : Bytes} :
    readMagic bytes = .ok rest ↔ bytes = magic ++ rest := by
  rw [readMagic]
  constructor
  · intro read
    split at read
    · cases read
    · split at read
      · rename_i same
        obtain rfl := Except.ok.inj read
        have split := (List.take_append_drop magic.length bytes).symm
        rwa [same] at split
      · cases read
  · rintro rfl
    simp [magic]

theorem bigEndian_three_exists (high middle low : UInt8) :
    ∃ n, n < 256 ^ 3 ∧ Bytes.bigEndian 3 n = [high, middle, low] :=
  ⟨Bytes.toNat [high, middle, low], Bytes.toNat_lt [high, middle, low],
    Bytes.bigEndian_toNat [high, middle, low]⟩

theorem readVersion_eq_ok_iff {bytes rest : Bytes} :
    readVersion bytes = .ok rest ↔
      ∃ minor patchHigh patchLow,
        bytes = version :: minor :: patchHigh :: patchLow :: rest := by
  constructor
  · intro read
    cases bytes with
    | nil => simp [readVersion, readByte] at read
    | cons major later =>
      simp only [readVersion, readByte] at read
      split at read
      · rename_i supported
        cases call : readNumber 3 later with
        | error error => simp [call] at read
        | ok reading =>
          obtain ⟨n, left⟩ := reading
          simp only [call, Except.ok.injEq] at read
          obtain ⟨_, written⟩ := readNumber_eq_ok_iff.mp call
          subst supported read written
          exact ⟨_, _, _, rfl⟩
      · cases read
  · rintro ⟨minor, patchHigh, patchLow, rfl⟩
    obtain ⟨n, fits, written⟩ := bigEndian_three_exists minor patchHigh patchLow
    have read : readNumber 3 (minor :: patchHigh :: patchLow :: rest) = .ok (n, rest) :=
      readNumber_eq_ok_iff.mpr ⟨fits, by rw [written]; rfl⟩
    simp [readVersion, readByte, read]

/-! ## Whole images -/

def encodeBody (program : Program) : Written :=
  (encodeCount program.size).andThen (encodeInstructions program.toList)

theorem encodeBody_eq_whole_iff {program : Program} {bytes : Bytes} :
    encodeBody program = ⟨bytes, none⟩ ↔
      program.size < 0x100000000 ∧
        ∃ instructions, encodeInstructions program.toList = ⟨instructions, none⟩ ∧
          bytes = Bytes.bigEndian 4 program.size ++ instructions := by
  rw [encodeBody, Written.andThen_eq_whole_iff]
  constructor
  · rintro ⟨count, instructions, counted, written, rfl⟩
    obtain ⟨fits, rfl⟩ := encodeCount_eq_whole_iff.mp counted
    exact ⟨fits, instructions, written, rfl⟩
  · rintro ⟨fits, instructions, written, rfl⟩
    exact ⟨_, instructions, encodeCount_eq_whole_iff.mpr ⟨fits, rfl⟩, written, rfl⟩

theorem encode_eq_whole_iff {program : Program} {bytes : Bytes} :
    encode program = ⟨bytes, none⟩ ↔
      ∃ body, encodeBody program = ⟨body, none⟩ ∧ bytes = versionHeader ++ body := by
  show Written.andThen ⟨versionHeader, none⟩ (encodeBody program) = _ ↔ _
  rw [Written.andThen_eq_whole_iff]
  constructor
  · rintro ⟨front, body, first, written, rfl⟩
    obtain rfl : versionHeader = front := congrArg Written.bytes first
    exact ⟨body, written, rfl⟩
  · rintro ⟨body, written, rfl⟩
    exact ⟨_, body, rfl, written, rfl⟩

/-- Bytes are accepted exactly when they begin with the image of the program
read, with any minor and patch version in it. -/
theorem decode_eq_ok_iff {bytes rest : Bytes} {program : Program} :
    decode bytes = .ok (program, rest) ↔
      ∃ minor patchHigh patchLow body, encodeBody program = ⟨body, none⟩ ∧
        bytes = magic ++ version :: minor :: patchHigh :: patchLow :: (body ++ rest) := by
  constructor
  · intro decoded
    rw [decode] at decoded
    cases magicCall : readMagic bytes with
    | error error => simp [magicCall] at decoded
    | ok afterMagic =>
      simp only [magicCall] at decoded
      cases versionCall : readVersion afterMagic with
      | error error => simp [versionCall] at decoded
      | ok afterVersion =>
        simp only [versionCall] at decoded
        cases countCall : readNumber 4 afterVersion with
        | error error => simp [countCall] at decoded
        | ok reading =>
          obtain ⟨count, afterCount⟩ := reading
          simp only [countCall] at decoded
          obtain rfl := readMagic_eq_ok_iff.mp magicCall
          obtain ⟨minor, patchHigh, patchLow, rfl⟩ := readVersion_eq_ok_iff.mp versionCall
          obtain ⟨fits, rfl⟩ := readNumber_eq_ok_iff.mp countCall
          obtain ⟨instructions, front, rfl, rfl, written, rfl⟩ :=
            readInstructions_eq_ok_iff.mp decoded
          refine ⟨minor, patchHigh, patchLow, Bytes.bigEndian 4 instructions.length ++ front,
            ?_, by simp⟩
          exact encodeBody_eq_whole_iff.mpr ⟨by simpa using fits, front, by simpa using written,
            by simp⟩
  · rintro ⟨minor, patchHigh, patchLow, body, written, rfl⟩
    obtain ⟨fits, front, writtenFront, rfl⟩ := encodeBody_eq_whole_iff.mp written
    have magicRead := readMagic_eq_ok_iff.mpr
      (rfl : magic ++ version :: minor :: patchHigh :: patchLow ::
        (Bytes.bigEndian 4 program.size ++ front ++ rest) = _)
    have versionRead := readVersion_eq_ok_iff.mpr ⟨minor, patchHigh, patchLow,
      (rfl : version :: minor :: patchHigh :: patchLow ::
        (Bytes.bigEndian 4 program.size ++ front ++ rest) = _)⟩
    have countRead : readNumber 4 (Bytes.bigEndian 4 program.size ++ front ++ rest) =
        .ok (program.size, front ++ rest) :=
      readNumber_eq_ok_iff.mpr ⟨fits, List.append_assoc _ _ _⟩
    have instructionsRead : readInstructions #[] program.size (front ++ rest) =
        .ok (program, rest) :=
      readInstructions_eq_ok_iff.mpr
        ⟨program.toList, front, Array.length_toList, by simp, writtenFront, rfl⟩
    rw [decode, magicRead]
    simp only
    rw [versionRead]
    simp only
    rw [countRead]
    exact instructionsRead

/-! ## Round trips -/

/-- An instruction whose pointer operand, if it carries one, fits in four
bytes. -/
def Narrow (instruction : Instruction) : Prop :=
  ∀ operand ∈ instruction.pointer?, operand < 0x100000000

instance (instruction : Instruction) : Decidable (Narrow instruction) :=
  inferInstanceAs (Decidable (∀ operand ∈ instruction.pointer?, operand < 0x100000000))

theorem encodeOperand_whole_iff (instruction : Instruction) :
    (∃ bytes, encodeOperand instruction = ⟨bytes, none⟩) ↔ Narrow instruction := by
  cases instruction with
  | push value => simp [encodeOperand, Narrow, Instruction.pointer?]
  | jump operand | jumpIfZero operand | jumpIfNonZero operand | call operand | get operand
  | set operand | getArg operand | setArg operand =>
    have pointer : ∀ bytes, encodePointer operand = ⟨bytes, none⟩ ↔
        operand < 0x100000000 ∧ bytes = Bytes.bigEndian 4 operand :=
      fun _ => encodePointer_eq_whole_iff
    simp [encodeOperand, Narrow, Instruction.pointer?, pointer]
  | noop | print | pop | add | sub | mul | div | ret =>
    simp [encodeOperand, Narrow, Instruction.pointer?]

theorem encodeInstructions_whole_iff (instructions : List Instruction) :
    (∃ bytes, encodeInstructions instructions = ⟨bytes, none⟩) ↔
      ∀ instruction ∈ instructions, Narrow instruction := by
  induction instructions with
  | nil => simp [encodeInstructions]
  | cons instruction rest ih =>
    rw [List.forall_mem_cons, ← ih, ← encodeOperand_whole_iff, encodeInstructions]
    simp only [Written.andThen_eq_whole_iff, encodeInstruction_eq_whole_iff]
    constructor
    · rintro ⟨_, _, later, ⟨operand, written, _⟩, writtenLater, _⟩
      exact ⟨⟨operand, written⟩, later, writtenLater⟩
    · rintro ⟨⟨operand, written⟩, later, writtenLater⟩
      exact ⟨_, _, later, ⟨operand, written, rfl⟩, writtenLater, rfl⟩

/-- A program of a size that an image can hold fits exactly when its operands
do. -/
theorem encode_whole_iff {program : Program} (counted : program.size < 0x100000000) :
    (∃ bytes, encode program = ⟨bytes, none⟩) ↔
      ∀ instruction ∈ program.toList, Narrow instruction := by
  rw [← encodeInstructions_whole_iff]
  constructor
  · intro encoded
    obtain ⟨bytes, encoded⟩ := encoded
    obtain ⟨body, written, _⟩ := encode_eq_whole_iff.mp encoded
    obtain ⟨_, instructions, each, _⟩ := encodeBody_eq_whole_iff.mp written
    exact ⟨instructions, each⟩
  · intro each
    obtain ⟨instructions, each⟩ := each
    have written := encodeBody_eq_whole_iff.mpr ⟨counted, instructions, each, rfl⟩
    exact ⟨_, encode_eq_whole_iff.mpr ⟨_, written, rfl⟩⟩

/-- A program whose size and pointers fit in four bytes has an image, and is
read back from it whatever follows. -/
theorem decode_encode_append (program : Program) (counted : program.size < 0x100000000)
    (narrow : ∀ instruction ∈ program, Narrow instruction) (rest : Bytes) :
    ∃ bytes, encode program = ⟨bytes, none⟩ ∧ decode (bytes ++ rest) = .ok (program, rest) := by
  obtain ⟨instructions, written⟩ := (encodeInstructions_whole_iff program.toList).mpr
    fun instruction member => narrow instruction (Array.mem_toList_iff.mp member)
  have body := encodeBody_eq_whole_iff.mpr ⟨counted, instructions, written, rfl⟩
  refine ⟨_, encode_eq_whole_iff.mpr ⟨_, body, rfl⟩, ?_⟩
  exact decode_eq_ok_iff.mpr ⟨0, 0, 0, _, body, by simp [versionHeader]⟩

theorem decode_encode_append_extremes :
    (∀ instruction ∈ (#[.push Int64.minValue, .push Int64.maxValue, .push (-1),
        .jump 0xffffffff, .getArg 0] : Program), Narrow instruction) ∧
      ∃ bytes, encode #[.push Int64.minValue, .push Int64.maxValue, .push (-1),
          .jump 0xffffffff, .getArg 0] = ⟨bytes, none⟩ ∧
        decode (bytes ++ [0x53]) = .ok (#[.push Int64.minValue, .push Int64.maxValue, .push (-1),
          .jump 0xffffffff, .getArg 0], [0x53]) :=
  ⟨by decide, decode_encode_append _ (by decide) (by decide) [0x53]⟩

def consumed (bytes rest : Bytes) : Bytes :=
  bytes.take (bytes.length - rest.length)

/-- An image with its minor and patch version set to zero. -/
def clearMinorVersion (image : Bytes) : Bytes :=
  ((image.set 5 0).set 6 0).set 7 0

theorem consumed_append (front rest : Bytes) : consumed (front ++ rest) rest = front := by
  rw [consumed, List.length_append, Nat.add_sub_cancel, List.take_left]

theorem consumed_of_decode {bytes rest : Bytes} {program : Program}
    (decoded : decode bytes = .ok (program, rest)) :
    bytes = consumed bytes rest ++ rest ∧
      ∃ minor patchHigh patchLow body, encodeBody program = ⟨body, none⟩ ∧
        consumed bytes rest = magic ++ version :: minor :: patchHigh :: patchLow :: body := by
  obtain ⟨minor, patchHigh, patchLow, body, written, rfl⟩ := decode_eq_ok_iff.mp decoded
  have front := consumed_append (magic ++ version :: minor :: patchHigh :: patchLow :: body) rest
  simp only [List.append_assoc, List.cons_append] at front
  rw [front]
  exact ⟨by simp, minor, patchHigh, patchLow, body, written, rfl⟩

/-- An accepted image is, up to its minor and patch version, the image of the
program read from it.  So two images of one program differ in these three bytes
at most. -/
theorem encode_decoded (bytes rest : Bytes) (program : Program)
    (decoded : decode bytes = .ok (program, rest)) :
    bytes = consumed bytes rest ++ rest ∧
      encode program = ⟨clearMinorVersion (consumed bytes rest), none⟩ ∧
      ∀ other otherRest, decode other = .ok (program, otherRest) →
        (consumed other otherRest).length = (consumed bytes rest).length ∧
          ∀ offset, offset ≠ 5 → offset ≠ 6 → offset ≠ 7 →
            (consumed other otherRest)[offset]? = (consumed bytes rest)[offset]? := by
  obtain ⟨whole, minor, patchHigh, patchLow, body, written, image⟩ := consumed_of_decode decoded
  refine ⟨whole, ?_, ?_⟩
  · rw [image]
    exact encode_eq_whole_iff.mpr ⟨body, written, rfl⟩
  · intro other otherRest otherDecoded
    obtain ⟨_, otherMinor, otherHigh, otherLow, otherBody, otherWritten, otherImage⟩ :=
      consumed_of_decode otherDecoded
    obtain rfl : otherBody = body :=
      congrArg Written.bytes (otherWritten.symm.trans written)
    rw [image, otherImage]
    refine ⟨rfl, ?_⟩
    intro offset notMinor notHigh notLow
    match offset with
    | 0 | 1 | 2 | 3 | 4 => rfl
    | 5 => exact absurd rfl notMinor
    | 6 => exact absurd rfl notHigh
    | 7 => exact absurd rfl notLow
    | later + 8 => rfl

theorem encode_decoded_patched :
    ∃ bytes : Bytes, bytes = magic ++ [1, 2, 3, 4, 0, 0, 0, 2, 0x10, 0xff, 0xff, 0xff, 0xff, 0xff,
        0xff, 0xff, 0xfe, 0x60, 0, 0, 0, 1, 0x64] ∧
      decode bytes = .ok (#[.push (-2), .jump 1], [0x64]) ∧
      encode #[.push (-2), .jump 1] = ⟨clearMinorVersion (consumed bytes [0x64]), none⟩ := by
  refine ⟨_, rfl, ?_, ?_⟩
  · rfl
  · exact (encode_decoded _ [0x64] _ rfl).2.1

end StackAsm.Image
