import Mathlib.Data.List.Nodup
import StackAsm.Image.Opcode
import StackAsm.Proofs.Rendering
import StackAsm.Proofs.SourceMap

/-!
# A text listing tells the code

The columns of a listing are set apart by spaces, and a column whose content is
too wide only loses the spaces that fill it up.  So the words of a line are the
index, the words of the instruction and, behind a semicolon, the number of the
source line, however wide they are.  The words of an instruction stand for that
instruction only.
-/

set_option autoImplicit false

namespace StackAsm

/-! ## The words of an instruction -/

theorem Value.render_injective {left right : Value} (same : left.render = right.render) :
    left = right := by
  have read := Text.Decimal.readInt64_ofInt left
  rw [show Text.Decimal.ofInt left.toInt = Text.Decimal.ofInt right.toInt from same,
    Text.Decimal.readInt64_ofInt] at read
  exact (Except.ok.inj read).symm

namespace Opcode

theorem mem_all (opcode : Opcode) : opcode ∈ all := by
  cases opcode <;> decide

theorem mnemonic_injective {left right : Opcode} (same : left.mnemonic = right.mnemonic) :
    left = right := by
  have distinct : (all.map mnemonic).Nodup := by decide
  exact List.inj_on_of_nodup_map distinct left.mem_all right.mem_all same

end Opcode

namespace Instruction

theorem eq_of_parts {left right : Instruction} (opcodes : left.opcode = right.opcode)
    (operands : left.operand? = right.operand?) : left = right := by
  cases left <;> cases right <;> cases opcodes
  case push.push.refl value other =>
    exact congrArg push (Value.render_injective (Option.some.inj operands))
  all_goals
    first
    | rfl
    | exact congrArg _ (Text.Decimal.ofNat_injective (Option.some.inj operands))

theorem tokens_injective {left right : Instruction}
    (same : (Statement.plain left).tokens = (Statement.plain right).tokens) : left = right := by
  obtain ⟨mnemonics, operandLists⟩ := List.cons.inj same
  have operands : left.operand? = right.operand? := by
    simpa using congrArg List.head? operandLists
  exact eq_of_parts (Opcode.mnemonic_injective mnemonics) operands

theorem areWords_tokens (instruction : Instruction) :
    ∀ word ∈ (Statement.plain instruction).tokens, Text.IsWord word.toList :=
  Statement.isWord_of_mem_tokens nofun

theorem words_render (instruction : Instruction) :
    Text.words instruction.render.toList =
      (Statement.plain instruction).tokens.map String.toList := by
  rw [← Statement.render_plain]
  exact Text.words_spaced instruction.areWords_tokens

theorem newline_not_mem_render (instruction : Instruction) :
    '\n' ∉ instruction.render.toList := by
  intro member
  rw [← Statement.render_plain] at member
  rcases Text.mem_spaced instruction.areWords_tokens member with space | visible
  · cases space
  · cases visible

end Instruction

/-! ## The words of a line -/

namespace Text

theorem words_replicate (count : Nat) : words (List.replicate count ' ') = [] := by
  induction count with
  | zero => rfl
  | succ count ih =>
    rw [List.replicate_succ, words_cons_of_blank (by decide), ih]

theorem startsBlank_replicate (count : Nat) : StartsBlank (List.replicate count ' ') := by
  cases count with
  | zero => exact startsBlank_nil
  | succ count =>
    rw [List.replicate_succ]
    exact startsBlank_cons (by decide) _

theorem endsBlank_replicate (count : Nat) : EndsBlank (List.replicate count ' ') := by
  cases count with
  | zero => exact endsBlank_nil
  | succ count =>
    rw [List.replicate_succ']
    exact endsBlank_concat (by decide) _

end Text

namespace Listing

open Text

theorem words_padLeft (width : Nat) (text : String) :
    words (padLeft width text) = words text.toList := by
  rw [padLeft, words_append_of_seam (.inl (endsBlank_replicate _)), words_replicate,
    List.nil_append]

theorem words_padRight (width : Nat) (text : String) :
    words (padRight width text) = words text.toList := by
  rw [padRight, words_append_of_seam (.inr (startsBlank_replicate _)), words_replicate,
    List.append_nil]

def Entry.row (entry : Entry) : List Char :=
  padLeft 4 (Decimal.ofNat entry.index) ++ "  ".toList ++ padRight 16 entry.instruction ++
    " ; line ".toList ++ (Decimal.ofNat entry.line).toList

theorem Entry.textLine_eq (entry : Entry) : entry.textLine = entry.row ++ ['\n'] := by
  rw [textLine, row]

theorem Entry.words_row (entry : Entry) :
    words entry.row =
      (Decimal.ofNat entry.index).toList ::
        (words entry.instruction.toList ++
          [[';'], ['l', 'i', 'n', 'e'], (Decimal.ofNat entry.line).toList]) := by
  have space : isBlank ' ' = true := by decide
  have gapStarts : StartsBlank "  ".toList := startsBlank_cons space [' ']
  have gapEnds : EndsBlank "  ".toList := endsBlank_concat space [' ']
  have labelStarts : StartsBlank " ; line ".toList := startsBlank_cons space "; line ".toList
  have labelEnds : EndsBlank " ; line ".toList := endsBlank_concat space " ; line".toList
  have gap : words "  ".toList = [] := rfl
  have label : words " ; line ".toList = [[';'], ['l', 'i', 'n', 'e']] := rfl
  rw [row, words_append_of_seam (.inl ((endsBlank_append_iff _ (by decide)).mpr labelEnds)),
    words_append_of_seam (.inr labelStarts),
    words_append_of_seam (.inl ((endsBlank_append_iff _ (by decide)).mpr gapEnds)),
    words_append_of_seam (.inr gapStarts), words_padLeft, words_padRight, gap, label,
    words_of_isWord (isWord_ofNat entry.index), words_of_isWord (isWord_ofNat entry.line)]
  simp

example :
    String.ofList (Entry.row ⟨12345, 7, "Push -9223372036854775808"⟩) =
      "12345  Push -9223372036854775808 ; line 7" := by
  decide +kernel

theorem Entry.newline_not_mem_row {entry : Entry} (single : '\n' ∉ entry.instruction.toList) :
    '\n' ∉ entry.row := by
  have number : ∀ n, '\n' ∉ (Decimal.ofNat n).toList := by
    intro n member
    exact absurd (Decimal.isDigit_of_mem_ofNat member) (by decide)
  simp [row, padLeft, padRight, number, single]

/-- Each text line is cut off at its end, with all its words. -/
theorem words_lines {entries : List Entry}
    (single : ∀ entry ∈ entries, '\n' ∉ entry.instruction.toList) :
    (lines (entries.flatMap Entry.textLine)).map words =
      entries.map fun entry => words entry.row := by
  induction entries with
  | nil => rfl
  | cons entry rest ih =>
    obtain ⟨here, later⟩ := List.forall_mem_cons.mp single
    obtain ⟨kept, cut, same⟩ :=
      lines_ended (Entry.newline_not_mem_row here) .newline (rest.flatMap Entry.textLine)
    have sameWords : words kept = words entry.row := by
      rcases same with same | same
      · rw [same]
      · rw [same, words_append_blank (by decide)]
    have ending : LineEnd.newline.text.toList = ['\n'] := rfl
    rw [ending, ← Entry.textLine_eq] at cut
    rw [List.flatMap_cons, cut, List.map_cons, List.map_cons, sameWords, ih later]

/-- The words that show an instruction, its index and its source line. -/
def shown (index : Nat) (place : Instruction × Nat) : List (List Char) :=
  (Decimal.ofNat index).toList ::
    ((Statement.plain place.1).tokens.map String.toList ++
      [[';'], ['l', 'i', 'n', 'e'], (Decimal.ofNat place.2).toList])

theorem words_lines_ofAssembly (assembly : Assembly) :
    (lines (ofAssembly assembly).text.toList).map words =
      (assembly.program.toList.zip assembly.lines).mapIdx shown := by
  have single : ∀ entry ∈ (ofAssembly assembly).entries, '\n' ∉ entry.instruction.toList := by
    intro entry member
    simp only [ofAssembly, List.mem_mapIdx] at member
    obtain ⟨index, inside, rfl⟩ := member
    exact Instruction.newline_not_mem_render _
  have rows : ∀ index (place : Instruction × Nat),
      words (Entry.row ⟨index, place.2, place.1.render⟩) = shown index place := by
    intro index place
    rw [Entry.words_row, Instruction.words_render, shown]
  rw [text, String.toList_ofList, words_lines single]
  apply List.ext_getElem?
  intro index
  simp only [ofAssembly, List.getElem?_map, List.getElem?_mapIdx, Option.map_map,
    Function.comp_def, rows]

theorem shown_injective (index : Nat) : Function.Injective (shown index) := by
  intro place other same
  obtain ⟨_, behind⟩ := List.cons.inj same
  obtain ⟨tokens, ends⟩ := List.append_inj' behind (by simp)
  have sameTokens := List.map_injective_iff.mpr (fun _ _ => String.toList_inj.mp) tokens
  have lines : (Decimal.ofNat place.2).toList = (Decimal.ofNat other.2).toList := by
    simpa using ends
  exact Prod.ext (Instruction.tokens_injective sameTokens)
    (Decimal.ofNat_injective (String.toList_inj.mp lines))

/-- The listing of an assembly with a line for each instruction tells its
program and its lines. -/
theorem eq_of_text {left right : Assembly}
    (aligned : left.lines.length = left.program.size)
    (alignedRight : right.lines.length = right.program.size)
    (same : (ofAssembly left).text = (ofAssembly right).text) :
    left.program = right.program ∧ left.lines = right.lines := by
  have rows : (left.program.toList.zip left.lines).mapIdx shown =
      (right.program.toList.zip right.lines).mapIdx shown := by
    rw [← words_lines_ofAssembly, ← words_lines_ofAssembly, same]
  have places : left.program.toList.zip left.lines = right.program.toList.zip right.lines := by
    apply List.ext_getElem?
    intro index
    have row := congrArg (fun rows => rows[index]?) rows
    simp only [List.getElem?_mapIdx] at row
    exact Option.map_injective (shown_injective index) row
  have parts := congrArg List.unzip places
  rw [List.unzip_zip (by simp [aligned]), List.unzip_zip (by simp [alignedRight])] at parts
  obtain ⟨programs, lines⟩ := Prod.mk.inj parts
  exact ⟨Array.toList_inj.mp programs, lines⟩

/-- Texts with the same listing have the same program, from the same lines. -/
theorem text_lossless (marker otherMarker : Source.Marker) (source otherSource : String)
    (left right : Assembly) (assembled : Assembly.ofText marker source = .ok left)
    (assembledRight : Assembly.ofText otherMarker otherSource = .ok right)
    (same : (ofAssembly left).text = (ofAssembly right).text) :
    left.program = right.program ∧ left.lines = right.lines :=
  eq_of_text (Assembly.length_lines assembled) (Assembly.length_lines assembledRight) same

def wideListing : String :=
  "   0  Push -9223372036854775808 ; line 1\n" ++
    "   1  Noop             ; line 3\n" ++
    "   2  JE 1             ; line 4\n"

theorem text_lossless_leastValue :
    ∃ marker left right, marker.text = ['#'] ∧
      Assembly.ofText .semicolon "Push -9223372036854775808\n\nlabel x\nJE x" = .ok left ∧
      Assembly.ofText marker "Push -9223372036854775808 # least\n\nlabel y\nJE y" = .ok right ∧
        (ofAssembly left).text = wideListing ∧ (ofAssembly right).text = wideListing ∧
          left.program = right.program ∧ left.lines = right.lines := by
  let marker : Source.Marker := ⟨['#'], by decide⟩
  have evaluated :
      (Assembly.ofText .semicolon "Push -9223372036854775808\n\nlabel x\nJE x").toOption.map
        (fun left => (ofAssembly left).text) = some wideListing := by
    decide +kernel
  have evaluatedRight :
      (Assembly.ofText marker "Push -9223372036854775808 # least\n\nlabel y\nJE y").toOption.map
        (fun right => (ofAssembly right).text) = some wideListing := by
    decide +kernel
  obtain ⟨left, assembled, listed⟩ := Assembly.exists_of_evaluated evaluated
  obtain ⟨right, assembledRight, listedRight⟩ := Assembly.exists_of_evaluated evaluatedRight
  exact ⟨marker, left, right, rfl, assembled, assembledRight, listed, listedRight,
    text_lossless _ _ _ _ left right assembled assembledRight (listed.trans listedRight.symm)⟩

end Listing

end StackAsm
