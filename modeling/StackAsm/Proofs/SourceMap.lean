import StackAsm.Listing
import StackAsm.Proofs.Rejection
import StackAsm.Proofs.Renumbering

/-!
# The line behind each instruction

Lines, statements and instructions are made by different passes and belong
together by their positions alone.  No pass drops or adds one, so that the line
numbers of an assembly are those of its instructions: reading one raw line by
itself gives the statement whose instruction stands at its position.  A listing
shows them all.
-/

set_option autoImplicit false

namespace StackAsm

namespace Source

/-! ## One line by itself -/

theorem scanLines_single {marker : Marker} {text : String} {line : Line}
    (words : tokens marker text = line.tokens) :
    scanLines marker [text] = [line.renumber fun _ => 1] := by
  rw [scanLines, scanFrom_cons, words]
  rfl

/-- A line read by itself gives the statement it gives among others, on the
first line. -/
theorem statements_single {marker : Marker} {text : String} {line : Line} {source : Numbered}
    (words : tokens marker text = line.tokens) (read : line.numbered = .ok source) :
    Source.statements (scanLines marker [text]) = .ok [source.renumber fun _ => 1] := by
  have alone : (line.renumber fun _ => 1).numbered = .ok (source.renumber fun _ => 1) := by
    rw [Line.numbered_renumber, read]
    rfl
  rw [scanLines_single words]
  exact statements_eq_ok_iff.mpr (.cons alone .nil)

theorem exists_line_iff {marker : Marker} {text : String} (number : Nat) :
    (∃ line : Line, line.number = number ∧ tokens marker text = line.tokens) ↔
      tokens marker text ≠ [] := by
  constructor
  · intro found
    obtain ⟨line, _, words⟩ := found
    rw [words]
    exact List.cons_ne_nil _ _
  · intro visible
    obtain ⟨mnemonic, operands, words⟩ := List.exists_cons_of_ne_nil visible
    exact ⟨⟨number, mnemonic, operands⟩, rfl, words⟩

theorem Numbers.mem_map_iff {marker : Marker} {raw : List String} {lines : List Line}
    (numbers : Numbers marker raw lines) (number : Nat) :
    number ∈ lines.map Line.number ↔
      0 < number ∧ ∃ text, raw[number - 1]? = some text ∧ tokens marker text ≠ [] := by
  rw [List.mem_map]
  constructor
  · intro listed
    obtain ⟨line, member, rfl⟩ := listed
    obtain ⟨positive, words⟩ := (numbers.mem_iff line).mp member
    obtain ⟨text, stands, same⟩ := Option.map_eq_some_iff.mp words
    exact ⟨positive, text, stands, (exists_line_iff line.number).mp ⟨line, rfl, same⟩⟩
  · intro meaningful
    obtain ⟨positive, text, stands, visible⟩ := meaningful
    obtain ⟨line, rfl, words⟩ := (exists_line_iff number).mpr visible
    refine ⟨line, (numbers.mem_iff line).mpr ⟨positive, ?_⟩, rfl⟩
    rw [stands, Option.map_some, words]

end Source

/-! ## Instructions -/

namespace Assembly

open Source

theorem numbered_of_getElem? {lines : List Line} {statements : List Numbered} {index : Nat}
    {line : Line} (parsed : Source.statements lines = .ok statements)
    (stands : lines[index]? = some line) :
    ∃ source, statements[index]? = some source ∧ line.numbered = .ok source := by
  have sameLength := (statements_eq_ok_iff.mp parsed).length_eq
  have inside : index < statements.length := by
    rw [← sameLength]
    exact (List.getElem?_eq_some_iff.mp stands).1
  have here := List.getElem?_eq_getElem inside
  have layout : lineLayout lines index statements[index].line statements[index].statement := by
    rw [lineLayout_eq parsed]
    exact here
  obtain ⟨other, same, numbered, read⟩ := layout
  rw [stands] at same
  cases same
  exact ⟨_, here, Line.numbered_eq_ok_iff.mpr ⟨numbered, read⟩⟩

theorem instruction_of_getElem? {lines : List Line} {assembly : Assembly} {index : Nat}
    {line : Line} (assembled : ofLines lines = .ok assembly)
    (stands : lines[index]? = some line) :
    ∃ source instruction, line.numbered = .ok source ∧
      lower assembly.symbols source = .ok instruction ∧
        assembly.program[index]? = some instruction := by
  obtain ⟨statements, parsed, _, lowered, _⟩ := ofLines_eq_ok_iff.mp assembled
  obtain ⟨source, here, read⟩ := numbered_of_getElem? parsed stands
  have aligned := lower_of_getElem? lowered index
  rw [here, Option.map_some] at aligned
  obtain ⟨instruction, found, same⟩ := Option.map_eq_some_iff.mp aligned.symm
  exact ⟨source, instruction, read, same.symm, found⟩

theorem length_lines {lines : List Line} {assembly : Assembly}
    (assembled : ofLines lines = .ok assembly) :
    assembly.lines.length = assembly.program.size := by
  obtain ⟨statements, parsed, _, lowered, numbered⟩ := ofLines_eq_ok_iff.mp assembled
  have read := (statements_eq_ok_iff.mp parsed).length_eq
  have emitted : statements.length = assembly.program.size := by
    simpa using congrArg List.length lowered
  rw [numbered, List.length_map, read, emitted]

/-! ## Listings -/

theorem length_entries {assembly : Assembly}
    (aligned : assembly.lines.length = assembly.program.size) :
    (Listing.ofAssembly assembly).entries.length = assembly.program.size := by
  simp [Listing.ofAssembly, aligned]

theorem entries_getElem? {assembly : Assembly} {index number : Nat} {instruction : Instruction}
    (found : assembly.program[index]? = some instruction)
    (numbered : assembly.lines[index]? = some number) :
    (Listing.ofAssembly assembly).entries[index]? =
      some ⟨index, number, instruction.render⟩ := by
  have pair : (assembly.program.toList.zip assembly.lines)[index]? =
      some (instruction, number) := by
    rw [List.getElem?_zip_eq_some]
    exact ⟨by simpa using found, numbered⟩
  simp [Listing.ofAssembly, List.getElem?_mapIdx, pair]

/-- The line numbers of an assembly lead from each instruction back to the one
raw line it comes from. -/
structure SourceMap (marker : Marker) (raw : List String) (assembly : Assembly) : Prop where
  increasing : assembly.lines.Pairwise (· < ·)
  length : assembly.lines.length = assembly.program.size
  mem_iff : ∀ number, number ∈ assembly.lines ↔
    0 < number ∧ ∃ text, raw[number - 1]? = some text ∧ tokens marker text ≠ []
  behind : ∀ (index number : Nat), assembly.lines[index]? = some number →
    ∃ text source instruction, raw[number - 1]? = some text ∧
      Source.statements (scanLines marker [text]) = .ok [source] ∧
        lower assembly.symbols source = .ok instruction ∧
          assembly.program[index]? = some instruction
  listed : (Listing.ofAssembly assembly).entries.length = assembly.program.size
  entry : ∀ (index : Nat) instruction number, assembly.program[index]? = some instruction →
    assembly.lines[index]? = some number →
      (Listing.ofAssembly assembly).entries[index]? = some ⟨index, number, instruction.render⟩

/-- The line numbers of an assembled text and its listing are exact. -/
theorem ofText_sourceMap (marker : Marker) (text : String) (assembly : Assembly)
    (assembled : ofText marker text = .ok assembly) :
    SourceMap marker (rawLines text) assembly := by
  have numbers := scan_numbers marker text
  have aligned := length_lines assembled
  obtain ⟨_, _, _, _, numbered⟩ := ofLines_eq_ok_iff.mp assembled
  refine ⟨?_, aligned, ?_, ?_, length_entries aligned, ?_⟩
  · rw [numbered, List.pairwise_map]
    exact numbers.sorted
  · intro number
    rw [numbered]
    exact numbers.mem_map_iff number
  · intro index number stands
    rw [numbered, List.getElem?_map] at stands
    obtain ⟨line, here, rfl⟩ := Option.map_eq_some_iff.mp stands
    obtain ⟨source, instruction, read, lowered, found⟩ := instruction_of_getElem? assembled here
    obtain ⟨_, words⟩ := (numbers.mem_iff line).mp (List.mem_of_getElem? here)
    obtain ⟨raw, rawStands, same⟩ := Option.map_eq_some_iff.mp words
    refine ⟨raw, _, instruction, rawStands, statements_single same read, ?_, found⟩
    rw [lower_renumber, lowered]
    rfl
  · intro index instruction number found stands
    exact entries_getElem? found stands

def spread : String :=
  "\n; twice\nProc p\n\nRet ; back\nEnd\n\nCall p"

theorem ofText_sourceMap_spread :
    ∃ assembly, ofText .semicolon spread = .ok assembly ∧
      assembly.program = #[.jump 3, .ret, .noop, .call 1] ∧ assembly.lines = [3, 5, 6, 8] ∧
        SourceMap .semicolon (rawLines spread) assembly := by
  have evaluated : (ofText .semicolon spread).toOption.map
      (fun assembly => (assembly.program, assembly.lines)) =
        some (#[.jump 3, .ret, .noop, .call 1], [3, 5, 6, 8]) := by
    decide +kernel
  cases accepted : ofText .semicolon spread with
  | error error => simp [accepted, Except.toOption] at evaluated
  | ok assembly =>
    rw [accepted] at evaluated
    obtain ⟨program, lines⟩ := Prod.mk.inj (Option.some.inj evaluated)
    exact ⟨assembly, rfl, program, lines, ofText_sourceMap _ _ _ accepted⟩

end Assembly

end StackAsm
