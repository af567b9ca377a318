import StackAsm.Proofs.Remarks

/-!
# Line ends

A text can be written from raw lines with a newline after each of them, with or
without a carriage return before it, and with or without an end of its last
line.  Cutting the text need not give back the raw lines: it takes one carriage
return from the end of a line, and it leaves out a last line that is empty.
Neither bears words, so the text is assembled as the raw lines are.
-/

set_option autoImplicit false

namespace StackAsm

/-! ## Lines of a written text -/

inductive LineEnd where
  | newline
  | returnNewline
deriving DecidableEq, Repr

def LineEnd.text : LineEnd → String
  | .newline => "\n"
  | .returnNewline => "\r\n"

/-- Lines with their ends after them; the end of the last one is left out in a
text that is not closed. -/
def joined (closed : Bool) : List (String × LineEnd) → String
  | [] => ""
  | (line, ending) :: rest =>
    if rest.isEmpty && !closed then line else line ++ ending.text ++ joined closed rest

namespace Text

theorem lines_cons {c : Char} {rest : List Char} (inside : c ≠ '\n')
    (follows : c = '\r' → rest.head? ≠ some '\n') :
    lines (c :: rest) =
      match lines rest with
      | [] => [[c]]
      | line :: later => (c :: line) :: later := by
  refine lines.eq_4 c rest inside ?_
  intro after isReturn isNewline
  subst isReturn isNewline
  exact follows rfl rfl

/-- Text without newlines goes into the first line of what follows, unless it
gives its last character to the end of that line. -/
theorem lines_append {front rest first : List Char} {later : List (List Char)}
    (single : '\n' ∉ front) (seam : front.getLast? = some '\r' → rest.head? ≠ some '\n')
    (cut : lines rest = first :: later) : lines (front ++ rest) = (front ++ first) :: later := by
  induction front with
  | nil => exact cut
  | cons c front ih =>
    rw [List.mem_cons, not_or] at single
    obtain ⟨here, behind⟩ := single
    have follows : c = '\r' → (front ++ rest).head? ≠ some '\n' := by
      intro isReturn
      subst isReturn
      cases front with
      | nil => exact seam rfl
      | cons d front =>
        intro isNewline
        obtain rfl : d = '\n' := Option.some.inj isNewline
        exact behind List.mem_cons_self
    have seamBehind : front.getLast? = some '\r' → rest.head? ≠ some '\n' := by
      intro last
      refine seam ?_
      rw [List.getLast?_cons, last, Option.getD_some]
    rw [List.cons_append, lines_cons (Ne.symm here) follows, ih behind seamBehind]
    rfl

theorem lines_unended {line : List Char} (single : '\n' ∉ line) (nonempty : line ≠ []) :
    lines line = [line] := by
  rcases List.eq_nil_or_concat' line with rfl | ⟨front, c, rfl⟩
  · exact absurd rfl nonempty
  · rw [List.mem_append, not_or, List.mem_singleton] at single
    have alone : lines [c] = [[c]] := lines_cons (Ne.symm single.2) (by simp)
    exact lines_append single.1 (by simp [Ne.symm single.2]) alone

/-- A line that an end follows is cut there, and may lose a carriage return. -/
theorem lines_ended {line : List Char} (single : '\n' ∉ line) (ending : LineEnd)
    (rest : List Char) :
    ∃ kept, lines (line ++ ending.text.toList ++ rest) = kept :: lines rest ∧
      (line = kept ∨ line = kept ++ ['\r']) := by
  have returned : ∀ front, '\n' ∉ front → lines (front ++ '\r' :: '\n' :: rest) =
      front :: lines rest := by
    intro front frontSingle
    have cut : lines ('\r' :: '\n' :: rest) = [] :: lines rest := rfl
    simpa using lines_append frontSingle (by simp) cut
  cases ending with
  | returnNewline =>
    refine ⟨line, ?_, .inl rfl⟩
    rw [List.append_assoc]
    exact returned line single
  | newline =>
    rw [List.append_assoc]
    by_cases last : line.getLast? = some '\r'
    · obtain ⟨front, rfl⟩ := List.getLast?_eq_some_iff.mp last
      refine ⟨front, ?_, .inr rfl⟩
      rw [List.append_assoc]
      refine returned front ?_
      intro newline
      exact single (List.mem_append_left _ newline)
    · have cut : lines ('\n' :: rest) = [] :: lines rest := rfl
      have whole := lines_append single (fun ends => absurd ends last) cut
      rw [List.append_nil] at whole
      exact ⟨line, whole, .inl rfl⟩

end Text

/-! ## Words of a written text -/

namespace Source

theorem scanFrom_unended (marker : Marker) {line : String} (single : '\n' ∉ line.toList)
    (number : Nat) : scanFrom marker number (rawLines line) = scanFrom marker number [line] := by
  by_cases empty : line = ""
  · subst empty
    rfl
  · have nonempty : line.toList ≠ [] := by simpa using empty
    rw [rawLines, Text.lines_unended single nonempty]
    simp

/-- Lines that keep their words without a carriage return at their end are
scanned as the text written from them. -/
theorem scanFrom_joined (marker : Marker) {lines : List (String × LineEnd)}
    (single : ∀ line ∈ lines, '\n' ∉ line.1.toList)
    (loose : ∀ line ∈ lines, ∀ kept, line.1.toList = kept ++ ['\r'] →
      tokens marker (String.ofList kept) = tokens marker line.1)
    (closed : Bool) (number : Nat) :
    scanFrom marker number (rawLines (joined closed lines)) =
      scanFrom marker number (lines.map Prod.fst) := by
  induction lines generalizing number with
  | nil => rfl
  | cons head rest ih =>
    obtain ⟨line, ending⟩ := head
    rw [List.forall_mem_cons] at single loose
    rw [joined]
    split
    · rename_i last
      obtain ⟨rfl, _⟩ : rest = [] ∧ closed = false := by simpa using last
      exact scanFrom_unended marker single.1 number
    · obtain ⟨kept, cut, same⟩ := Text.lines_ended single.1 ending (joined closed rest).toList
      have sameWords : tokens marker (String.ofList kept) = tokens marker line := by
        rcases same with same | same
        · rw [← same, String.ofList_toList]
        · exact loose.1 kept same
      have split : rawLines (line ++ ending.text ++ joined closed rest) =
          String.ofList kept :: rawLines (joined closed rest) := by
        rw [rawLines, rawLines, String.toList_append, String.toList_append, cut, List.map_cons]
      rw [split, List.map_cons, scanFrom_cons, scanFrom_cons, sameWords, ih single.2 loose.2]

end Source

namespace Assembly

open Source

/-- A text written from raw lines is assembled as the raw lines are. -/
theorem ofText_joined (marker : Marker) (noReturn : '\r' ∉ marker.text)
    (lines : List (String × LineEnd)) (single : ∀ line ∈ lines, '\n' ∉ line.1.toList)
    (closed : Bool) :
    ofText marker (joined closed lines) = ofRawLines marker (lines.map Prod.fst) := by
  have loose : ∀ line ∈ lines, ∀ kept, line.1.toList = kept ++ ['\r'] →
      tokens marker (String.ofList kept) = tokens marker line.1 := by
    intro line _ kept ends
    have longer : line.1.toList = (String.ofList kept).toList ++ ['\r'] := by
      rw [ends, String.toList_ofList]
    exact (tokens_append marker (by decide) noReturn (by decide) rfl longer).symm
  rw [ofText, ofRawLines, scan, scanLines, scanLines,
    scanFrom_joined marker single loose closed]

theorem ofText_joined_mixedEnds :
    ofText .semicolon "Push 1\r\n\r\nJump x ; up\r\n" =
        ofRawLines .semicolon ["Push 1", "\r", "Jump x ; up\r", ""] ∧
      ofRawLines .semicolon ["Push 1", "\r", "Jump x ; up\r", ""] =
        .error (.undefinedLabel "x" 3) := by
  have agree := ofText_joined .semicolon (by decide)
    [("Push 1", .returnNewline), ("\r", .newline), ("Jump x ; up\r", .newline), ("", .newline)]
    (by decide) false
  exact ⟨agree, rfl⟩

end Assembly

end StackAsm
