import StackAsm.Proofs.Scanning

/-!
# Remarks at the end of a line

A remark is a blank, the marker and any text behind it.  The marker holds no
blank, so that no place where the marker stands reaches across the blank of the
remark: on the line itself comments begin where they began before, and behind
the blank there is only a comment.  A line keeps its words under a remark, and
lines with the same words are assembled to the same program.
-/

set_option autoImplicit false

namespace StackAsm

namespace Source

open Text (isBlank)

/-! ## Seams inside a line -/

theorem isPrefix_append_cons_iff {text front back : List Char} {c : Char} (lacks : c ∉ text) :
    text <+: front ++ c :: back ↔ text <+: front := by
  constructor
  · intro stands
    rcases List.prefix_or_prefix_of_prefix stands (List.prefix_append front (c :: back)) with
      inside | ⟨rest, rfl⟩
    · exact inside
    · rw [List.prefix_append_right_inj] at stands
      cases rest with
      | nil => simp
      | cons d rest =>
        obtain rfl : d = c := (List.cons_prefix_cons.mp stands).1
        simp at lacks
  · intro stands
    exact stands.trans (List.prefix_append front (c :: back))

/-- Comments that begin before a character the marker lacks do not depend on
what stands from there to the end of the line. -/
theorem opens_append_cons (marker : Marker) {c : Char} {back : List Char}
    (lacks : c ∉ marker.text) (single : '\n' ∉ c :: back) (front : List Char) :
    marker.opens (front ++ c :: back) = marker.opens front := by
  rw [Bool.eq_iff_iff, opens_iff, opens_iff, OpensAt, OpensAt, List.drop_zero, List.drop_zero,
    isPrefix_append_cons_iff lacks]
  refine and_congr_right ?_
  intro stands
  rw [Nat.zero_add, List.drop_append_of_le_length stands.length_le, List.mem_append]
  simp [single]

/-- Behind such a character, a comment or nothing adds at most that character
to the code. -/
theorem codePart_append_cons (marker : Marker) {c : Char} {back : List Char}
    (lacks : c ∉ marker.text) (single : '\n' ∉ c :: back) (silent : codePart marker back = [])
    (front : List Char) :
    codePart marker (front ++ c :: back) = codePart marker front ∨
      codePart marker (front ++ c :: back) = codePart marker front ++ [c] := by
  have opens := opens_append_cons marker lacks single
  induction front with
  | nil =>
    have closed : marker.opens (c :: back) = false := by
      rw [← List.nil_append (c :: back), opens, Bool.eq_false_iff, Ne, opens_iff]
      exact not_opensAt_nil marker 0
    simp [codePart, closed, silent]
  | cons d front ih =>
    rw [List.cons_append, codePart, codePart, ← List.cons_append, opens]
    cases marker.opens (d :: front) with
    | true => simp
    | false => simpa using ih

theorem codePart_comment {marker : Marker} {remark : List Char}
    (single : '\n' ∉ marker.text ++ remark) : codePart marker (marker.text ++ remark) = [] := by
  have opens : OpensAt marker ([] ++ marker.text ++ remark) 0 := opensAt_of_append single
  exact codePart_eq_iff.mpr (.before 0 opens (by simp))

/-- A blank at the end of a line, with a comment behind it or nothing, keeps the words. -/
theorem tokens_append (marker : Marker) {c : Char} {back : List Char} (blank : isBlank c = true)
    (lacks : c ∉ marker.text) (single : '\n' ∉ c :: back) (silent : codePart marker back = [])
    {line longer : String} (appended : longer.toList = line.toList ++ c :: back) :
    tokens marker longer = tokens marker line := by
  rw [tokens, tokens, appended]
  rcases codePart_append_cons marker lacks single silent line.toList with same | same
  · rw [same]
  · rw [same, Text.words_append_blank blank]

/-! ## Lines with the same words -/

theorem scanFrom_congr {marker : Marker} {raw other : List String}
    (same : raw.map (tokens marker) = other.map (tokens marker)) (number : Nat) :
    scanFrom marker number raw = scanFrom marker number other := by
  induction raw generalizing other number with
  | nil =>
    rw [List.map_nil, eq_comm, List.map_eq_nil_iff] at same
    rw [same]
  | cons head rest ih =>
    cases other with
    | nil => simp at same
    | cons otherHead otherRest =>
      obtain ⟨sameHead, sameRest⟩ := List.cons.inj same
      rw [scanFrom_cons, scanFrom_cons, sameHead, ih sameRest]

end Source

namespace Assembly

open Source
open Text (isBlank IsWord)

/-- A remark at the end of a raw line changes nothing. -/
theorem ofRawLines_remark (marker : Marker) (solid : IsWord marker.text) (raw : List String)
    (k : Nat) (line : String) (stands : raw[k]? = some line) (c : Char)
    (blank : isBlank c = true) (sameLine : c ≠ '\n') (remark : String)
    (single : '\n' ∉ remark.toList) :
    ofRawLines marker (raw.set k (line ++ String.singleton c ++ marker.toString ++ remark)) =
      ofRawLines marker raw := by
  have newlineBlank : isBlank '\n' = true := by decide
  have markerSingle : '\n' ∉ marker.text := by
    intro member
    simp [solid.2 _ member] at newlineBlank
  have lacks : c ∉ marker.text := by
    intro member
    simp [solid.2 c member] at blank
  have commentSingle : '\n' ∉ marker.text ++ remark.toList := by
    simp [markerSingle, single]
  have sameWords : tokens marker (line ++ String.singleton c ++ marker.toString ++ remark) =
      tokens marker line := by
    refine tokens_append marker blank lacks ?_ (codePart_comment commentSingle) ?_
    · simp [commentSingle, sameLine.symm]
    · simp [Marker.toString]
  have sameLines : (raw.set k (line ++ String.singleton c ++ marker.toString ++ remark)).map
      (tokens marker) = raw.map (tokens marker) := by
    obtain ⟨inside, rfl⟩ := List.getElem?_eq_some_iff.mp stands
    rw [List.map_set, sameWords, ← List.map_set, List.set_getElem_self inside]
  rw [ofRawLines, ofRawLines, scanLines, scanLines, scanFrom_congr sameLines]

theorem ofRawLines_remark_slashes :
    ∃ marker : Marker, marker.toString = "//" ∧ IsWord marker.text ∧
      ofRawLines marker ["label a/", "Jump a/ // // up"] =
        ofRawLines marker ["label a/", "Jump a/"] ∧
      ∃ assembly, ofRawLines marker ["label a/", "Jump a/"] = .ok assembly ∧
        assembly.program = #[.noop, .jump 0] := by
  let slashes : Marker := ⟨"//".toList, by decide⟩
  have solid : IsWord slashes.text := by decide
  have inert := ofRawLines_remark slashes solid ["label a/", "Jump a/"] 1 "Jump a/" rfl ' '
    (by decide) (by decide) " // up" (by decide)
  exact ⟨slashes, rfl, solid, inert, _, rfl, rfl⟩

end Assembly

end StackAsm
