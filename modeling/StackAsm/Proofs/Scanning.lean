import StackAsm.Proofs.SourceMap
import StackAsm.Proofs.Words

/-!
# The meaningful lines of a source

What scanning gives is said here on the characters of the raw lines alone.  The
code of a line ends at the first place where a comment can begin: the marker
stands there and no newline comes after it.  A raw line is meaningful when its
code shows a character, and its words are the runs of its code.
-/

set_option autoImplicit false

namespace StackAsm.Source

open Text (isBlank isAllBlank AreRuns)

/-! ## Code -/

/-- The marker stands at the position, and no newline after it. -/
def OpensAt (marker : Marker) (text : List Char) (position : Nat) : Prop :=
  marker.text <+: text.drop position ∧ '\n' ∉ text.drop (position + marker.text.length)

/-- The text before the first place where a comment can begin, or all of it. -/
inductive IsCode (marker : Marker) (text : List Char) : List Char → Prop where
  | before (position : Nat) (opens : OpensAt marker text position)
      (first : ∀ earlier < position, ¬ OpensAt marker text earlier) :
      IsCode marker text (text.take position)
  | whole (never : ∀ position, ¬ OpensAt marker text position) : IsCode marker text text

theorem Marker.text_ne_nil (marker : Marker) : marker.text ≠ [] := by
  intro empty
  have visible := marker.visible
  simp [empty, isAllBlank] at visible

theorem opens_iff (marker : Marker) (text : List Char) :
    marker.opens text = true ↔ OpensAt marker text 0 := by
  simp [Marker.opens, OpensAt]

theorem opensAt_cons_succ (marker : Marker) (c : Char) (rest : List Char) (position : Nat) :
    OpensAt marker (c :: rest) (position + 1) ↔ OpensAt marker rest position := by
  rw [OpensAt, OpensAt, Nat.add_right_comm, List.drop_succ_cons, List.drop_succ_cons]

theorem not_opensAt_nil (marker : Marker) (position : Nat) : ¬ OpensAt marker [] position := by
  intro opens
  have stands := opens.1
  rw [List.drop_nil, List.prefix_nil] at stands
  exact marker.text_ne_nil stands

theorem isCode_codePart (marker : Marker) (text : List Char) :
    IsCode marker text (codePart marker text) := by
  induction text with
  | nil => exact .whole (not_opensAt_nil marker)
  | cons c rest ih =>
    rw [codePart]
    split
    · rename_i opens
      exact .before 0 ((opens_iff marker _).mp opens) (by simp)
    · rename_i closed
      have notHere : ¬ OpensAt marker (c :: rest) 0 := by rwa [← opens_iff]
      generalize codePart marker rest = code at ih
      cases ih with
      | before position opens first =>
        rw [← List.take_succ_cons]
        refine .before (position + 1) ((opensAt_cons_succ marker c rest position).mpr opens) ?_
        intro earlier before
        cases earlier with
        | zero => exact notHere
        | succ earlier =>
          rw [opensAt_cons_succ]
          exact first earlier (by omega)
      | whole never =>
        apply IsCode.whole
        intro position
        cases position with
        | zero => exact notHere
        | succ position =>
          rw [opensAt_cons_succ]
          exact never position

/-- There is only one first place. -/
theorem IsCode.unique {marker : Marker} {text code other : List Char}
    (isCode : IsCode marker text code) (isOther : IsCode marker text other) : code = other := by
  cases isCode with
  | before position opens first =>
    cases isOther with
    | before otherPosition otherOpens otherFirst =>
      have notBelow : ¬ position < otherPosition := fun below => otherFirst position below opens
      have notAbove : ¬ otherPosition < position := fun below => first otherPosition below otherOpens
      rw [show position = otherPosition by omega]
    | whole never => exact absurd opens (never position)
  | whole never =>
    cases isOther with
    | before position opens first => exact absurd opens (never position)
    | whole _ => rfl

theorem codePart_eq_iff {marker : Marker} {text code : List Char} :
    codePart marker text = code ↔ IsCode marker text code := by
  constructor
  · intro cut
    subst cut
    exact isCode_codePart marker text
  · intro isCode
    exact (isCode_codePart marker text).unique isCode

theorem opensAt_of_append {marker : Marker} {front back : List Char}
    (single : '\n' ∉ front ++ marker.text ++ back) :
    OpensAt marker (front ++ marker.text ++ back) front.length := by
  refine ⟨?_, fun newline => single (List.mem_of_mem_drop newline)⟩
  rw [List.append_assoc, List.drop_left]
  exact List.prefix_append marker.text back

/-- The code of a line without newlines does not show the marker. -/
theorem IsCode.unmarked {marker : Marker} {text code : List Char} (single : '\n' ∉ text)
    (isCode : IsCode marker text code) : ¬ marker.text <:+: code := by
  intro shown
  obtain ⟨front, back, parts⟩ := shown
  cases isCode with
  | before position opens first =>
    have early : front.length < position := by
      have sizes := congrArg List.length parts
      have positive := List.length_pos_of_ne_nil marker.text_ne_nil
      simp only [List.length_append, List.length_take] at sizes
      omega
    have whole : text = front ++ marker.text ++ (back ++ text.drop position) := by
      rw [← List.append_assoc, parts, List.take_append_drop]
    apply first front.length early
    rw [whole] at single ⊢
    exact opensAt_of_append single
  | whole never =>
    subst parts
    exact never front.length (opensAt_of_append single)

/-! ## Lines -/

theorem tokens_ne_nil_iff (marker : Marker) (raw : String) :
    tokens marker raw ≠ [] ↔
      ∃ code, IsCode marker raw.toList code ∧ ∃ c ∈ code, isBlank c = false := by
  have visible : tokens marker raw ≠ [] ↔ ∃ c ∈ codePart marker raw.toList, isBlank c = false := by
    rw [tokens, Ne, List.map_eq_nil_iff, Text.words_eq_nil_iff, isAllBlank, List.all_eq_true]
    simp
  rw [visible]
  constructor
  · intro shown
    exact ⟨_, isCode_codePart marker raw.toList, shown⟩
  · intro found
    obtain ⟨code, isCode, shown⟩ := found
    rwa [codePart_eq_iff.mpr isCode]

theorem areRuns_tokens (marker : Marker) (raw : String) :
    AreRuns (codePart marker raw.toList) ((tokens marker raw).map String.toList) := by
  rw [← Text.words_eq_iff, tokens, List.map_map]
  simp [Function.comp_def]

theorem isInfix_of_mem_tokens {marker : Marker} {raw word : String}
    (member : word ∈ tokens marker raw) : word.toList <:+: codePart marker raw.toList := by
  obtain ⟨_, run⟩ := (areRuns_tokens marker raw).exists_runAt (List.mem_map_of_mem member)
  exact run.isInfix

theorem isWord_of_mem_tokens {marker : Marker} {raw word : String}
    (member : word ∈ tokens marker raw) : Text.IsWord word.toList := by
  obtain ⟨_, run⟩ := (areRuns_tokens marker raw).exists_runAt (List.mem_map_of_mem member)
  exact run.isWord

/-- The meaningful lines of raw lines. -/
structure Scanned (marker : Marker) (raw : List String) (lines : List Line) : Prop where
  sorted : lines.Pairwise fun line later => line.number < later.number
  mem_iff : ∀ number, number ∈ lines.map Line.number ↔
    0 < number ∧ ∃ text code, raw[number - 1]? = some text ∧
      IsCode marker text.toList code ∧ ∃ c ∈ code, isBlank c = false
  words : ∀ line ∈ lines, ∃ text code, raw[line.number - 1]? = some text ∧
    IsCode marker text.toList code ∧ AreRuns code (line.tokens.map String.toList)
  unmarked : ∀ text ∈ raw, '\n' ∉ text.toList →
    ∀ code, IsCode marker text.toList code → ¬ marker.text <:+: code
  unmarkedWords : ∀ line ∈ lines, ∀ text, raw[line.number - 1]? = some text →
    '\n' ∉ text.toList → ∀ word ∈ line.tokens, ¬ marker.text <:+: word.toList

/-- Scanning is exact on all raw lines, those with newlines in them included. -/
theorem scanLines_scanned (marker : Marker) (raw : List String) :
    Scanned marker raw (scanLines marker raw) := by
  have numbers := scanLines_numbers marker raw
  have standing : ∀ line ∈ scanLines marker raw, ∃ text, raw[line.number - 1]? = some text ∧
      tokens marker text = line.tokens := by
    intro line member
    exact Option.map_eq_some_iff.mp ((numbers.mem_iff line).mp member).2
  refine ⟨numbers.sorted, ?_, ?_, ?_, ?_⟩
  · intro number
    simp only [numbers.mem_map_iff, tokens_ne_nil_iff]
    constructor
    · intro found
      obtain ⟨positive, text, stands, code, isCode, shown⟩ := found
      exact ⟨positive, text, code, stands, isCode, shown⟩
    · intro found
      obtain ⟨positive, text, code, stands, isCode, shown⟩ := found
      exact ⟨positive, text, stands, code, isCode, shown⟩
  · intro line member
    obtain ⟨text, stands, same⟩ := standing line member
    refine ⟨text, _, stands, isCode_codePart marker text.toList, ?_⟩
    rw [← same]
    exact areRuns_tokens marker text
  · intro text _ single code isCode
    exact isCode.unmarked single
  · intro line member text stands single word inside
    obtain ⟨other, otherStands, same⟩ := standing line member
    obtain rfl : text = other := by simpa [stands] using otherStands
    rw [← same] at inside
    intro marked
    exact (isCode_codePart marker text.toList).unmarked single
      (marked.trans (isInfix_of_mem_tokens inside))

example :
    scanLines ⟨"//".toList, by decide⟩ ["Push 1///", " // note", "label // a\nPop // b"] =
      [⟨1, "Push", ["1"]⟩, ⟨3, "label", ["//", "a", "Pop"]⟩] := by decide +kernel

end StackAsm.Source
