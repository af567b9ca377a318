import Mathlib.Data.List.Perm.Basic
import StackAsm.Text.Blank

/-!
# Words as maximal runs

A run is a place in a text where a word stands that can be extended on neither
side.  The words of a text are the words of its runs, from left to right.  A
text can be cut at a seam, where a blank stands on one side; no run reaches
across it, so the runs of a text are those of the two sides.
-/

set_option autoImplicit false

namespace StackAsm.Text

def StartsBlank (text : List Char) : Prop :=
  ∀ c ∈ text.head?, isBlank c = true

def EndsBlank (text : List Char) : Prop :=
  ∀ c ∈ text.getLast?, isBlank c = true

theorem startsBlank_nil : StartsBlank [] := by
  simp [StartsBlank]

theorem endsBlank_nil : EndsBlank [] := by
  simp [EndsBlank]

theorem startsBlank_cons {c : Char} (blank : isBlank c = true) (rest : List Char) :
    StartsBlank (c :: rest) := by
  simp [StartsBlank, blank]

theorem endsBlank_concat {c : Char} (blank : isBlank c = true) (front : List Char) :
    EndsBlank (front ++ [c]) := by
  simp [EndsBlank, blank]

theorem startsBlank_append_iff {front : List Char} (nonempty : front ≠ []) (back : List Char) :
    StartsBlank (front ++ back) ↔ StartsBlank front := by
  rw [StartsBlank, StartsBlank, List.head?_append_of_ne_nil _ nonempty]

theorem endsBlank_append_iff (front : List Char) {back : List Char} (nonempty : back ≠ []) :
    EndsBlank (front ++ back) ↔ EndsBlank back := by
  rw [EndsBlank, EndsBlank, List.getLast?_append_of_ne_nil _ nonempty]

theorem startsBlank_of_append {front back : List Char} (startsBlank : StartsBlank (front ++ back)) :
    StartsBlank front := by
  rcases eq_or_ne front [] with rfl | nonempty
  · exact startsBlank_nil
  · exact (startsBlank_append_iff nonempty back).mp startsBlank

theorem endsBlank_of_append {front back : List Char} (endsBlank : EndsBlank (front ++ back)) :
    EndsBlank back := by
  rcases eq_or_ne back [] with rfl | nonempty
  · exact endsBlank_nil
  · exact (endsBlank_append_iff front nonempty).mp endsBlank

instance (word : List Char) : Decidable (IsWord word) :=
  decidable_of_iff (word ≠ [] ∧ word.all fun c => !isBlank c) (by simp [IsWord])

theorem IsWord.not_startsBlank {word : List Char} (isWord : IsWord word) (rest : List Char) :
    ¬ StartsBlank (word ++ rest) := by
  rw [startsBlank_append_iff isWord.1]
  intro startsBlank
  have visible := isWord.2 _ (List.head_mem isWord.1)
  simp [startsBlank _ (List.head?_eq_some_head isWord.1)] at visible

theorem IsWord.not_endsBlank {word : List Char} (isWord : IsWord word) (front : List Char) :
    ¬ EndsBlank (front ++ word) := by
  rw [endsBlank_append_iff front isWord.1]
  intro endsBlank
  have visible := isWord.2 _ (List.getLast_mem isWord.1)
  simp [endsBlank _ (List.getLast?_eq_some_getLast isWord.1)] at visible

/-! ## Words by the shape of a text -/

theorem words_cons_of_blank {c : Char} (blank : isBlank c = true) (rest : List Char) :
    words (c :: rest) = words rest := by
  simp [words, frontWord, consWord, blank]

theorem frontWord_of_startsBlank {text : List Char} (startsBlank : StartsBlank text) :
    frontWord text = ([], words text) := by
  cases text with
  | nil => rfl
  | cons c rest =>
    have blank : isBlank c = true := startsBlank c rfl
    rw [words_cons_of_blank blank]
    simp [words, frontWord, blank]

theorem frontWord_append {word rest : List Char} (visible : ∀ c ∈ word, isBlank c = false)
    (startsBlank : StartsBlank rest) : frontWord (word ++ rest) = (word, words rest) := by
  induction word with
  | nil => exact frontWord_of_startsBlank startsBlank
  | cons c word ih =>
    obtain ⟨here, later⟩ := List.forall_mem_cons.mp visible
    rw [List.cons_append, frontWord, ih later]
    simp [here]

theorem words_append {word rest : List Char} (isWord : IsWord word)
    (startsBlank : StartsBlank rest) : words (word ++ rest) = word :: words rest := by
  rw [words, frontWord_append isWord.2 startsBlank]
  simp [consWord, isWord.1]

theorem words_of_isWord {word : List Char} (isWord : IsWord word) : words word = [word] := by
  have alone := words_append isWord startsBlank_nil
  rwa [List.append_nil] at alone

/-- Every text is empty, begins with a blank or begins with a whole word. -/
theorem text_induction {motive : List Char → Prop} (nil : motive [])
    (blank : ∀ c rest, isBlank c = true → motive rest → motive (c :: rest))
    (word : ∀ word rest, IsWord word → StartsBlank rest → motive rest → motive (word ++ rest))
    (text : List Char) : motive text := by
  have whole : ∀ front rest, (∀ c ∈ front, isBlank c = false) → StartsBlank rest →
      motive rest → motive (front ++ rest) := by
    intro front rest visible startsBlank later
    cases front with
    | nil => exact later
    | cons c front => exact word _ rest ⟨List.cons_ne_nil c front, visible⟩ startsBlank later
  -- The word at the front may still grow to the left, so the induction keeps it apart.
  have parts : ∃ front rest, text = front ++ rest ∧ (∀ c ∈ front, isBlank c = false) ∧
      StartsBlank rest ∧ motive rest := by
    induction text with
    | nil => exact ⟨[], [], rfl, by simp, startsBlank_nil, nil⟩
    | cons c text ih =>
      obtain ⟨front, rest, rfl, visible, startsBlank, later⟩ := ih
      cases here : isBlank c with
      | false =>
        exact ⟨c :: front, rest, rfl, List.forall_mem_cons.mpr ⟨here, visible⟩, startsBlank, later⟩
      | true =>
        have behind := whole front rest visible startsBlank later
        exact ⟨[], c :: (front ++ rest), rfl, by simp, startsBlank_cons here _,
          blank c _ here behind⟩
  obtain ⟨front, rest, rfl, visible, startsBlank, later⟩ := parts
  exact whole front rest visible startsBlank later

/-! ## Runs -/

/-- A word stands at the position, and a blank or nothing on each side of it. -/
def RunAt (text : List Char) (position : Nat) (word : List Char) : Prop :=
  ∃ before after, text = before ++ word ++ after ∧ before.length = position ∧
    IsWord word ∧ EndsBlank before ∧ StartsBlank after

/-- The words of all runs of a text, from left to right. -/
def AreRuns (text : List Char) (found : List (List Char)) : Prop :=
  ∃ runs : List (Nat × List Char), runs.Pairwise (fun run later => run.1 < later.1) ∧
    (∀ position word, (position, word) ∈ runs ↔ RunAt text position word) ∧
      found = runs.map Prod.snd

theorem RunAt.isWord {text word : List Char} {position : Nat} (run : RunAt text position word) :
    IsWord word := by
  obtain ⟨_, _, _, _, isWord, _, _⟩ := run
  exact isWord

theorem RunAt.isInfix {text word : List Char} {position : Nat} (run : RunAt text position word) :
    word <:+: text := by
  obtain ⟨before, after, rfl, _⟩ := run
  exact ⟨before, after, rfl⟩

theorem RunAt.lt_length {text word : List Char} {position : Nat}
    (run : RunAt text position word) : position < text.length := by
  have positive := List.length_pos_of_ne_nil run.isWord.1
  obtain ⟨before, after, rfl, rfl, _⟩ := run
  simp only [List.length_append]
  omega

theorem not_runAt_of_blank {text word : List Char} {position : Nat}
    (blank : ∀ c ∈ text, isBlank c = true) : ¬ RunAt text position word := by
  intro run
  obtain ⟨c, member⟩ := List.exists_mem_of_ne_nil word run.isWord.1
  have visible := run.isWord.2 c member
  simp [blank c (run.isInfix.subset member)] at visible

theorem runAt_word_iff {whole : List Char} (isWord : IsWord whole) {word : List Char}
    {position : Nat} : RunAt whole position word ↔ position = 0 ∧ word = whole := by
  constructor
  · intro run
    obtain ⟨before, after, rfl, rfl, _, endsBlank, startsBlank⟩ := run
    obtain ⟨visible, afterVisible⟩ := List.forall_mem_append.mp isWord.2
    have nothingBefore : before = [] := by
      by_contra nonempty
      have isWord : IsWord before := ⟨nonempty, (List.forall_mem_append.mp visible).1⟩
      exact isWord.not_endsBlank [] endsBlank
    have nothingAfter : after = [] := by
      by_contra nonempty
      have isWord : IsWord after := ⟨nonempty, afterVisible⟩
      exact isWord.not_startsBlank [] (by rwa [List.append_nil])
    simp [nothingBefore, nothingAfter]
  · intro same
    obtain ⟨rfl, rfl⟩ := same
    exact ⟨[], [], by simp, rfl, isWord, endsBlank_nil, startsBlank_nil⟩

section Seam

variable {front back word : List Char} {position : Nat}

theorem RunAt.before_seam (seam : EndsBlank front ∨ StartsBlank back)
    (run : RunAt front position word) : RunAt (front ++ back) position word := by
  obtain ⟨before, after, rfl, rfl, isWord, endsBlank, startsBlank⟩ := run
  refine ⟨before, after ++ back, by simp, rfl, isWord, endsBlank, ?_⟩
  rcases eq_or_ne after [] with rfl | nonempty
  · rw [List.append_nil] at seam
    exact seam.resolve_left (isWord.not_endsBlank before)
  · exact (startsBlank_append_iff nonempty back).mpr startsBlank

theorem RunAt.behind_seam (seam : EndsBlank front ∨ StartsBlank back)
    (run : RunAt back position word) : RunAt (front ++ back) (front.length + position) word := by
  obtain ⟨before, after, rfl, rfl, isWord, endsBlank, startsBlank⟩ := run
  refine ⟨front ++ before, after, by simp, by simp, isWord, ?_, startsBlank⟩
  rcases eq_or_ne before [] with rfl | nonempty
  · rw [List.append_nil]
    exact seam.resolve_right (isWord.not_startsBlank after)
  · exact (endsBlank_append_iff front nonempty).mpr endsBlank

theorem runAt_append_cases (seam : EndsBlank front ∨ StartsBlank back)
    (run : RunAt (front ++ back) position word) :
    RunAt front position word ∨
      ∃ later, position = front.length + later ∧ RunAt back later word := by
  obtain ⟨before, after, parts, rfl, isWord, endsBlank, startsBlank⟩ := run
  rw [List.append_assoc, List.append_eq_append_iff] at parts
  rcases parts with ⟨gap, rfl, rfl⟩ | ⟨left, rfl, parts⟩
  · right
    refine ⟨gap.length, List.length_append, gap, after, by simp, rfl, isWord, ?_, startsBlank⟩
    exact endsBlank_of_append endsBlank
  rcases List.append_eq_append_iff.mp parts with ⟨gap, rfl, rfl⟩ | ⟨right, rfl, rfl⟩
  · left
    refine ⟨before, gap, by simp, rfl, isWord, endsBlank, ?_⟩
    exact startsBlank_of_append startsBlank
  rcases eq_or_ne left [] with rfl | leftNonempty
  · exact .inr ⟨0, by simp, [], after, rfl, rfl, isWord, endsBlank_nil, startsBlank⟩
  rcases eq_or_ne right [] with rfl | rightNonempty
  · rw [List.append_nil] at isWord ⊢
    exact .inl ⟨before, [], by simp, rfl, isWord, endsBlank, startsBlank_nil⟩
  obtain ⟨leftVisible, rightVisible⟩ := List.forall_mem_append.mp isWord.2
  rcases seam with seam | seam
  · exact absurd seam (IsWord.not_endsBlank ⟨leftNonempty, leftVisible⟩ before)
  · exact absurd seam (IsWord.not_startsBlank ⟨rightNonempty, rightVisible⟩ after)

/-- Where no word can go across a seam, the runs are those of the two sides. -/
theorem runAt_append_iff (seam : EndsBlank front ∨ StartsBlank back) :
    RunAt (front ++ back) position word ↔
      RunAt front position word ∨
        ∃ later, position = front.length + later ∧ RunAt back later word := by
  constructor
  · exact runAt_append_cases seam
  · intro run
    rcases run with run | ⟨later, rfl, run⟩
    · exact run.before_seam seam
    · exact run.behind_seam seam

end Seam

/-! ## All runs of a text -/

theorem areRuns_of_blank {text : List Char} (blank : ∀ c ∈ text, isBlank c = true) :
    AreRuns text [] :=
  ⟨[], .nil, by simp [not_runAt_of_blank blank], rfl⟩

theorem areRuns_of_isWord {word : List Char} (isWord : IsWord word) : AreRuns word [word] :=
  ⟨[(0, word)], by simp, by simp [runAt_word_iff isWord], rfl⟩

theorem AreRuns.append {front back : List Char} {left right : List (List Char)}
    (seam : EndsBlank front ∨ StartsBlank back) (frontRuns : AreRuns front left)
    (backRuns : AreRuns back right) : AreRuns (front ++ back) (left ++ right) := by
  obtain ⟨leftRuns, leftSorted, leftIff, rfl⟩ := frontRuns
  obtain ⟨rightRuns, rightSorted, rightIff, rfl⟩ := backRuns
  let moved := rightRuns.map fun run => (front.length + run.1, run.2)
  have movedIff : ∀ position word, (position, word) ∈ moved ↔
      ∃ later, position = front.length + later ∧ RunAt back later word := by
    intro position word
    simp only [moved, List.mem_map, Prod.mk.injEq, Prod.exists, ← rightIff]
    constructor
    · intro found
      obtain ⟨later, _, member, rfl, rfl⟩ := found
      exact ⟨later, rfl, member⟩
    · intro found
      obtain ⟨later, rfl, member⟩ := found
      exact ⟨later, word, member, rfl, rfl⟩
  refine ⟨leftRuns ++ moved, List.pairwise_append.mpr ⟨leftSorted, ?_, ?_⟩, ?_, ?_⟩
  · rw [List.pairwise_map]
    exact rightSorted.imp fun before => Nat.add_lt_add_left before front.length
  · intro run leftMember later movedMember
    have inside := ((leftIff run.1 run.2).mp leftMember).lt_length
    obtain ⟨distance, same, _⟩ := (movedIff later.1 later.2).mp movedMember
    omega
  · intro position word
    rw [List.mem_append, leftIff, movedIff, runAt_append_iff seam]
  · simp [moved]

theorem areRuns_words (text : List Char) : AreRuns text (words text) := by
  induction text using text_induction with
  | nil => exact areRuns_of_blank (by simp)
  | blank c rest blank ih =>
    rw [words_cons_of_blank blank]
    have front : AreRuns [c] [] := areRuns_of_blank (by simp [blank])
    exact front.append (.inl (endsBlank_concat blank [])) ih
  | word word rest isWord startsBlank ih =>
    rw [words_append isWord startsBlank]
    exact (areRuns_of_isWord isWord).append (.inr startsBlank) ih

theorem AreRuns.exists_runAt {text word : List Char} {found : List (List Char)}
    (runs : AreRuns text found) (member : word ∈ found) : ∃ position, RunAt text position word := by
  obtain ⟨runs, _, iff, rfl⟩ := runs
  obtain ⟨⟨position, _⟩, inside, rfl⟩ := List.mem_map.mp member
  exact ⟨position, (iff position _).mp inside⟩

/-- Positions order the runs in one way only. -/
theorem AreRuns.unique {text : List Char} {found other : List (List Char)}
    (runs : AreRuns text found) (otherRuns : AreRuns text other) : found = other := by
  obtain ⟨runs, sorted, iff, rfl⟩ := runs
  obtain ⟨otherRuns, otherSorted, otherIff, rfl⟩ := otherRuns
  have nodup : ∀ {runs : List (Nat × List Char)},
      runs.Pairwise (fun run later => run.1 < later.1) → runs.Nodup := by
    intro runs sorted
    apply sorted.imp
    intro run later before same
    rw [same] at before
    exact Nat.lt_irrefl _ before
  have sameRuns : runs.Perm otherRuns := by
    rw [List.perm_ext_iff_of_nodup (nodup sorted) (nodup otherSorted)]
    intro run
    rw [← Prod.eta run, iff, otherIff]
  have same : runs = otherRuns := by
    apply sameRuns.eq_of_pairwise _ sorted otherSorted
    intro run later _ _ before after
    exact absurd before (Nat.lt_asymm after)
  rw [same]

/-- Cutting a text gives exactly the words of its runs. -/
theorem words_eq_iff {text : List Char} {found : List (List Char)} :
    words text = found ↔ AreRuns text found := by
  constructor
  · intro cut
    subst cut
    exact areRuns_words text
  · intro runs
    exact (areRuns_words text).unique runs

/-- Where no word can go across a seam, the words of the two sides follow each other. -/
theorem words_append_of_seam {front back : List Char} (seam : EndsBlank front ∨ StartsBlank back) :
    words (front ++ back) = words front ++ words back :=
  words_eq_iff.mpr ((areRuns_words front).append seam (areRuns_words back))

theorem words_append_blank {c : Char} (blank : isBlank c = true) (text : List Char) :
    words (text ++ [c]) = words text := by
  have starts : StartsBlank [c] := startsBlank_cons blank []
  have nothing : words [c] = [] := words_cons_of_blank blank []
  rw [words_append_of_seam (.inr starts), nothing, List.append_nil]

end StackAsm.Text
