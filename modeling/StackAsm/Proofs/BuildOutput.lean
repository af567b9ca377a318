import Mathlib.Data.List.TakeWhile
import StackAsm.CommandLine.Assembler
import StackAsm.Proofs.FileStore

/-!
# Where a build puts its output

A build without a chosen output writes beside its input, to the name that arises
by giving the input's name another extension.  Two names in one directory are
two files, so the input keeps its contents, unless its name has that extension
already: then the output takes the place of the source.
-/

set_option autoImplicit false

namespace StackAsm

/-! ## Names in the directory of a path -/

namespace Path

theorem dropWhile_reverse_append {mark : Char} {after : List Char} (absent : mark ∉ after)
    (before : List Char) :
    (before ++ mark :: after).reverse.dropWhile (· ≠ mark) = mark :: before.reverse := by
  have passed : ∀ c ∈ after.reverse, decide (c ≠ mark) = true := by
    intro c member
    have other : c ≠ mark := fun same => absent (same ▸ List.mem_reverse.mp member)
    simpa using other
  rw [List.reverse_append, List.reverse_cons, List.append_assoc,
    List.dropWhile_append_of_pos passed]
  simp

/-- A text has no such mark, or is cut in two by its last one. -/
theorem last_mark_cases (mark : Char) (text : List Char) :
    mark ∉ text ∨ ∃ before after, text = before ++ mark :: after ∧ mark ∉ after := by
  induction text with
  | nil => simp
  | cons c rest ih =>
    rcases ih with absent | ⟨before, after, rfl, absent⟩
    · by_cases same : c = mark
      · exact .inr ⟨[], rest, by rw [same, List.nil_append], absent⟩
      · exact .inl (by simp [absent, Ne.symm same])
    · exact .inr ⟨c :: before, after, rfl, absent⟩

theorem splitSlashes_ne_nil (text : List Char) : splitSlashes text ≠ [] := by
  cases text with
  | nil => simp [splitSlashes]
  | cons c rest =>
    rw [splitSlashes]
    split
    · simp
    · split <;> simp

theorem splitSlashes_of_plain {name : List Char} (plain : '/' ∉ name) :
    splitSlashes name = [name] := by
  induction name with
  | nil => rfl
  | cons c rest ih =>
    rw [List.mem_cons, not_or] at plain
    rw [splitSlashes, if_neg (Ne.symm plain.1), ih plain.2]

theorem splitSlashes_append {name : List Char} (plain : '/' ∉ name) (front : List Char) :
    splitSlashes (front ++ '/' :: name) = splitSlashes front ++ [name] := by
  induction front with
  | nil => simp [splitSlashes, splitSlashes_of_plain plain]
  | cons c rest ih =>
    rw [List.cons_append, splitSlashes, splitSlashes, ih]
    split
    · rfl
    · cases cut : splitSlashes rest with
      | nil => exact absurd cut (splitSlashes_ne_nil rest)
      | cons part later => rfl

theorem fileName_plain (path : List Char) : '/' ∉ fileName path := by
  intro slash
  have taken : '/' ∈ path.reverse.takeWhile (· ≠ '/') := List.mem_reverse.mp slash
  simpa using List.mem_takeWhile_imp taken

theorem directoryPart_append_fileName (path : List Char) :
    directoryPart path ++ fileName path = path := by
  rw [directoryPart, fileName, ← List.reverse_append, List.takeWhile_append_dropWhile,
    List.reverse_reverse]

theorem directoryPart_cases (path : List Char) :
    directoryPart path = [] ∨ ∃ front, directoryPart path = front ++ ['/'] := by
  rcases last_mark_cases '/' path with absent | ⟨front, name, rfl, absent⟩
  · refine .inl ?_
    rw [directoryPart, List.dropWhile_eq_nil_iff.mpr, List.reverse_nil]
    intro c member
    have other : c ≠ '/' := fun same => absent (same ▸ List.mem_reverse.mp member)
    simpa using other
  · refine .inr ⟨front, ?_⟩
    rw [directoryPart, dropWhile_reverse_append absent, List.reverse_cons, List.reverse_reverse]

def sibling (path : String) (name : List Char) : String :=
  String.ofList (directoryPart path.toList ++ name)

theorem sibling_fileName (path : String) : sibling path (fileName path.toList) = path := by
  rw [sibling, directoryPart_append_fileName, String.ofList_toList]

theorem parts_sibling (path : String) :
    ∃ beginning parents, ∀ name, '/' ∉ name →
      FileStore.start (sibling path name) = beginning ∧
        parts (sibling path name) = parents ++ [String.ofList name] := by
  simp only [sibling, parts, FileStore.start, String.toList_ofList]
  rcases directoryPart_cases path.toList with here | ⟨front, below⟩
  · refine ⟨[], [], fun name plain => ?_⟩
    rw [here, List.nil_append, splitSlashes_of_plain plain]
    refine ⟨?_, rfl⟩
    split
    · simp at plain
    · rfl
  · rw [below]
    refine ⟨if front.head?.getD '/' = '/' then FileStore.root else [],
      (splitSlashes front).map String.ofList, fun name plain => ?_⟩
    rw [List.append_assoc, List.singleton_append, splitSlashes_append plain, List.map_append]
    refine ⟨?_, rfl⟩
    cases front with
    | nil => rfl
    | cons c rest =>
      by_cases slash : c = '/'
      · simp [slash]
      · simp [slash]

/-! ## Extensions -/

theorem beforeLastDot?_of_append {before after : List Char} (dotless : '.' ∉ after) :
    beforeLastDot? (before ++ '.' :: after) = some before := by
  rw [beforeLastDot?, dropWhile_reverse_append dotless]
  simp

theorem stem_of_append {before after : List Char} (dotless : '.' ∉ after) (named : before ≠ []) :
    stem (before ++ '.' :: after) = before := by
  rw [stem, beforeLastDot?_of_append dotless]
  cases before with
  | nil => exact absurd rfl named
  | cons c rest => rfl

theorem stem_cases (name : List Char) :
    stem name = name ∨ stem name ≠ [] ∧ ∃ after, name = stem name ++ '.' :: after := by
  rcases last_mark_cases '.' name with absent | ⟨before, after, rfl, dotless⟩
  · refine .inl ?_
    have undotted : beforeLastDot? name = none := by
      rw [beforeLastDot?, List.dropWhile_eq_nil_iff.mpr]
      intro c member
      have other : c ≠ '.' := fun same => absent (same ▸ List.mem_reverse.mp member)
      simpa using other
    rw [stem, undotted]
  · by_cases named : before = []
    · refine .inl ?_
      rw [stem, beforeLastDot?_of_append dotless, named]
    · refine .inr ?_
      rw [stem_of_append dotless named]
      exact ⟨named, after, rfl⟩

theorem withNameExtension_plain {name extension : List Char} (plain : '/' ∉ name)
    (plainExtension : '/' ∉ extension) : '/' ∉ withNameExtension name extension := by
  have plainStem : '/' ∉ stem name := by
    rcases stem_cases name with whole | ⟨_, after, cut⟩
    · rwa [whole]
    · rw [cut] at plain
      exact fun slash => plain (List.mem_append_left _ slash)
  rw [withNameExtension]
  split
  · decide
  · simp [plainStem, plainExtension]

/-- The file name of a path is a stem, a dot and the extension. -/
def HasExtension (path extension : String) : Prop :=
  ∃ before, before ≠ [] ∧ before ≠ ['.'] ∧ fileName path.toList = before ++ '.' :: extension.toList

/-- Apart from the name of the parent directory, the names that keep their
extension are those that have it already. -/
theorem withNameExtension_eq_self_iff {name extension : List Char} (dotless : '.' ∉ extension) :
    withNameExtension name extension = name ↔
      name = ['.', '.'] ∨
        ∃ before, before ≠ [] ∧ before ≠ ['.'] ∧ name = before ++ '.' :: extension := by
  constructor
  · intro same
    rw [withNameExtension] at same
    split at same
    · exact .inl same.symm
    · rename_i undotted
      refine .inr ⟨stem name, ?_, undotted, same.symm⟩
      rcases stem_cases name with whole | ⟨named, _⟩
      · rw [whole] at same
        simp at same
      · exact named
  · rintro (rfl | ⟨before, named, undotted, rfl⟩)
    · rfl
    · rw [withNameExtension, stem_of_append dotless named, if_neg undotted]

end Path

/-! ## Files beside a written one -/

namespace FileStore

variable {store written : FileStore}

theorem follow_concat {beginning location : List String} {parents : List String} {part : String}
    (followed : store.follow beginning (parents ++ [part]) = .ok location) :
    ∃ directory, store.follow beginning parents = .ok directory ∧
      location = move directory part := by
  induction parents generalizing beginning with
  | nil =>
    rw [List.nil_append, follow_cons_of_directory (directory_of_follow followed)] at followed
    split at followed
    · cases followed
    · cases followed
      exact ⟨beginning, rfl, rfl⟩
  | cons first rest ih =>
    have here := directory_of_follow followed
    rw [List.cons_append, follow_cons_of_directory here] at followed
    rw [follow_cons_of_directory here]
    split at followed
    · cases followed
    · rename_i short
      rw [if_neg short]
      exact ih followed

theorem read_eq_ok_iff {path : String} {contents : Bytes} :
    store.read path = .ok contents ↔
      pathError? path = none ∧ ∃ location,
        store.follow (start path) (Path.parts path) = .ok location ∧
          store.node? location = some (.file contents) := by
  rw [read]
  cases pathError? path with
  | some error => simp
  | none =>
    cases store.follow (start path) (Path.parts path) with
    | error error => simp
    | ok location =>
      cases found : store.node? location with
      | none => simp [found]
      | some node => cases node <;> simp [found]

/-- In a directory, only its own name leads to a file. -/
theorem eq_of_move {directory : List String} {part name : String} (noDots : name ≠ "..")
    (leads : move directory part = directory ++ [name]) : part = name := by
  rw [move] at leads
  split at leads
  · simp at leads
  · split at leads
    · rw [parent] at leads
      split at leads
      · rename_i top
        rw [top] at leads
        simp at leads
      · split at leads
        · simp only [List.append_cancel_left_eq, List.cons.injEq, and_true] at leads
          exact absurd leads.symm noDots
        · have shorter := congrArg List.length leads
          simp only [List.length_dropLast, List.length_append, List.length_singleton] at shorter
          omega
    · simpa using leads

theorem ne_dots_of_write {path : String} {name : List Char} {contents : Bytes}
    (plain : '/' ∉ name) (success : store.write (Path.sibling path name) contents = .ok written) :
    name ≠ ['.', '.'] := by
  obtain ⟨_, _, leads⟩ := Path.parts_sibling path
  obtain ⟨_, _, last, _, parts, _, _, created⟩ := write_eq_ok success
  obtain ⟨_, _, _, noDots, _⟩ := writeIn_eq_ok created
  rw [(leads name plain).2] at parts
  obtain ⟨_, sameLast⟩ := List.append_inj' parts rfl
  obtain rfl : String.ofList name = last := List.singleton_inj.mp sameLast
  intro same
  rw [same] at noDots
  exact noDots rfl

/-- Writing a file leaves all others in its directory as they are. -/
theorem read_of_write_sibling {path : String} {name other : List Char} {source contents : Bytes}
    (plain : '/' ∉ name) (plainOther : '/' ∉ other) (apart : other ≠ name)
    (holds : store.read (Path.sibling path name) = .ok source)
    (success : store.write (Path.sibling path other) contents = .ok written) :
    written.read (Path.sibling path name) = .ok source := by
  obtain ⟨beginning, parents, leads⟩ := Path.parts_sibling path
  obtain ⟨accepted, location, followed, found⟩ := read_eq_ok_iff.mp holds
  obtain ⟨_, otherParents, last, directory, parts, _, entered, created⟩ := write_eq_ok success
  obtain ⟨_, _, _, noDots, _, noDirectory, rfl⟩ := writeIn_eq_ok created
  rw [(leads name plain).1, (leads name plain).2] at followed
  rw [(leads other plainOther).2] at parts
  rw [(leads other plainOther).1] at entered
  obtain ⟨rfl, sameLast⟩ := List.append_inj' parts rfl
  obtain rfl : String.ofList other = last := List.singleton_inj.mp sameLast
  obtain ⟨here, reached, moved⟩ := follow_concat followed
  obtain rfl : directory = here := Except.ok.inj (entered.symm.trans reached)
  have elsewhere : location ≠ directory ++ [String.ofList other] := by
    intro same
    rw [moved] at same
    exact apart (String.ofList_injective (eq_of_move noDots same)).symm
  refine read_eq_ok_iff.mpr ⟨accepted, location, ?_, ?_⟩
  · rw [(leads name plain).1, (leads name plain).2]
    exact follow_put noDirectory _ followed
  · rw [node?_put_of_ne elsewhere, found]

end FileStore

/-! ## Builds -/

/-- The extension of the files of an output form.  A listing has none: it is
shown on the console. -/
def OutputForm.extension? : OutputForm → Option String
  | .bytecode => some "svb"
  | .json => some "json"
  | .listing => none

theorem OutputForm.extension?_plain {form : OutputForm} {extension : String}
    (has : extension ∈ form.extension?) : '.' ∉ extension.toList ∧ '/' ∉ extension.toList := by
  cases form with
  | bytecode | json =>
    cases has
    decide
  | listing => cases has

namespace CommandLine.Assembler

theorem defaultOutput?_eq_map (input : String) (form : OutputForm) :
    defaultOutput? input form = form.extension?.map (Path.withExtension input) := by
  cases form <;> rfl

def storeAfter {α : Type} (command : StateM FileStore α) (store : FileStore) : FileStore :=
  (command.run store).2

def WritesAtMost {α : Type} (target : Option String) (command : StateM FileStore α) : Prop :=
  ∀ store, storeAfter command store = store ∨
    ∃ path ∈ target, ∃ contents, store.write path contents = .ok (storeAfter command store)

section Writing

variable {α β : Type} {target : Option String} {command : StateM FileStore α}
  {next : α → StateM FileStore β}

theorem writesAtMost_of_idle (idle : ∀ store, storeAfter command store = store) :
    WritesAtMost target command :=
  fun store => .inl (idle store)

theorem writesAtMost_write (path : String) (contents : Bytes) :
    WritesAtMost path (Files.write path contents : StateM FileStore (Except FileError Unit)) := by
  intro store
  rw [storeAfter, FileStore.run_write]
  cases success : store.write path contents with
  | error error => exact .inl rfl
  | ok written => exact .inr ⟨path, rfl, contents, success⟩

theorem WritesAtMost.after (idle : ∀ store, storeAfter command store = store)
    (writes : ∀ value, WritesAtMost target (next value)) :
    WritesAtMost target (command >>= next) := by
  intro store
  have same : storeAfter (command >>= next) store = storeAfter (next (command.run store).1) store :=
    congrArg (storeAfter (next (command.run store).1)) (idle store)
  rw [same]
  exact writes _ store

theorem WritesAtMost.before (writes : WritesAtMost target command)
    (idle : ∀ value store, storeAfter (next value) store = store) :
    WritesAtMost target (command >>= next) := by
  intro store
  have same : storeAfter (command >>= next) store = storeAfter command store := idle _ _
  rw [same]
  exact writes store

theorem writesAtMost_writeOutput (path : String) (form : OutputForm) (assembly : Assembly) :
    WritesAtMost path (writeOutput path form assembly) := by
  cases form with
  | bytecode =>
    apply WritesAtMost.before
    · apply (writesAtMost_write path _).before
      intro outcome store
      cases outcome with
      | error error => rfl
      | ok done =>
        dsimp only
        cases (Image.encode assembly.program).failure <;> rfl
    · intro outcome store
      cases outcome <;> rfl
  | json | listing =>
    apply (writesAtMost_write path _).before
    intro outcome store
    cases outcome <;> rfl

theorem writesAtMost_build (input markerText : String) (form : OutputForm) :
    WritesAtMost (defaultOutput? input form) (build input none form markerText) := by
  apply WritesAtMost.after
  · intro store
    rfl
  · intro compiled
    cases compiled.result with
    | error failure => exact writesAtMost_of_idle fun _ => rfl
    | ok assembly =>
      cases defaultOutput? input form with
      | none => exact writesAtMost_of_idle fun _ => rfl
      | some path =>
        apply (writesAtMost_writeOutput path form assembly).before
        intro outcome store
        cases outcome <;> rfl

end Writing

/-- A build without a chosen output leaves its input as it is, unless the input's
name already has the extension of the output. -/
theorem build_keeps_input (store : FileStore) (input markerText : String) (form : OutputForm)
    (source : Bytes) (holds : store.read input = .ok source)
    (apart : ∀ extension ∈ form.extension?, ¬ Path.HasExtension input extension) :
    (storeAfter (build input none form markerText) store).read input = .ok source := by
  rcases writesAtMost_build input markerText form store with same | ⟨path, derived, contents, wrote⟩
  · rw [same]
    exact holds
  · rw [defaultOutput?_eq_map] at derived
    obtain ⟨extension, chosen, rfl⟩ := Option.map_eq_some_iff.mp derived
    obtain ⟨dotless, plainExtension⟩ := OutputForm.extension?_plain chosen
    have plain := Path.fileName_plain input.toList
    have plainOutput := Path.withNameExtension_plain plain plainExtension
    have wroteBeside : store.write (Path.sibling input (Path.withNameExtension
        (Path.fileName input.toList) extension.toList)) contents = .ok _ := wrote
    by_cases kept : Path.withNameExtension (Path.fileName input.toList) extension.toList =
        Path.fileName input.toList
    · rcases (Path.withNameExtension_eq_self_iff dotless).mp kept with dots | had
      · exact absurd (kept.trans dots) (FileStore.ne_dots_of_write plainOutput wroteBeside)
      · exact absurd had (apart extension chosen)
    · rw [← Path.sibling_fileName input] at holds
      have beside := FileStore.read_of_write_sibling plain plainOutput kept holds wroteBeside
      rwa [Path.sibling_fileName] at beside

theorem build_keeps_input_severalDots :
    let store : FileStore := ⟨[(["a.b.svm"], .file (Bytes.ofText "Push 1"))]⟩
    let command : StateM FileStore Report := build "a.b.svm" none .bytecode ";"
    (command.run store).1.console = "Wrote a.b.svb\n" ∧
      (storeAfter command store).read "a.b.svm" = .ok (Bytes.ofText "Push 1") := by
  refine ⟨by decide +kernel, build_keeps_input _ _ _ _ _ (by decide +kernel) ?_⟩
  rintro extension ⟨⟩ ⟨before, _, _, cut⟩
  have lasts : (Path.fileName "a.b.svm".toList).getLast? = "svb".toList.getLast? := by
    rw [cut, List.getLast?_append]
    rfl
  exact absurd lasts (by decide +kernel)

/-- A source whose name has the extension of images is replaced by its image. -/
theorem build_replaces_input_namedAsImage :
    let store : FileStore := ⟨[(["p.svb"], .file (Bytes.ofText "Push 1"))]⟩
    let command : StateM FileStore Report := build "p.svb" none .bytecode ";"
    store.read "p.svb" = .ok (Bytes.ofText "Push 1") ∧ (command.run store).1.failure = none ∧
      (storeAfter command store).read "p.svb" = .ok (Image.encode #[.push 1]).bytes ∧
      (Image.encode #[.push 1]).bytes ≠ Bytes.ofText "Push 1" := by
  decide +kernel

end CommandLine.Assembler

end StackAsm
