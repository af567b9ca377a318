import StackAsm.Files.Store

/-!
# A written file is read back

Following a path stays on directories until the last part, and writing puts a
file where there is no directory.  So a path leads to the same location before
and after a file was written there, and what is read is what was written.
-/

set_option autoImplicit false

namespace StackAsm.FileStore

variable {store written : FileStore} {location target directory : List String}

theorem lookup_putNode_self (location : List String) (node : Node)
    (nodes : List (List String × Node)) :
    (putNode location node nodes).lookup location = some node := by
  induction nodes with
  | nil => simp [putNode]
  | cons entry rest ih =>
    obtain ⟨place, held⟩ := entry
    rw [putNode]
    by_cases same : place = location
    · simp [same]
    · rw [if_neg same, List.lookup_cons, beq_false_of_ne (Ne.symm same)]
      exact ih

theorem lookup_putNode_of_ne (other : location ≠ target) (node : Node)
    (nodes : List (List String × Node)) :
    (putNode target node nodes).lookup location = nodes.lookup location := by
  have apart : (location == target) = false := beq_false_of_ne other
  induction nodes with
  | nil => simp [putNode, List.lookup_cons, apart]
  | cons entry rest ih =>
    obtain ⟨place, held⟩ := entry
    rw [putNode]
    by_cases same : place = target
    · subst same
      simp [List.lookup_cons, apart]
    · rw [if_neg same, List.lookup_cons, List.lookup_cons, ih]

theorem node?_put_of_ne (other : location ≠ target) (node : Node) :
    (store.put target node).node? location = store.node? location := by
  simp only [node?, put, lookup_putNode_of_ne other]

theorem node?_put_self (noDirectory : store.node? target ≠ some .directory) (node : Node) :
    (store.put target node).node? target = some node := by
  have free : alwaysExists target = false := by
    cases always : alwaysExists target with
    | false => rfl
    | true => exact absurd (by simp [node?, always]) noDirectory
  simp [node?, put, free, lookup_putNode_self]

theorem follow_cons_of_directory (here : store.node? location = some .directory) (part : String)
    (rest : List String) :
    store.follow location (part :: rest) =
      if isTooLong part then .error .nameTooLong else store.follow (move location part) rest := by
  rw [follow, here]

theorem directory_of_follow {part : String} {rest : List String}
    (followed : store.follow location (part :: rest) = .ok directory) :
    store.node? location = some .directory := by
  rw [follow] at followed
  cases here : store.node? location with
  | none => simp [here] at followed
  | some node =>
    cases node with
    | file contents => simp [here] at followed
    | directory => rfl

theorem follow_append {front : List String} (followed : store.follow location front = .ok directory)
    (back : List String) : store.follow location (front ++ back) = store.follow directory back := by
  induction front generalizing location with
  | nil =>
    cases followed
    rfl
  | cons part rest ih =>
    have here := directory_of_follow followed
    rw [follow_cons_of_directory here] at followed
    rw [List.cons_append, follow_cons_of_directory here]
    split at followed
    · cases followed
    · rename_i short
      rw [if_neg short, ih followed]

/-- A path that can be followed is followed in the same way after something was
put where there was no directory. -/
theorem follow_put (noDirectory : store.node? target ≠ some .directory) (node : Node)
    {parts : List String} (followed : store.follow location parts = .ok directory) :
    (store.put target node).follow location parts = .ok directory := by
  induction parts generalizing location with
  | nil => exact followed
  | cons part rest ih =>
    have here := directory_of_follow followed
    have other : location ≠ target := by
      intro same
      exact noDirectory (same ▸ here)
    have still : (store.put target node).node? location = some .directory :=
      (node?_put_of_ne other node).trans here
    rw [follow_cons_of_directory here] at followed
    rw [follow_cons_of_directory still]
    split at followed
    · cases followed
    · rename_i short
      rw [if_neg short, ih followed]

theorem writeIn_eq_ok {name : String} {slashed : Bool} {contents : Bytes}
    (success : store.writeIn directory name slashed contents = .ok written) :
    store.node? directory = some .directory ∧ slashed = false ∧ name ≠ "." ∧ name ≠ ".." ∧
      isTooLong name = false ∧ store.node? (directory ++ [name]) ≠ some .directory ∧
        written = store.put (directory ++ [name]) (.file contents) := by
  rw [writeIn] at success
  split at success
  · cases success
  · cases success
  · rename_i here
    split at success
    · cases success
    · rename_i plain
      split at success
      · cases success
      · rename_i short
        split at success
        · cases success
        · rename_i noDirectory
          cases success
          simp only [not_or, Bool.not_eq_true] at plain
          exact ⟨here, plain.1, plain.2.1, plain.2.2, by simpa using short, noDirectory, rfl⟩

/-- What is known when a file was written: the path ends with its name, and the
parts before the name lead to a directory. -/
theorem write_eq_ok {path : String} {contents : Bytes}
    (success : store.write path contents = .ok written) :
    pathError? path = none ∧ ∃ parents name directory,
      Path.parts path = parents ++ [name] ∧ name ≠ "" ∧
        store.follow (start path) parents = .ok directory ∧
          store.writeIn directory name false contents = .ok written := by
  rw [write] at success
  split at success
  · cases success
  · rename_i accepted
    refine ⟨accepted, ?_⟩
    dsimp only at success
    split at success
    · cases success
    · rename_i name parents ending
      split at success
      · cases success
      · rename_i directory followed
        have unslashed := (writeIn_eq_ok success).2.1
        have unslashedHead : (Path.parts path).reverse.head? ≠ some "" := by simpa using unslashed
        have whole : (Path.parts path).reverse = name :: parents := by
          cases reversed : (Path.parts path).reverse with
          | nil => simp [reversed] at ending
          | cons last before =>
            have visible : last ≠ "" := by simpa [reversed] using unslashedHead
            simpa [reversed, List.dropWhile_cons, visible] using ending
        refine ⟨parents.reverse, name, directory, ?_, ?_, followed, ?_⟩
        · simpa using congrArg List.reverse whole
        · simpa [whole] using unslashedHead
        · rw [unslashed] at success
          exact success

theorem move_of_plain {name : String} (visible : name ≠ "") (noDot : name ≠ ".")
    (noDots : name ≠ "..") : move location name = location ++ [name] := by
  simp [move, visible, noDot, noDots]

theorem read_of_write {path : String} {contents : Bytes}
    (success : store.write path contents = .ok written) : written.read path = .ok contents := by
  obtain ⟨accepted, parents, name, directory, parts, visible, followed, created⟩ :=
    write_eq_ok success
  obtain ⟨here, _, noDot, noDots, short, noDirectory, rfl⟩ := writeIn_eq_ok created
  have other : directory ≠ directory ++ [name] := by simp
  have still : (store.put (directory ++ [name]) (.file contents)).node? directory =
      some .directory := (node?_put_of_ne other _).trans here
  have reached := follow_put noDirectory (.file contents) followed
  rw [read, accepted, parts, follow_append reached, follow_cons_of_directory still, short,
    move_of_plain visible noDot noDots]
  simp only [Bool.false_eq_true, if_false, follow, node?_put_self noDirectory]

/-! ## Commands on a store -/

theorem run_read (store : FileStore) (path : String) :
    (Files.read path : StateM FileStore (Except FileError Bytes)).run store = (store.read path, store) :=
  rfl

theorem run_write (store : FileStore) (path : String) (contents : Bytes) :
    (Files.write path contents : StateM FileStore (Except FileError Unit)).run store =
      match store.write path contents with
      | .error error => (.error error, store)
      | .ok written => (.ok (), written) :=
  rfl

end StackAsm.FileStore
