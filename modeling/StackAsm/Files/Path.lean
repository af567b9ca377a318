/-!
# Paths

A path is a text whose parts are separated by slashes.  The last part is the
name of a file; its extension is what follows the last dot that does not stand
at the start of the name.
-/

set_option autoImplicit false

namespace StackAsm.Path

/-- The parts between the slashes of a path, empty ones included. -/
def splitSlashes : List Char → List (List Char)
  | [] => [[]]
  | c :: rest =>
    if c = '/' then [] :: splitSlashes rest
    else
      match splitSlashes rest with
      | [] => [[c]]
      | part :: later => (c :: part) :: later

def parts (path : String) : List String :=
  (splitSlashes path.toList).map String.ofList

def ofParts (parts : List String) : String :=
  "/".intercalate parts

/-- The characters before the last dot of a name, if there is a dot. -/
def beforeLastDot? (name : List Char) : Option (List Char) :=
  match name.reverse.dropWhile (· ≠ '.') with
  | [] => none
  | _ :: stem => some stem.reverse

def stem (name : List Char) : List Char :=
  match beforeLastDot? name with
  | none => name
  | some [] => name
  | some stem => stem

/-- The name of a file with another extension.  A stem of one dot would become
the name of the parent directory, which takes no extension. -/
def withNameExtension (name extension : List Char) : List Char :=
  if stem name = ['.'] then ['.', '.'] else stem name ++ '.' :: extension

def fileName (path : List Char) : List Char :=
  (path.reverse.takeWhile (· ≠ '/')).reverse

def directoryPart (path : List Char) : List Char :=
  (path.reverse.dropWhile (· ≠ '/')).reverse

def withExtension (path extension : String) : String :=
  String.ofList (directoryPart path.toList ++
    withNameExtension (fileName path.toList) extension.toList)

end StackAsm.Path
