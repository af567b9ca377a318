import StackAsm.Image.Bytes

/-!
# Access to files

Commands read whole files and replace whole files.  They are written for any
monad that offers these two operations.
-/

set_option autoImplicit false

namespace StackAsm

inductive FileError where
  | notFound
  | notADirectory
  | isADirectory
  /-- A name on the way, or the whole path, is too long. -/
  | nameTooLong
  /-- The path holds the character that ends paths for the system. -/
  | nulInPath
  /-- The contents are not a text in UTF-8. -/
  | notText
  /-- Any other reason, with its wording. -/
  | other (reason : String)
deriving DecidableEq, Repr

def FileError.message : FileError → String
  | .notFound => "No such file or directory (os error 2)"
  | .notADirectory => "Not a directory (os error 20)"
  | .isADirectory => "Is a directory (os error 21)"
  | .nameTooLong => "File name too long (os error 36)"
  | .nulInPath => "file name contained an unexpected NUL byte"
  | .notText => "stream did not contain valid UTF-8"
  | .other reason => reason

/-- Reading and replacing files by path. -/
class Files (m : Type → Type) where
  /-- The contents of a file. -/
  read : String → m (Except FileError Bytes)
  /-- Creates a file or replaces its contents. -/
  write : String → Bytes → m (Except FileError Unit)

/-- The text that bytes encode in UTF-8. -/
def Bytes.text (bytes : Bytes) : Except FileError String :=
  match String.fromUTF8? (ByteArray.mk bytes.toArray) with
  | some text => .ok text
  | none => .error .notText

def Bytes.ofText (text : String) : Bytes :=
  text.toUTF8.toList

end StackAsm
