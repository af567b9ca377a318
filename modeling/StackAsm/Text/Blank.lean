/-!
# Blank characters and words

A blank is a character with the Unicode property `White_Space`.  `words` cuts a
text into its maximal runs of characters that are not blank.
-/

set_option autoImplicit false

namespace StackAsm.Text

/-- The characters with the Unicode property `White_Space`. -/
def isBlank (c : Char) : Bool :=
  let code := c.toNat
  (0x9 ≤ code && code ≤ 0xD) || code == 0x20 || code == 0x85 || code == 0xA0 ||
    code == 0x1680 || (0x2000 ≤ code && code ≤ 0x200A) || code == 0x2028 ||
    code == 0x2029 || code == 0x202F || code == 0x205F || code == 0x3000

def isAllBlank (text : List Char) : Bool :=
  text.all isBlank

/-- Puts a word in front of the words after it, unless it is empty. -/
def consWord (word : List Char) (rest : List (List Char)) : List (List Char) :=
  if word.isEmpty then rest else word :: rest

/-- The run of non-blank characters at the front of a text (possibly empty),
and the words after that run. -/
def frontWord : List Char → List Char × List (List Char)
  | [] => ([], [])
  | c :: rest =>
    let (word, later) := frontWord rest
    if isBlank c then ([], consWord word later) else (c :: word, later)

/-- The maximal runs of non-blank characters, in order. -/
def words (text : List Char) : List (List Char) :=
  consWord (frontWord text).1 (frontWord text).2

/-- A word is a non-empty text without blanks. -/
def IsWord (word : List Char) : Prop :=
  word ≠ [] ∧ ∀ c ∈ word, isBlank c = false

end StackAsm.Text
