/-!
# Lines of a text

A newline ends a line, and one carriage return directly before it belongs to
the line's end.  Text after the last newline is a line of its own when it is
not empty, and keeps its carriage returns.
-/

set_option autoImplicit false

namespace StackAsm.Text

/-- The lines of a text without their ends. -/
def lines : List Char → List (List Char)
  | [] => []
  | '\n' :: rest => [] :: lines rest
  | '\r' :: '\n' :: rest => [] :: lines rest
  | c :: rest =>
    match lines rest with
    | [] => [[c]]
    | line :: later => (c :: line) :: later

def setIn (text : List Char) : List Char :=
  text.flatMap fun c => if c = '\n' then '\n' :: List.replicate 4 ' ' else [c]

/-- The lines a text takes on a stream, where a newline follows it. -/
def streamLines (text : List Char) : List String :=
  (lines (text ++ ['\n'])).map String.ofList

end StackAsm.Text
