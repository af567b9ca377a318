/-!
# Quoted strings

A string of a JSON text stands between two quotation marks.  Inside it a
quotation mark, a backslash and the control characters below `U+0020` are
escaped, five of the control characters by a letter and the others by four
hexadecimal digits in lower case.  Every other character stands for itself.
-/

set_option autoImplicit false

namespace StackAsm.Text

/-- The hexadecimal digit of a number below sixteen, with `ten` the letter for
ten. -/
def hexDigit (ten : Char) (n : Nat) : Char :=
  if n < 10 then Char.ofNat ('0'.toNat + n) else Char.ofNat (ten.toNat + (n - 10))

namespace Quoted

def hexDigit (n : Nat) : Char :=
  Text.hexDigit 'a' n

/-- One character as it stands between the quotation marks. -/
def escape (c : Char) : List Char :=
  if c = '"' then ['\\', '"']
  else if c = '\\' then ['\\', '\\']
  else if c = '\x08' then ['\\', 'b']
  else if c = '\t' then ['\\', 't']
  else if c = '\n' then ['\\', 'n']
  else if c = '\x0c' then ['\\', 'f']
  else if c = '\r' then ['\\', 'r']
  else if c.toNat < 0x20 then
    ['\\', 'u', '0', '0', hexDigit (c.toNat / 16), hexDigit (c.toNat % 16)]
  else [c]

def escapeAll (text : List Char) : List Char :=
  text.flatMap escape

def quote (text : List Char) : List Char :=
  '"' :: escapeAll text ++ ['"']

end Quoted

end StackAsm.Text
