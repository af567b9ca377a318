/-!
# Bytes and big-endian numbers

A number of a fixed width is written with its most significant byte first.
Reading takes exactly the bytes of that width from the front and leaves the
rest, or finds too few.
-/

set_option autoImplicit false

namespace StackAsm

abbrev Bytes := List UInt8

namespace Bytes

/-- The lowest bytes of a number, most significant first. -/
def bigEndian : (width : Nat) → (n : Nat) → Bytes
  | 0, _ => []
  | width + 1, n => UInt8.ofNat (n >>> (8 * width)) :: bigEndian width n

/-- The number that bytes write in big-endian form, after a number already
read. -/
def toNatFrom (high : Nat) : Bytes → Nat
  | [] => high
  | byte :: rest => toNatFrom (high * 256 + byte.toNat) rest

def toNat (bytes : Bytes) : Nat :=
  toNatFrom 0 bytes

def readNat? (width : Nat) (bytes : Bytes) : Option (Nat × Bytes) :=
  if width ≤ bytes.length then some (toNat (bytes.take width), bytes.drop width) else none

end Bytes

end StackAsm
