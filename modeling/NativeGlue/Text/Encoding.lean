import NativeGlue.Text.Basic

/-!
Texts as bytes in UTF-8. Decoding refuses every sequence that encoding does not produce. Where
single bytes matter, a byte text stands for them: each of its characters is one byte.
-/

namespace NativeGlue.Text

abbrev Bytes := List UInt8

def encode (t : Text) : Bytes := t.flatMap String.utf8EncodeChar

def decode? (bytes : Bytes) : Option Text := bytes.toByteArray.utf8Decode?.map Array.toList

theorem decode?_encode (t : Text) : decode? (encode t) = some t := by
  change Option.map Array.toList t.utf8Encode.utf8Decode? = some t
  simp [List.utf8Decode?_utf8Encode]

/-- The character that stands for half of a pair of units, for which there is none of its own: the
private one of the last plane that ends in the same sixteen bits. -/
def ofHalf (unit : Nat) : Char := Char.ofNat (0x100000 + unit)

/-- The half of a pair for which a character stands. -/
def half? (c : Char) : Option Nat :=
  if 0x10d800 ≤ c.toNat && c.toNat ≤ 0x10dfff then some (c.toNat - 0x100000) else none

/-- Whether a character stands for a half that no name on a disk can hold. Some halves stand for
bytes that are no text. -/
def isUnencodable (c : Char) : Bool :=
  (half? c).any fun unit => !(0xdc80 ≤ unit && unit ≤ 0xdcff)

/-- The byte text of some bytes. -/
def ofBytes (bytes : Bytes) : Text := bytes.map fun b => Char.ofNat b.toNat

/-- The bytes of a byte text. -/
def toBytes (t : Text) : Bytes := t.map fun c => c.toNat.toUInt8

/-- A text as a byte text. -/
def spread (t : Text) : Text := ofBytes (encode t)

/-- The text for which a byte text stands. Bytes that are no UTF-8 stay apart. -/
def gather (t : Text) : Text := (decode? (toBytes t)).getD t

end NativeGlue.Text
