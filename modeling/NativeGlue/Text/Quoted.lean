import NativeGlue.Text.Encoding
import NativeGlue.Text.Word
import NativeGlue.Text.PrintTable

/-!
Texts in quotes, as messages show them: in single quotes unless the text holds one and no
double quote, with escapes for the quote, the backslash and what cannot be printed.
-/

namespace NativeGlue.Text

def isPrintable (c : Char) : Bool :=
  let n := c.toNat
  if n < 127 then 32 ≤ n else !inRanges unprintableRanges n

/-- A character that cannot be printed, by its code point in the shortest of three widths. -/
def escapeCode (c : Char) : Text :=
  let n := (half? c).getD c.toNat
  if n < 0x100 then '\\' :: 'x' :: hex 2 n
  else if n < 0x10000 then '\\' :: 'u' :: hex 4 n
  else '\\' :: 'U' :: hex 8 n

def escapeInside (quote c : Char) : Text :=
  if c = quote || c = '\\' then ['\\', c]
  else if c = '\n' then ['\\', 'n']
  else if c = '\r' then ['\\', 'r']
  else if c = '\t' then ['\\', 't']
  else if isPrintable c then [c]
  else escapeCode c

def quoteFor (t : Text) : Char := if t.contains '\'' && !t.contains '"' then '"' else '\''

def quoted (t : Text) : Text :=
  let quote := quoteFor t
  quote :: t.flatMap (escapeInside quote) ++ [quote]

end NativeGlue.Text
