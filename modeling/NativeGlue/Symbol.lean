import NativeGlue.Segment

/-!
Symbols of native functions. The symbol of a method is its class name and its name, escaped so
that only ASCII letters, digits and underscores are left.
-/

namespace NativeGlue

open Text

/-- Underscores and dollar signs have escapes of their own, a dot separates packages, and any
other character beyond ASCII letters and digits is written by its code point. -/
def escapeSymbol (c : Char) : Text :=
  if c = '_' then "_1".toList
  else if c = '$' then "_00024".toList
  else if c = '.' then "_".toList
  else if c.isAlphanum then [c]
  else "_0".toList ++ hex 4 c.toNat

def mangle (name : Text) : Text := name.flatMap escapeSymbol

def Declaration.symbol (d : Declaration) : Text :=
  mangle d.className ++ '_' :: mangle d.methodName

end NativeGlue
