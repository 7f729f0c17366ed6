import NativeGlue.Text.ShellWord

/-!
Names of files in complaints. They are always in quotes, with escapes for control characters.
-/

namespace NativeGlue.Shell

open Text

/-- How a control character is written after a backslash. -/
def escapeOf? (c : Char) : Option Text :=
  match c with
  | '\x07' => some ['a']
  | '\x08' => some ['b']
  | '\t' => some ['t']
  | '\n' => some ['n']
  | '\x0b' => some ['v']
  | '\x0c' => some ['f']
  | '\r' => some ['r']
  | _ =>
    if c.toNat < 32 || c.toNat = 127 then
      let digits := Nat.toDigits 8 c.toNat
      some (List.replicate (3 - digits.length) '0' ++ digits)
    else none

/-- Escapes stand between quotes of their own, which the flag tells to be open. -/
def quoteNameFrom (inEscape : Bool) : Text → Text
  | [] => []
  | c :: rest =>
    match escapeOf? c with
    | some e => (if inEscape then [] else "'$'".toList) ++ '\\' :: e ++ quoteNameFrom true rest
    | none =>
      if c = '\'' then "'\\''".toList ++ quoteNameFrom false rest
      else (if inEscape then "''".toList else []) ++ c :: quoteNameFrom false rest

/-- Whether a character means the same between both kinds of quotes. -/
def isQuoteNeutral (c : Char) : Bool :=
  isSafe c && c != '=' && c != '@' || c == ' ' || c == '\'' || 127 < c.toNat

/-- The name of a file in quotes; double ones where there are single quotes in a plain name. -/
def quoteName (name : Text) : Text :=
  if name.contains '\'' && name.all isQuoteNeutral then '"' :: name ++ ['"']
  else '\'' :: quoteNameFrom false name ++ ['\'']

/-- Whether a shell would not read a name as it stands back. Some characters matter only where
they come first. -/
def needsQuotes (name : Text) : Bool :=
  name.isEmpty || name = ['\x7b'] || name = ['\x7d'] ||
    name.head?.any (fun c => c == '#' || c == '~') ||
    name.any fun c => (escapeOf? c).isSome || " !\"$&'()*;<=>?[\\^`|:".toList.contains c

/-- A word in quotes that open and close. -/
def quoteValue (word : Text) : Text :=
  let one (c : Char) : Text :=
    match escapeOf? c with
    | some e => '\\' :: e
    | none => if c = '\\' || c = '’' then ['\\', c] else [c]
  '‘' :: word.flatMap one ++ ['’']

end NativeGlue.Shell
