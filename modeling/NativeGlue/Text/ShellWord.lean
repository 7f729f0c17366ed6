import NativeGlue.Text.Word

/-!
Words as a shell would read them back. In a command they stand as they are where every character
is safe, and in single quotes otherwise.
-/

namespace NativeGlue.Text

def isSafe (c : Char) : Bool := isAsciiWord c || "@%+=:,./-".toList.contains c

/-- A single quote inside quotes is written between double quotes. -/
def quoteChar (c : Char) : Text := if c = '\'' then "'\"'\"'".toList else [c]

def quoteWord (word : Text) : Text :=
  if !word.isEmpty && word.all isSafe then word
  else '\'' :: word.flatMap quoteChar ++ ['\'']

def quoteCommand (words : List Text) : Text := join [' '] (words.map quoteWord)

end NativeGlue.Text
