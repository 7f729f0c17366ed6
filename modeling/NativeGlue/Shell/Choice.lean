import NativeGlue.Shell.Options

/-!
Values of options that are one of a few words. Some words mean the same, and a word may be cut
short as long as what is left fits only one meaning.
-/

namespace NativeGlue.Shell

open Text

/-- The words for each of the things that can be chosen. -/
abbrev Choices := List (List String)

namespace Choices

variable (choices : Choices)

/-- The meanings that have a word with the given start. -/
def fitting (start : Text) : List Nat :=
  (List.range choices.length).filter fun n =>
    (choices.getD n []).any fun word => start.isPrefixOf word.toList

/-- The meaning of a word that is written in full. -/
def inFull? (word : Text) : Option Nat :=
  choices.findIdx? fun words => words.any fun w => w.toList == word

/-- The words that can be written, in lines of those that mean the same. -/
def listed : Text :=
  choices.flatMap fun words =>
    "\n  - ".toList ++ join ", ".toList (words.map fun w => spread (quoteValue w.toList))

/-- Complain about a word that cannot be read. -/
def refuse {α : Type} (kind : String) (context : String) (word : Text) : Run α :=
  Program.misuse (kind.toList ++ " argument ".toList ++ spread (quoteValue (gather word)) ++
    " for ".toList ++ spread (quoteValue context.toList) ++ "\nValid arguments are:".toList ++
    choices.listed)

/-- The meaning of a word, which is that of the context. -/
def read (context : String) (word : Text) : Run Nat :=
  match choices.inFull? word with
  | some n => return n
  | none =>
    match choices.fitting word with
    | [] => choices.refuse "invalid" context word
    | [n] => return n
    | _ => choices.refuse "ambiguous" context word

end Choices

end NativeGlue.Shell
