import NativeGlue.Shell.Script

/-!
The tokens of a script, and how they are named when one of them is out of place.
-/

namespace NativeGlue.Shell

open Text

/-- What a redirection leads a stream to. -/
inductive RedirectionKind where
  | file (mode : OpenMode)
  | duplicate
  | document (stripsTabs : Bool)
  deriving DecidableEq, Repr

inductive Token where
  | endOfFile
  | newline
  | op (t : String)
  | redirection (fd : Nat) (kind : RedirectionKind)
  | word (w : Word)
  | keyword (k : String)

def keywords : List String :=
  ["!", "case", "do", "done", "elif", "else", "esac", "fi", "for", "if", "in", "then", "until",
    "while", "\x7b", "\x7d"]

def keyword? (t : Text) : Option String := keywords.find? fun k => k.toList == t

namespace Token

def isOp (o : String) : Token → Bool
  | op t => t == o
  | _ => false

def isKeyword (k : String) : Token → Bool
  | keyword t => t == k
  | _ => false

/-- A token that ends a list of commands. -/
def endsList : Token → Bool
  | endOfFile => true
  | op t => t == ")" || t == ";;"
  | keyword t => ["do", "done", "elif", "else", "esac", "fi", "then", "\x7d"].contains t
  | _ => false

/-- The word of a keyword or a word. -/
def wordOf : Token → Word
  | word w => w
  | keyword k => k.toList.map fun c => .char c false
  | _ => []

def inQuotes (t : String) : Text := '"' :: t.toList ++ ['"']

def name : Token → Text
  | endOfFile => "end of file".toList
  | newline => "newline".toList
  | op t => inQuotes t
  | redirection _ _ => "redirection".toList
  | word _ => "word".toList
  | keyword k => inQuotes k

end Token

/-- Why a script cannot be read. -/
inductive ScriptFault where
  | unexpected (token : Token)
  | expected (token : Token) (wanted : Token)
  | openQuote
  | openBrace
  | openArithmetic
  | openBackquote
  | loopVariable
  | functionName
  /-- Substitutions are nested more deeply than a script of that length can be. -/
  | tooDeep

namespace ScriptFault

def message : ScriptFault → Text
  | unexpected token => token.name ++ " unexpected".toList
  | expected token wanted =>
    token.name ++ " unexpected (expecting ".toList ++ wanted.name ++ [')']
  | openQuote => "Unterminated quoted string".toList
  | openBrace => "Missing '\x7d'".toList
  | openArithmetic => "Missing '))'".toList
  | openBackquote => "EOF in backquote substitution".toList
  | loopVariable => "Bad for loop variable".toList
  | functionName => "Bad function name".toList
  | tooDeep => "Out of space".toList

end ScriptFault

end NativeGlue.Shell
