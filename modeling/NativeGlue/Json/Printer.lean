import NativeGlue.Json.Value

/-!
Writing JSON in ASCII. The indented form sorts the members of every object by name and puts each
element on a line of its own; the compact form keeps the order and stays on one line.
-/

namespace NativeGlue.Json

open Text

/-- A 16-bit unit as an escape. -/
def unitEscape (n : Nat) : Text := '\\' :: 'u' :: hex 4 n

/-- Characters beyond the basic plane take two units. Half of one is a unit. -/
def codeEscape (n : Nat) : Text :=
  if n < 0x10000 then unitEscape n
  else
    let offset := n - 0x10000
    unitEscape (0xD800 + offset / 0x400) ++ unitEscape (0xDC00 + offset % 0x400)

def escape (c : Char) : Text :=
  let n := c.toNat
  if c = '"' || c = '\\' then ['\\', c]
  else if c = '\n' then ['\\', 'n']
  else if c = '\r' then ['\\', 'r']
  else if c = '\t' then ['\\', 't']
  else if n = 8 then ['\\', 'b']
  else if n = 12 then ['\\', 'f']
  else if 32 ≤ n && n < 127 then [c]
  else codeEscape ((half? c).getD n)

def stringText (t : Text) : Text := '"' :: t.flatMap escape ++ ['"']

def realText (x : Binary64) : Text := x.render "Infinity".toList "NaN".toList

namespace Value

mutual

def compact : Value → Text
  | null => "null".toList
  | bool true => "true".toList
  | bool false => "false".toList
  | int n => ofInt n
  | real x => realText x
  | str t => stringText t
  | arr items => '[' :: join [','] (compactItems items) ++ [']']
  | obj members => '{' :: join [','] (compactMembers members) ++ ['}']

def compactItems : List Value → List Text
  | [] => []
  | v :: rest => compact v :: compactItems rest

def compactMembers : List (Text × Value) → List Text
  | [] => []
  | m :: rest => compactMember m :: compactMembers rest

def compactMember : Text × Value → Text
  | (name, v) => stringText name ++ ':' :: compact v

end

/-- Elements on lines of their own, one level deeper than the brackets around them. -/
def block (depth : Nat) (opening closing : Char) (elements : List Text) : Text :=
  if elements.isEmpty then [opening, closing]
  else
    let line (level : Nat) : Text := '\n' :: List.replicate (2 * level) ' '
    opening :: line (depth + 1) ++ join (',' :: line (depth + 1)) elements ++ line depth ++
      [closing]

/-- Order by member name. -/
def memberLe (a b : Text × Text) : Bool := Text.le a.1 b.1

def sortedTexts (members : List (Text × Text)) : List Text :=
  (members.mergeSort memberLe).map fun m => stringText m.1 ++ ": ".toList ++ m.2

mutual

def indented (depth : Nat) : Value → Text
  | null => "null".toList
  | bool true => "true".toList
  | bool false => "false".toList
  | int n => ofInt n
  | real x => realText x
  | str t => stringText t
  | arr items => block depth '[' ']' (indentedItems (depth + 1) items)
  | obj members => block depth '{' '}' (sortedTexts (indentedMembers (depth + 1) members))

def indentedItems (depth : Nat) : List Value → List Text
  | [] => []
  | v :: rest => indented depth v :: indentedItems depth rest

/-- The members' names with the written values. -/
def indentedMembers (depth : Nat) : List (Text × Value) → List (Text × Text)
  | [] => []
  | m :: rest => indentedMember depth m :: indentedMembers depth rest

def indentedMember (depth : Nat) : Text × Value → Text × Text
  | (name, v) => (name, indented depth v)

end

/-- The indented form of a whole document, without a line feed at the end. -/
def document (v : Value) : Text := indented 0 v

end Value

end NativeGlue.Json
