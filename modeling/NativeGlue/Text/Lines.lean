import NativeGlue.Text.Basic

/-!
Line ends. A file is read with carriage returns turned into line feeds, and a text is shown by
lines that end at any of the line and paragraph breaks of Unicode.
-/

namespace NativeGlue.Text

def isLineBreak (c : Char) : Bool :=
  let n := c.toNat
  (10 ≤ n && n ≤ 13) || (28 ≤ n && n ≤ 30) || n == 0x85 || n == 0x2028 || n == 0x2029

/-- A carriage return, alone or before a line feed, becomes a line feed. -/
def unifyLineEnds : Text → Text
  | [] => []
  | '\r' :: '\n' :: rest => '\n' :: unifyLineEnds rest
  | c :: rest => (if c = '\r' then '\n' else c) :: unifyLineEnds rest

/-- A carriage return before a line feed is dropped; one that stands alone stays. -/
def joinReturns : Text → Text
  | [] => []
  | '\r' :: '\n' :: rest => '\n' :: joinReturns rest
  | c :: rest => c :: joinReturns rest

/-- `line` holds what was read of the current line. A carriage return and the line feed after it
end one line. -/
def linesFrom (line : Text) : Text → List Text
  | [] => if line.isEmpty then [] else [line]
  | '\r' :: '\n' :: rest => line :: linesFrom [] rest
  | c :: rest => if isLineBreak c then line :: linesFrom [] rest else linesFrom (line ++ [c]) rest

/-- The lines of a text without their ends; an end after the last line adds none. -/
def lines (t : Text) : List Text := linesFrom [] (joinReturns t)

end NativeGlue.Text
