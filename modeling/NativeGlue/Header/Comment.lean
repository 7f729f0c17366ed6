import NativeGlue.Text.Comment

/-!
Comments of native headers. A block comment gives way to its line feeds, so that what follows
keeps its line, or to a space where it has none; a line comment becomes a space. Block comments
are found first, on the whole text.
-/

namespace NativeGlue.Header

open Text

def blockSubstitute (body : Text) : Text :=
  if feeds body = 0 then [' '] else List.replicate (feeds body) '\n'

/-- A comment that does not end is left as it stands. -/
def eraseBlocks : Text → Text
  | [] => []
  | '/' :: '*' :: rest =>
    match h : commentBody? rest with
    | some (body, after) =>
      have : after.length < rest.length := length_of_commentBody? h
      blockSubstitute body ++ eraseBlocks after
    | none => '/' :: eraseBlocks ('*' :: rest)
  | c :: rest => c :: eraseBlocks rest
termination_by t => t.length

/-- Inside a line comment everything up to the line feed is dropped. -/
def eraseLinesFrom (inside : Bool) : Text → Text
  | [] => []
  | '/' :: '/' :: rest =>
    if inside then eraseLinesFrom true rest else ' ' :: eraseLinesFrom true rest
  | c :: rest =>
    if c = '\n' then c :: eraseLinesFrom false rest
    else if inside then eraseLinesFrom true rest
    else c :: eraseLinesFrom false rest

def eraseLineComments (t : Text) : Text := eraseLinesFrom false t

def eraseComments (t : Text) : Text := eraseLineComments (eraseBlocks t)

end NativeGlue.Header
