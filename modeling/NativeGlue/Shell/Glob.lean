import NativeGlue.Shell.State

/-!
Fields that stand for paths. Each component of a pattern is compared with the names in a
directory; a name that starts with a dot is found only by a pattern that starts with one.
-/

namespace NativeGlue.Shell

open Text

namespace Pattern

/-- Whether a bracket opens a set that is closed in the same component. -/
def closesSet (p : Pattern) : Bool :=
  let body := if p.head?.any (isActive '!') then p.tail else p
  body.tail.any (isActive ']')

/-- Whether a component may stand for several names. -/
def isOpen : Pattern → Bool
  | [] => false
  | m :: rest =>
    isActive '*' m || isActive '?' m || (isActive '[' m && closesSet rest) || isOpen rest

/-- The components of a pattern, which slashes separate whether or not they are quoted. -/
def components : Pattern → List Pattern
  | [] => [[]]
  | m :: rest =>
    match components rest with
    | [] => [[m]]
    | first :: more => if m.char = '/' then [] :: first :: more else (m :: first) :: more

end Pattern

namespace Run

/-- The names in a directory, as byte texts, with those of itself and of the one above. -/
def namesIn (path : Text) : Run (List Text) := do
  match ← directoryAt? (if path.isEmpty then ['.'] else path) with
  | none => return []
  | some place => return ['.'] :: ['.', '.'] :: (← namesAt place)

/-- Whether anything is at a path, if only a link that leads nowhere. -/
def isThere (path : Text) : Run Bool := do
  match ← onTree path fun tree here names => do
    return tree.find? (← tree.walkToLast here names) with
  | .ok (some _) => return true
  | _ => return false

/-- The names in a directory that a component stands for. -/
def matchingNames (path : Text) (p : Pattern) : Run (List Text) := do
  let showsHidden := p.head?.any fun m => m.char == '.'
  return (← namesIn path).filter fun name =>
    (showsHidden || name.head? != some '.') && Pattern.isMatch p name

/-- The paths for which components stand after a given path. -/
def pathsFrom (before : Text) : List Pattern → Run (List Text)
  | [] => return []
  | [p] => do
    if p.isOpen then
      return (← matchingNames before p).map (before ++ ·)
    else
      let path := before ++ Pattern.text p
      return if ← isThere path then [path] else []
  | p :: rest => do
    if p.isOpen then
      let names ← matchingNames before p
      let found ← names.mapM fun name => pathsFrom (before ++ name ++ ['/']) rest
      return found.flatten
    else pathsFrom (before ++ Pattern.text p ++ ['/']) rest

/-- The paths for which a field stands, in order; the field itself if there are none. -/
def paths (field : Pattern) : Run (List Text) := do
  let p := Pattern.unescape field
  let components := Pattern.components p
  if !(components.any Pattern.isOpen) || (← hasOption 'f') then return [Pattern.text field]
  else
    let found ← pathsFrom [] components
    return if found.isEmpty then [Pattern.text field] else Text.sort found

end Run

end NativeGlue.Shell
