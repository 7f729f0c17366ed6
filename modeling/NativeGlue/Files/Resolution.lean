import NativeGlue.Files.Tree

/-!
Resolving paths. Links and dots are worked out by name, whether or not anything is there. A path
is stuck where a link leads back to itself: that link and what follows it are left as text, in
which a rest that starts with a slash starts at the root again.
-/

namespace NativeGlue

open Text

/-- Where a path leads: to a path without links, or to a text that is stuck. -/
inductive Resolution where
  | resolved (p : Path)
  | stuck (t : Text)

/-- The links met so far with what they were resolved to; nothing for those still followed. -/
abbrev LinkMemory := List (Path × Option Path)

namespace Path

/-- A path text in a directory; one from the root stays as it is. -/
def joinText (directory t : Text) : Text :=
  if t.head? = some '/' then t
  else if directory.isEmpty || directory.getLast? = some '/' then directory ++ t
  else directory ++ '/' :: t

/-- The path above one without links. -/
def above (p : Path) : Path :=
  match p.parts.getLast? with
  | none => if p.isAbsolute then p else ⟨0, [['.', '.']]⟩
  | some last =>
    if last = ['.', '.'] then ⟨p.slashes, p.parts ++ [last]⟩ else ⟨p.slashes, p.parts.dropLast⟩

/-- A path from the root with its dots worked out by name. -/
def normal (p : Path) : Path := ⟨p.slashes, p.parts.foldl lexicalStep []⟩

end Path

namespace Tree

/-- The target of the link at a path without other links. -/
def linkAt? (tree : Tree) (base : Location) (p : Path) : Option Text :=
  let place := p.parts.foldl Path.lexicalStep (if p.isAbsolute then [] else base)
  match if p.isTooLong then none else tree.find? place with
  | some (link target) => some target
  | _ => none

/-- Resolve names from a path without links; `follow` resolves the targets of links. -/
def resolveBy (tree : Tree) (base : Location)
    (follow : LinkMemory → Path → Text → Resolution × LinkMemory) :
    LinkMemory → Path → List Text → Resolution × LinkMemory
  | known, here, [] => (.resolved here, known)
  | known, here, name :: rest =>
    if name.isEmpty || name = ['.'] then resolveBy tree base follow known here rest
    else if name = ['.', '.'] then resolveBy tree base follow known here.above rest
    else
      let next : Path := ⟨here.slashes, here.parts ++ [name]⟩
      let left := join ['/'] rest
      match tree.linkAt? base next, known.lookup next with
      | none, _ => resolveBy tree base follow known next rest
      | some _, some (some p) => resolveBy tree base follow known p rest
      | some _, some none => (.stuck (Path.joinText next.text left), known)
      | some target, none =>
        match follow ((next, none) :: known) here target with
        | (.resolved p, known) => resolveBy tree base follow ((next, some p) :: known) p rest
        | (.stuck t, known) => (.stuck (Path.joinText t left), known)

/-- Resolve a path text with at most `depth` links inside each other. -/
def resolveFrom (tree : Tree) (base : Location) :
    Nat → LinkMemory → Path → Text → Resolution × LinkMemory
  | 0, known, here, t => (.stuck (Path.joinText here.text t), known)
  | depth + 1, known, here, t =>
    let start := if t.head? = some '/' then Path.absolute [] else here
    tree.resolveBy base (tree.resolveFrom base depth) known start (Path.splitSlashes t)

/-- The absolute path for which a path in a directory stands once its links are followed, whether
or not anything is there. No link is followed inside itself. -/
def resolve (tree : Tree) (base : Location) (p : Path) : Path :=
  let depth := tree.linkCount * (base.length + 2) + 1
  let directory := (Path.absolute base).text
  match (tree.resolveFrom base depth [] ⟨0, []⟩ p.text).1 with
  | .resolved q => ((Path.absolute base).under q).normal
  | .stuck t => (Path.ofText (Path.joinText directory t)).normal

end Tree

end NativeGlue
