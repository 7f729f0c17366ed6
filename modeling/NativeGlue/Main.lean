import NativeGlue.Command.Tool
import NativeGlue.Files.Installed

/-!
The tool on real files. The tree below the current directory is read, the command line runs on
it, and what it has changed is written back.
-/

namespace NativeGlue.Disk

open Text

def locationOf (path : String) : Location := (Path.ofText path.toList).parts

def pathOf (place : Location) : String := String.ofList (Path.absolute place).text

/-- How many directories deep the tree is read. -/
def deepest : Nat := 64

/-- Put the entries of a directory into a tree, with at most `depth` directories inside each
other. An entry whose real path differs from its own is a link. -/
def load : Nat → Array IO.FS.DirEntry → Location → Tree → IO Tree
  | 0, _, _, tree => return tree
  | depth + 1, entries, directory, start => do
    let mut tree := start
    for found in entries do
      let place := directory ++ [found.fileName.toList]
      try
        let real := toString (← IO.FS.realPath (pathOf place))
        if real != pathOf place then tree := tree.put place (.link real.toList)
        else
          match ← found.path.readDir.toBaseIO with
          | .ok inside => tree ← load depth inside place (tree.put place .empty)
          | .error _ => tree := tree.put place (.file (← IO.FS.readBinFile (pathOf place)).toList)
      catch _ => pure ()
    return tree

/-- Bring the files on the disk from one tree to another. -/
def store (before after : Tree) : IO Unit := do
  for (place, tree) in after.treesBelow [] do
    match tree with
    | .file bytes =>
      unless ((before.find? place).bind Tree.bytes?) = some bytes do
        IO.FS.writeBinFile (pathOf place) bytes.toByteArray
    | .directory _ => if (before.find? place).isNone then IO.FS.createDirAll (pathOf place)
    | _ => pure ()
  for (place, tree) in (before.treesBelow []).reverse do
    if (after.find? place).isNone then
      if tree.isDirectory then IO.FS.removeDir (pathOf place)
      else IO.FS.removeFile (pathOf place)

def perform (args : List String) : IO UInt32 := do
  let directory := locationOf (toString (← IO.FS.realPath (toString (← IO.currentDir))))
  let above := Tree.installed.put directory .empty
  let tree ← load deepest (← (← IO.currentDir).readDir) directory above
  let (result, after) :=
    (Tool.run (args.map fun a => a.toList)).perform ⟨tree, directory, [], []⟩
  store tree after.tree
  IO.print (String.ofList after.output)
  IO.eprint (String.ofList after.errors)
  match result with
  | .ok (.exit code) => return UInt32.ofNat code
  | .ok (.usage .help) =>
    IO.println (String.ofList Command.usageLine)
    return UInt32.ofNat Command.Usage.help.exitCode
  | .ok (.usage .wrong) =>
    IO.eprintln (String.ofList Command.usageLine)
    return UInt32.ofNat Command.Usage.wrong.exitCode
  | .error (.reported failure) =>
    IO.eprintln (String.ofList failure.message)
    return 2
  | .error (.fatal condition) =>
    IO.eprintln (String.ofList condition.message)
    return 1

end NativeGlue.Disk

/-- Run the tool in the current directory. -/
def main (args : List String) : IO UInt32 := NativeGlue.Disk.perform args
