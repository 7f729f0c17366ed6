import NativeGlue.Command.Generate
import NativeGlue.Glue.Report

/-!
Commands that only look: the segments of a source file, the targets of a configuration, and
whether their source directories exist.
-/

namespace NativeGlue.Inspect

open Text Command Json

def contentsOf (source : Path) : Action Source.Contents := do
  match Source.read (← Action.readText source) with
  | .ok contents => return contents
  | .error problem => Action.report (.source (some source.text) problem)

/-- The segments, linked if a header is given. -/
def linkedSegments (source : Path) (contents : Source.Contents) (header : Option Text) :
    Action (List Segment) := do
  match header with
  | none => return contents.segments
  | some path =>
    let text ← Action.readText (← Action.resolve (Path.ofText path))
    match link contents.segments (Header.signatures text) with
    | .ok segments => return segments
    | .error fault => throw (Failure.ofUnit (some source.text) (.link fault))

def describe (source : Path) (segments : List Segment) (contents : Source.Contents) : Value :=
  .obj
    [("source".toList, .str source.text),
      ("segments".toList, .arr (segments.map Segment.describe)),
      ("warnings".toList,
        .arr (contents.skipped.map fun s => Value.str (s.message (some source.text))))]

/-- Show the segments of a source file as JSON, or write them to a file. -/
def segments (options : ParseOptions) : Action Nat := do
  let source ← Action.resolve (← Action.givenPath options.source)
  let contents ← contentsOf source
  let segments ← linkedSegments source contents options.header
  let document := describe source segments contents
  match options.output with
  | some path => Document.write (← Action.resolve (Path.ofText path)) document
  | none => Action.say document.document
  return 0

def targetNames (config : Members) : Action (List Text) :=
  Action.liftConfig (Config.selectTargets config none)

def listTargets (config : Option Text) : Action Nat := do
  let config ← Document.loadConfig (← Action.resolve (← Action.givenPath config))
  (← targetNames config).forM Action.say
  return 0

/-- Say whether the source directory of a target exists. -/
def checkSourceDirectory (root : Path) (config : Members) (name : Text) : Action Bool := do
  let target ← Action.liftConfig (Config.target config name)
  let sourceRoot := root.child target.sourceDir
  let found ← Action.isDirectory sourceRoot
  let state : Text := if found then "ok".toList else "missing".toList
  let place ← Action.relativeText sourceRoot root
  Action.say ('[' :: name ++ "] source_dir: ".toList ++ state ++ " (".toList ++ place ++ [')'])
  return found

def validate (root : Text) (config : Option Text) : Action Nat := do
  let root ← Generate.repositoryRoot root
  let config ← Generate.configAt root config
  let found ← (← targetNames config).mapM (checkSourceDirectory root config)
  return if found.all id then 0 else 1

end NativeGlue.Inspect
