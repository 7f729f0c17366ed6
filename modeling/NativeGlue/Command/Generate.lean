import NativeGlue.Command.Document
import NativeGlue.Command.External
import NativeGlue.Command.GenerationReport
import NativeGlue.Command.Sources

/-!
Generating the units of all targets, or of a single source file.
-/

namespace NativeGlue.Generate

open Text Command Json

/-- The directories of a target, and how its units are made. -/
structure Job where
  options : GenerateOptions
  root : Path
  name : Text
  target : Target
  sourceRoot : Path
  glueRoot : Path

namespace Job

def headerPath (j : Job) (className : Text) : Path :=
  j.glueRoot.child (artifactName j.target.headerName className)

def outputPath (j : Job) (className : Text) : Path :=
  j.glueRoot.child (artifactName j.target.outputName className)

def classDirectory (j : Job) : Action Text := do
  match j.target.classDir with
  | some dir => return (← Action.resolve (j.root.child dir)).text
  | none => return []

/-- Make the header of a class with the target's command. -/
def makeHeader (j : Job) (template : List Text) (source : Path) (className : Text) :
    Action Unit := do
  let classDirectory ← j.classDirectory
  let slots : List (Text × Text) :=
    [("repo_root".toList, j.root.text), ("source".toList, source.text),
      ("class_name".toList, className), ("jni_dir".toList, j.glueRoot.text),
      ("header".toList, (j.headerPath className).text), ("class_dir".toList, classDirectory)]
  Action.makeDirectories j.glueRoot
  let _ ← External.run (External.fill template slots) j.root

def titleLine (j : Job) (rest : Text) : Text :=
  '[' :: j.name ++ "] generate: ".toList ++ rest

def statusText (status : Artifact.Status) : Text := " (".toList ++ status.label ++ [')']

end Job

def warningLine (warning : Text) : Text := "  warning: ".toList ++ warning

/-- Show the warnings, and the difference where it is asked for. -/
def sayDetails (warnings : List Text) (printDiff : Bool) (difference : Text) : Action Unit := do
  warnings.forM fun w => Action.say (warningLine w)
  if printDiff && !difference.isEmpty then Action.say difference

def unitOf (path source header headerName : Text) : Action GlueUnit :=
  match GlueUnit.generate source header headerName with
  | .ok u => return u
  | .error fault => throw (Failure.ofUnit (some path) fault)

/-- Make the unit of a source file that mentions native methods. -/
def generateNative (j : Job) (path : Path) (sourceText source : Text) : Action FileReport := do
  let className ← Sources.className j.sourceRoot path
  let headerPath := j.headerPath className
  let outputPath := j.outputPath className
  match j.options.runHeaderCommand, j.target.headerCommand with
  | true, some template => j.makeHeader template path className
  | _, _ => pure ()
  if !(← Action.isPresent headerPath) then
    Action.report (.noHeader (← Action.relativeText headerPath j.root) sourceText)
  let unit ← unitOf sourceText source (← Action.readText headerPath) headerPath.name
  let (status, difference) ← Artifact.update outputPath unit.content j.options.mode
  let output ← Action.relativeText outputPath j.root
  let warnings := unit.skipped.map (·.message (some sourceText))
  Action.say (j.titleLine (className ++ " -> ".toList ++ output ++ Job.statusText status))
  sayDetails warnings j.options.printDiff difference
  let header ← Action.relativeText headerPath j.root
  let methods := unit.methods
  return {
    source := sourceText, className := className, header := header, output := output
    status := status, declarations := methods.length
    rawBlocks := unit.segments.length - methods.length
    wrapped := (methods.filter fun m => m.declaration.needsWrapper).map (·.signature.name)
    warnings := warnings }

/-- Files that do not mention native methods are passed over. -/
def generateSource (j : Job) (path : Path) : Action (Option FileReport) := do
  let sourceText ← Action.relativeText path j.root
  let source ← Action.readText path
  if occursIn Source.nativeWord source then return some (← generateNative j path sourceText source)
  else return none

def jobOf (options : GenerateOptions) (root : Path) (config : Members) (name : Text) :
    Action Job := do
  let target ← Action.liftConfig (Config.target config name)
  let sourceRoot ← Action.resolve (root.child target.sourceDir)
  let glueRoot ← Action.resolve (root.child target.glueDir)
  return ⟨options, root, name, target, sourceRoot, glueRoot⟩

def generateTarget (options : GenerateOptions) (root : Path) (config : Members) (name : Text) :
    Action TargetReport := do
  let j ← jobOf options root config name
  if options.runHeaderCommand && j.target.headerCommand.isNone then
    Action.report (.noHeaderCommand name)
  let sources ← Sources.find j.sourceRoot j.target.includes j.target.excludes
  let files ← sources.filterMapM (generateSource j)
  if files.isEmpty then
    Action.say (j.titleLine "no Java sources with native methods found".toList)
  return ⟨name, files⟩

/-- The root of the repository, which must be a directory. -/
def repositoryRoot (root : Text) : Action Path := do
  let p ← Action.resolve (Path.ofText root)
  if ← Action.isDirectory p then return p else Action.report (.noRepository p.text)

def configAt (root : Path) (config : Option Text) : Action Members := do
  Document.loadConfig (← Action.resolve (root.under (← Action.givenPath config)))

/-- Generate all selected targets. A check fails if any unit differs from its file. -/
def run (options : GenerateOptions) : Action Nat := do
  let root ← repositoryRoot options.root
  let config ← configAt root options.config
  let names ← Action.liftConfig (Config.selectTargets config options.target)
  let reports ← names.mapM (generateTarget options root config)
  Action.say (summaryLine reports)
  match options.report with
  | some path => Document.write (← Action.resolve (Path.ofText path)) (describe reports)
  | none => pure ()
  return if options.mode.check && reports.any TargetReport.hasDrift then 1 else 0

/-- Generate the unit of one source file. -/
def runFile (options : GenerateFileOptions) : Action Nat := do
  let source ← Action.resolve (← Action.givenPath options.source)
  let header ← Action.resolve (← Action.givenPath options.header)
  let output ← Action.resolve (← Action.givenPath options.output)
  let sourceText ← Action.readText source
  let headerText ← Action.readText header
  let unit ← unitOf source.text sourceText headerText (options.includeName.getD header.name)
  let (status, difference) ← Artifact.update output unit.content options.mode
  Action.say ("generate-file: ".toList ++ output.text ++ Job.statusText status)
  sayDetails (unit.skipped.map (·.message (some source.text))) options.printDiff difference
  return if options.mode.check && status = .drifted then 1 else 0

end NativeGlue.Generate
