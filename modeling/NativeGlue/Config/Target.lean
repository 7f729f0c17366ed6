import NativeGlue.Config.Shape

/-!
Targets of a configuration: a directory of source files, the directory of their headers and
units, and how the files in it are named and made.
-/

namespace NativeGlue

open Text Json

structure Target where
  sourceDir : Text
  glueDir : Text
  classDir : Option Text
  includes : List Text
  excludes : List Text
  headerName : Text
  outputName : Text
  headerCommand : Option (List Text)
  deriving DecidableEq, Repr

abbrev Members := List (Text × Value)

namespace Config

def textItem? : Value → Option Text
  | .str t => if t.isEmpty then none else some t
  | _ => none

/-- A list of texts that are not empty. A null stands for the empty list. -/
def textList (key : Text) : Value → Except Fault (List Text)
  | .null => .ok []
  | .arr items =>
    match items.mapM textItem? with
    | some texts => .ok texts
    | none => .error (.notTexts key)
  | _ => .error (.notAList key)

def member (key : String) (members : Members) : Value :=
  (Value.member? key.toList members).getD .null

def requiredText (label : Text) (members : Members) (key : String) : Except Fault Text :=
  match textItem? (member key members) with
  | some t => .ok t
  | none => .error (.missingText label key.toList)

/-- A file name with a slot for the name of the class. -/
def template (label : Text) (members : Members) (key : String) (default : Text) :
    Except Fault Text :=
  let refused := Except.error (Fault.badTemplate label key.toList)
  match Value.member? key.toList members with
  | none => .ok default
  | some (.str t) => if occursIn classNameSlot t then .ok t else refused
  | some _ => refused

def defaultHeaderName : Text := classNameSlot ++ ".h".toList

def defaultOutputName : Text := classNameSlot ++ ".cpp".toList

def classDirectory? (members : Members) : Option Text :=
  match member "class_dir" members with
  | .str t => some t
  | _ => none

/-- A command has at least one word, and uses the class directory only where there is one. -/
def headerCommand (label : Text) (members : Members) : Except Fault (Option (List Text)) :=
  match member "header_command" members with
  | .null => .ok none
  | v =>
    match textList (label ++ ".header_command".toList) v with
    | .error fault => .error fault
    | .ok [] => .error (.emptyCommand label)
    | .ok words =>
      if words.any (occursIn classDirSlot) && (classDirectory? members).isNone then
        .error (.noClassDirectory label)
      else .ok (some words)

def readTarget (name : Text) (members : Members) : Except Fault Target := do
  let label := "target ".toList ++ inQuotes name
  let sourceDir ← requiredText label members "source_dir"
  let glueDir ← requiredText label members "jni_dir"
  let includes ← textList (label ++ ".includes".toList) (member "includes" members)
  let excludes ← textList (label ++ ".excludes".toList) (member "excludes" members)
  let headerName ← template label members "header_name" defaultHeaderName
  let outputName ← template label members "output_name" defaultOutputName
  let headerCommand ← headerCommand label members
  return ⟨sourceDir, glueDir, classDirectory? members, includes, excludes, headerName, outputName,
    headerCommand⟩

def checkTarget (name : Text) (v : Value) : Except Fault Unit :=
  match v with
  | .obj members => (readTarget name members).map fun _ => ()
  | _ => .error (.targetNotAnObject name)

/-- The targets of a configuration, which has at least one. -/
def targets (config : Members) : Except Fault Members :=
  match member "targets" config with
  | .obj (m :: rest) => .ok (m :: rest)
  | _ => .error .noTargets

/-- Accept a value as a configuration. -/
def check (v : Value) : Except Fault Members :=
  match v with
  | .obj config => do
    checkShape v
    let found ← targets config
    found.forM fun (name, target) => checkTarget name target
    return config
  | _ => .error .notAnObject

def targetMembers (config : Members) (name : Text) : Except Fault Members :=
  match member "targets" config with
  | .obj found =>
    match Value.member? name found with
    | some (.obj target) => .ok target
    | _ => .error (.unknownTarget name (Text.sort (Value.names found)))
  | _ => .error .targetsNotAnObject

/-- The target asked for, or all targets in the order of their names. -/
def selectTargets (config : Members) (name : Option Text) : Except Fault (List Text) := do
  let found ← targets config
  match name with
  | none | some [] => return Text.sort (Value.names found)
  | some name =>
    let _ ← targetMembers config name
    return [name]

def target (config : Members) (name : Text) : Except Fault Target := do
  readTarget name (← targetMembers config name)

end Config

/-- A file name for a class. -/
def artifactName (template className : Text) : Text :=
  replace Config.classNameSlot className template

end NativeGlue
