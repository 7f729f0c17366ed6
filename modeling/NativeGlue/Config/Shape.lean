import NativeGlue.Config.Fault
import NativeGlue.Json.Value

/-!
The shape of a configuration: which members its objects have and of which types these are. All
violations are found, in a fixed order, and the most relevant is reported: one as near to the
root as possible, of these the last in the order of places, then one whose value has not the
type that is asked for, then the first found.
-/

namespace NativeGlue.Config

open Text Json

inductive Step where
  | index (n : Nat)
  | key (name : Text)
  deriving DecidableEq, Repr

def Step.text : Step → Text
  | index n => ofNat n
  | key name => name

/-- Indexes by number, keys by code point. -/
def Step.lt : Step → Step → Bool
  | index m, index n => m < n
  | index _, key _ => true
  | key _, index _ => false
  | key a, key b => Text.le a b && a != b

/-- A violation at a place. It is typed if the value has the type that its place asks for. -/
structure Violation where
  place : List Step
  message : Text
  typed : Bool
  deriving DecidableEq, Repr

def placeLt : List Step → List Step → Bool
  | _, [] => false
  | [], _ :: _ => true
  | a :: as, b :: bs => if a = b then placeLt as bs else a.lt b

/-- Whether a violation is more relevant than one found before. -/
def Violation.beats (v w : Violation) : Bool :=
  if v.place.length != w.place.length then v.place.length < w.place.length
  else if v.place != w.place then placeLt w.place v.place
  else w.typed && !v.typed

def mostRelevant? : List Violation → Option Violation
  | [] => none
  | v :: rest => some (rest.foldl (fun best next => if next.beats best then next else best) v)

def typeViolation (place : List Step) (v : Value) (type : Text) : Violation :=
  ⟨place, v.shown ++ " is not of type ".toList ++ inQuotes type, false⟩

def emptyMessage (v : Value) : Text := v.shown ++ " should be non-empty".toList

/-- A text that is not empty. -/
def filledText (place : List Step) (v : Value) : List Violation :=
  match v with
  | .str t => if t.isEmpty then [⟨place, emptyMessage v, true⟩] else []
  | _ => [typeViolation place v "string".toList]

/-- A list of texts that are not empty. -/
def filledTexts (place : List Step) (v : Value) : List Violation :=
  match v with
  | .arr items => items.zipIdx.flatMap fun (item, i) => filledText (place ++ [.index i]) item
  | _ => [typeViolation place v "array".toList]

/-- A list of texts that holds at least one. -/
def commandTexts (place : List Step) (v : Value) : List Violation :=
  filledTexts place v ++
    match v with
    | .arr [] => [⟨place, emptyMessage v, false⟩]
    | _ => []

/-- The number one, however it is written. -/
def versionOne (place : List Step) (v : Value) : List Violation :=
  (if v.toInt?.isSome then [] else [typeViolation place v "integer".toList]) ++
    if v.toInt? = some 1 then [] else [⟨place, "1 was expected".toList, v.toInt?.isSome⟩]

def missingMembers (place : List Step) (required : List Text)
    (members : List (Text × Value)) : List Violation :=
  (required.filter fun name => !(Value.names members).contains name).map fun name =>
    ⟨place, quoted name ++ " is a required property".toList, true⟩

def extraMessage (names : List Text) : Text :=
  "Additional properties are not allowed (".toList ++
    join ", ".toList ((Text.sort names).map quoted) ++
    (if names.length = 1 then " was unexpected)".toList else " were unexpected)".toList)

def extraMembers (place : List Step) (known : List Text) (members : List (Text × Value)) :
    List Violation :=
  let extra := (Value.names members).filter fun name => !known.contains name
  if extra.isEmpty then [] else [⟨place, extraMessage extra, true⟩]

abbrev Rule := List Step → Value → List Violation

/-- The violations of the members that have a rule. -/
def memberViolations (place : List Step) (rules : List (Text × Rule))
    (members : List (Text × Value)) : List Violation :=
  rules.flatMap fun (name, rule) =>
    match Value.member? name members with
    | some v => rule (place ++ [.key name]) v
    | none => []

/-- An object with rules for its members, some of which are required, and no others. -/
def closedObject (required : List Text) (rules : List (Text × Rule)) : Rule := fun place v =>
  match v with
  | .obj members =>
    missingMembers place required members ++ extraMembers place (rules.map (·.1)) members ++
      memberViolations place rules members
  | _ => [typeViolation place v "object".toList]

def targetRules : List (Text × Rule) :=
  [("source_dir".toList, filledText), ("jni_dir".toList, filledText),
    ("class_dir".toList, filledText), ("includes".toList, filledTexts),
    ("excludes".toList, filledTexts), ("header_name".toList, filledText),
    ("output_name".toList, filledText), ("header_command".toList, commandTexts)]

def targetShape : Rule := closedObject ["source_dir".toList, "jni_dir".toList] targetRules

/-- An object with at least one member, all of them targets. -/
def targetsShape : Rule := fun place v =>
  match v with
  | .obj members =>
    (if members.isEmpty then [⟨place, emptyMessage v, true⟩] else []) ++
      members.flatMap fun (name, target) => targetShape (place ++ [.key name]) target
  | _ => [typeViolation place v "object".toList]

def configShape : Rule :=
  closedObject ["targets".toList]
    [("schema_version".toList, versionOne), ("targets".toList, targetsShape)]

def placeText (place : List Step) : Text :=
  let t := join ['/'] (place.map Step.text)
  if t.isEmpty then "<root>".toList else t

def checkShape (v : Value) : Except Fault Unit :=
  match mostRelevant? (configShape [] v) with
  | none => .ok ()
  | some violation => .error (.shape (placeText violation.place) violation.message)

/-- The file that describes the shape of a kind of document. -/
def shapeFile (kind : Text) : Except Fault Text :=
  if kind == "config".toList then .ok "config.schema.json".toList else .error (.unknownKind kind)

end NativeGlue.Config
