import NativeGlue.Shell.Choice

/-!
How files are copied: what the options ask for, and which of them cannot go together.
-/

namespace NativeGlue.Shell.Copy

open Text

/-- Which links among the sources are followed. -/
inductive Following where
  | never | operands | always
  deriving DecidableEq, Repr

/-- What a copy is: new contents, or a link to its source. -/
inductive Making where
  | contents | hardLink | symbolicLink
  deriving DecidableEq, Repr

/-- The names of backups: with a suffix, with a number, or with a number where there is such a
backup already. -/
inductive BackupRule where
  | suffix | existing | numbered
  deriving DecidableEq, Repr

structure Manner where
  recurses : Bool
  following : Following
  making : Making
  /-- Whatever is no directory and no link is read like a file. -/
  readsSpecial : Bool
  /-- What is already there stays. -/
  spares : Bool
  asks : Bool
  tells : Bool
  /-- What is already there stays unless it is older. -/
  updates : Bool
  /-- What is already there is removed first. -/
  removes : Bool
  /-- What cannot be written to is removed. -/
  forces : Bool
  /-- The contents are left out. -/
  isHollow : Bool
  /-- A file must share its contents with its copy. -/
  shares : Bool
  /-- The directories on the way to a source are copied too. -/
  keepsPath : Bool
  stripsSlashes : Bool
  backup : Option BackupRule
  backupSuffix : Text
  /-- The directory into which operands are copied. -/
  directory : Option Text

def options : OptionTable :=
  [.flag "archive" "a", .flag "attributes-only" "", .optional "backup" "b",
    .flag "copy-contents" "", .flag "dereference" "L", .flag "force" "f", .flag "interactive" "i",
    .flag "link" "l", .flag "no-clobber" "n", .flag "no-dereference" "P", .short "links" "d",
    .short "follow-operands" "H", .valued "no-preserve" "", .flag "no-target-directory" "T",
    .flag "one-file-system" "x", ⟨"parents", ["parents", "path"], "", .never⟩,
    .optional "preserve" "p", .flag "recursive" "rR", .flag "remove-destination" "",
    .valued "sparse" "", .optional "reflink" "", .flag "strip-trailing-slashes" "",
    .valued "suffix" "S", .flag "symbolic-link" "s", .valued "target-directory" "t",
    .flag "update" "u", .flag "verbose" "v", .optional "context" "Z"]

def sparseChoices : Choices := [["never"], ["auto"], ["always"]]

def sharingChoices : Choices := [["auto"], ["always"], ["never"]]

def attributeChoices : Choices :=
  [["mode"], ["timestamps"], ["ownership"], ["links"], ["context"], ["xattr"], ["all"]]

def backupChoices : Choices :=
  [["none", "off"], ["simple", "never"], ["existing", "nil"], ["numbered", "t"]]

/-- Check an option when it is met after others. -/
def check (before : List GivenOption) (o : GivenOption) : Run Unit := do
  match o with
  | ("sparse", some word) => let _ ← sparseChoices.read "--sparse" word
  | ("reflink", some word) => let _ ← sharingChoices.read "--reflink" word
  | ("preserve", some words) =>
    (words.splitOn ',').forM fun word => do
      let _ ← attributeChoices.read "--preserve" word
  | ("no-preserve", some words) =>
    (words.splitOn ',').forM fun word => do
      let _ ← attributeChoices.read "--no-preserve" word
  | ("target-directory", _) =>
    if before.any fun e => e.1 == "target-directory" then
      Program.stop "multiple target directories specified".toList
  | ("context", some _) =>
    Program.say
      "warning: ignoring --context; it requires an SELinux-enabled kernel".toList
  | _ => pure ()

/-- The choice that an option made last, where it was given with a word. -/
def chosen? (choices : Choices) (a : ProgramArguments) (name : String) : Option Nat :=
  (a.value? name).bind fun word => (choices.inFull? word).or (choices.fitting word).head?

/-- Whether files must share their contents with their copies. -/
def shares (a : ProgramArguments) : Bool :=
  match a.last? ["reflink"] with
  | some (_, none) => true
  | some (_, some _) => chosen? sharingChoices a "reflink" = some 1
  | none => false

def following (a : ProgramArguments) : Following :=
  let last :=
    a.last? ["archive", "links", "no-dereference", "follow-operands", "dereference"]
  match last.map (·.1) with
  | some "dereference" => .always
  | some "follow-operands" => .operands
  | some _ => .never
  | none =>
    if (a.has "recursive" || a.has "archive") && !a.has "link" then .never else .always

/-- Whether the security context is to be kept. The words of each option count in their order. -/
def keepsContext (a : ProgramArguments) : Bool :=
  a.options.foldl
    (fun keeps o =>
      let names := ((o.2.getD []).splitOn ',').any fun word =>
        ((attributeChoices.inFull? word).or (attributeChoices.fitting word).head?) = some 4
      if o.1 == "preserve" && o.2.isSome then keeps || names
      else if o.1 == "no-preserve" then keeps && !names
      else keeps)
    false

/-- The value of a variable that programs see. -/
def exported? (name : String) : Run (Option Text) := do
  return ((← Run.binding? name.toList).filter (·.isExported)).bind (·.value)

/-- The rule for backups that a word gives, or else the one that holds everywhere. -/
def backupRule (word : Option Text) : Run (Option BackupRule) := do
  let given := (word.getD []) != []
  let common ← exported? "VERSION_CONTROL"
  let word := if given then word.getD [] else common.getD []
  if word.isEmpty then return some .existing
  else
    match ← backupChoices.read (if given then "backup type" else "$VERSION_CONTROL") word with
    | 0 => return none
    | 1 => return some .suffix
    | 2 => return some .existing
    | _ => return some .numbered

/-- The suffix of backups. One that names another directory does not count. -/
def backupSuffix (given : Option Text) : Run Text := do
  let common ← exported? "SIMPLE_BACKUP_SUFFIX"
  let suffix := (given.or common).getD []
  return if suffix.isEmpty || suffix.contains '/' then ['~'] else suffix

def manner (a : ProgramArguments) : Run Manner := do
  let last := (a.last? ["interactive", "no-clobber"]).map (·.1)
  let spares := last = some "no-clobber"
  let makesBackups := a.has "backup" || a.has "suffix"
  if a.has "link" && a.has "symbolic-link" then
    Program.misuse "cannot make both hard and symbolic links".toList
  if makesBackups && spares then
    Program.misuse "options --backup and --no-clobber are mutually exclusive".toList
  if shares a && (chosen? sparseChoices a "sparse").any (· != 1) then
    Program.misuse "--reflink can be used only with --sparse=auto".toList
  let backup ← if makesBackups then backupRule (a.value? "backup") else pure none
  let suffix ← backupSuffix (a.value? "suffix")
  if keepsContext a then
    Program.stop "cannot preserve security context without an SELinux-enabled kernel".toList
  let recurses := a.has "recursive" || a.has "archive"
  return {
    recurses := recurses
    following := following a
    making := if a.has "symbolic-link" then .symbolicLink
      else if a.has "link" then .hardLink else .contents
    readsSpecial := !recurses || a.has "copy-contents"
    spares := spares
    asks := last = some "interactive"
    tells := a.has "verbose"
    updates := a.has "update"
    removes := a.has "remove-destination"
    forces := a.has "force"
    isHollow := a.has "attributes-only"
    shares := shares a
    keepsPath := a.has "parents"
    stripsSlashes := a.has "strip-trailing-slashes"
    backup := backup
    backupSuffix := suffix
    directory := none }

end NativeGlue.Shell.Copy
