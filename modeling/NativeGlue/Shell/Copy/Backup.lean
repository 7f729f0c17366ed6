import NativeGlue.Shell.Arithmetic
import NativeGlue.Shell.Copy.Found

/-!
Backups of files that are about to be overwritten: their names, and moving a file to such a name
and back.
-/

namespace NativeGlue.Shell.Copy

open Text

/-- The number of a backup of a file, by the name of the backup. -/
def backupNumber? (base name : Text) : Option Nat :=
  (dropStart? (base ++ ".~".toList) name).bind fun rest =>
    let digits := rest.takeWhile Char.isDigit
    if rest.drop digits.length = ['~'] && digits.head?.any (· != '0') then
      some (Arithmetic.digits 10 digits).1
    else none

/-- The greatest number of a backup of a file. -/
def lastBackup? (path : Text) : Run (Option Nat) := do
  let names ← (← Run.directoryAt? (FileName.lead path)).elim (pure []) Run.namesAt
  return (names.filterMap (backupNumber? (FileName.last path))).max?

/-- The path of the next backup of a file. -/
def backupPath (rule : BackupRule) (suffix path : Text) : Run Text := do
  let last ← lastBackup? path
  let isNumbered := rule = .numbered || rule = .existing && last.isSome
  return path ++
    if isNumbered then ".~".toList ++ ofNat (last.getD 0 + 1) ++ ['~'] else suffix

/-- Give what is at a path another name in its directory. -/
def move (path target : Text) : Run (Except FileFault Unit) :=
  Run.changeTree target fun tree here names => do
    let place ← tree.walkToLast here names
    if (tree.find? place).any Tree.isDirectory then throw .isDirectory
    return tree.rename place.dropLast (FileName.last path) (FileName.last target)

/-- Whether a source is the very backup that would be written over. -/
def isOwnBackup (m : Manner) (source target : Text) (found : Found) : Run Bool := do
  if FileName.last source != FileName.last target ++ m.backupSuffix then return false
  else return (← Found.at? true (target ++ m.backupSuffix)).any fun b => b.place == found.place

end NativeGlue.Shell.Copy
