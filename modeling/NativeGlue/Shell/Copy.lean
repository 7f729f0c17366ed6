import NativeGlue.Shell.Copy.Backup

/-!
The program that copies files, links and directories. Links among the operands are followed
unless directories are copied with all that is in them. What was copied before in the same run is
remembered, so that nothing that was just made is overwritten and no directory is copied into
itself without end.
-/

namespace NativeGlue.Shell

open Text

namespace Copy

/-- What has been copied so far. -/
structure Progress where
  /-- The operands. -/
  sources : List Location
  /-- Where operands went. -/
  targets : List Location
  /-- Directories that are not copied again, with the paths that were made for them. -/
  directories : List (Location × Text)
  /-- A directory was made on the way to the present source. -/
  hasMade : Bool
  /-- A directory was about to be copied into itself. -/
  isEnclosed : Bool
  /-- The last directory on the way to a target had to be made. -/
  isFresh : Bool

abbrev Copying := StateT Progress Run

def complain (message : Text) : Copying Bool := do
  Program.say message
  return false

/-- Complain about what a system call said. -/
def refuse (deed : String) (path : Text) (fault : FileFault) : Copying Bool :=
  complain (deed.toList ++ ' ' :: shownName path ++ ": ".toList ++ fault.description)

def tellLine (m : Manner) (line : Text) : Run Unit :=
  if m.tells then do
    let _ ← Run.write 1 (line ++ ['\n'])
  else pure ()

def tell (m : Manner) (source target : Text) (backup : Option Text) : Run Unit :=
  tellLine m (shownName source ++ " -> ".toList ++ shownName target ++
    backup.elim [] fun b => " (backup: ".toList ++ shownName b ++ [')'])

/-- Ask whether a file may be overwritten. -/
def isAllowed (target : Text) : Run Bool := do
  let _ ← Run.write 2 ((← get).name ++ ": overwrite ".toList ++ shownName target ++ "? ".toList)
  let t := (← Run.unread? 0).getD []
  let answer := t.takeWhile (· != '\n')
  if answer.length = t.length then Run.reachEnd 0
  Run.advance 0 (answer.length + 1)
  return answer.head? = some 'y' || answer.head? = some 'Y'

/-- Whether what is at the target was written after the source, or together with it. -/
def isUpToDate (found old : Found) : Run Bool := do
  let s ← get
  return !(s.touched.contains found.place && !s.touched.contains old.place)

/-- Remove what is in the way of a copy. -/
def clear (m : Manner) (target : Text) : Copying Bool := do
  match ← Run.changeTree target Tree.remove with
  | .ok () =>
    tellLine m ("removed ".toList ++ shownName target)
    return true
  | .error .missing => return true
  | .error fault => refuse "cannot remove" target fault

/-- What is to be done after what is at the target was dealt with. -/
inductive Settlement where
  | done (isWell : Bool)
  /-- The copy is to be made: whether nothing is in its place, and the backup that was made. -/
  | goOn (isNew : Bool) (backup : Option Text)

/-- What keeps a source from being copied over what is at its target. -/
def conflict? (m : Manner) (source target : Text) (isOperand : Bool) (found old : Found) :
    Copying (Option Text) := do
  let isDirectory := found.tree.isDirectory
  if !old.tree.isDirectory && isDirectory then
    return some ("cannot overwrite non-directory ".toList ++ shownName target ++
      " with directory ".toList ++ shownName source)
  else if !old.tree.isDirectory && isOperand && m.backup != some .numbered &&
      (← get).targets.contains old.place then
    return some ("will not overwrite just-created ".toList ++ shownName target ++
      " with ".toList ++ shownName source)
  else if old.tree.isDirectory && !isDirectory then
    return some ("cannot overwrite directory ".toList ++ shownName target ++
      " with non-directory".toList)
  else return none

/-- Move a file out of the way of a copy, to the name of a backup. -/
def setAside (m : Manner) (rule : BackupRule) (source target : Text) (found : Found) :
    Copying Settlement := do
  if rule != .numbered && (← isOwnBackup m source target found) then
    return .done (← complain ("backing up ".toList ++ shownName target ++
      " might destroy source;  ".toList ++ shownName source ++ " not copied".toList))
  else
    let backup ← backupPath rule m.backupSuffix target
    match ← move target backup with
    | .ok () => return .goOn true (some backup)
    | .error fault => return .done (← refuse "cannot backup" target fault)

/-- Make way for a copy over what is at its target. -/
def makeWay (m : Manner) (source target : Text) (found old : Found) : Copying Settlement := do
  let name := FileName.last source
  let isNamed := name != ['.'] && name != "..".toList
  match m.backup.filter fun _ => isNamed && !old.tree.isDirectory with
  | some rule => setAside m rule source target found
  | none =>
    let isReplaced := !m.isHollow && m.following = .never && !found.tree.isFile
    if !old.tree.isDirectory && (m.removes || isReplaced) then
      return if ← clear m target then .goOn true none else .done false
    else return .goOn false none

/-- Decide about what is at the target. -/
def settleWith (m : Manner) (source target : Text) (isOperand : Bool) (found old : Found) :
    Copying Settlement := do
  let isDirectory := found.tree.isDirectory
  let verdict ← if m.spares then pure .goOn else verdict m source target found old
  if verdict = .refused then
    return .done (← complain (shownName source ++ " and ".toList ++ shownName target ++
      " are the same file".toList))
  if !isDirectory && m.updates && (← isUpToDate found old) then return .done true
  if !isDirectory && m.spares then return .done true
  if !isDirectory && m.asks then
    if !(← isAllowed target) then return .done true
  if verdict = .settled then return .done true
  match ← conflict? m source target isOperand found old with
  | some problem => return .done (← complain problem)
  | none => makeWay m source target found old

/-- Whether the target is looked at without following a link. -/
def looksAtLinks (m : Manner) (found : Found) : Bool :=
  let isPlain := found.tree.isFile ||
    m.readsSpecial && !found.tree.isDirectory && !found.tree.isLink
  !isPlain || m.making != .contents || m.backup.isSome || m.removes

/-- Look at the target, and decide about what is there. -/
def settle (m : Manner) (source target : Text) (isOperand : Bool) (found : Found) :
    Copying Settlement := do
  match ← Found.look (!looksAtLinks m found) target with
  | .ok old => settleWith m source target isOperand found old
  | .error .missing => return .goOn true none
  | .error fault =>
    if fault = .linkLoop && m.forces then return .goOn false none
    else return .done (← refuse "cannot stat" target fault)

/-- Whether the target is a link that was made for another operand. -/
def isFreshLink (m : Manner) (target : Text) : Copying Bool := do
  if m.backup.isSome then return false
  else
    let targets := (← get).targets
    return (← Found.at? false target).any fun l => l.tree.isLink && targets.contains l.place

/-- Put a link at the target. -/
def placeLink (replaces : Bool) (target : Text) (link : Tree) : Run (Except FileFault Unit) :=
  Run.changeTree target fun tree here names => do
    let place ← tree.walkToLast here names
    if (tree.find? place).isSome && !replaces then throw .occupied
    return (tree.erase place).put place link

/-- Make a link to the source. A relative one is only right in the directory where the program
runs. -/
def linkTo (m : Manner) (source target : Text) : Copying Bool := do
  let parent ← Run.directoryAt? (FileName.lead target)
  let isHere := source.head? = some '/' || parent.all (· == (← getThe State).directory)
  if !isHere then
    complain (shownBare target ++
      ": can make relative symbolic links only in current directory".toList)
  else
    match ← placeLink m.forces target (.link (gather source)) with
    | .ok () => return true
    | .error fault =>
      refuse ("cannot create symbolic link " ++ String.ofList (shownName target) ++ " to") source
        fault

/-- Let the target be the same file as the source. -/
def shareFile (m : Manner) (source target : Text) : Copying Bool := do
  let made : Except FileFault Unit ←
    match ← Found.look (m.following != .never) source with
    | .ok found => placeLink (m.forces || m.asks) target found.tree
    | .error fault => pure (.error fault)
  match made with
  | .ok () => return true
  | .error fault =>
    refuse ("cannot create hard link " ++ String.ofList (shownName target) ++ " to") source fault

/-- Make a file where nothing is. A link that leads nowhere is not written through. -/
def writeNew (target : Text) (new : Tree) : Copying Bool := do
  let refuse := refuse "cannot create regular file" target
  match ← Found.look false target with
  | .ok ⟨_, .link _⟩ =>
    complain ("not writing through dangling symlink ".toList ++ shownName target)
  | .ok _ => refuse .occupied
  | .error .missing =>
    match ← Run.changeTree target fun tree here names => do
      let place ← tree.walk here (if names.getLast? = some [] then names.dropLast else names)
      if names.getLast? = some [] then throw .notDirectory
      return tree.put place new with
    | .ok () => return true
    | .error fault => refuse fault
  | .error fault => refuse fault

/-- Whether the source is still what was found before. What was in the way may have been the
source itself. -/
def isStillThere (m : Manner) (source : Text) (found : Found) : Copying Bool := do
  match ← Found.look (m.following != .never) source with
  | .ok again =>
    if again.place == found.place then return true
    else complain ("skipping file ".toList ++ shownName source ++
      ", as it was replaced while being copied".toList)
  | .error fault =>
    complain ("cannot open ".toList ++ shownName source ++ " for reading: ".toList ++
      fault.description)

/-- Give the target the contents of a file. -/
def copyContents (m : Manner) (source target : Text) (isNew : Bool) (tree : Tree) :
    Copying Bool := do
  if let some fd := streamAt? source then Run.reachEnd fd
  let bytes := tree.bytes?.getD []
  let new : Tree := if m.isHollow then .file [] else if tree.isFile then tree else .file bytes
  let cannotShare := complain ("failed to clone ".toList ++ shownName target ++ " from ".toList ++
    shownName source ++ ": Operation not supported".toList)
  if let some fd := streamAt? target then return ← Run.write fd (ofBytes bytes)
  let unshared := m.shares && !m.isHollow
  if isNew then return ← if unshared then cannotShare else writeNew target new
  match ← Found.look true target with
  | .ok old =>
    if !m.isHollow && old.tree.isFile then
      modifyThe State fun s =>
        { s with
          tree := s.tree.put old.place (.file (if unshared then [] else bytes))
          touched := old.place :: s.touched }
    if unshared then cannotShare else return true
  | .error fault =>
    if !m.forces then refuse "cannot create regular file" target fault
    else if !(← clear m target) then return false
    else if unshared then cannotShare
    else writeNew target new

/-- Make a copy of what is no directory. -/
def makeCopy (m : Manner) (source target : Text) (isNew : Bool) (found : Found) :
    Copying Bool := do
  match m.making, found.tree with
  | .symbolicLink, _ => linkTo m source target
  | .hardLink, _ => shareFile m source target
  | .contents, .link text =>
    match ← placeLink m.forces target (.link text) with
    | .ok () => return true
    | .error fault => refuse "cannot create symbolic link" target fault
  | .contents, tree =>
    if tree.isFile || m.readsSpecial then
      if ← isStillThere m source found then copyContents m source target isNew tree
      else return false
    else
      match ← placeLink false target tree with
      | .ok () => return true
      | .error fault => refuse "cannot create special file" target fault

/-- Remember where an operand went. -/
def remember (target : Text) : Copying Unit := do
  if let some there ← Found.at? false target then
    modify fun k => { k with targets := there.place :: k.targets }

/-- Copy what is no directory to its target, over what may be there. If that fails, a backup is
moved back. -/
def copyLeaf (m : Manner) (isOperand isAbsent : Bool) (source target : Text) (found : Found) :
    Copying Bool := do
  match ← if isAbsent then pure (.goOn true none) else settle m source target isOperand found with
  | .done isWell => return isWell
  | .goOn isNew backup =>
    if isOperand && (← isFreshLink m target) then
      return ← complain ("will not copy ".toList ++ shownName source ++
        " through just-created symlink ".toList ++ shownName target)
    tell m source target backup
    let isMade ← makeCopy m source target isNew found
    if isMade then
      if isOperand then remember target
    else if let some backup := backup then
      if (← move backup target) matches .ok () then
        tellLine m (shownName backup ++ " -> ".toList ++ shownName target ++ " (unbackup)".toList)
    return isMade

/-- Make the directory into which another is copied. -/
def makeTarget (m : Manner) (source target : Text) : Copying Bool := do
  match ← Run.changeTree target Tree.makeDirectory with
  | .ok () =>
    if !(← get).hasMade then
      if let some made ← Found.at? true target then
        modify fun k =>
          { k with directories := k.directories ++ [(made.place, target)], hasMade := true }
    tell m source target none
    return true
  | .error fault => refuse "cannot create directory" target fault

/-- Copy what is in a directory, unless it turns out to hold its own copy. A directory that is made
for one of its entries does not count for the next. -/
def copyInside (copy : Text → Text → Copying Bool) (place : Location) (source target : Text) :
    Copying Bool := do
  let before := (← get).hasMade
  let (isWell, hasMade) ← (← Run.namesAt place).foldlM
    (fun (isWell, hasMade) name => do
      if (← get).isEnclosed then return (isWell, hasMade)
      else
        modify fun k => { k with hasMade := before }
        let isDone ← copy (FileName.inside source name) (FileName.inside target name)
        return (isDone && isWell, hasMade || (← get).hasMade))
    (true, before)
  modify fun k => { k with hasMade := hasMade }
  return isWell

/-- What is to be done about a directory that was met or made before. `top` is the operand to which
it belongs, with its target. -/
def settleAgain (m : Manner) (top : Text × Text) (isOperand : Bool) (source target earlier : Text) :
    Copying (Option Bool) := do
  if ← isSameEntry m source earlier then
    modify fun k => { k with isEnclosed := true }
    return some (← complain ("cannot copy a directory, ".toList ++ shownName top.1 ++
      ", into itself, ".toList ++ shownName top.2))
  else if (← FileName.entry? m.directory target) == (← FileName.entry? m.directory earlier) then
    Program.say ("warning: source directory ".toList ++ shownName top.1 ++
      " specified more than once".toList)
    return some true
  else if m.following = .always || isOperand && m.following = .operands then return none
  else
    return some (← complain ("will not create hard link ".toList ++ shownName target ++
      " to directory ".toList ++ shownName earlier))

/-- Copy a directory over what may be at its target. `above` are the directories that hold it. -/
def copyDirectory (copy : Bool → Text → Text → Copying Bool) (m : Manner) (top : Text × Text)
    (above : List Location) (isOperand isAbsent : Bool) (source target : Text) (found : Found) :
    Copying Bool := do
  match ← if isAbsent then pure (.goOn true none) else settle m source target isOperand found with
  | .done isWell => return isWell
  | .goOn isNew _ =>
    if isOperand && (← isFreshLink m target) then
      return ← complain ("will not copy ".toList ++ shownName source ++
        " through just-created symlink ".toList ++ shownName target)
    let before := (← get).directories
    match before.lookup found.place with
    | some earlier =>
      if let some isWell ← settleAgain m top isOperand source target earlier then return isWell
    | none =>
      if isOperand then
        modify fun k => { k with directories := before ++ [(found.place, target)] }
    if above.contains found.place then
      return ← complain ("cannot copy cyclic symbolic link ".toList ++ shownName source)
    if isNew then
      if !(← makeTarget m source target) then
        modify fun k => { k with directories := before }
        return false
    let isWell ← copyInside (copy isNew) found.place source target
    if isOperand then remember target
    return isWell

/-- Copy a source to a target and tell whether all went well. Directories are copied at most
`depth` deep. -/
def copyFrom (m : Manner) (top : Text × Text) :
    Nat → List Location → Bool → Bool → Text → Text → Copying Bool
  | 0, _, _, _, source, _ => refuse "cannot stat" source .nameTooLong
  | depth + 1, above, isOperand, isAbsent, source, target => do
    match ← Found.look (m.following != .never) source with
    | .error fault => refuse "cannot stat" source fault
    | .ok found =>
      let isDirectory := found.tree.isDirectory
      if isDirectory && !m.recurses then
        return ← complain ("-r not specified; omitting directory ".toList ++ shownName source)
      let named := ((← Found.at? false source).map (·.place)).getD found.place
      if isOperand then
        if !isDirectory && m.backup.isNone && (← get).sources.contains named then
          Program.say ("warning: source file ".toList ++ shownName source ++
            " specified more than once".toList)
          return true
        modify fun k => { k with sources := named :: k.sources }
      if isDirectory then
        let below := if m.following = .operands then { m with following := .never } else m
        copyDirectory (copyFrom below top depth (found.place :: above) false) m top above isOperand
          isAbsent source target found
      else copyLeaf m isOperand isAbsent source target found

/-- No path has more components. -/
def deepest : Nat := Path.longest

/-- Copy an operand to its target. -/
def copyOperand (m : Manner) (isAbsent : Bool) (source target : Text) : Copying Bool := do
  modify fun k => { k with hasMade := false, isEnclosed := false }
  copyFrom m (source, target) deepest [] true isAbsent source target

/-- Copy one of the directories on the way to a source, if it is missing. -/
def makeParent (m : Manner) (directory start : Text) : Copying Bool := do
  let target := FileName.inside directory start
  match ← Found.look true target with
  | .ok there =>
    modify fun k => { k with isFresh := false }
    if there.tree.isDirectory then return true
    else complain (shownName target ++ " exists but is not a directory".toList)
  | .error _ =>
    match ← Found.look true start with
    | .ok ⟨_, .directory _⟩ =>
      match ← Run.changeTree target Tree.makeDirectory with
      | .ok () =>
        modify fun k => { k with isFresh := true }
        tellLine m (start ++ " -> ".toList ++ target)
        return true
      | .error fault => refuse "cannot make directory" target fault
    | .ok _ => refuse "failed to get attributes of" start .notDirectory
    | .error fault => refuse "failed to get attributes of" start fault

/-- Make the directories on the way to a source in another directory. -/
def makeParents (m : Manner) (directory source : Text) : Copying Bool := do
  let starts := FileName.starts (FileName.withoutSlashes source)
  match starts.getLast? with
  | none => return true
  | some last =>
    if (← Found.at? true (FileName.inside directory last)).isSome then
      makeParent m directory last
    else
      starts.foldlM
        (fun isMade start => if isMade then makeParent m directory start else return false) true

/-- Copy an operand into a directory. -/
def copyInto (m : Manner) (directory source : Text) : Copying Bool := do
  let source := if m.stripsSlashes then FileName.withoutSlashes source else source
  if m.keepsPath then
    if ← makeParents m directory source then
      copyOperand m (← get).isFresh source
        (FileName.inside directory (FileName.withoutSlashes source))
    else return false
  else
    let name := FileName.last source
    let name := if name = "..".toList then ['.'] else name
    copyOperand m false source (FileName.inside directory name)

/-- Copy operands one after another. -/
def copyAll (copies : List (Copying Bool)) : Run Nat := do
  let (results, _) ← (copies.mapM id).run ⟨[], [], [], false, false, false⟩
  return if results.all id then 0 else 1

/-- Copy a file to a target that is no directory. A file that is forced over itself is copied to
its backup. -/
def copySingle (m : Manner) (source target : Text) : Run Nat := do
  if m.keepsPath then
    Program.misuse "with --parents, the destination must be a directory".toList
  let isOverItself := m.forces && source == target &&
    (← Found.at? true target).any fun found => found.tree.isFile
  match m.backup.filter fun _ => isOverItself with
  | some rule =>
    let target ← backupPath rule m.backupSuffix target
    copyAll [copyOperand { m with backup := none } false source target]
  | none => copyAll [copyOperand m false source target]

/-- Why a path is not that of a directory. -/
def directoryFault? (path : Text) : Run (Option FileFault) := do
  match ← Run.onTree path Tree.lookup with
  | .ok (.directory _) => return none
  | .ok _ => return some .notDirectory
  | .error fault => return some fault

def run (args : List Text) : Run Nat := do
  let a ← options.readChecked check args
  let m ← manner a
  let intoDirectory (directory : Text) (sources : List Text) : Run Nat :=
    copyAll (sources.map (copyInto { m with directory := some directory } directory))
  let isPlain := a.has "no-target-directory"
  match a.operands, a.value? "target-directory" with
  | [], _ => Program.misuse "missing file operand".toList
  | _, some directory =>
    if isPlain then
      Program.stop
        "cannot combine --target-directory (-t) and --no-target-directory (-T)".toList
    else
      match ← directoryFault? directory with
      | none => intoDirectory directory a.operands
      | some fault =>
        Program.stop ("target directory ".toList ++ shownName directory ++ ": ".toList ++
          fault.description)
  | [only], none =>
    Program.misuse ("missing destination file operand after ".toList ++ shownName only)
  | source :: target :: more, none =>
    if isPlain then
      match more with
      | [] => copySingle m source target
      | extra :: _ => Program.misuse ("extra operand ".toList ++ shownName extra)
    else
      let directory := more.getLast?.getD target
      match ← directoryFault? directory with
      | none => intoDirectory directory a.operands.dropLast
      | some fault =>
        if more.isEmpty then copySingle m source target
        else
          Program.stop ("target ".toList ++ shownName directory ++ ": ".toList ++
            fault.description)

end Copy

end NativeGlue.Shell
