import NativeGlue.Shell.Expansion

/-!
Redirections. All of them are expanded before the first is made, and one that cannot be made
keeps the command from running.
-/

namespace NativeGlue.Shell

open Text

/-- A redirection whose words are expanded. -/
inductive Lead where
  | file (fd : Nat) (mode : OpenMode) (path : Text)
  | duplicate (fd : Nat) (source : Text)
  | document (fd index : Nat)

namespace Run

def closeStream (fd : Nat) : Run Unit :=
  modify fun s => { s with streams := s.streams.filter (·.1 != fd) }

/-- Lead a stream to a channel. -/
def connect (fd id : Nat) : Run Unit :=
  modify fun s => { s with streams := (fd, id) :: s.streams.filter (·.1 != fd) }

def connectNew (fd : Nat) (channel : Channel) : Run Unit := do
  connect fd (← openChannel channel)

/-- Lead a stream to where another leads. -/
def copyStream (fd source : Nat) : Run Unit := do
  match (← get).streams.lookup source with
  | some id => connect fd id
  | none => fail (ofNat source ++ ": Bad file descriptor".toList)

def faultText (whenMissing : String) : FileFault → Text
  | .missing => whenMissing.toList
  | .notDirectory => whenMissing.toList
  | fault => fault.description

def refuseOpening {α : Type} (path : Text) (fault : FileFault) : Run α :=
  fail ("cannot open ".toList ++ path ++ ": ".toList ++ faultText "No such file" fault)

def refuseCreating {α : Type} (path : Text) (fault : FileFault) : Run α :=
  fail ("cannot create ".toList ++ path ++ ": ".toList ++ faultText "Directory nonexistent" fault)

/-- Find or make the file for a stream, and give it the contents with which writing starts. -/
def prepareFile (path : Text) (keeps spares : Bool) :
    Run (Except FileFault (Location × Tree)) := do
  match ← onTree path fun tree here names => do
    let place ← tree.walk here names
    match tree.find? place with
    | some (.directory _) => throw .isDirectory
    | some .null => return (place, .null)
    | some found =>
      if spares then throw .occupied else return (place, if keeps then found else .file [])
    | none =>
      if names.getLast? = some [] then throw .isDirectory else return (place, .file []) with
  | .ok (place, prepared) =>
    modify fun s =>
      { s with
        tree := s.tree.put place prepared
        touched := if keeps then s.touched else place :: s.touched }
    return .ok (place, prepared)
  | .error fault => return .error fault

/-- Lead a stream to what is at a location. -/
def connectTree (fd : Nat) (place : Location) (found : Tree) (appends : Bool) : Run Unit :=
  connectNew fd (if found matches .null then .null else .file place 0 appends)

def openFile (fd : Nat) (mode : OpenMode) (path : Text) : Run Unit := do
  match mode with
  | .read =>
    match ← onTree path fun tree here names => do
      let place ← tree.walk here names
      match tree.find? place with
      | some found => return (place, found)
      | none => throw .missing with
    | .ok (place, found) => connectTree fd place found false
    | .error fault => refuseOpening path fault
  | _ =>
    let keeps := mode matches .append || mode matches .readWrite
    let spares := mode matches .write && (← hasOption 'C')
    match ← prepareFile path keeps spares with
    | .ok (place, found) => connectTree fd place found (mode matches .append)
    | .error fault => refuseCreating path fault

/-- Make a redirection. -/
def lead : Lead → Run Unit
  | .file fd mode path => do
    match streamAt? path with
    | some source =>
      if ((← get).streams.lookup source).isSome then copyStream fd source
      else openFile fd mode path
    | none => openFile fd mode path
  | .duplicate fd source =>
    match source with
    | ['-'] => closeStream fd
    | t => copyStream fd (Arithmetic.digits 10 t).1
  | .document _ _ => pure ()

section

variable (capture : Option Command → Run Text)

def expandRedirection : Redirection → Run Lead
  | .file fd mode w => do return .file fd mode (← expandText capture .single w)
  | .document fd index => return .document fd index
  | .duplicate fd w => do
    match ← expandFields capture w with
    | [c] :: _ =>
      if c = '-' || c.isDigit then return .duplicate fd [c]
      else fail "Syntax error: Bad fd number".toList
    | _ :: _ => fail "Syntax error: Bad fd number".toList
    | [] => fail "redir error".toList

def leadAll (leads : List Lead) : Run Unit :=
  leads.forM fun l =>
    match l with
    | .document fd index => do
      let w := ((← get).documents.lookup index).getD []
      connectNew fd (.source (← expandText capture .document w) false)
    | l => lead l

/-- Run an action with redirected streams. The result is none where a redirection cannot be
made. -/
def redirected {α : Type} (rs : List Redirection) (action : Run α) : Run (Option α) := do
  let leads ← rs.mapM (expandRedirection capture)
  let before := (← get).streams
  let restore : Run Unit := modify fun s => { s with streams := before }
  try
    leadAll capture leads
  catch interrupt =>
    restore
    match interrupt with
    | .fault _ => return none
    | _ => throw interrupt
  try
    let result ← action
    restore
    return some result
  catch interrupt =>
    restore
    throw interrupt

/-- Redirect the streams for good. -/
def redirectForGood (rs : List Redirection) : Run Unit := do
  leadAll capture (← rs.mapM (expandRedirection capture))

end

end Run

end NativeGlue.Shell
