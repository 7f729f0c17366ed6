import NativeGlue.Shell.Variables

/-!
Aliases: names that stand for texts where commands are read. They are listed by slots, into which
their names are sorted by their characters.
-/

namespace NativeGlue.Shell

open Text

namespace Alias

def slotCount : Nat := 39

/-- The slot of a name. Its first character counts more than the others. -/
def slot (name : Text) : Nat :=
  name.foldl (fun sum c => sum + c.toNat) (16 * (name.head?.elim 0 Char.toNat)) % slotCount

def line (name value : Text) : Text := name ++ '=' :: Variables.quoted value ++ ['\n']

/-- A command that makes an alias. -/
def definition (name value : Text) : Text :=
  "alias ".toList ++ name ++ '=' :: Variables.quoted value

/-- All aliases by slots, within one in the order in which they were made. -/
def list : Run Nat := do
  let aliases := (← get).aliases
  let inSlot (n : Nat) : List (Text × Text) := aliases.filter fun e => slot e.1 = n
  Run.emit (((List.range slotCount).flatMap inSlot).flatMap fun e => line e.1 e.2)

def define (name value : Text) : Run Unit :=
  modify fun s =>
    let aliases := s.aliases.map fun e => if e.1 = name then (name, value) else e
    let isKnown := (s.aliases.lookup name).isSome
    { s with aliases := if isKnown then aliases else aliases ++ [(name, value)] }

/-- The name and the value in an argument. An equals sign at its start belongs to the name. -/
def split? : Text → Option (Text × Text)
  | [] => none
  | c :: rest => (cut? ['='] rest).map fun (name, value) => (c :: name, value)

def complain (command : String) (name : Text) : Run Nat := do
  Run.say (command.toList ++ ": ".toList ++ name ++ " not found".toList)
  return 1

/-- Define aliases, and show those that are named without a value. -/
def make (args : List Text) : Run Nat := do
  if args.isEmpty then list
  else
    let statuses ← args.mapM fun t => do
      match split? t with
      | some (name, value) =>
        define name value
        return 0
      | none =>
        match (← get).aliases.lookup t with
        | some value => Run.emit (line t value)
        | none => complain "alias" t
    return statuses.foldl max 0

def remove (args : List Text) : Run Nat := do
  let (options, names) ← Run.readOptions "a" "" args
  if !options.isEmpty then
    modify fun s => { s with aliases := [] }
    return 0
  else
    let statuses ← names.mapM fun name => do
      if ((← get).aliases.lookup name).isNone then complain "unalias" name
      else
        modify fun s => { s with aliases := s.aliases.filter (·.1 != name) }
        return 0
    return statuses.foldl max 0

end Alias

end NativeGlue.Shell
