import NativeGlue.Shell.Variables

/-!
What a process may do: the permissions that are kept from the files it makes, and the limits on
what it may use.
-/

namespace NativeGlue.Shell

open Text

/-- The permissions in the modes of files: three bits for each of three classes of users. -/
abbrev Permissions := Nat

namespace Permissions

def all : Permissions := 511

/-- The permissions that a mask leaves. -/
def unmasked (mask : Nat) : Permissions := all - mask % 512

/-- The three bits of a class of users, the owner being the first. -/
def bitsOf (n : Permissions) (index : Nat) : Nat := n / Nat.pow 8 (2 - index) % 8

def ofClasses (user group others : Nat) : Permissions := 64 * user + 8 * group + others

def class? (c : Char) : Option Nat :=
  if c = 'u' then some 0 else if c = 'g' then some 1 else if c = 'o' then some 2 else none

/-- The permissions of one class by letters. -/
def letters (bits : Nat) : Text :=
  (if bits / 4 % 2 = 1 then ['r'] else []) ++ (if bits / 2 % 2 = 1 then ['w'] else []) ++
    if bits % 2 = 1 then ['x'] else []

def symbolic (n : Permissions) : Text :=
  "u=".toList ++ letters (n.bitsOf 0) ++ ",g=".toList ++ letters (n.bitsOf 1) ++
    ",o=".toList ++ letters (n.bitsOf 2)

/-- The bits for which a letter stands: a permission, or all those of a class. -/
def letterBits? (n : Permissions) (c : Char) : Option Nat :=
  match c with
  | 'r' => some 4
  | 'w' => some 2
  | 'x' => some 1
  | 's' => some 0
  | 'X' => some (if n.bitsOf 0 % 2 + n.bitsOf 1 % 2 + n.bitsOf 2 % 2 = 0 then 0 else 1)
  | _ => (class? c).map n.bitsOf

/-- Change the bits of a class by an operator. -/
def changeBits (operator : Char) (old bits : Nat) : Nat :=
  if operator = '+' then old ||| bits
  else if operator = '-' then old - (old &&& bits)
  else bits

def change (n : Permissions) (classes : List Nat) (operator : Char) (bits : Nat) : Permissions :=
  let one (index : Nat) : Nat :=
    if classes.contains index then changeBits operator (n.bitsOf index) bits else n.bitsOf index
  ofClasses (one 0) (one 1) (one 2)

def isOperator (c : Char) : Bool := c = '+' || c = '-' || c = '='

/-- Apply changes to some classes: an operator with letters, as often as there is one. What letters
stand for does not change on the way. -/
def applyChanges (start : Permissions) (classes : List Nat) :
    Nat → Permissions → Text → Option (Permissions × Text)
  | 0, _, _ => none
  | fuel + 1, n, t =>
    match t with
    | [] => some (n, [])
    | c :: rest =>
      if isOperator c then
        let names := rest.takeWhile fun d => (start.letterBits? d).isSome
        let bits := (names.filterMap start.letterBits?).foldl (· ||| ·) 0
        applyChanges start classes fuel (n.change classes c bits) (rest.drop names.length)
      else some (n, t)

/-- Apply symbolic changes, which commas separate. -/
def applyClauses (start : Permissions) : Nat → Permissions → Text → Option Permissions
  | 0, _, _ => none
  | fuel + 1, n, t =>
    let who := t.takeWhile fun c => c = 'a' || (class? c).isSome
    let classes := if who.isEmpty || who.contains 'a' then [0, 1, 2] else who.filterMap class?
    let rest := t.drop who.length
    if !rest.head?.any isOperator then none
    else
      match applyChanges start classes (rest.length + 1) n rest with
      | some (n, []) => some n
      | some (n, [',']) => some n
      | some (n, ',' :: more) => applyClauses start fuel n more
      | _ => none

/-- The permissions after the changes that a text asks for. -/
def changed? (n : Permissions) (t : Text) : Option Permissions :=
  if t.isEmpty then some n else n.applyClauses (t.length + 1) n t

end Permissions

namespace Limits

def isOctal (c : Char) : Bool := '0' ≤ c && c ≤ '7'

/-- Show or set the mask of the permissions that files do not get. -/
def mask (args : List Text) : Run Nat := do
  let (options, operands) ← Run.readOptions "S" "" args
  let n := (← get).mask
  match operands with
  | [] =>
    let digits := Nat.toDigits 8 n
    Run.emit (
      if options.isEmpty then List.replicate (4 - digits.length) '0' ++ digits ++ ['\n']
      else (Permissions.unmasked n).symbolic ++ ['\n'])
  | t :: _ =>
    let set (n : Nat) : Run Nat := do
      modify fun s => { s with mask := n }
      return 0
    if t.head?.any Char.isDigit then
      if t.all isOctal then set ((Arithmetic.digits 8 t).1 % 512)
      else Run.fail ("Illegal number: ".toList ++ t)
    else
      match (Permissions.unmasked n).changed? t with
      | some left => set (Permissions.unmasked left)
      | none => Run.fail ("Illegal mode: ".toList ++ t)

/-- What is limited, with its letter and the size of a unit. -/
def resources : List (Char × String × Nat) :=
  [('t', "time(seconds)", 1), ('f', "file(blocks)", 512), ('d', "data(kbytes)", 1024),
    ('s', "stack(kbytes)", 1024), ('c', "coredump(blocks)", 512), ('m', "memory(kbytes)", 1024),
    ('l', "locked memory(kbytes)", 1024), ('p', "process", 1), ('n', "nofiles", 1),
    ('v', "vmemory(kbytes)", 1024), ('w', "locks", 1), ('r', "rtprio", 1)]

def limitText (n : Option Nat) : Text := n.elim "unlimited".toList ofNat

/-- The soft and the hard limit on what a letter stands for; there is none at the start. -/
def limitOf (letter : Char) : Run (Option Nat × Option Nat) := do
  return ((← get).limits.lookup letter).getD (none, none)

def exceeds (soft hard : Option Nat) : Bool :=
  match soft, hard with
  | _, none => false
  | none, some _ => true
  | some a, some b => b < a

def setLimit (letter : Char) (soft hard : Option Nat) : Run Nat := do
  if exceeds soft hard then Run.fail "error setting limit (Invalid argument)".toList
  else
    modify fun s =>
      { s with limits := (letter, soft, hard) :: s.limits.filter (·.1 != letter) }
    return 0

/-- Show or set limits. Without an option both the soft and the hard one are set, and the soft one
is shown. -/
def limit (args : List Text) : Run Nat := do
  let (options, operands) ← Run.readOptions "HSatfdscmlpnvwr" "" args
  let letters := options.map (·.1)
  let how := (letters.filter fun c => c = 'H' || c = 'S').getLast?
  let letter := ((letters.filter fun c => !("HSa".toList.contains c)).getLast?).getD 'f'
  let showsAll := letters.contains 'a'
  let chosen (limits : Option Nat × Option Nat) : Text :=
    limitText (if how = some 'H' then limits.2 else limits.1) ++ ['\n']
  match operands with
  | [] =>
    if showsAll then
      let lines ← resources.mapM fun (c, name, _) => do
        return name.toList ++ List.replicate (20 - name.length) ' ' ++ ' ' :: chosen (← limitOf c)
      Run.emit lines.flatten
    else Run.emit (chosen (← limitOf letter))
  | t :: more =>
    if showsAll || !more.isEmpty then Run.fail "too many arguments".toList
    else if !t.all Char.isDigit && t != "unlimited".toList then Run.fail "bad number".toList
    else
      let n := if t = "unlimited".toList then none else some (Arithmetic.digits 10 t).1
      let (soft, hard) ← limitOf letter
      setLimit letter (if how = some 'H' then soft else n) (if how = some 'S' then hard else n)

end Limits

end NativeGlue.Shell
