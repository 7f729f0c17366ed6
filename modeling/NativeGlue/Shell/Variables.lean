import NativeGlue.Shell.Expansion
import NativeGlue.Shell.Output

/-!
The builtins that change variables, arguments and options.
-/

namespace NativeGlue.Shell

open Text

namespace Run

/-- Read the options before the operands. The options in `valued` take a value, which is the rest
of their argument or the next one. `letters` are those left of the present argument. -/
def readOptionsFrom (plain valued : Text) :
    Nat → Text → List Text → Run (List (Char × Text) × List Text)
  | 0, _, args => return ([], args)
  | fuel + 1, [], args =>
    match args with
    | ('-' :: c :: letters) :: rest =>
      if c = '-' && letters.isEmpty then return ([], rest)
      else readOptionsFrom plain valued fuel (c :: letters) rest
    | _ => return ([], args)
  | fuel + 1, c :: letters, args => do
    if plain.contains c then
      let (more, rest) ← readOptionsFrom plain valued fuel letters args
      return ((c, []) :: more, rest)
    else if valued.contains c then
      match if letters.isEmpty then args else letters :: args with
      | [] => fail ("No arg for -".toList ++ c :: " option".toList)
      | value :: args =>
        let (more, rest) ← readOptionsFrom plain valued fuel [] args
        return ((c, value) :: more, rest)
    else fail ("Illegal option -".toList ++ [c])

def readOptions (plain valued : String) (args : List Text) :
    Run (List (Char × Text) × List Text) :=
  readOptionsFrom plain.toList valued.toList (args.flatten.length + args.length + 1) [] args

/-- A number that an argument gives, which must not be negative. -/
def argumentNumber (t : Text) : Run Nat := do
  match (Arithmetic.integer? (some 10) t).filter fun n => 0 ≤ n && n ≤ 2147483647 with
  | some n => return n.toNat
  | none => fail ("Illegal number: ".toList ++ t)

end Run

namespace Variables

/-- A value in quotes, as it could be read back. -/
def quotedFrom : Nat → Text → Text
  | 0, _ => []
  | fuel + 1, t =>
    let plain := t.takeWhile (· != '\'')
    let rest := t.drop plain.length
    let quotes := rest.takeWhile (· == '\'')
    let after := rest.drop quotes.length
    '\'' :: plain ++ ['\''] ++ (if quotes.isEmpty then [] else '"' :: quotes ++ ['"']) ++
      (if after.isEmpty then [] else quotedFrom fuel after)

def quoted (t : Text) : Text := quotedFrom (t.length + 1) t

/-- List variables with their values in quotes. -/
def list (lead : Text) (isShown : Variable → Bool) : Run Nat := do
  let shown := (← get).bindings.filter fun e => isShown e.2
  let names := Text.sort (shown.map (·.1))
  let line (name : Text) : Text :=
    let value := (shown.lookup name).bind (·.value)
    lead ++ name ++ (value.elim [] fun v => '=' :: quoted v) ++ ['\n']
  Run.emit (names.flatMap line)

/-- The name and the value that an argument gives to a variable. -/
def split (t : Text) : Text × Option Text :=
  match cut? ['='] t with
  | some (name, value) => (name, some value)
  | none => (t, none)

def checkName (name : Text) : Run Unit :=
  if isAsciiName name then pure () else Run.fail (name ++ ": bad variable name".toList)

/-- Flag variables, and give values to those for which there is one. -/
def flagAll (change : Variable → Variable) (args : List Text) : Run Unit :=
  args.forM fun t => do
    let (name, value) := split t
    checkName name
    match value with
    | some v => Run.assign name v
    | none => pure ()
    Run.flag name change

def exportBuiltin (args : List Text) : Run Nat := do
  let (options, names) ← Run.readOptions "p" "" args
  if options.isEmpty && !names.isEmpty then
    flagAll (fun v => { v with isExported := true }) names
    return 0
  else list "export ".toList (·.isExported)

def readOnlyBuiltin (args : List Text) : Run Nat := do
  let (options, names) ← Run.readOptions "p" "" args
  if options.isEmpty && !names.isEmpty then
    flagAll (fun v => { v with isReadOnly := true }) names
    return 0
  else list "readonly ".toList (·.isReadOnly)

def unset (args : List Text) : Run Nat := do
  let (options, names) ← Run.readOptions "vf" "" args
  names.forM fun name => do
    if options.getLast?.any (·.1 == 'f') then
      modify fun s => { s with functions := s.functions.filter fun e => e.1 != name }
    else
      checkName name
      Run.unassign name
  return 0

/-- Remember a variable, so that it can be restored. -/
def remember (name : Text) : Run Unit := do
  let old ← Run.binding? name
  modify fun s =>
    match s.locals with
    | [] => s
    | frame :: frames => { s with locals := ((name, old) :: frame) :: frames }

/-- Run an action after which the variables that it made local are restored. -/
def withLocals {α : Type} (action : Run α) : Run α := do
  modify fun s => { s with locals := [] :: s.locals }
  let restore : Run Unit := do
    let frame := (← get).locals.head?.getD []
    modify fun s => { s with locals := s.locals.tail }
    frame.forM fun (name, old) => Run.putVariable name old
  try
    let result ← action
    restore
    return result
  catch interrupt =>
    restore
    throw interrupt

def makeLocal (change : Variable → Variable) (t : Text) : Run Unit := do
  let (name, value) := split t
  if name != ['-'] then
    checkName name
    remember name
    match value with
    | some v => Run.assign name v
    | none => pure ()
    Run.flag name change

def localBuiltin (args : List Text) : Run Nat := do
  if (← get).locals.isEmpty then Run.fail "not in a function".toList
  else
    args.forM (makeLocal id)
    return 0

/-- Options by name. The last two have no letters; capitals that are no letters of others stand for
them. -/
def optionNames : List (String × Char) :=
  [("errexit", 'e'), ("noglob", 'f'), ("ignoreeof", 'I'), ("interactive", 'i'), ("monitor", 'm'),
    ("noexec", 'n'), ("stdin", 's'), ("xtrace", 'x'), ("verbose", 'v'), ("vi", 'V'), ("emacs", 'E'),
    ("noclobber", 'C'), ("allexport", 'a'), ("notify", 'b'), ("nounset", 'u'),
    ("privileged", 'p'), ("nolog", 'L'), ("debug", 'D')]

def letterless : List Char := ['L', 'D']

def setOption (isOn : Bool) (letter : Char) : Run Unit := do
  if optionNames.any (·.2 == letter) then
    modify fun s =>
      let others := s.options.filter (· != letter)
      { s with options := if isOn then letter :: others else others }
  else Run.fail ("Illegal option -".toList ++ [letter])

def setNamedOption (isOn : Bool) (name : Text) : Run Unit := do
  match optionNames.find? fun e => e.1.toList == name with
  | some (_, letter) => setOption isOn letter
  | none => Run.fail ("Illegal option -o ".toList ++ name)

def showOptions (isOn : Bool) : Run Unit := do
  let s ← get
  let line (e : String × Char) : Text :=
    let isSet := s.options.contains e.2
    if isOn then
      e.1.toList ++ List.replicate (16 - e.1.length) ' ' ++
        (if isSet then "on\n".toList else "off\n".toList)
    else "set ".toList ++ (if isSet then "-o ".toList else "+o ".toList) ++ e.1.toList ++ ['\n']
  let title : Text := if isOn then "Current option settings\n".toList else []
  let _ ← Run.emit (title ++ optionNames.flatMap line)

/-- Set the options that letters name. The name of an option may be the next argument. -/
def setLetters (isOn : Bool) : Text → List Text → Run (List Text)
  | [], args => return args
  | 'o' :: letters, args => do
    match args with
    | [] =>
      showOptions isOn
      setLetters isOn letters []
    | name :: args =>
      setNamedOption isOn name
      setLetters isOn letters args
  | c :: letters, args => do
    if letterless.contains c then Run.fail ("Illegal option -".toList ++ [c])
    setOption isOn c
    setLetters isOn letters args

/-- Set options, and give what is left, or none if the arguments stay. -/
def setFrom : Nat → List Text → Run (Option (List Text))
  | 0, _ => return none
  | _, [] => return none
  | fuel + 1, t :: rest => do
    match t with
    | ['-'] =>
      setOption false 'x'
      setOption false 'v'
      return if rest.isEmpty then none else some rest
    | ['-', '-'] => return some rest
    | '-' :: letters => setFrom fuel (← setLetters true letters rest)
    | '+' :: letters => setFrom fuel (← setLetters false letters rest)
    | _ => return some (t :: rest)

def set (args : List Text) : Run Nat := do
  if args.isEmpty then list [] (·.value.isSome)
  else
    match ← setFrom (args.length + 1) args with
    | some arguments => modify fun s => { s with arguments := arguments, letters := 0 }
    | none => pure ()
    return 0

def shift (args : List Text) : Run Nat := do
  let n ← args.head?.elim (pure 1) Run.argumentNumber
  let s ← get
  if s.arguments.length < n then Run.fail "can't shift that many".toList
  else
    MonadState.set { s with arguments := s.arguments.drop n, letters := 0 }
    return 0

/-- What the next option is: its letter and value. -/
structure Found where
  letter : Char
  value : Option Text
  /-- The argument that is read next, counted from one, and how many of its letters are read. -/
  index : Nat
  letters : Nat
  isEnd : Bool

/-- Whether an option is known, and whether it takes a value. -/
def optionKind? (c : Char) : Text → Option Bool
  | [] => none
  | d :: ':' :: rest => if d = c && c != ':' then some true else optionKind? c rest
  | d :: rest => if d = c && c != ':' then some false else optionKind? c rest

/-- The value of an option without one. A colon at the start of the specification asks for
silence. -/
def complain (specification : Text) (c : Char) (problem : Text) (quiet : Char) :
    Run (Char × Option Text) := do
  if specification.head? = some ':' then return (quiet, some [c])
  else
    Run.say problem
    return ('?', none)

/-- Read an option from the letters of an argument. -/
def takeOption (specification : Text) (args : List Text) (index offset : Nat) (t : Text) :
    Run Found := do
  match t.drop offset with
  | [] => return ⟨'?', none, index, 0, true⟩
  | c :: rest =>
    let stay := if rest.isEmpty then 0 else offset + 1
    match optionKind? c specification with
    | none =>
      let (letter, value) ←
        complain specification c ("Illegal option -".toList ++ [c]) '?'
      return ⟨letter, value, index, stay, false⟩
    | some false => return ⟨c, some [], index, stay, false⟩
    | some true =>
      if !rest.isEmpty then return ⟨c, some rest, index, 0, false⟩
      else
        match args[index - 1]? with
        | some value => return ⟨c, some value, index + 1, 0, false⟩
        | none =>
          let (letter, value) ←
            complain specification c ("No arg for -".toList ++ c :: " option".toList) ':'
          return ⟨letter, value, index, 0, false⟩

/-- The next option of some arguments. `letters` of the argument before `index` are read. -/
def nextOption (specification : Text) (args : List Text) (index letters : Nat) : Run Found := do
  let present := args[index - 2]?.getD []
  if 1 < index && 0 < letters && letters < present.length then
    takeOption specification args index letters present
  else
    match args[index - 1]? with
    | some ['-', '-'] => return ⟨'?', none, index + 1, 0, true⟩
    | some ('-' :: c :: more) => takeOption specification args (index + 1) 1 ('-' :: c :: more)
    | _ => return ⟨'?', none, index, 0, true⟩

def getopts (args : List Text) : Run Nat := do
  match args with
  | specification :: name :: operands =>
    let s ← get
    let args := if operands.isEmpty then s.arguments else operands
    let index := ((Arithmetic.integer? (some 10)
      ((← Run.value? "OPTIND".toList).getD [])).getD 1).toNat
    let index := if index = 0 || args.length + 1 < index then 1 else index
    let found ← nextOption specification args index s.letters
    if !found.isEnd then
      match found.value with
      | some value => Run.assign "OPTARG".toList value
      | none => Run.unassign "OPTARG".toList
    Run.assign "OPTIND".toList (ofNat found.index)
    modify fun s => { s with letters := found.letters }
    checkName name
    Run.assign name [found.letter]
    return if found.isEnd then 1 else 0
  | _ => Run.fail "Usage: getopts optstring var [arg]".toList

/-- A line of input, its characters with whether a backslash protects them, whether it was ended,
and how many characters it has. -/
structure Line where
  marks : Pattern
  isEnded : Bool
  length : Nat

/-- Read a line. Unless it is raw, a backslash joins lines and protects characters. -/
def readLine (isRaw : Bool) : Text → Line
  | [] => ⟨[], false, 0⟩
  | '\n' :: _ => ⟨[], true, 1⟩
  | '\x00' :: rest =>
    let more := readLine isRaw rest
    { more with length := more.length + 1 }
  | [c] => ⟨if c = '\\' && !isRaw then [] else [⟨c, false⟩], false, 1⟩
  | c :: d :: rest =>
    if c = '\\' && !isRaw then
      let more := readLine isRaw rest
      let marks := if d = '\n' then more.marks else ⟨d, true⟩ :: more.marks
      { more with marks := marks, length := more.length + 2 }
    else
      let more := readLine isRaw (d :: rest)
      { more with marks := ⟨c, false⟩ :: more.marks, length := more.length + 1 }

section

variable (separators : Text)

def isSeparator (m : Mark) : Bool := !m.isQuoted && separators.contains m.char

def isBlank (m : Mark) : Bool := isSeparator separators m && Glyph.isBlankSeparator m.char

/-- The text up to a separator, and what follows that and the blank separators around it. -/
def cutField (ms : Pattern) : Pattern × Pattern :=
  let field := ms.takeWhile (!isSeparator separators ·)
  let rest := (ms.drop field.length).dropWhile (isBlank separators)
  match rest with
  | m :: after =>
    if isSeparator separators m then (field, after.dropWhile (isBlank separators))
    else (field, rest)
  | [] => (field, [])

/-- The last field takes all that is left, unless that is a single field. -/
def lastField (ms : Pattern) : Pattern :=
  let (field, rest) := cutField separators ms
  if rest.isEmpty then field
  else (ms.reverse.dropWhile (isBlank separators)).reverse

/-- One field for each of some names. -/
def fieldsFor : Nat → Pattern → List Pattern
  | 0, _ => []
  | 1, ms => [lastField separators ms]
  | count + 2, ms =>
    let (field, rest) := cutField separators ms
    field :: fieldsFor (count + 1) rest

end

def read (args : List Text) : Run Nat := do
  let (options, names) ← Run.readOptions "r" "p" args
  if names.isEmpty then Run.fail "arg count".toList
  else
    let t := (← Run.unread? 0).getD []
    let line := readLine (options.any (·.1 == 'r')) t
    if !line.isEnded then Run.reachEnd 0
    Run.advance 0 line.length
    let separators ← Run.separators
    let ms := line.marks.dropWhile (isBlank separators)
    let fields := fieldsFor separators names.length ms
    (names.zip fields).forM fun (name, field) => do
      checkName name
      Run.assign name (Pattern.text field)
    return if line.isEnded then 0 else 1

end Variables

end NativeGlue.Shell
