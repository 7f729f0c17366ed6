import NativeGlue.Shell.Arithmetic
import NativeGlue.Shell.Field
import NativeGlue.Shell.Glob

/-!
Expanding words: tildes, parameters, the output of commands and arithmetic are put in, values
are cut into fields, and fields that are patterns become paths.
-/

namespace NativeGlue.Shell

open Text

/-- The order in which the letters of the options that are set are shown. -/
def optionLetters : List Char := "pubaCEVvxsnmiIfe".toList

/-- How a word is expanded. -/
structure Manner where
  /-- Values are cut into fields. -/
  splits : Bool
  isQuoted : Bool
  /-- The word is that of an expansion, whose own characters may separate fields. -/
  isInner : Bool
  hasTilde : Bool
  /-- Tildes also count after colons. -/
  assigns : Bool

namespace Manner

def fields : Manner := ⟨true, false, false, true, false⟩

def single : Manner := ⟨false, false, false, true, false⟩

def assignment : Manner := ⟨false, false, false, true, true⟩

def document : Manner := ⟨false, true, false, false, false⟩

def expression : Manner := ⟨false, false, false, false, false⟩

end Manner

namespace Run

/-- What stands between arguments that are put into a word. Where they make fields it is a null
character. -/
def argumentSeparator (m : Manner) (isList : Bool) : Run Text := do
  let separators ← value? "IFS".toList
  if m.splits && (isList || !m.isQuoted) then
    return if isList && m.isQuoted || separators.isSome then ['\x00'] else [' ']
  else return (separators.getD [' ']).take 1

/-- The number that an argument is known by. -/
def argumentAt? (name : Text) : Run (Option Text) := do
  let s ← get
  let n := (Arithmetic.digits 10 name).1
  return if n = 0 then some s.name else s.arguments[n - 1]?

/-- The value of a parameter in a word. -/
def parameter? (m : Manner) (name : Text) : Run (Option Text) := do
  let s ← get
  match name with
  | ['?'] => return some (ofNat s.status)
  | ['#'] => return some (ofNat s.arguments.length)
  | ['$'] => return some (ofNat s.process)
  | ['!'] => return s.background.map ofNat
  | ['-'] => return some (optionLetters.filter s.options.contains)
  | ['@'] => return some (join (← argumentSeparator m true) s.arguments)
  | ['*'] => return some (join (← argumentSeparator m false) s.arguments)
  | _ => if name.head?.any Char.isDigit then argumentAt? name else value? name

/-- The home directory that a tilde with a name stands for. -/
def home? (name : Text) : Run (Option Text) := do
  if name.isEmpty then value? "HOME".toList
  else return if name == "root".toList then some "/root".toList else none

/-- The home directory in place of a tilde at the start of a word, and the rest of the word. -/
def tilde (m : Manner) (w : Word) : Run (List Glyph × Word) := do
  match w with
  | .char '~' false :: rest =>
    let isNamePart (p : Part) : Bool :=
      match p with
      | .char c false => c != '/' && !(m.assigns && c == ':')
      | _ => false
    let name := rest.takeWhile isNamePart
    let after := rest.dropWhile isNamePart
    let isEnded :=
      match after with
      | [] => true
      | .char _ isQuoted :: _ => !isQuoted
      | _ => false
    match Word.plain? name with
    | some name =>
      if !isEnded then return ([], w)
      else
        match ← home? name with
        | some home => return (Glyph.literal home true, after)
        | none => return ([], w)
    | none => return ([], w)
  | _ => return ([], w)

/-- The glyphs of a value. -/
def valueGlyphs (m : Manner) (isList : Bool) (value : Text) : List Glyph :=
  let region :=
    if !m.splits then [] else if !m.isQuoted then [.region false]
    else if isList then [.region true] else []
  region ++ value.map fun c =>
    if c = '\x00' then .gap else .char c m.isQuoted (m.splits && !m.isQuoted)

/-- Complain that a parameter is missing, with a message or in general. -/
def missing {α : Type} (name : Text) (orEmpty : Bool) (message : Option Text) : Run α :=
  let general := if orEmpty then "parameter not set or null" else "parameter not set"
  fail (name ++ ": ".toList ++ message.getD general.toList)

/-- A value that is not there where values are demanded. -/
def demand (name : Text) (value : Option Text) : Run (Option Text) := do
  if value.isNone && (← hasOption 'u') then missing name false none else return value

/-- Give a value to a parameter that has none. -/
def assignParameter (name value : Text) : Run Unit :=
  if isAsciiName name then assign name value
  else fail (name ++ ": bad variable name".toList)

section

variable (capture : Option Command → Run Text)

mutual

/-- The glyphs of a word; `depth` bounds how deep expansions are nested in it. -/
def glyphs : Nat → Manner → Word → Run (List Glyph)
  | 0, _, _ => fail "Out of space".toList
  | depth + 1, m, w => do
    let (home, rest) ← if m.hasTilde then tilde m w else pure ([], w)
    return home ++ (← glyphsFrom depth { m with hasTilde := false } false rest)

/-- The glyphs of parts, the first of which may stand between quotation marks. -/
def glyphsFrom : Nat → Manner → Bool → Word → Run (List Glyph)
  | 0, _, _, _ => fail "Out of space".toList
  | _, _, _, [] => return []
  | depth + 1, m, inQuotes, part :: rest => do
    match part, rest with
    | .mark, .parameter ['@'] .value :: .mark :: after =>
      if inQuotes then
        return .mark :: (← glyphsFrom depth m false rest)
      else
        let found ← parameterGlyphs depth { m with isQuoted := true } ['@'] .value
        return found ++ (← glyphsFrom depth m false after)
    | .mark, _ => return .mark :: (← glyphsFrom depth m (!inQuotes) rest)
    | .char c isQuoted, _ =>
      if m.splits && m.isInner && !m.isQuoted && !inQuotes && !isQuoted then
        let t := c :: Word.plainStart rest
        let found := t.map fun c => Glyph.char c false true
        return .region false :: found ++
          (← glyphsFrom depth m inQuotes (rest.drop (t.length - 1)))
      else if c = ':' && !isQuoted && m.assigns then
        return .char c false false :: (← glyphs depth { m with hasTilde := true } rest)
      else
        return .char c (isQuoted || inQuotes) false :: (← glyphsFrom depth m inQuotes rest)
    | .parameter name use, _ =>
      let found ← parameterGlyphs depth { m with isQuoted := m.isQuoted || inQuotes } name use
      return found ++ (← glyphsFrom depth m inQuotes rest)
    | .command body, _ =>
      let output ← capture body
      let found := valueGlyphs { m with isQuoted := m.isQuoted || inQuotes } false output
      return found ++ (← glyphsFrom depth m inQuotes rest)
    | .arithmetic expression, _ =>
      let t := Glyph.text (← glyphs depth .expression expression)
      let value := ofInt (← Arithmetic.evaluate t)
      let found := valueGlyphs { m with isQuoted := m.isQuoted || inQuotes } false value
      return found ++ (← glyphsFrom depth m inQuotes rest)

/-- The glyphs of a parameter. -/
def parameterGlyphs : Nat → Manner → Text → Use → Run (List Glyph)
  | 0, _, _, _ => fail "Out of space".toList
  | depth + 1, m, name, use => do
    let isList := name == ['@'] && !(← get).arguments.isEmpty
    let shown (value : Option Text) : List Glyph := (value.map (valueGlyphs m isList)).getD []
    let value ←
      match use with
      | .bad => fail "Bad substitution".toList
      | _ => parameter? m name
    let isThere (orEmpty : Bool) : Bool := value.any fun t => !(orEmpty && t.isEmpty)
    let inner : Manner := { m with isInner := true, hasTilde := true, assigns := false }
    match use with
    | .value => return shown (← demand name value)
    | .length =>
      let value ← demand name value
      return valueGlyphs m false (ofNat (value.getD []).length)
    | .orElse orEmpty w => if isThere orEmpty then return shown value else glyphs depth inner w
    | .instead orEmpty w => if isThere orEmpty then glyphs depth inner w else return []
    | .assign orEmpty w =>
      if isThere orEmpty then return shown value
      else
        assignParameter name (Glyph.text (← glyphs depth .single w))
        return shown (← parameter? m name)
    | .require orEmpty w =>
      if isThere orEmpty then return shown value
      else if w.isEmpty then missing name orEmpty none
      else missing name orEmpty (some (Glyph.text (← glyphs depth .single w)))
    | .trim atStart longest w =>
      match ← demand name value with
      | none => return []
      | some t =>
        let p := Glyph.pattern (← glyphs depth .single w)
        let cut := if atStart then Pattern.trimStart else Pattern.trimEnd
        return shown (some (cut longest p t))
    | .bad => return []

end

/-- How deep expansions may be nested in a word, and how many parts it may have. -/
def deepestWord : Nat := 1000000

/-- The fields of a word. -/
def expandFields (w : Word) : Run (List Text) := do
  let gs ← glyphs capture deepestWord .fields w
  return (← (Glyph.fields (← separators) gs).mapM paths).flatten

def expandAll (ws : List Word) : Run (List Text) := do
  return (← ws.mapM (expandFields capture)).flatten

/-- The text of a word that is not cut. -/
def expandText (m : Manner) (w : Word) : Run Text := do
  return Glyph.text (← glyphs capture deepestWord m w)

/-- A word as a pattern. -/
def expandPattern (w : Word) : Run Pattern := do
  return Glyph.pattern (← glyphs capture deepestWord .single w)

end

end Run

end NativeGlue.Shell
