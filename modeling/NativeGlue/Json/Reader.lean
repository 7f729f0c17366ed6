import NativeGlue.Json.Value

/-!
Reading JSON. Reading stops at the first fault, which is reported with its line, its column and
its offset. Besides the standard's values, the names of the numbers that are not finite are
accepted, and of two members of one name the later counts. Containers may be nested only so deep.
-/

namespace NativeGlue.Json

open Text

inductive Cause where
  | byteOrderMark
  | noValue
  | noName
  | noColon
  | noComma
  | extraData
  | openString
  | controlCharacter
  | badEscape
  | badCodeEscape
  | integerTooLong
  | tooDeep
  deriving DecidableEq, Repr

def Cause.message : Cause → Text
  | byteOrderMark => "Unexpected UTF-8 BOM (decode using utf-8-sig)".toList
  | noValue => "Expecting value".toList
  | noName => "Expecting property name enclosed in double quotes".toList
  | noColon => "Expecting ':' delimiter".toList
  | noComma => "Expecting ',' delimiter".toList
  | extraData => "Extra data".toList
  | openString => "Unterminated string starting at".toList
  | controlCharacter => "Invalid control character at".toList
  | badEscape => "Invalid \\escape".toList
  | badCodeEscape => "Invalid \\uXXXX escape".toList
  | integerTooLong => "Exceeds the limit for integers".toList
  | tooDeep => "Exceeds the limit for nested containers".toList

/-- A fault and the text from its place on. -/
structure Stop where
  cause : Cause
  rest : Text
  deriving DecidableEq, Repr

abbrev Read (α : Type) := Except Stop (α × Text)

def isSpace (c : Char) : Bool := c == ' ' || c == '\t' || c == '\n' || c == '\r'

def skipSpace (t : Text) : Text := t.dropWhile isSpace

def hexDigit? (c : Char) : Option Nat :=
  if '0' ≤ c && c ≤ '9' then some (c.toNat - 48)
  else if 'a' ≤ c && c ≤ 'f' then some (c.toNat - 87)
  else if 'A' ≤ c && c ≤ 'F' then some (c.toNat - 55)
  else none

/-- Four hexadecimal digits with at least one character after them. -/
def unit? : Text → Option (Nat × Text)
  | a :: b :: c :: d :: e :: rest => do
    let a ← hexDigit? a
    let b ← hexDigit? b
    let c ← hexDigit? c
    let d ← hexDigit? d
    return (a * 4096 + b * 256 + c * 16 + d, e :: rest)
  | _ => none

/-- A pair of surrogates is one character. One that stands alone is half of a character. -/
def charOfUnit (n : Nat) : Char :=
  if 0xD800 ≤ n && n ≤ 0xDFFF then ofHalf n else Char.ofNat n

/-- The second half of a pair, if an escape of at least four more characters follows. -/
def lowSurrogate? (t : Text) : Except Stop (Option (Nat × Text)) :=
  match t with
  | '\\' :: 'u' :: rest =>
    if rest.length < 5 then .ok none
    else
      match unit? rest with
      | none => .error ⟨.badCodeEscape, 'u' :: rest⟩
      | some (n, after) =>
        .ok (if 0xDC00 ≤ n && n ≤ 0xDFFF then some (n, after) else none)
  | _ => .ok none

/-- The character of a code escape, read from its letter on. -/
def codeEscape? (t : Text) : Read Char :=
  match unit? t.tail with
  | none => .error ⟨.badCodeEscape, t⟩
  | some (high, after) =>
    if 0xD800 ≤ high && high ≤ 0xDBFF then
      match lowSurrogate? after with
      | .error stop => .error stop
      | .ok (some (low, rest)) =>
        .ok (Char.ofNat (0x10000 + (high - 0xD800) * 0x400 + (low - 0xDC00)), rest)
      | .ok none => .ok (charOfUnit high, after)
    else .ok (charOfUnit high, after)

def simpleEscape? (c : Char) : Option Char :=
  match c with
  | '"' => some '"'
  | '\\' => some '\\'
  | '/' => some '/'
  | 'b' => some '\x08'
  | 'f' => some '\x0c'
  | 'n' => some '\n'
  | 'r' => some '\r'
  | 't' => some '\t'
  | _ => none

/-- The rest of a string, read after its opening quote. `opening` is the text from that quote
on, and `fuel` bounds the number of characters. -/
def stringFrom (opening : Text) : Nat → Text → Text → Read Text
  | 0, _, _ => .error ⟨.openString, opening⟩
  | fuel + 1, read, t =>
    match t with
    | [] => .error ⟨.openString, opening⟩
    | '"' :: rest => .ok (read.reverse, rest)
    | ['\\'] => .error ⟨.openString, opening⟩
    | '\\' :: 'u' :: rest =>
      match codeEscape? ('u' :: rest) with
      | .error stop => .error stop
      | .ok (c, after) => stringFrom opening fuel (c :: read) after
    | '\\' :: c :: rest =>
      match simpleEscape? c with
      | some escaped => stringFrom opening fuel (escaped :: read) rest
      | none => .error ⟨.badEscape, t⟩
    | c :: rest =>
      if c.toNat < 32 then .error ⟨.controlCharacter, t⟩
      else stringFrom opening fuel (c :: read) rest

/-- A string, read after the opening quote. -/
def string (t : Text) : Read Text := stringFrom ('"' :: t) (t.length + 1) [] t

def isDigit (c : Char) : Bool := '0' ≤ c && c ≤ '9'

def numberOf (digits : Text) : Nat := digits.foldl (fun n c => 10 * n + (c.toNat - 48)) 0

/-- The digits before the point: a zero alone, or digits that do not start with one. -/
def wholeDigits? : Text → Option (Text × Text)
  | '0' :: rest => some (['0'], rest)
  | c :: rest =>
    if isDigit c then some (c :: rest.takeWhile isDigit, rest.dropWhile isDigit) else none
  | [] => none

/-- The digits after a point, none where no digit follows it. -/
def fraction (t : Text) : Text × Text :=
  match t with
  | '.' :: rest =>
    let digits := rest.takeWhile isDigit
    if digits.isEmpty then ([], t) else (digits, rest.dropWhile isDigit)
  | _ => ([], t)

def signedDigits? (t : Text) : Option (Int × Text) :=
  let (negative, rest) :=
    match t with
    | '-' :: rest => (true, rest)
    | '+' :: rest => (false, rest)
    | _ => (false, t)
  let digits := rest.takeWhile isDigit
  if digits.isEmpty then none
  else
    let n : Int := numberOf digits
    some (if negative then -n else n, rest.dropWhile isDigit)

/-- The power of ten after an exponent letter. -/
def exponent? (t : Text) : Option (Int × Text) :=
  match t with
  | 'e' :: rest => signedDigits? rest
  | 'E' :: rest => signedDigits? rest
  | _ => none

def longestInteger : Nat := 4300

/-- A number without its sign; `start` is the text from the sign on. -/
def number (start : Text) (negative : Bool) (t : Text) : Read Value :=
  match wholeDigits? t with
  | none => .error ⟨.noValue, start⟩
  | some (whole, afterWhole) =>
    let (places, afterPlaces) := fraction afterWhole
    match exponent? afterPlaces, places with
    | none, [] =>
      if longestInteger < whole.length then .error ⟨.integerTooLong, start⟩
      else
        let n : Int := numberOf whole
        .ok (.int (if negative then -n else n), afterWhole)
    | none, _ =>
      .ok (.real (Binary64.ofDecimal negative (numberOf (whole ++ places)) (-places.length)),
        afterPlaces)
    | some (power, rest), _ =>
      .ok (.real (Binary64.ofDecimal negative (numberOf (whole ++ places))
        (power - places.length)), rest)

def literals : List (Text × Value) :=
  [("null".toList, .null), ("true".toList, .bool true), ("false".toList, .bool false),
    ("NaN".toList, .real .nan), ("Infinity".toList, .real (.infinite false)),
    ("-Infinity".toList, .real (.infinite true))]

/-- A literal name or a number. -/
def scalar (t : Text) : Read Value :=
  match literals.findSome? fun l => (dropStart? l.1 t).map fun rest => (l.2, rest) with
  | some found => .ok found
  | none =>
    match t with
    | '-' :: rest => number t true rest
    | _ => number t false t

/-- A member's name and its colon, with the space around the colon. -/
def memberName (t : Text) : Read Text :=
  match t with
  | '"' :: rest =>
    match string rest with
    | .error stop => .error stop
    | .ok (name, after) =>
      match skipSpace after with
      | ':' :: value => .ok (name, skipSpace value)
      | other => .error ⟨.noColon, other⟩
  | other => .error ⟨.noName, other⟩

/-- A string, a literal name or a number. -/
def leaf (t : Text) : Read Value :=
  match t with
  | '"' :: rest => (string rest).map fun (s, after) => (.str s, after)
  | _ => scalar t

/-- The elements of an array from one of them on, which `value` reads; `read` are those before it,
and the number bounds how many follow. -/
def itemsFrom (value : Text → Read Value) : Nat → List Value → Text → Read Value
  | 0, _, t => .error ⟨.noValue, t⟩
  | count + 1, read, t =>
    match value t with
    | .error stop => .error stop
    | .ok (v, after) =>
      match skipSpace after with
      | ']' :: rest => .ok (.arr (read ++ [v]), rest)
      | ',' :: rest => itemsFrom value count (read ++ [v]) (skipSpace rest)
      | other => .error ⟨.noComma, other⟩

/-- The members of an object from one of them on; `read` are those before it. -/
def membersFrom (value : Text → Read Value) : Nat → List (Text × Value) → Text → Read Value
  | 0, _, t => .error ⟨.noValue, t⟩
  | count + 1, read, t =>
    match memberName t with
    | .error stop => .error stop
    | .ok (name, start) =>
      match value start with
      | .error stop => .error stop
      | .ok (v, after) =>
        match skipSpace after with
        | '}' :: rest => .ok (.obj (Value.insert name v read), rest)
        | ',' :: rest => membersFrom value count (Value.insert name v read) (skipSpace rest)
        | other => .error ⟨.noComma, other⟩

/-- A value at the start of a text, with at most `depth` containers inside each other and `count`
entries in each. -/
def valueFrom (count : Nat) : Nat → Text → Read Value
  | 0, t =>
    match t with
    | '[' :: _ => .error ⟨.tooDeep, t⟩
    | '{' :: _ => .error ⟨.tooDeep, t⟩
    | _ => leaf t
  | depth + 1, t =>
    match t with
    | '[' :: rest =>
      match skipSpace rest with
      | ']' :: after => .ok (.arr [], after)
      | items => itemsFrom (valueFrom count depth) count [] items
    | '{' :: rest =>
      match skipSpace rest with
      | '}' :: after => .ok (.obj [], after)
      | members => membersFrom (valueFrom count depth) count [] members
    | _ => leaf t

def deepest : Nat := 990

/-- A text that holds one value and space around it. -/
def parse (t : Text) : Except Stop Value :=
  match t with
  | '\ufeff' :: _ => .error ⟨.byteOrderMark, t⟩
  | _ =>
    match valueFrom (t.length + 1) deepest (skipSpace t) with
    | .error stop => .error stop
    | .ok (v, after) =>
      match skipSpace after with
      | [] => .ok v
      | other => .error ⟨.extraData, other⟩

/-- A fault with the line, the column and the offset of its place in the whole text. -/
def Stop.message (whole : Text) (stop : Stop) : Text :=
  let offset := whole.length - stop.rest.length
  let before := whole.take offset
  let column := (before.reverse.takeWhile (· != '\n')).length + 1
  stop.cause.message ++ ": line ".toList ++ ofNat (feeds before + 1) ++ " column ".toList ++
    ofNat column ++ " (char ".toList ++ ofNat offset ++ [')']

end NativeGlue.Json
