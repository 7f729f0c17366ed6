import NativeGlue.Proofs.Source.Reading

/-!
Outlines of source files: classes nested to any depth, whose members are raw blocks, native
methods with or without code, ordinary methods and further classes. An outline is printed as a
source file, one item to a line, and says of itself what that file holds.
-/

namespace NativeGlue.Outline

open Text

/-- The keywords of the source language, and the word that heads a record. -/
def reservedWords : List Text :=
  ["abstract".toList, "assert".toList, "boolean".toList, "break".toList, "byte".toList,
    "case".toList, "catch".toList, "char".toList, "class".toList, "const".toList,
    "continue".toList, "default".toList, "do".toList, "double".toList, "else".toList,
    "enum".toList, "extends".toList, "final".toList, "finally".toList, "float".toList,
    "for".toList, "goto".toList, "if".toList, "implements".toList, "import".toList,
    "instanceof".toList, "int".toList, "interface".toList, "long".toList, "native".toList,
    "new".toList, "package".toList, "private".toList, "protected".toList, "public".toList,
    "return".toList, "short".toList, "static".toList, "strictfp".toList, "super".toList,
    "switch".toList, "synchronized".toList, "this".toList, "throw".toList, "throws".toList,
    "transient".toList, "try".toList, "void".toList, "volatile".toList, "while".toList,
    "record".toList]

def isAsciiNamePart (c : Char) : Bool := isAsciiWord c || c == '$'

/-- An ASCII identifier that is not reserved. -/
structure Name where
  text : Text
  starts : text.head?.any isNameStart = true
  parts : ∀ c ∈ text, isAsciiNamePart c = true
  free : text ∉ reservedWords
  deriving DecidableEq, Repr

def modifierWords : List Text :=
  ["public".toList, "protected".toList, "private".toList, "abstract".toList, "static".toList,
    "final".toList, "native".toList, "synchronized".toList, "strictfp".toList,
    "default".toList, "transient".toList, "volatile".toList, "sealed".toList,
    "non-sealed".toList]

structure Modifier where
  text : Text
  known : text ∈ modifierWords
  deriving DecidableEq, Repr

inductive BaseType where
  | primitive (kind : Primitive)
  | named (package : List Name) (name : Name)
  deriving DecidableEq, Repr

def BaseType.text : BaseType → Text
  | primitive kind => kind.keyword
  | named package name => join ['.'] ((package ++ [name]).map Name.text)

/-- A type with any number of array brackets behind it. -/
structure TypeName where
  base : BaseType
  dimensions : Nat
  deriving DecidableEq, Repr

def TypeName.text (t : TypeName) : Text := t.base.text ++ Source.bracketText t.dimensions

/-- The type of a method's result; none is `void`. -/
abbrev ResultType := Option TypeName

def ResultType.text : ResultType → Text
  | none => "void".toList
  | some type => type.text

structure Argument where
  type : TypeName
  name : Name
  deriving DecidableEq, Repr

namespace Argument

def text (a : Argument) : Text := a.type.text ++ ' ' :: a.name.text

def parameter (a : Argument) : Parameter :=
  ⟨a.name.text, ⟨a.type.text, JavaType.categoryOf a.type.text⟩⟩

end Argument

/-- The head of a method, up to the end of its parameter list. -/
structure Heading where
  modifiers : List Modifier
  result : ResultType
  name : Name
  arguments : List Argument
  deriving DecidableEq, Repr

namespace Heading

def modifierTexts (h : Heading) : List Text := h.modifiers.map Modifier.text

def isStatic (h : Heading) : Bool := h.modifierTexts.contains "static".toList

def words (h : Heading) : List Text := h.modifierTexts ++ [ResultType.text h.result, h.name.text]

def text (h : Heading) : Text :=
  join [' '] h.words ++ '(' :: (join ", ".toList (h.arguments.map Argument.text) ++ [')'])

end Heading

structure NativeHeading extends Heading where
  native : Source.nativeWord ∈ toHeading.modifierTexts
  deriving DecidableEq, Repr

/-- The inside of a comment, which does not end before its end. -/
structure Comment where
  body : Text
  inside : ¬ "*/".toList <:+: body
  deriving DecidableEq, Repr

structure CodeComment extends Comment where
  code : Source.isCode body = true
  deriving DecidableEq, Repr

def commentText (body : Text) : Text := "/*".toList ++ body ++ "*/".toList

def rawText (c : Comment) : Text := commentText (Source.Scan.rawTag ++ c.body)

structure Blanks where
  text : Text
  blank : ∀ c ∈ text, isBlank c = true
  deriving DecidableEq, Repr

def noBlanks : Blanks := ⟨[], List.forall_mem_nil _⟩

def oneBlank : Blanks := ⟨[' '], List.forall_mem_singleton.mpr rfl⟩

/-- The body of an ordinary method: words, semicolons and further bodies in braces. -/
inductive Body where
  | done
  | word (gap : Blanks) (name : Name) (rest : Body)
  | semicolon (gap : Blanks) (rest : Body)
  | braces (gap : Blanks) (inner : Body) (close : Blanks) (rest : Body)
  deriving DecidableEq, Repr

def Body.text : Body → Text
  | done => []
  | word gap name rest => gap.text ++ name.text ++ rest.text
  | semicolon gap rest => gap.text ++ ';' :: rest.text
  | braces gap inner close rest =>
    gap.text ++ '{' :: (inner.text ++ close.text ++ '}' :: rest.text)

inductive ClassKind where
  | plain | interface | enum | record
  deriving DecidableEq, Repr

def ClassKind.text : ClassKind → Text
  | plain => "class".toList
  | interface => "interface".toList
  | enum => "enum".toList
  | record => "record".toList

/-- The members of a class in their order. The members of a nested class are its `inner` ones. -/
inductive Members where
  | done
  | nested (kind : ClassKind) (name : Name) (inner rest : Members)
  | raw (block : Comment) (rest : Members)
  | native (heading : NativeHeading) (code : Option CodeComment) (rest : Members)
  | ordinary (heading : Heading) (body : Body) (rest : Members)
  deriving DecidableEq, Repr

def headText (kind : ClassKind) (name : Name) : Text := kind.text ++ ' ' :: name.text

def classText (kind : ClassKind) (name : Name) (inside : Text) : Text :=
  headText kind name ++ [' ', '{'] ++ inside ++ ['\n', '}']

/-- A native method, and after one space the comment with its code. -/
def nativeText (heading : NativeHeading) (code : Option CodeComment) : Text :=
  heading.text ++ ';' :: code.elim [] fun c => ' ' :: commentText c.body

def ordinaryText (heading : Heading) (body : Body) : Text :=
  heading.text ++ [' ', '{'] ++ body.text ++ [' ', '}']

/-- Each member begins a line. -/
def Members.text : Members → Text
  | done => []
  | nested kind name inner rest => '\n' :: classText kind name inner.text ++ rest.text
  | raw block rest => '\n' :: rawText block ++ rest.text
  | native heading code rest => '\n' :: nativeText heading code ++ rest.text
  | ordinary heading body rest => '\n' :: ordinaryText heading body ++ rest.text

/-- The name of the class at the end of a path of nested classes. -/
def binaryName (path : List Text) : Text := join ['$'] path

/-- A native method on the given line, with its code. -/
def NativeHeading.declaration (h : NativeHeading) (path : List Text) (line : Int) (code : Text) :
    Declaration where
  className := binaryName path
  methodName := h.name.text
  isStatic := h.isStatic
  parameters := h.arguments.map Argument.parameter
  code := code
  startLine := line
  endLine := line + feeds code
  signatureLine := line

/-- What a native method on the given line yields: a declaration if it has code, else a warning. -/
def nativeContents (h : NativeHeading) (path : List Text) (line : Int) :
    Option CodeComment → Source.Contents
  | some c => ⟨[.declared (h.declaration path line c.body)], []⟩
  | none => ⟨[], [⟨line, binaryName path, h.name.text⟩]⟩

/-- What the members of a class hold, if they begin on the line after the given one. -/
def Members.contents (path : List Text) (line : Int) : Members → Source.Contents
  | done => .none
  | nested kind name inner rest =>
    (inner.contents (path ++ [name.text]) (line + 1)).add
      (rest.contents path (line + 1 + feeds (classText kind name inner.text)))
  | raw block rest =>
    Source.Contents.add ⟨[.raw ⟨block.body, line + 1⟩], []⟩
      (rest.contents path (line + 1 + feeds (rawText block)))
  | native heading code rest =>
    (nativeContents heading path (line + 1) code).add
      (rest.contents path (line + 1 + feeds (nativeText heading code)))
  | ordinary heading body rest =>
    rest.contents path (line + 1 + feeds (ordinaryText heading body))

structure ClassTree where
  kind : ClassKind
  name : Name
  members : Members
  deriving DecidableEq, Repr

def ClassTree.text (c : ClassTree) : Text := classText c.kind c.name c.members.text

/-- The source file of a forest of classes. -/
def print (forest : List ClassTree) : Text := unlines (forest.map ClassTree.text)

/-- What classes hold that begin on the given line. -/
def contentsFrom (line : Int) : List ClassTree → Source.Contents
  | [] => .none
  | c :: rest =>
    (c.members.contents [c.name.text] line).add (contentsFrom (line + feeds c.text + 1) rest)

/-- What the source file of a forest holds. -/
def contents (forest : List ClassTree) : Source.Contents := contentsFrom 1 forest

end NativeGlue.Outline
