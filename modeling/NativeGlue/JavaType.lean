import NativeGlue.Text.Blank

/-!
Types of native method parameters. A type is kept in its normal spelling together with its
category, which decides what native code sees: the value itself, an object handle, or a pointer
that has to be obtained from the handle first.
-/

namespace NativeGlue

open Text

inductive Primitive where
  | boolean | byte | char | short | int | long | float | double
  deriving DecidableEq, Repr

namespace Primitive

def all : List Primitive := [boolean, byte, char, short, int, long, float, double]

def keyword : Primitive → Text
  | boolean => "boolean".toList
  | byte => "byte".toList
  | char => "char".toList
  | short => "short".toList
  | int => "int".toList
  | long => "long".toList
  | float => "float".toList
  | double => "double".toList

/-- The native type of a pointer to the elements of an array. -/
def arrayPointer : Primitive → Text
  | boolean => "bool*".toList
  | byte => "char*".toList
  | char => "unsigned short*".toList
  | short => "short*".toList
  | int => "int*".toList
  | long => "long long*".toList
  | float => "float*".toList
  | double => "double*".toList

def ofKeyword? (t : Text) : Option Primitive := all.find? fun p => p.keyword == t

end Primitive

/-- Views of memory, of unspecified elements or of one numeric kind. -/
inductive BufferKind where
  | untyped | byte | char | short | int | long | float | double
  deriving DecidableEq, Repr

namespace BufferKind

def all : List BufferKind := [untyped, byte, char, short, int, long, float, double]

def simpleName : BufferKind → Text
  | untyped => "Buffer".toList
  | byte => "ByteBuffer".toList
  | char => "CharBuffer".toList
  | short => "ShortBuffer".toList
  | int => "IntBuffer".toList
  | long => "LongBuffer".toList
  | float => "FloatBuffer".toList
  | double => "DoubleBuffer".toList

/-- The native type of a pointer to the buffer's memory. -/
def pointer : BufferKind → Text
  | untyped => "unsigned char*".toList
  | byte => "char*".toList
  | char => "unsigned short*".toList
  | short => "short*".toList
  | int => "int*".toList
  | long => "long long*".toList
  | float => "float*".toList
  | double => "double*".toList

def ofSimpleName? (t : Text) : Option BufferKind := all.find? fun k => k.simpleName == t

end BufferKind

inductive Category where
  | plain (kind : Primitive)
  | object
  | string
  | array (element : Primitive)
  | buffer (kind : BufferKind)
  deriving DecidableEq, Repr

namespace Category

def label : Category → Text
  | plain _ => "pod".toList
  | object => "object".toList
  | string => "string".toList
  | array _ => "array".toList
  | buffer _ => "buffer".toList

/-- The type of the native pointer, for the categories that have one. -/
def pointer? : Category → Option Text
  | plain _ | object => none
  | string => some "char*".toList
  | array element => some element.arrayPointer
  | buffer kind => some kind.pointer

end Category

structure JavaType where
  spelling : Text
  category : Category
  deriving DecidableEq, Repr

namespace JavaType

def isPlain (t : JavaType) : Bool := t.category matches .plain _
def isObject (t : JavaType) : Bool := t.category matches .object
def isString (t : JavaType) : Bool := t.category matches .string
def isArray (t : JavaType) : Bool := t.category matches .array _
def isBuffer (t : JavaType) : Bool := t.category matches .buffer _

/-- The value reaches native code through a pointer that is set up before the body runs. -/
def isAcquired (t : JavaType) : Bool := !(t.isPlain || t.isObject)

/-- The pointer has to be given back. The address of a buffer is computed and never is. -/
def isReleased (t : JavaType) : Bool := t.isString || t.isArray

/-- Array brackets of a squeezed text without the spaces before and between them. -/
def closeBrackets : Text → Text
  | [] => []
  | ' ' :: '[' :: ' ' :: ']' :: rest => '[' :: ']' :: closeBrackets rest
  | ' ' :: '[' :: ']' :: rest => '[' :: ']' :: closeBrackets rest
  | '[' :: ' ' :: ']' :: rest => '[' :: ']' :: closeBrackets rest
  | c :: rest => c :: closeBrackets rest

/-- A variable number of values is an array of them. -/
def dotsAsArray (t : Text) : Text :=
  if endsWith "...".toList t then trimEnd (t.take (t.length - 3)) ++ "[]".toList else t

def normalize (declared : Text) : Text := dotsAsArray (closeBrackets (squeeze declared))

/-- The name within a package: what follows the package's name, or a name with no dots. -/
def simpleName? (package qualified : Text) : Option Text :=
  match dropStart? (package ++ ['.']) qualified with
  | some name => some name
  | none => if qualified.contains '.' then none else some qualified

def isStringName (spelling : Text) : Bool :=
  spelling == "String".toList || spelling == "java.lang.String".toList

def elementSpelling? (spelling : Text) : Option Text :=
  if endsWith "[]".toList spelling then some (spelling.take (spelling.length - 2)) else none

/-- The category of a type in its normal spelling. -/
def categoryOf (spelling : Text) : Category :=
  match Primitive.ofKeyword? spelling with
  | some kind => .plain kind
  | none =>
    if isStringName spelling then .string
    else
      match elementSpelling? spelling with
      | some element => ((Primitive.ofKeyword? element).map Category.array).getD .object
      | none =>
        let kind := (simpleName? "java.nio".toList spelling).bind BufferKind.ofSimpleName?
        (kind.map Category.buffer).getD .object

def read (declared : Text) : JavaType :=
  let spelling := normalize declared
  ⟨spelling, categoryOf spelling⟩

end JavaType

end NativeGlue
