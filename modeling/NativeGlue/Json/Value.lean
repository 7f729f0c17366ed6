import NativeGlue.Binary64
import NativeGlue.Text.Quoted

/-!
JSON values. Objects keep the order of their members and hold each name once. Messages show a
value in a form of its own, with quoted texts and members in their order.
-/

namespace NativeGlue.Json

open Text

inductive Value where
  | null
  | bool (b : Bool)
  | int (n : Int)
  | real (x : Binary64)
  | str (t : Text)
  | arr (items : List Value)
  | obj (members : List (Text × Value))

namespace Value

/-- The value of a member that is present. -/
def member? (name : Text) : List (Text × Value) → Option Value := List.lookup name

/-- A member of a value that is an object. -/
def field? (name : Text) : Value → Option Value
  | obj members => member? name members
  | _ => none

/-- A later value of a member takes the place of an earlier one. -/
def insert (name : Text) (value : Value) : List (Text × Value) → List (Text × Value)
  | [] => [(name, value)]
  | (n, v) :: rest => if n = name then (n, value) :: rest else (n, v) :: insert name value rest

def names (members : List (Text × Value)) : List Text := members.map (·.1)

/-- Whether a value counts as a whole number. -/
def toInt? : Value → Option Int
  | int n => some n
  | real x => x.toInt?
  | _ => none

mutual

/-- The form in which messages show a value. -/
def shown : Value → Text
  | null => "None".toList
  | bool true => "True".toList
  | bool false => "False".toList
  | int n => ofInt n
  | real x => x.render "inf".toList "nan".toList
  | str t => quoted t
  | arr items => '[' :: join ", ".toList (shownItems items) ++ [']']
  | obj members => '{' :: join ", ".toList (shownMembers members) ++ ['}']

def shownItems : List Value → List Text
  | [] => []
  | v :: rest => shown v :: shownItems rest

def shownMembers : List (Text × Value) → List Text
  | [] => []
  | m :: rest => shownMember m :: shownMembers rest

def shownMember : Text × Value → Text
  | (name, v) => quoted name ++ ": ".toList ++ shown v

end

end Value

end NativeGlue.Json
