import NativeGlue.Text.Basic

/-!
What can be wrong with a configuration.
-/

namespace NativeGlue.Config

open Text

inductive Fault where
  | notAnObject
  | shape (place : Text) (message : Text)
  | noTargets
  | targetsNotAnObject
  | targetNotAnObject (name : Text)
  | unknownTarget (name : Text) (known : List Text)
  | missingText (label key : Text)
  | notAList (key : Text)
  | notTexts (key : Text)
  | badTemplate (label key : Text)
  | emptyCommand (label : Text)
  | noClassDirectory (label : Text)
  | unknownKind (kind : Text)
  deriving DecidableEq, Repr

def classNameSlot : Text := "\x7bclass_name\x7d".toList

def classDirSlot : Text := "\x7bclass_dir\x7d".toList

def inQuotes (t : Text) : Text := '\'' :: t ++ ['\'']

def knownText (names : List Text) : Text :=
  let t := join ", ".toList names
  if t.isEmpty then "<none>".toList else t

def Fault.message : Fault → Text
  | notAnObject => "config root must be an object".toList
  | shape place message =>
    "config failed JSON schema validation at ".toList ++ inQuotes place ++ ": ".toList ++ message
  | noTargets => "config must define non-empty 'targets' object".toList
  | targetsNotAnObject => "Config is missing required object: 'targets'.".toList
  | targetNotAnObject name => "target ".toList ++ inQuotes name ++ " must be an object".toList
  | unknownTarget name known =>
    "Unknown target ".toList ++ inQuotes name ++ ". Known targets: ".toList ++ knownText known
  | missingText label key => label ++ " is missing required string ".toList ++ inQuotes key
  | notAList key => inQuotes key ++ " must be an array of strings".toList
  | notTexts key => inQuotes key ++ " must contain only non-empty strings".toList
  | badTemplate label key =>
    label ++ '.' :: key ++ " must be a string containing ".toList ++ inQuotes classNameSlot
  | emptyCommand label => label ++ ".header_command must not be empty".toList
  | noClassDirectory label =>
    label ++ ".header_command uses ".toList ++ inQuotes classDirSlot ++
      " but 'class_dir' is not configured".toList
  | unknownKind kind => "Unknown schema kind: ".toList ++ kind

end NativeGlue.Config
