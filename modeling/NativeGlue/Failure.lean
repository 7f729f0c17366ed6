import NativeGlue.Config.Fault
import NativeGlue.Files.Tree
import NativeGlue.Glue.Unit
import NativeGlue.Text.Quoted

/-!
What ends a command early. A reported failure is shown to the user with its message; a fatal one
is a condition for which the tool has no message of its own.
-/

namespace NativeGlue

open Text

/-- A refused file operation and the path that it names. -/
structure FileError where
  fault : FileFault
  path : Text
  deriving DecidableEq, Repr

def FileError.message (e : FileError) : Text :=
  "[Errno ".toList ++ ofNat e.fault.number ++ "] ".toList ++ e.fault.description ++
    ": ".toList ++ quoted e.path

inductive Reported where
  | config (fault : Config.Fault)
  | source (path : Option Text) (problem : Source.Problem)
  | link (path : Option Text) (fault : LinkFault)
  | unreadable (path : Text) (error : FileError)
  | unreadableJson (path : Text) (error : FileError)
  | badJson (path : Text) (message : Text)
  | jsonNotAnObject (path : Text)
  | noRepository (path : Text)
  | noSourceDirectory (path : Text)
  | noHeader (header source : Text)
  | noHeaderCommand (target : Text)
  | cannotRun (command : Text) (error : FileError)
  | commandFailed (command : Text) (exitCode : Int) (details : Text)
  deriving DecidableEq, Repr

namespace Reported

def about (what path : Text) : Text := what ++ " '".toList ++ path ++ ['\'']

def message : Reported → Text
  | config fault => fault.message
  | source path problem => problem.message path
  | link path fault => fault.message path
  | unreadable path error => about "Unable to read file".toList path ++ ": ".toList ++ error.message
  | unreadableJson path error =>
    about "Unable to read JSON file".toList path ++ ": ".toList ++ error.message
  | badJson path message => about "Invalid JSON in".toList path ++ ": ".toList ++ message
  | jsonNotAnObject path => about "JSON root in".toList path ++ " must be an object".toList
  | noRepository path => about "Repository root".toList path ++ " does not exist".toList
  | noSourceDirectory path =>
    about "Java source directory".toList path ++ " does not exist".toList
  | noHeader header origin =>
    about "JNI header".toList header ++ about " for".toList origin ++
      " does not exist; generate it first or pass --run-header-command".toList
  | noHeaderCommand target =>
    about "target".toList target ++ " has no 'header_command' configured".toList
  | cannotRun command error =>
    about "Unable to run".toList command ++ ": ".toList ++ error.message
  | commandFailed command exitCode details =>
    about "Command".toList command ++ " failed with exit code ".toList ++ ofInt exitCode ++
      ": ".toList ++ details

end Reported

inductive Fatal where
  | notText
  | file (fault : FileFault)
  | linkLoop
  | nulInPath
  | notEncodable
  | integerTooLong
  | tooDeep
  | outside
  | noFileName
  | noPath
  | noCommand
  | glue (fault : GlueFault)
  | alreadyLinked
  deriving DecidableEq, Repr

def Fatal.message : Fatal → Text
  | notText => "a file does not hold UTF-8 text".toList
  | file fault => fault.description
  | linkLoop => "a path leads around in links".toList
  | nulInPath => "a path holds a null character".toList
  | notEncodable => "a path holds half of a character".toList
  | integerTooLong => "an integer has too many digits".toList
  | tooDeep => "a document or a path is nested too deep".toList
  | outside => "a path does not lie below its directory".toList
  | noFileName => "a path has no file name".toList
  | noPath => "a switch is given without its path".toList
  | noCommand => "a header command is empty".toList
  | glue fault => fault.message
  | alreadyLinked => "a declaration is linked already".toList

inductive Failure where
  | reported (failure : Reported)
  | fatal (condition : Fatal)
  deriving DecidableEq, Repr

/-- What stops the making of a unit from a given source. -/
def Failure.ofUnit (path : Option Text) : GlueUnit.Fault → Failure
  | .source problem => .reported (.source path problem)
  | .link (.alreadyLinked _) => .fatal .alreadyLinked
  | .link fault => .reported (.link path fault)
  | .glue fault => .fatal (.glue fault)

end NativeGlue
