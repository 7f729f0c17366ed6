import NativeGlue.Files.Tree

/-!
The programs of a machine. What they do is not known here: a workspace carries them, and what is
said of every workspace is said of every choice of programs.
-/

namespace NativeGlue

open Text

/-- How a command ended, and the tree that it left. The code of one that a signal ended is the
negative of the signal. -/
structure Ended where
  code : Int
  output : Bytes
  errors : Bytes
  tree : Tree

/-- Why a program cannot be started in a directory, if it cannot, and what a command does from its
start there to its end. -/
class Programs where
  refusal? : Tree → Location → Text → Option FileFault
  execute : Tree → Location → List Text → Ended

/-- A machine on which nothing can be started. -/
@[reducible] def Programs.none : Programs where
  refusal? _ _ _ := some .missing
  execute tree _ _ := ⟨0, [], [], tree⟩

end NativeGlue
