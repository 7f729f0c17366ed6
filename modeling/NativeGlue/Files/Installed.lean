import NativeGlue.Shell.Process

/-!
A machine before any work is done on it: the directories at the top of its tree, the null device,
and programs with what they do.
-/

namespace NativeGlue

namespace Tree

def topDirectories : List String :=
  ["boot", "dev", "etc", "home", "media", "mnt", "opt", "proc", "root", "run", "srv", "sys", "tmp",
    "usr", "var"]

def sharedDirectories : List String :=
  ["bin", "games", "include", "lib", "lib64", "libexec", "local", "sbin", "share", "src"]

def localDirectories : List String :=
  ["bin", "etc", "games", "include", "lib", "sbin", "share", "src"]

/-- Directories that are links into the one that holds what is shared. -/
def linkedDirectories : List String := ["bin", "lib", "lib64", "sbin"]

def installedPrograms : List String :=
  ["cat", "cp", "dash", "echo", "false", "mkdir", "rm", "sleep", "touch", "true"]

def installed : Tree :=
  let directories :=
    topDirectories.map (fun name => [name]) ++ sharedDirectories.map (fun name => ["usr", name]) ++
      localDirectories.map fun name => ["usr", "local", name]
  let entries :=
    directories.map (fun names => (names, empty)) ++
      linkedDirectories.map (fun name => ([name], link ("usr/" ++ name).toList)) ++
      installedPrograms.map (fun name => (["usr", "bin", name], program name.toList)) ++
      [(["usr", "bin", "sh"], link "dash".toList), (["dev", "null"], null)]
  entries.foldl (fun tree (names, entry) => tree.put (names.map String.toList) entry) empty

end Tree

/-- The programs of the tree, run as a shell runs them. -/
instance Programs.installed : Programs := ⟨Shell.refusal?, Shell.execute⟩

end NativeGlue
