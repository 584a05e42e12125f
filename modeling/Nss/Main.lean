/-
# The command as a program

Takes up the files below the working directory, runs the command on them, writes the files that it
changed, and prints what it says.
-/
import Nss.CommandLine.Run

namespace Nss

/-- What stands at an entry of a directory, if it is a file or a directory itself and can be read.
Links are not followed. -/
partial def FileNode.ofEntry (entry : IO.FS.DirEntry) : IO (Option FileNode) := do
  try
    match (← entry.path.symlinkMetadata).type with
    | .file => return some (.file (← IO.FS.readBinFile entry.path).toList)
    | .dir => return some (.dir (← ofEntries (← entry.path.readDir).toList))
    | _ => return none
  catch _ => return none
where
  /-- The entries of a directory under their names. -/
  ofEntries : List IO.FS.DirEntry → IO (List (String × FileNode))
    | [] => return []
    | entry :: rest => do
      let others ← ofEntries rest
      match ← ofEntry entry with
      | some node => return (entry.fileName, node) :: others
      | none => return others

/-- The files below the working directory. -/
def FileTree.ofWorkingDirectory : IO FileTree := do
  return .ofRoot (.dir (← FileNode.ofEntry.ofEntries (← (← IO.currentDir).readDir).toList))

end Nss

/-- Runs the command. -/
def main (args : List String) : IO UInt32 := do
  let files ← Nss.FileTree.ofWorkingDirectory
  let outcome := Nss.Command.run args files
  for (path, content) in outcome.written files do
    IO.FS.writeBinFile path content.toByteArray
  IO.print outcome.stdout
  IO.eprint outcome.stderr
  return outcome.exitCode.toUInt32
