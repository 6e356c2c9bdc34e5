import Marginalia.CommandLine.Program

/-! # The command line program

Carries out a run on the files below the working directory. Nothing is sent over a network from
here, so a request finds nobody who answers.
-/

namespace Marginalia

/-- The files and directories that the entries of a directory lead to; links are not followed,
and files that cannot be read are left out. -/
partial def gather (directory : Location) (entries : List IO.FS.DirEntry) (tree : FileTree) :
    IO FileTree :=
  entries.foldlM (fun tree entry => do
    let location := directory ++ [entry.fileName]
    match (← entry.path.symlinkMetadata).type with
    | .dir =>
      gather location (← entry.path.readDir).toList
        { tree with directories := location :: tree.directories }
    | .file =>
      try
        let bytes ← IO.FS.readBinFile entry.path
        let content := match String.fromUTF8? bytes with
          | some text => Content.text text
          | none => Content.binary bytes.toList
        return { tree with files := (location, content) :: tree.files }
      catch _ => return tree
    | _ => return tree) tree

/-- Writes what a run has changed. -/
def writeChanges (before after : FileTree) : IO Unit := do
  for directory in after.directories do
    if !before.directories.contains directory then
      IO.FS.createDirAll ("/".intercalate directory)
  for (location, content) in after.files do
    if before.files.lookup location != some content then
      match content with
      | .text text => IO.FS.writeFile ("/".intercalate location) text
      | .binary bytes => IO.FS.writeBinFile ("/".intercalate location) ⟨bytes.toArray⟩

end Marginalia

open Marginalia in
/-- Runs the program; what went wrong goes to the standard error stream. -/
def main (arguments : List String) : IO UInt32 := do
  let tree ← gather [] (← (← IO.currentDir).readDir).toList { }
  let ending := CommandLine.run arguments tree Http.offline (fun _ => (false, ())) ()
  writeChanges tree ending.tree
  IO.print ending.output
  match ending.error with
  | some message => IO.eprintln ("Error: " ++ message)
  | none => if ending.exitCode != 0 then IO.eprint CommandLine.usage
  return ending.exitCode.toUInt32
