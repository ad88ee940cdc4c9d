import Cascade.Cli.Run
import Cascade.Files.Add
/-!
The command line. The program works on the files below the working directory and below its first
argument after the command; what it changes is written back when it is done.
-/
open Cascade

/-- Adds what is on the disk at an entry and below it. -/
partial def readEntry (files : Files) (e : IO.FS.DirEntry) : IO Files := do
  let path := e.path.toString
  if ← e.path.isDir then
    (← e.path.readDir).foldlM readEntry (files.addDirectory path)
  else
    let time := (← e.path.metadata).modified
    let bytes ← IO.FS.readBinFile e.path
    return files.addFile path (.ofBytes bytes) (some (time.sec.toNat * 1000000000 + time.nsec.toNat))

/-- Adds what is below a path taken from a directory, as far as it can be read. -/
def readBelow (files : Files) (root fileName : String) : IO Files := do
  try readEntry files { root, fileName } catch _ => return files

/-- A time after that of every file. -/
def timeAfter (files : Files) : Nat := files.entries.foldl (fun t e => max t (e.2.modified + 1)) 1

/-- The files that a command line is about. -/
def readFiles (args : List String) : IO Files := do
  let here := (← IO.currentDir).toString
  let names := (Path.components here).filterMap fun c => match c with
    | .name s => some s
    | _ => none
  let files := (Files.empty names 1).addDirectory here
  match args with
  | _ :: environment :: _ =>
    let files ← readBelow (← readBelow files here ".") here environment
    return { files with clock := timeAfter files }
  | _ => return files

/-- Writes what differs from the files as they were. -/
def writeBack (before after : Files) : IO Unit :=
  after.entries.forM fun e => do
    let path := "/" ++ Path.slashed e.1
    match e.2 with
    | .directory _ => unless before.exists path do IO.FS.createDirAll path
    | .file content _ =>
      let bytes := content.toBytes
      unless (before.read path).toOption.any (fun c => c.toBytes == bytes) do
        IO.FS.writeBinFile path bytes

def main (args : List String) : IO UInt32 := do
  let files ← readFiles args
  let world := World.ofFiles files (.ofBytes (← IO.getRandomBytes 4096))
  let (o, world) := Cli.run world (← IO.getEnv "STRATA_COMPILER") args
  writeBack files world.files
  IO.print o.out
  IO.eprint o.err
  return UInt32.ofNat o.code
