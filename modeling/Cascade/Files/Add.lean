import Cascade.Files.Basic
/-!
Making a tree of files. What cannot be made is left out, so these operations always have a result.
-/
namespace Cascade.Files

def addDirectory (files : Files) (path : String) : Files :=
  (files.makeDirectories path).toOption.getD files

/-- Adds a file and the directories above it. Without a time it is stamped by the clock. -/
def addFile (files : Files) (path : String) (content : Content) (modified : Option Nat) : Files :=
  let files := (Path.parent? path).elim files files.addDirectory
  let written := match modified with
    | some time => files.writeAt path content time
    | none => files.write path content
  written.toOption.getD files

end Cascade.Files
