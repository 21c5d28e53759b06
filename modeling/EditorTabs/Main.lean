import EditorTabs.CommandLine.Run

/-!
# The program

A run works on a file tree, and the tree is filled from the disk as far as the run looks at it: the
run is repeated until it looks at nothing that is not in the tree. Then its changes are made on the
disk and its output is shown. Links count as what they lead to.
-/
namespace EditorTabs.CommandLine

open Files (Tree Node Place)

def placePath (place : Place) : String :=
  "/" ++ Text.toString (Path.unsplit place)

def placesOnWay (cwd path : Text) : List Place :=
  let segments := Path.split (Path.join cwd path)
  (List.range segments.length).map fun count =>
    Files.placeOf (Path.absolute "/" (Path.unsplit (segments.take (count + 1))))

def fetch (tree : Tree) (place : Place) : IO Tree := do
  let path := (← IO.currentDir) / placePath place
  if ← path.isDir then return tree.plant place .directory
  else if ← path.pathExists then
    return tree.plant place (.file (← IO.FS.readBinFile path).toList)
  else return tree

/-- The run of a command line on the disk, and the tree it started from. -/
partial def runOnDisk (cwd : Text) (words : List Text) (known : List Place) (tree : Tree) :
    IO (Tree × Run) := do
  let result := run tree cwd words
  let places := (pathsOf cwd words result ++ [cwd]).flatMap (placesOnWay cwd)
  match Text.distinct (places.filter fun place => place ≠ [] && !known.contains place) with
  | [] => return (tree, result)
  | wanted => runOnDisk cwd words (wanted ++ known) (← wanted.foldlM fetch tree)

/-- The changes from one tree to another, made on the disk. -/
def store (before after : Tree) : IO Unit := do
  for place in before.newDirectories after do
    IO.FS.createDir (placePath place)
  for (place, bytes) in before.changedFiles after do
    IO.FS.writeBinFile (placePath place) ⟨bytes.toArray⟩

end EditorTabs.CommandLine

open EditorTabs EditorTabs.CommandLine in
/-- Runs the command line in the working directory. A fault that is not reported ends the program
with its message. -/
def main (words : List String) : IO UInt32 := do
  let cwd := Text.ofString (← IO.currentDir).toString
  let (before, result) ← runOnDisk cwd (words.map .ofString) [] Files.Tree.empty
  store before result.tree
  IO.print result.output.toString
  IO.eprint result.errors.toString
  match result.status with
  | .ok code => return code.toUInt32
  | .error fault =>
    IO.eprintln fault.message.toString
    return 1
