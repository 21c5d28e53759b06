import EditorTabs.Assoc
import EditorTabs.Host.Basic

/-!
# Hosts in memory

A host in memory holds files by their exact paths, without directories. A file may be there and
still fail to be read.
-/
namespace EditorTabs

/-- What a file in memory gives when it is read: bytes, or the number of an error. -/
inductive Content where
  | bytes (bytes : List UInt8)
  | failing (number : Int)
  deriving DecidableEq, Repr

structure Memory where
  root : Option Text := none
  candidates : List Text := []
  files : Assoc Text Content := []
  buffers : Assoc Text Text := []
  deriving DecidableEq, Repr

/-- The host of a workspace in memory; its working directory is the root of all paths. -/
def Memory.host (memory : Memory) : Host where
  workingDirectory := "/"
  root := memory.root
  candidates := memory.candidates
  tabs := []
  isFile path := (memory.files.get? path).isSome
  buffer path := memory.buffers.get? path
  read path :=
    match memory.files.get? path with
    | some (.bytes bytes) => .ok bytes
    | some (.failing number) => .error ⟨number, path⟩
    | none => .error (.noEntry path)

end EditorTabs
