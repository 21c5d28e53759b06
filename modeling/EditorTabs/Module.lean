import EditorTabs.Path.Basic

/-!
# Modules

A reference names a module without saying which file holds it. The files that may hold it are
probed in a fixed order: the name with each extension, the name itself, and the index file of each
extension in the directory of that name.
-/
namespace EditorTabs.Module

/-- The extensions of a module's file, in probing order; the empty one comes last. -/
def extensions : List Text := [".ts", ".tsx", ".js", ".jsx", ""]

def indexExtensions : List Text := [".ts", ".tsx", ".js", ".jsx"]

def candidates (target : Text) : List Text :=
  extensions.map (target ++ ·) ++ indexExtensions.map fun extension =>
    Path.join target ("index" ++ extension)

def probe (isFile : Text → Bool) (target : Text) : Option Text :=
  (candidates target).find? isFile

def upTo {α : Type} (p : α → Bool) : List α → List α
  | [] => []
  | a :: rest => if p a then [a] else a :: upTo p rest

/-- The candidates that are probed until one is there. -/
def probed (isFile : Text → Bool) (target : Text) : List Text :=
  upTo isFile (candidates target)

def isRelative (module : Text) : Bool :=
  module.head? = some '.' || module.head? = some '/'

/-- The place a relative reference leads to from the file that holds it. -/
def relativeTarget (importer module : Text) : Text :=
  Path.normalize (Path.join (Path.parent importer) module)

end EditorTabs.Module
