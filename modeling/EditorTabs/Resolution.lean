import EditorTabs.Alias.Table
import EditorTabs.Module

/-!
# Resolving references

A reference by place is resolved from the directory of the file that holds it, any other through
the alias table. The table is wanted only for those.
-/
namespace EditorTabs.Resolution

def needsAliases (module : Text) : Bool :=
  module ≠ [] && !Module.isRelative module

def target? (table : Option Alias.Table) (module importer : Text) : Option Text :=
  if module = [] then none
  else if Module.isRelative module then some (Module.relativeTarget importer module)
  else table.bind (·.target? module)

def resolve (isFile : Text → Bool) (table : Option Alias.Table) (module importer : Text) :
    Option Text :=
  (target? table module importer).bind (Module.probe isFile)

def probed (isFile : Text → Bool) (table : Option Alias.Table) (module importer : Text) :
    List Text :=
  match target? table module importer with
  | some target => Module.probed isFile target
  | none => []

/-- What came of a reference when a table may still have to be loaded: the file, the files that
were probed, and how often the table was loaded. -/
structure Lookup where
  file : Option Text
  probed : List Text
  loads : Nat
  deriving DecidableEq, Repr

/-- The file a reference leads to, with a table that is given, or else with one that is loaded when
it is wanted. -/
def lookup (isFile : Text → Bool) (given loadable : Option Alias.Table)
    (module importer : Text) : Lookup :=
  let loads := needsAliases module && given.isNone && loadable.isSome
  let table := if loads then loadable else given
  { file := resolve isFile table module importer
    probed := probed isFile table module importer
    loads := if loads then 1 else 0 }

end EditorTabs.Resolution
