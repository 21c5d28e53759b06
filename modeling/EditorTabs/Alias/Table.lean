import EditorTabs.Assoc
import EditorTabs.Path.Basic

/-!
# Alias tables

An alias replaces the start of a reference by a directory. The table of a workspace comes from its
configuration and is not loaded, empty, or filled.
-/
namespace EditorTabs.Alias

inductive LoadState where
  | unloaded
  | empty
  | populated
  deriving DecidableEq, Repr

/-- An alias table: the directory its targets are relative to, the aliases in the order of the
configuration, and the name of that configuration. -/
structure Table where
  state : LoadState := .unloaded
  baseDirectory : Option Text := none
  aliases : Assoc Text Text := []
  source : Option Text := none
  deriving DecidableEq, Repr

namespace Table

def unloaded : Table := {}

def blank : Table := { state := .empty }

def isLoaded (table : Table) : Bool :=
  table.state ≠ .unloaded

end Table

def withoutSlashes (s : Text) : Text :=
  (s.reverse.dropWhile (· = Path.slash)).reverse

/-- What an alias leaves of a reference that it covers: nothing if the reference is the alias, with
or without slashes at its end, and else what follows the alias and one slash. An alias of slashes
alone covers nothing. -/
def remainder? (name module : Text) : Option Text :=
  let bare := withoutSlashes name
  if bare = [] then none
  else if module = name ∨ module = bare then some []
  else if (bare ++ [Path.slash]).isPrefixOf module then some (module.drop (bare.length + 1))
  else none

/-- The first alias that covers a reference: its target and what it leaves of the reference. -/
def cover? (module : Text) : Assoc Text Text → Option (Text × Text)
  | [] => none
  | (name, target) :: rest =>
    match remainder? name module with
    | some remainder => some (target, remainder)
    | none => cover? module rest

def Table.target? (table : Table) (module : Text) : Option Text :=
  match table.baseDirectory.filter (· ≠ []) with
  | none => none
  | some base =>
    (cover? module table.aliases).map fun (target, remainder) =>
      Path.normalize (Path.join (Path.join base target) remainder)

end EditorTabs.Alias
