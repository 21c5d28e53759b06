import EditorTabs.Alias.Configuration
import EditorTabs.Proofs.Assoc
import EditorTabs.Proofs.Text.Sorted
import Mathlib.Data.List.Induction

/-!
# What a configuration declares

The aliases of a configuration are those that it declares, in its order. One that it declares again
keeps its place and takes the last target.
-/
namespace EditorTabs

namespace Assoc

variable {α β : Type} [DecidableEq α]

theorem putAll_append_singleton (pairs news : Assoc α β) (pair : α × β) :
    pairs.putAll (news ++ [pair]) = (pairs.putAll news).put pair.1 pair.2 := by
  simp [putAll]

/-- Pairs that are put one after the other have their keys in the order in which these first come
up. -/
theorem keys_putAll_nil (news : Assoc α β) : (putAll [] news).keys = Text.distinct news.keys := by
  induction news using List.reverseRecOn with
  | nil => rfl
  | append_singleton news pair ih =>
    have hkeys : keys (news ++ [pair]) = keys news ++ [pair.1] := by simp [keys]
    rw [putAll_append_singleton, keys_put, ih, hkeys, Text.distinct_append_singleton]
    simp only [Text.mem_distinct]

/-- They have the values that were put last. -/
theorem get?_putAll_nil (news : Assoc α β) (key : α) :
    (putAll [] news).get? key = get? key news.reverse := by
  induction news using List.reverseRecOn with
  | nil => rfl
  | append_singleton news pair ih =>
    rw [putAll_append_singleton, get?_put, ih, List.reverse_append, List.reverse_singleton,
      List.singleton_append, get?]

end Assoc

namespace Alias

variable {members : List (Text × Json)}

/-- The alias that a member declares, without wildcards. -/
def aliasOf? (pair : Text × Json) : Option (Text × Text) :=
  (target? pair.2).map fun target => (stripWildcard pair.1, stripWildcard target)

/-- The aliases that the members of a configuration declare, in their order. A name may come up
several times. -/
def declared (members : List (Text × Json)) : Assoc Text Text :=
  match Json.memberOf? "compilerOptions" members with
  | some (.object options) =>
    match Json.memberOf? "paths" options with
    | some (.object paths) => paths.filterMap aliasOf?
    | _ => []
  | _ => []

/-- The members of a configuration give a directory that targets are relative to. -/
def HasBase (members : List (Text × Json)) (base : Text) : Prop :=
  ∃ options, Json.memberOf? "compilerOptions" members = some (.object options) ∧
    Json.memberOf? "baseUrl" options = some (.text base) ∧ ∃ c ∈ base, Text.isBlank c = false

theorem aliasesOf_eq_putAll (paths : List (Text × Json)) :
    aliasesOf paths = Assoc.putAll [] (paths.filterMap aliasOf?) := by
  rw [aliasesOf, Assoc.putAll, List.foldl_filterMap]
  congr 1
  funext aliases pair
  obtain ⟨name, value⟩ := pair
  dsimp only [aliasOf?]
  cases target? value <;> rfl

theorem aliases_ofJson (members : List (Text × Json)) :
    (Configuration.ofJson (.object members)).aliases = Assoc.putAll [] (declared members) := by
  rw [Configuration.ofJson, Json.member?, declared]
  cases Json.memberOf? "compilerOptions" members with
  | none => rfl
  | some compiler =>
    cases compiler with
    | object options =>
      dsimp only
      cases Json.memberOf? "paths" options with
      | none => rfl
      | some value =>
        cases value with
        | object paths => exact aliasesOf_eq_putAll paths
        | _ => rfl
    | _ => rfl

theorem aliases_ofJson_eq_nil_iff :
    (Configuration.ofJson (.object members)).aliases = [] ↔ declared members = [] := by
  rw [aliases_ofJson]
  constructor
  · intro h
    by_contra hne
    obtain ⟨pair, rest, hdeclared⟩ := List.exists_cons_of_ne_nil hne
    have hkeys := Assoc.keys_putAll_nil (declared members)
    rw [h, hdeclared] at hkeys
    cases hkeys
  · intro h
    rw [h]
    rfl

theorem text?_eq_some_iff {value : Json} {s : Text} : value.text? = some s ↔ value = .text s := by
  cases value <;> simp [Json.text?]

theorem baseUrl_ofJson_eq_some_iff {base : Text} :
    (Configuration.ofJson (.object members)).baseUrl = some base ↔ HasBase members base := by
  rw [Configuration.ofJson, Json.member?, HasBase]
  cases Json.memberOf? "compilerOptions" members with
  | none => simp
  | some compiler =>
    cases compiler with
    | object options =>
      simp [Option.filter_eq_some_iff, Option.bind_eq_some_iff, text?_eq_some_iff, Text.isAllBlank]
    | _ => simp

end Alias

end EditorTabs
