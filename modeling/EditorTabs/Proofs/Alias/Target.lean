import EditorTabs.Alias.Table
import EditorTabs.Proofs.Path.Rooted

/-!
# Where aliases lead

An alias covers a reference that is the alias, or that goes on after it with a slash. The first
alias that covers a reference decides where it leads: from the root of the base directory along the
names of that directory, of the target and of what is left of the reference.
-/
namespace EditorTabs.Alias

open EditorTabs.Path

/-- An alias covers a reference and leaves a rest of it: nothing of the alias itself, with or
without the slashes at its end, and else what follows the alias and one slash. An alias of slashes
alone covers nothing. -/
inductive Covers (name : Text) : (module remainder : Text) → Prop
  | whole (hne : withoutSlashes name ≠ []) : Covers name name []
  | bare (hne : withoutSlashes name ≠ []) : Covers name (withoutSlashes name) []
  | below (hne : withoutSlashes name ≠ []) {remainder : Text}
      (h : withoutSlashes name ++ slash :: remainder ≠ name) :
      Covers name (withoutSlashes name ++ slash :: remainder) remainder

/-- The first alias that covers a reference, with its target and with what it leaves. -/
def IsFirstCover (aliases : Assoc Text Text) (module name target remainder : Text) : Prop :=
  ∃ before after, aliases = before ++ (name, target) :: after ∧
    (∀ pair ∈ before, ∀ rest, ¬ Covers pair.1 module rest) ∧ Covers name module remainder

variable {name module remainder target base : Text} {aliases : Assoc Text Text}

theorem remainder?_eq_some_iff :
    remainder? name module = some remainder ↔ Covers name module remainder := by
  rw [remainder?]
  constructor
  · intro h
    split at h
    · cases h
    · next hne =>
      split at h
      · next hmodule =>
        cases h
        rcases hmodule with rfl | rfl
        · exact .whole hne
        · exact .bare hne
      · next hmodule =>
        split at h
        · next hbelow =>
          cases h
          obtain ⟨rest, rfl⟩ := List.isPrefixOf_iff_prefix.mp hbelow
          have hrest : (withoutSlashes name ++ [slash] ++ rest).drop
              ((withoutSlashes name).length + 1) = rest := List.drop_left' (by simp)
          rw [hrest]
          rw [List.append_assoc, List.singleton_append] at hmodule ⊢
          exact .below hne (not_or.mp hmodule).1
        · cases h
  · intro h
    cases h with
    | whole hne => simp [hne]
    | bare hne => simp [hne]
    | below hne h => simp [hne, h]

theorem cover?_of_isFirstCover (h : IsFirstCover aliases module name target remainder) :
    cover? module aliases = some (target, remainder) := by
  obtain ⟨before, after, rfl, hbefore, hcovers⟩ := h
  induction before with
  | nil => simp [cover?, remainder?_eq_some_iff.mpr hcovers]
  | cons pair before ih =>
    obtain ⟨hpair, hbefore⟩ := List.forall_mem_cons.mp hbefore
    have hnone : remainder? pair.1 module = none :=
      Option.eq_none_iff_forall_ne_some.mpr fun rest hrest =>
        hpair rest (remainder?_eq_some_iff.mp hrest)
    simp only [List.cons_append, cover?, hnone]
    exact ih hbefore

/-- A relative target and a relative rest are joined to the base directory, one after the other. -/
theorem target?_of_isFirstCover {table : Table} (hbase : table.baseDirectory = some base)
    (hne : base ≠ []) (h : IsFirstCover table.aliases module name target remainder) :
    table.target? module = some (normalize (join (join base target) remainder)) := by
  have hfilter : table.baseDirectory.filter (· ≠ []) = some base := by simp [hbase, hne]
  rw [Table.target?, hfilter, cover?_of_isFirstCover h]
  rfl

/-- A reference leads from the root of the base directory along the names of that directory, of the
target and of the rest of the reference. That is the normal form of the three with slashes between
them, except below the bases of one and of two slashes, to which another slash would give another
root. -/
theorem target?_anchored {table : Table} (hbase : table.baseDirectory = some base)
    (habsolute : isAbsolute base = true)
    (hfirst : IsFirstCover table.aliases module name target remainder)
    (htarget : isAbsolute target = false) (hremainder : isAbsolute remainder = false) :
    table.target? module =
        some (fromRoot (leadingSlashes base) (names base ++ names target ++ names remainder)) ∧
      (base ≠ [slash] → base ≠ [slash, slash] →
        table.target? module =
          some (normalize (base ++ slash :: (target ++ slash :: remainder)))) := by
  have hne : base ≠ [] := by
    rintro rfl
    cases habsolute
  have hjoin : normalize (join (join base target) remainder) =
      fromRoot (leadingSlashes base) (names base ++ names target ++ names remainder) := by
    rw [normalize_join (isAbsolute_join habsolute) hremainder,
      leadingSlashes_join habsolute htarget, names_join htarget]
  rw [target?_of_isFirstCover hbase hne hfirst, hjoin]
  refine ⟨rfl, fun hone htwo => ?_⟩
  have hconcatenation : isAbsolute (base ++ slash :: (target ++ slash :: remainder)) = true := by
    rw [isAbsolute, List.head?_append_of_ne_nil _ hne]
    exact habsolute
  rw [normalize_of_isAbsolute hconcatenation, leadingSlashes_append_slash habsolute hone htwo,
    names_append_slash, names_append_slash, List.append_assoc]

/-- A table with aliases of several spellings, of which the third is the first one to cover
`@/deep/../b`. -/
def spellings : Table where
  state := .populated
  baseDirectory := some "/w//app"
  aliases := [("/", "root"), ("@/dee", "x"), ("@//", "./src/"), ("@/deep/", "lib")]

theorem target?_anchored_spellings :
    IsFirstCover spellings.aliases "@/deep/../b" "@//" "./src/" "deep/../b" ∧
      spellings.target? "@/deep/../b" = some "/w/app/src/b" ∧
      spellings.target? "@/deep/../b" = some (normalize "/w//app/./src//deep/../b") := by
  have hbefore : ∀ pair ∈ spellings.aliases.take 2, remainder? pair.1 "@/deep/../b" = none := by
    decide
  have hfirst : IsFirstCover spellings.aliases "@/deep/../b" "@//" "./src/" "deep/../b" := by
    refine ⟨spellings.aliases.take 2, spellings.aliases.drop 3, rfl, ?_,
      remainder?_eq_some_iff.mp (by decide)⟩
    intro pair hpair rest hcovers
    exact absurd ((hbefore pair hpair).symm.trans (remainder?_eq_some_iff.mpr hcovers)) (by simp)
  have hbase : spellings.baseDirectory = some "/w//app" := rfl
  obtain ⟨hroot, hconcatenation⟩ :=
    target?_anchored hbase (by decide) hfirst (by decide) (by decide)
  exact ⟨hfirst, hroot.trans (by decide), hconcatenation (by decide) (by decide)⟩

/-- A table whose base directory is the root of all paths. -/
def atRoot : Table where
  state := .populated
  baseDirectory := some "/"
  aliases := [("@/", "src/")]

/-- Below the root, base directory and target with a slash between them make a path with two slashes
at its start, which is another root. -/
theorem target?_at_root_not_concatenation :
    ¬ ∀ (table : Table) (base module name target remainder : Text),
      table.baseDirectory = some base → isAbsolute base = true →
        IsFirstCover table.aliases module name target remainder → isAbsolute target = false →
          table.target? module =
            some (normalize (base ++ slash :: (target ++ slash :: remainder))) := by
  intro h
  have hfirst : IsFirstCover atRoot.aliases "@/x" "@/" "src/" "x" :=
    ⟨[], [], rfl, by simp, remainder?_eq_some_iff.mp (by decide)⟩
  exact absurd (h atRoot "/" _ _ _ _ rfl (by decide) hfirst (by decide)) (by decide)

end EditorTabs.Alias
