import EditorTabs.Proofs.Path.Way
import EditorTabs.Resolution

/-!
# References by place

A reference by place is resolved without the alias table. From one file to another it leads by the
way between them, whatever directories they share. A place that is a file itself still gives way to
a file of the same name with a further extension.
-/
namespace EditorTabs

namespace Module

variable {isFile : Text → Bool} {target extension : Text}

/-- The first of the extensions with which a name is that of a file. -/
def IsFirstExtension (isFile : Text → Bool) (target extension : Text) : Prop :=
  ∃ before after, extensions = before ++ extension :: after ∧
    isFile (target ++ extension) = true ∧
      ∀ earlier ∈ before, isFile (target ++ earlier) = false

theorem extensions_eq : extensions = indexExtensions ++ [[]] := rfl

/-- A place that is a file itself is never taken for a directory with an index file. -/
theorem probe_of_isFile (h : isFile target = true) :
    probe isFile target =
      (extensions.find? fun extension => isFile (target ++ extension)).map (target ++ ·) := by
  have hsome : ((extensions.map (target ++ ·)).find? isFile).isSome := by
    rw [List.find?_isSome]
    exact ⟨target, List.mem_map.mpr ⟨[], by decide, List.append_nil target⟩, h⟩
  rw [probe, candidates, List.find?_append, Option.or_of_isSome hsome, List.find?_map]
  rfl

theorem exists_isFirstExtension (h : isFile target = true) :
    ∃ extension, IsFirstExtension isFile target extension ∧
      probe isFile target = some (target ++ extension) := by
  have hsome : (extensions.find? fun extension => isFile (target ++ extension)).isSome := by
    rw [List.find?_isSome]
    exact ⟨[], by decide, by rwa [List.append_nil]⟩
  obtain ⟨extension, hfind⟩ := Option.isSome_iff_exists.mp hsome
  obtain ⟨hextension, before, after, hextensions, hbefore⟩ := List.find?_eq_some_iff_append.mp hfind
  refine ⟨extension, ⟨before, after, hextensions, hextension, fun earlier he => ?_⟩, ?_⟩
  · simpa using hbefore earlier he
  · rw [probe_of_isFile h, hfind]
    rfl

theorem probe_eq_self_iff (h : isFile target = true) :
    probe isFile target = some target ↔
      ∀ extension ∈ extensions, extension ≠ [] → isFile (target ++ extension) = false := by
  have hfurther :
      (∀ extension ∈ extensions, extension ≠ [] → isFile (target ++ extension) = false) ↔
        (indexExtensions.find? fun extension => isFile (target ++ extension)) = none := by
    rw [List.find?_eq_none, extensions_eq, List.forall_mem_append]
    simp [indexExtensions, Text.ofString]
  rw [probe_of_isFile h, hfurther, extensions_eq, List.find?_append]
  cases hfind : indexExtensions.find? fun extension => isFile (target ++ extension) with
  | none => simp [h]
  | some extension =>
    have hne : extension ≠ [] := by
      rintro rfl
      exact absurd (List.mem_of_find?_eq_some hfind) (by decide)
    simp [hne]

end Module

namespace Resolution

variable {isFile : Text → Bool} {module importer file : Text}

theorem lookup_of_isRelative (h : Module.isRelative module = true) (isFile : Text → Bool)
    (given loadable : Option Alias.Table) (importer : Text) :
    lookup isFile given loadable module importer =
      { file := Module.probe isFile (Module.relativeTarget importer module)
        probed := Module.probed isFile (Module.relativeTarget importer module)
        loads := 0 } := by
  have hne : module ≠ [] := by
    rintro rfl
    cases h
  have htarget (table : Option Alias.Table) :
      target? table module importer = some (Module.relativeTarget importer module) := by
    rw [target?, if_neg hne, if_pos h]
  simp [lookup, needsAliases, h, resolve, probed, htarget]

/-- The way from the directory of a file to another file, said to start in that directory, is
resolved by probing that other file, whatever tables there are and without loading one. -/
theorem lookup_relative (himporter : Path.IsCanonical importer) (hfile : Path.IsCanonical file)
    (cwd : Text) (isFile : Text → Bool) (given loadable : Option Alias.Table) :
    lookup isFile given loadable
        (Path.here ++ Path.slash :: Path.relative cwd file (Path.parent importer)) importer =
      { file := Module.probe isFile file
        probed := Module.probed isFile file
        loads := 0 } := by
  rw [lookup_of_isRelative rfl, Module.relativeTarget,
    Path.normalize_join_relative himporter hfile]

/-- A way that goes up to the root of all paths and down to a module with an index file. -/
theorem lookup_relative_over_root :
    Path.relative "/w" "/lib/m" (Path.parent "/src/app/main") = ("../../lib/m" : Text) ∧
      lookup (· = ("/lib/m/index.ts" : Text)) none (some {}) "./../../lib/m" "/src/app/main" =
        { file := some "/lib/m/index.ts"
          probed := ["/lib/m.ts", "/lib/m.tsx", "/lib/m.js", "/lib/m.jsx", "/lib/m",
            "/lib/m/index.ts"]
          loads := 0 } := by
  have hway :
      Path.relative "/w" "/lib/m" (Path.parent "/src/app/main") = ("../../lib/m" : Text) := by
    decide
  have himporter : Path.IsCanonical "/src/app/main" := by decide
  have hfile : Path.IsCanonical "/lib/m" := by decide
  have hlookup :=
    lookup_relative himporter hfile "/w" (· = ("/lib/m/index.ts" : Text)) none (some {})
  rw [hway] at hlookup
  exact ⟨hway, hlookup.trans (by decide)⟩

/-- A place that is a file itself is resolved to the file with the first extension that is there,
none of them being the last. So it is resolved to itself just if there is no file of that name with
a further extension; an index file below it does not matter. -/
theorem lookup_of_isFile (h : Module.isRelative module = true)
    (hfile : isFile (Module.relativeTarget importer module) = true)
    (given loadable : Option Alias.Table) :
    (∃ extension, Module.IsFirstExtension isFile (Module.relativeTarget importer module) extension ∧
        (lookup isFile given loadable module importer).file =
          some (Module.relativeTarget importer module ++ extension)) ∧
      ((lookup isFile given loadable module importer).file =
          some (Module.relativeTarget importer module) ↔
        ∀ extension ∈ Module.extensions, extension ≠ [] →
          isFile (Module.relativeTarget importer module ++ extension) = false) := by
  rw [lookup_of_isRelative h]
  exact ⟨Module.exists_isFirstExtension hfile, Module.probe_eq_self_iff hfile⟩

/-- A script with an index file below a directory of the same name is resolved to itself. -/
theorem lookup_of_isFile_with_index :
    let isFile : Text → Bool := (· ∈ (["/w/d.js/index.ts", "/w/d.js"] : List Text))
    (∃ extension, Module.IsFirstExtension isFile "/w/d.js" extension ∧
        (lookup isFile none none "./d.js" "/w/m").file = some ("/w/d.js" ++ extension)) ∧
      (lookup isFile none none "./d.js" "/w/m").file = some "/w/d.js" := by
  intro isFile
  have htarget : Module.relativeTarget "/w/m" "./d.js" = ("/w/d.js" : Text) := by decide
  have hrelative : Module.isRelative "./d.js" = true := by decide
  have hfile : isFile (Module.relativeTarget "/w/m" "./d.js") = true := by
    rw [htarget]
    decide
  have hlookup := lookup_of_isFile hrelative hfile none none
  rw [htarget] at hlookup
  exact ⟨hlookup.1, hlookup.2.mpr (by decide)⟩

/-- A file that is there and is referred to by its whole name gives way to a file whose name goes
on after that. -/
theorem lookup_not_exact :
    ¬ ∀ (isFile : Text → Bool) (given loadable : Option Alias.Table) (module importer : Text),
      Module.isRelative module = true → isFile (Module.relativeTarget importer module) = true →
        (lookup isFile given loadable module importer).file =
          some (Module.relativeTarget importer module) := by
  intro h
  exact absurd (h (· ∈ (["/w/d.js", "/w/d.js.ts"] : List Text)) none none "./d.js" "/w/m"
    (by decide) (by decide)) (by decide)

end Resolution

end EditorTabs
