import EditorTabs.CommandLine.Run
import EditorTabs.Proofs.Path.Way
import EditorTabs.Proofs.TabList

/-!
# The tabs of a command

The tabs of a command come from two places: its tab list has an entry for each, and every path that
it is given is one. Either way a path is taken from an absolute directory and normalised, so that
what a tab shows is an absolute path with nothing left to normalise, or nothing.
-/
namespace EditorTabs

namespace TabList

variable {root path : Text} {value : Json} {tab : Tab} {members : List (Text × Json)}
  {items : List Json} {tabs : List Tab}

theorem isNormal_of_tabOf (hroot : Path.isAbsolute root = true)
    (h : (tabOf root members).path = some path) : Path.IsNormal path := by
  change pathOf root members = some path at h
  rw [pathOf] at h
  split at h
  · split at h
    · cases h
    · cases h
      exact Path.isNormal_normalize (Path.isAbsolute_join hroot)
  · cases h

theorem isNormal_of_entry (hroot : Path.isAbsolute root = true) (h : entry root value = .ok tab)
    (hpath : tab.path = some path) : Path.IsNormal path := by
  rw [entry.eq_def] at h
  split at h
  · cases h
    exact isNormal_of_tabOf hroot hpath
  · cases h
    exact isNormal_of_tabOf hroot hpath
  · cases h

theorem isNormal_of_entries (hroot : Path.isAbsolute root = true)
    (h : List.Forall₂ (fun item tab => entry root item = .ok tab) items tabs) :
    ∀ tab ∈ tabs, ∀ path, tab.path = some path → Path.IsNormal path := by
  induction h with
  | nil => simp
  | cons hentry _ ih =>
    exact List.forall_mem_cons.mpr ⟨fun _ hpath => isNormal_of_entry hroot hentry hpath, ih⟩

end TabList

namespace CommandLine

variable {tree : Files.Tree} {cwd root : Text} {inputs : Inputs} {limit : Nat}

/-- The entries of the tab list that a command is given, if it is given one. -/
inductive Lists (tree : Files.Tree) (cwd : Text) (limit : Nat) : Option Text → List Json → Prop
  | unlisted : Lists tree cwd limit none []
  | listed {file : Text} {items : List Json}
      (h : Files.readValue tree cwd (Path.tidy file) false limit = .ok (.array items)) :
      Lists tree cwd limit (some file) items

/-- The tabs of a command that is given an accepted tab list, or none: in order one for each entry,
then in order one for each path. -/
theorem collectTabs_of_accepted
    (haccepted : ∀ file ∈ inputs.tabList, ∃ tabs, TabList.read tree cwd file root limit = .ok tabs) :
    ∃ items listed, Lists tree cwd limit inputs.tabList items ∧
      List.Forall₂ (fun item tab => TabList.entry root item = .ok tab) items listed ∧
      collectTabs tree cwd root inputs limit =
        .ok (listed ++ tabsOfPaths cwd inputs.paths (.number 0)) := by
  rw [collectTabs]
  cases hlist : inputs.tabList with
  | none => exact ⟨[], [], .unlisted, .nil, rfl⟩
  | some file =>
    obtain ⟨listed, hread⟩ := haccepted file hlist
    obtain ⟨items, hvalue, -, hentries⟩ := TabList.exists_items_of_read hread
    refine ⟨items, listed, .listed hvalue, TabList.forall₂_entry_of_entries hentries, ?_⟩
    simp only [hread, Except.map]

/-- The path of every tab of a command is absolute and normalised. -/
theorem collects_normal_tabs (hroot : Path.isAbsolute root = true)
    (hcwd : Path.isAbsolute cwd = true)
    (haccepted : ∀ file ∈ inputs.tabList, ∃ tabs, TabList.read tree cwd file root limit = .ok tabs) :
    ∃ items listed opened, Lists tree cwd limit inputs.tabList items ∧
      collectTabs tree cwd root inputs limit = .ok (listed ++ opened) ∧
      List.Forall₂ (fun item tab => TabList.entry root item = .ok tab) items listed ∧
      List.Forall₂ (fun path tab => tab.path = some (Path.absolute cwd path)) inputs.paths opened ∧
      ∀ tab ∈ listed ++ opened, tab.path = none ∨
        ∃ path, tab.path = some path ∧ path ≠ [] ∧ Path.IsNormal path := by
  obtain ⟨items, listed, hlists, hentries, hcollect⟩ := collectTabs_of_accepted haccepted
  refine ⟨items, listed, _, hlists, hcollect, hentries, ?_, fun tab htab => ?_⟩
  · simp [tabsOfPaths, List.forall₂_map_right_iff, List.forall₂_same]
  have hnormal : ∀ path, tab.path = some path → Path.IsNormal path := by
    rcases List.mem_append.mp htab with htab | htab
    · exact TabList.isNormal_of_entries hroot hentries tab htab
    · obtain ⟨given, -, rfl⟩ := List.mem_map.mp htab
      rintro path ⟨⟩
      exact Path.isNormal_normalize (Path.isAbsolute_join hcwd)
  cases hpath : tab.path with
  | none => exact .inl rfl
  | some path =>
    refine .inr ⟨path, rfl, ?_, hnormal path hpath⟩
    rintro rfl
    exact absurd (hnormal [] hpath).1 (by decide)

/-- A workspace with a tab list of paths that leave the root, that are doubly rooted, blank or
missing. -/
def strayPaths : Files.Tree :=
  let tabs : Text := "[\"../a.ts\", \x7b\"path\": \"//b//../c/./d.ts\"\x7d, \" \", "
    ++ "\x7b\"path\": 3, \"label\": \"none\"\x7d, \"/x/..\"]"
  ⟨[(["tabs.json"], .file (Text.Utf8.encode tabs))]⟩

def strayInputs : Inputs :=
  { paths := ["e.ts", "../../f//g.ts", "", "//h/.."], tabList := some "tabs.json", json := false }

theorem collects_normal_tabs_of_stray_paths :
    let tabs : List Tab :=
      [{ path := some "//a.ts" }, { path := some "//c/d.ts" }, { path := none },
        { path := none, label := "none" }, { path := some "/" }, { path := some "/e.ts" },
        { path := some "/f/g.ts" }, { path := some "/" }, { path := some "//" }]
    collectTabs strayPaths "/" "//srv" strayInputs = .ok tabs ∧
    ∃ items listed opened, Lists strayPaths "/" Json.commonNesting strayInputs.tabList items ∧
      collectTabs strayPaths "/" "//srv" strayInputs = .ok (listed ++ opened) ∧
      List.Forall₂ (fun item tab => TabList.entry "//srv" item = .ok tab) items listed ∧
      List.Forall₂ (fun path tab => tab.path = some (Path.absolute "/" path)) strayInputs.paths
        opened ∧
      ∀ tab ∈ listed ++ opened, tab.path = none ∨
        ∃ path, tab.path = some path ∧ path ≠ [] ∧ Path.IsNormal path := by
  intro tabs
  have hread : TabList.read strayPaths "/" "tabs.json" "//srv" = .ok (tabs.take 5) := by
    decide +kernel
  have haccepted : ∀ file ∈ strayInputs.tabList,
      ∃ listed, TabList.read strayPaths "/" file "//srv" = .ok listed := by
    rintro file ⟨⟩
    exact ⟨_, hread⟩
  refine ⟨?_, collects_normal_tabs (by decide) (by decide) haccepted⟩
  rw [collectTabs]
  simp only [strayInputs, hread]
  decide

end CommandLine

end EditorTabs
