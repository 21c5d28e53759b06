import EditorTabs.Proofs.Session.Calls

/-!
# Tabs in another order

Which tabs are open decides about the edges and the depths of their files, and so about the order of
the files. How the tabs stood before matters where a reference is equally close to several open
paths, and for the tabs that come last: no path and the empty path count the same there, and such
tabs stay as they stood.
-/
namespace EditorTabs

/-- No file that the files of some tabs refer to is equally close to several of them. -/
def Host.TieFree (host : Host) (tabs : List Tab) : Prop :=
  ∀ path ∈ Tab.files tabs, ∀ found, (Session.fresh.references host path).1 = .ok found →
    ∀ reference ∈ found, OpenPaths.TieFree leastShared (Text.distinct (Tab.files tabs)) reference

namespace Tab

variable {references : Text → List Text} {tabs tabs' : List Tab}

/-- The paths of those tabs that have no file, in tab order: no path, or the empty one. -/
def pathless (tabs : List Tab) : List (Option Text) :=
  (tabs.filter (·.file? = none)).map path

theorem path_of_file?_eq_some {tab : Tab} {path : Text} (h : tab.file? = some path) :
    tab.path = some path :=
  (Option.filter_eq_some_iff.mp h).1

/-- Once the tabs without a file come last, the paths are those of the files and then the others. -/
theorem map_path_eq_of_pathless_last
    (h : tabs.Pairwise fun a b => a.file? = none → b.file? = none) :
    tabs.map path = (files tabs).map some ++ pathless tabs := by
  induction tabs with
  | nil => rfl
  | cons tab rest ih =>
    obtain ⟨hlast, hrest⟩ := List.pairwise_cons.mp h
    cases hfile : tab.file? with
    | some file =>
      have hrest := ih hrest
      simp only [files, pathless] at hrest ⊢
      simp [hfile, hrest, path_of_file?_eq_some hfile]
    | none =>
      -- None of the tabs that follow has a file.
      have hnone : ∀ later ∈ rest, later.file? = none :=
        fun later hlater => hlast later hlater hfile
      have hfiles : files (tab :: rest) = [] :=
        List.filterMap_eq_nil_iff.mpr (List.forall_mem_cons.mpr ⟨hfile, hnone⟩)
      have hkept : (tab :: rest).filter (·.file? = none) = tab :: rest := by
        rw [List.filter_eq_self]
        simpa [hfile] using hnone
      rw [hfiles, pathless, hkept]
      rfl

/-- Where the empty path does not stand for no path, the tabs without a file are all alike. -/
theorem pathless_eq_of_perm (hp : tabs'.Perm tabs) (hne : ∀ tab ∈ tabs, tab.path ≠ some []) :
    pathless tabs' = pathless tabs := by
  have hperm : (pathless tabs').Perm (pathless tabs) := (hp.filter _).map path
  have hnone : ∀ shown ∈ pathless tabs, shown = none := by
    intro shown hshown
    obtain ⟨tab, htab, rfl⟩ := List.mem_map.mp hshown
    obtain ⟨hmem, hfile⟩ := List.mem_filter.mp htab
    cases hpath : tab.path with
    | none => rfl
    | some path =>
      have hnil : path = [] := by simpa [file?, hpath] using hfile
      exact absurd (hnil ▸ hpath) (hne tab hmem)
  rw [List.eq_replicate_of_mem hnone, List.eq_replicate_of_mem fun shown hshown =>
    hnone shown (hperm.mem_iff.mp hshown), hperm.length_eq]

theorem map_path_byImports (references : Text → List Text) (tabs : List Tab) :
    (byImports references tabs).map path =
      (files (byImports references tabs)).map some ++ pathless tabs := by
  have hlast : (byImports references tabs).Pairwise fun a b => a.file? = none → b.file? = none := by
    refine (pairwise_byImports references tabs).imp fun {a b} hab ha => ?_
    cases hb : b.file? with
    | none => rfl
    | some file => simp [Session.mayPrecede, ha, hb] at hab
  have hpathless : pathless (byImports references tabs) = pathless tabs := by
    rw [pathless, (importsFirst_byImports references tabs).pathless_stable, pathless]
  rw [map_path_eq_of_pathless_last hlast, hpathless]

end Tab

namespace Session

/-- What two sessions find in two lists of tabs is the same: the edges and the depth of every file,
and the paths in their order. Last come the tabs that have no path or the empty one, as they stood;
so all paths are the same when none is empty. -/
structure SameFindings (host : Host) (session session' : Session) (tabs tabs' : List Tab) :
    Prop where
  edges : ∃ edges edges', (session.edges host tabs).1 = .ok edges ∧
    (session'.edges host tabs').1 = .ok edges' ∧ ∀ path, edges.get? path = edges'.get? path
  depths : ∃ depths depths', (session.depths host tabs).1 = .ok depths ∧
    (session'.depths host tabs').1 = .ok depths' ∧ ∀ path, depths.get? path = depths'.get? path
  paths : ∃ sorted sorted', (session.order host tabs).1 = .ok sorted ∧
    (session'.order host tabs').1 = .ok sorted' ∧ Tab.files sorted = Tab.files sorted' ∧
    sorted.map Tab.path = (Tab.files sorted).map some ++ Tab.pathless tabs ∧
    sorted'.map Tab.path = (Tab.files sorted').map some ++ Tab.pathless tabs' ∧
    ((∀ tab ∈ tabs, tab.path ≠ some []) → sorted.map Tab.path = sorted'.map Tab.path)

variable {host : Host} {tabs tabs' : List Tab}

section

variable (hload : (Alias.load host none .unloaded {}).fault = none)

include hload

theorem tieFree_iff : host.TieFree tabs ↔ ∀ path ∈ Tab.files tabs,
    ∀ reference ∈ host.references path,
      OpenPaths.TieFree leastShared (Text.distinct (Tab.files tabs)) reference := by
  have hfound : ∀ path, (fresh.references host path).1 = .ok (host.references path) :=
    fun path => (steady_references hload path).fst_eq (coherent_fresh host)
  simp only [Host.TieFree, hfound, Except.ok.injEq, forall_eq']

/-- Without ties neither the order of the tabs nor what a session did before shows in the edges, the
depths and the order of the paths. -/
theorem sameFindings_of_perm (htie : host.TieFree tabs) (hp : tabs'.Perm tabs)
    (calls calls' : List Call) :
    SameFindings host (afterCalls host calls fresh) (afterCalls host calls' fresh) tabs tabs' := by
  have hc := coherent_afterCalls hload calls (coherent_fresh host)
  have hc' := coherent_afterCalls hload calls' (coherent_fresh host)
  have hfiles : ∀ path, path ∈ Tab.files tabs ↔ path ∈ Tab.files tabs' :=
    fun path => (hp.filterMap Tab.file?).mem_iff.symm
  have hedges : ∀ path, (Tab.edges host.references tabs).get? path =
      (Tab.edges host.references tabs').get? path :=
    Tab.get?_edges_of_tieFree hfiles ((tieFree_iff hload).mp htie)
  have hdepths : ∀ path, (Tab.depths host.references tabs').get? path =
      (Tab.depths host.references tabs).get? path := by
    apply Tab.get?_depths_congr fun path => (hfiles path).symm
    intro a b
    simp only [ImportGraph.out, hedges]
  constructor
  case edges =>
    exact ⟨_, _, (steady_edges hload tabs).fst_eq hc, (steady_edges hload tabs').fst_eq hc', hedges⟩
  case depths =>
    exact ⟨_, _, (steady_depths hload tabs).fst_eq hc, (steady_depths hload tabs').fst_eq hc',
      fun path => (hdepths path).symm⟩
  case paths =>
    have hfound : Tab.files (Tab.byImports host.references tabs) =
        Tab.files (Tab.byImports host.references tabs') := by
      have hmap := congrArg (List.filterMap id) (Tab.map_file?_byImports_congr hp hdepths)
      rw [List.filterMap_map, List.filterMap_map] at hmap
      exact hmap.symm
    have hpaths := Tab.map_path_byImports host.references tabs
    have hpaths' := Tab.map_path_byImports host.references tabs'
    refine ⟨_, _, (steady_order hload tabs).fst_eq hc, (steady_order hload tabs').fst_eq hc',
      hfound, hpaths, hpaths', fun hne => ?_⟩
    rw [hpaths, hpaths', hfound, Tab.pathless_eq_of_perm hp hne]

end

/-- A workspace in which a file imports another one that is not open but has two open copies, of
which one is closer. -/
def unequalCopies : Memory where
  files := [("/c/s/u", .bytes [])]
  buffers := [("/i", "require('/c/s/u')"), ("/b/s/u", ""), ("/a/c/s/u", "")]

theorem sameFindings_unequalCopies :
    let host := unequalCopies.host
    let tabs : List Tab :=
      [{ path := some "/b/s/u" }, { path := none }, { path := some "/a/c/s/u" },
        { path := some "/i" }]
    (Alias.load host none .unloaded {}).fault = none ∧ host.TieFree tabs ∧
      (tabs.reverse.Perm tabs) ∧
      SameFindings host fresh (afterCalls host [.order tabs] fresh) tabs tabs.reverse ∧
      (fresh.depths host tabs).1 = .ok [("/b/s/u", 0), ("/i", 0), ("/a/c/s/u", 1)] := by
  intro host tabs
  have hload : (Alias.load host none .unloaded {}).fault = none := by decide +kernel
  have htie : host.TieFree tabs := (tieFree_iff hload).mpr (by decide +kernel)
  have hperm : tabs.reverse.Perm tabs := List.reverse_perm tabs
  exact ⟨hload, htie, hperm, sameFindings_of_perm hload htie hperm [] [.order tabs],
    by decide +kernel⟩

/-- No path and the empty path come in the order in which they stood. -/
theorem not_forall_same_paths :
    ¬ ∀ (host : Host) (tabs tabs' sorted sorted' : List Tab),
      (Alias.load host none .unloaded {}).fault = none → host.TieFree tabs → tabs'.Perm tabs →
        (fresh.order host tabs).1 = .ok sorted → (fresh.order host tabs').1 = .ok sorted' →
          sorted.map Tab.path = sorted'.map Tab.path := by
  intro h
  let tabs : List Tab := [{ path := none }, { path := some [] }]
  have hload : (Alias.load (Memory.host {}) none .unloaded {}).fault = none := by decide +kernel
  have htie : (Memory.host {}).TieFree tabs := (tieFree_iff hload).mpr (by decide +kernel)
  have hdepths : (fresh.depths (Memory.host {}) tabs).1 = .ok [] := by decide +kernel
  have hdepths' : (fresh.depths (Memory.host {}) tabs.reverse).1 = .ok [] := by decide +kernel
  have horder : (fresh.order (Memory.host {}) tabs).1 = .ok tabs := by
    rw [order_of_depths (Prod.ext hdepths rfl), mergeSort_mayPrecede]
    rfl
  have horder' : (fresh.order (Memory.host {}) tabs.reverse).1 = .ok tabs.reverse := by
    rw [order_of_depths (Prod.ext hdepths' rfl), mergeSort_mayPrecede]
    rfl
  have hpaths := h (Memory.host {}) tabs tabs.reverse tabs tabs.reverse hload htie
    (List.reverse_perm tabs) horder horder'
  exact absurd hpaths (by decide)

end Session

end EditorTabs
