import EditorTabs.Host.Memory
import EditorTabs.Proofs.Session.Cache

/-!
# The order of a session

A session orders tabs by the depths that it gives out itself: what `edges` and `depths` answer is
what the order honours.
-/
namespace EditorTabs.Session

variable {host : Host} {session after : Session} {tabs sorted : List Tab}

/-- Whatever the session knew before, an order that succeeds puts importers first: it honours the
edges and the depths which the same session finds for the same tabs. -/
theorem importsFirst_of_order (h : session.order host tabs = (.ok sorted, after)) :
    ∃ edges depths, session.edges host tabs = (.ok edges, after) ∧
      session.depths host tabs = (.ok depths, after) ∧ ImportsFirst edges depths tabs sorted := by
  obtain ⟨hbuild, rfl⟩ := buildGraph_of_order h
  have hedges := edges_of_buildGraph hbuild
  exact ⟨_, _, hedges, depths_of_edges hedges, Tab.importsFirst_byImports after.known tabs⟩

/-- A workspace in which one file imports a member of a ring of two. -/
def ringBelowImporter : Memory where
  files := [("/p/x", .bytes []), ("/p/y", .bytes [])]
  buffers := [("/p/m", "require('./x')"), ("/p/x", "require('./y')"), ("/p/y", "require('./x')")]

/-- The tabs of that workspace, the importer twice, and one tab without a path. -/
def ringTabs : List Tab :=
  [{ path := none }, { path := some "/p/y" }, { path := some "/p/m", label := "1" },
    { path := some "/p/x" }, { path := some "/p/m", label := "2" }]

theorem importsFirst_ring :
    ∃ sorted after, fresh.order ringBelowImporter.host ringTabs = (.ok sorted, after) ∧
      Tab.files sorted = ["/p/m", "/p/m", "/p/x", "/p/y"] ∧
      ∃ edges depths, fresh.edges ringBelowImporter.host ringTabs = (.ok edges, after) ∧
        fresh.depths ringBelowImporter.host ringTabs = (.ok depths, after) ∧
        ImportsFirst edges depths ringTabs sorted := by
  have hdepths : (fresh.depths ringBelowImporter.host ringTabs).1 =
      .ok [("/p/m", 0), ("/p/x", 2), ("/p/y", 2)] := by decide +kernel
  have horder := order_of_depths (Prod.ext hdepths rfl)
  refine ⟨_, _, horder, ?_, importsFirst_of_order horder⟩
  rw [mergeSort_mayPrecede]
  decide +kernel

end EditorTabs.Session
