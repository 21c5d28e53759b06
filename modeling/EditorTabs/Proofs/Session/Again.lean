import EditorTabs.Host.Memory
import EditorTabs.Proofs.Session.Cache

/-!
# Ordering again

A reference to a file that is not open stands for the first of several open paths that are equally
close to it. So the order of the tabs can change the edges, and with them the order of the tabs:
ordering what was just ordered may give another list. It gives the same list when the edges are
still the same, as they are without such ties.
-/
namespace EditorTabs

namespace Tab

variable {references : Text → List Text} {tabs tabs' : List Tab}

theorem files_byImports_perm : (files (byImports references tabs)).Perm (files tabs) :=
  byImports_perm.filterMap file?

/-- Tabs that were ordered stay as they are when their new order leaves the edges alone. -/
theorem byImports_byImports
    (h : ∀ a b, b ∈ (edges references tabs).out a ↔
      b ∈ (edges references (byImports references tabs)).out a) :
    byImports references (byImports references tabs) = byImports references tabs := by
  have hdepths := get?_depths_congr (fun path => files_byImports_perm.mem_iff.symm) h
  conv_lhs => rw [byImports, ← Session.mayPrecede_congr hdepths]
  exact List.mergeSort_of_pairwise (pairwise_byImports references tabs)

end Tab

namespace Session

variable {host : Host} {session after : Session} {tabs tabs' sorted : List Tab}

/-- A session that finds the same edges in two lists of tabs. -/
def SameEdges (host : Host) (session : Session) (tabs tabs' : List Tab) : Prop :=
  ∃ edges edges' after after', session.edges host tabs = (.ok edges, after) ∧
    session.edges host tabs' = (.ok edges', after') ∧ ∀ a b, b ∈ edges.out a ↔ b ∈ edges'.out a

def TieFree (session : Session) (tabs : List Tab) : Prop :=
  ∀ path ∈ Tab.files tabs, ∀ reference ∈ session.known path,
    OpenPaths.TieFree leastShared (Text.distinct (Tab.files tabs)) reference

instance (session : Session) (tabs : List Tab) : Decidable (session.TieFree tabs) :=
  inferInstanceAs <| Decidable <| ∀ path ∈ Tab.files tabs, ∀ reference ∈ session.known path,
    OpenPaths.TieFree leastShared (Text.distinct (Tab.files tabs)) reference

theorem sameEdges_iff (h : session.Knows (Tab.files tabs)) (h' : session.Knows (Tab.files tabs')) :
    session.SameEdges host tabs tabs' ↔ ∀ a b, b ∈ (Tab.edges session.known tabs).out a ↔
      b ∈ (Tab.edges session.known tabs').out a := by
  constructor
  · rintro ⟨edges, edges', _, _, he, he', hsame⟩
    rw [edges_of_knows h] at he
    rw [edges_of_knows h'] at he'
    cases he
    cases he'
    exact hsame
  · exact fun hsame => ⟨_, _, _, _, edges_of_knows h, edges_of_knows h', hsame⟩

/-- Without ties the order of the tabs does not change the edges. -/
theorem sameEdges_of_tieFree (h : session.Knows (Tab.files tabs)) (hp : tabs'.Perm tabs)
    (htie : session.TieFree tabs) : session.SameEdges host tabs tabs' := by
  have hfiles : ∀ path, path ∈ Tab.files tabs ↔ path ∈ Tab.files tabs' :=
    fun path => (hp.filterMap Tab.file?).mem_iff.symm
  refine (sameEdges_iff h (h.of_perm hp)).mpr fun a b => ?_
  rw [ImportGraph.out, ImportGraph.out, Tab.get?_edges_of_tieFree hfiles htie]

/-- The same tabs get the same order again, and nothing is left to be found out. -/
theorem order_same_tabs (h : session.order host tabs = (.ok sorted, after)) :
    after.order host tabs = (.ok sorted, after) := by
  obtain ⟨rfl, hgraph, hknows, -⟩ := order_ok h
  rw [order_of_knows hknows, ← hgraph]

theorem order_ordered (h : session.order host tabs = (.ok sorted, after)) :
    ∃ again last, after.order host sorted = (.ok again, last) ∧ again.Perm sorted ∧
      (after.SameEdges host tabs sorted → again = sorted) := by
  obtain ⟨rfl, -, hknows, -⟩ := order_ok h
  have hsorted : after.Knows (Tab.files (Tab.byImports after.known tabs)) :=
    hknows.of_perm Tab.byImports_perm
  refine ⟨_, _, order_of_knows hsorted, Tab.byImports_perm, fun hsame => ?_⟩
  exact Tab.byImports_byImports ((sameEdges_iff hknows hsorted).mp hsame)

/-- When the tabs of every group stand as they were arranged, and still have the same edges, nothing
is left to be moved. -/
theorem arrange_arranged {results : List Arranged}
    (h : arrange .imports host tabs session = (.ok results, after))
    (hsame : ∀ members ∈ groupTabs tabs, ∀ result ∈ results, result.group = members.1 →
      after.SameEdges host members.2 result.tabs)
    (htabs : ∀ members ∈ groupTabs tabs', ∃ result ∈ results, members.2 = result.tabs) :
    ∃ again last, arrange .imports host tabs' after = (.ok again, last) ∧
      ∀ result ∈ again, result.changed = false := by
  obtain ⟨rfl, hknows, -⟩ := arrangeGroups_ok h
  have hsettled : ∀ members ∈ groupTabs tabs', after.Knows (Tab.files members.2) ∧
      Tab.byImports after.known members.2 = members.2 := by
    intro members hmem
    obtain ⟨result, hr, heq⟩ := htabs members hmem
    obtain ⟨origin, horigin, rfl⟩ := List.mem_map.mp hr
    have hedges := hsame origin horigin _ hr rfl
    have hordered : after.Knows (Tab.files (Tab.byImports after.known origin.2)) :=
      (hknows origin horigin).of_perm Tab.byImports_perm
    rw [heq]
    exact ⟨hordered,
      Tab.byImports_byImports ((sameEdges_iff (hknows origin horigin) hordered).mp hedges)⟩
  obtain ⟨last, harrange⟩ := arrangeGroups_of_knows fun members hmem => (hsettled members hmem).1
  refine ⟨_, last, harrange, fun result hr => ?_⟩
  obtain ⟨members, hmem, rfl⟩ := List.mem_map.mp hr
  simp [Members.byImports, Tab.sameList, (hsettled members hmem).2]

/-- Ordering again changes nothing while the tabs are given in the same order, or while their new
order leaves the edges alone; and it does so without ties. -/
theorem order_again (host : Host) (session : Session) (tabs : List Tab) :
    (∀ sorted after, session.order host tabs = (.ok sorted, after) →
      after.order host tabs = (.ok sorted, after) ∧
      ∃ again last, after.order host sorted = (.ok again, last) ∧ again.Perm sorted ∧
        (after.SameEdges host tabs sorted → again = sorted) ∧
        (after.TieFree tabs → after.SameEdges host tabs sorted)) ∧
    ∀ results after, arrange .imports host tabs session = (.ok results, after) →
      (∀ members ∈ groupTabs tabs, ∀ result ∈ results, result.group = members.1 →
        after.SameEdges host members.2 result.tabs) →
      ∀ tabs', (∀ members ∈ groupTabs tabs', ∃ result ∈ results, members.2 = result.tabs) →
        ∃ again last, arrange .imports host tabs' after = (.ok again, last) ∧
          ∀ result ∈ again, result.changed = false := by
  constructor
  · intro sorted after h
    obtain ⟨rfl, -, hknows, -⟩ := order_ok h
    obtain ⟨again, last, hagain, hperm, hsame⟩ := order_ordered h
    refine ⟨order_same_tabs h, again, last, hagain, hperm, hsame, fun htie => ?_⟩
    exact sameEdges_of_tieFree hknows Tab.byImports_perm htie
  · exact fun results after h hsame tabs' htabs => arrange_arranged h hsame htabs

/-- A workspace in which a file imports another one that is not open but has two open copies. -/
def copies : Memory where
  files := [("/c/s/u", .bytes [])]
  buffers := [("/i", "require('/c/s/u')"), ("/a/s/u", ""), ("/b/s/u", "")]

def showing (paths : List Text) : List Tab :=
  paths.map fun path => { path := some path }

theorem order_one_copy_again :
    ∃ sorted after last, fresh.order copies.host (showing ["/b/s/u", "/i"]) = (.ok sorted, after) ∧
      sorted = showing ["/i", "/b/s/u"] ∧ after.order copies.host sorted = (.ok sorted, last) ∧
      ∃ results again last,
        arrange .imports copies.host (showing ["/b/s/u", "/i"]) fresh = (.ok results, after) ∧
          results = [⟨.number 0, sorted, true⟩] ∧
          arrange .imports copies.host sorted after = (.ok again, last) ∧
          ∀ result ∈ again, result.changed = false := by
  have hdepths : (fresh.depths copies.host (showing ["/b/s/u", "/i"])).1 =
      .ok [("/i", 0), ("/b/s/u", 1)] := by decide +kernel
  have htie : (fresh.depths copies.host (showing ["/b/s/u", "/i"])).2.TieFree
      (showing ["/b/s/u", "/i"]) := by decide +kernel
  have hsorted : (showing ["/b/s/u", "/i"]).mergeSort (mayPrecede [("/i", 0), ("/b/s/u", 1)]) =
      showing ["/i", "/b/s/u"] := by
    rw [mergeSort_mayPrecede]
    decide +kernel
  have horder := order_of_depths (Prod.ext hdepths rfl)
  rw [hsorted] at horder
  have hgroup : groupTabs (showing ["/b/s/u", "/i"]) =
      [(.number 0, showing ["/b/s/u", "/i"])] := by decide
  have harrange : arrange .imports copies.host (showing ["/b/s/u", "/i"]) fresh =
      (.ok [⟨.number 0, showing ["/i", "/b/s/u"], true⟩],
        (fresh.depths copies.host (showing ["/b/s/u", "/i"])).2) := by
    simp only [arrange, hgroup, arrangeGroups, Strategy.order, horder]
    rfl
  obtain ⟨horders, harranges⟩ := order_again copies.host fresh (showing ["/b/s/u", "/i"])
  obtain ⟨-, again, last, hagain, -, hstays, hsame⟩ := horders _ _ horder
  obtain rfl := hstays (hsame htie)
  obtain ⟨results, last', hresults, hchanged⟩ := harranges _ _ harrange
    (by simpa [hgroup] using hsame htie) (showing ["/i", "/b/s/u"]) (by decide)
  exact ⟨_, _, last, horder, rfl, hagain, _, results, last', harrange, rfl, hresults, hchanged⟩

/-- The edge leads to the copy that was opened first, each order moves that copy behind the other
one, and so every order is undone by the next. -/
theorem order_not_idempotent :
    ¬ ∀ (host : Host) (session after : Session) (tabs sorted : List Tab),
      session.order host tabs = (.ok sorted, after) →
        ∃ last, after.order host sorted = (.ok sorted, last) := by
  intro h
  have hdepths : (fresh.depths copies.host (showing ["/i", "/b/s/u", "/a/s/u"])).1 =
      .ok [("/i", 0), ("/a/s/u", 0), ("/b/s/u", 1)] := by decide +kernel
  have hsorted : (showing ["/i", "/b/s/u", "/a/s/u"]).mergeSort
      (mayPrecede [("/i", 0), ("/a/s/u", 0), ("/b/s/u", 1)]) =
        showing ["/a/s/u", "/i", "/b/s/u"] := by
    rw [mergeSort_mayPrecede]
    decide +kernel
  obtain ⟨last, hagain⟩ := h _ _ _ _ _ (order_of_depths (Prod.ext hdepths rfl))
  rw [hsorted] at hagain
  have hdepths' : ((fresh.depths copies.host (showing ["/i", "/b/s/u", "/a/s/u"])).2.depths
      copies.host (showing ["/a/s/u", "/i", "/b/s/u"])).1 =
        .ok [("/i", 0), ("/b/s/u", 0), ("/a/s/u", 1)] := by decide +kernel
  have hsorted' : (showing ["/a/s/u", "/i", "/b/s/u"]).mergeSort
      (mayPrecede [("/i", 0), ("/b/s/u", 0), ("/a/s/u", 1)]) =
        showing ["/b/s/u", "/i", "/a/s/u"] := by
    rw [mergeSort_mayPrecede]
    decide +kernel
  rw [order_of_depths (Prod.ext hdepths' rfl), hsorted'] at hagain
  exact absurd (Prod.mk.inj hagain).1 (by decide)

end Session

end EditorTabs
