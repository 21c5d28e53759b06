import EditorTabs.CommandLine.Run
import EditorTabs.Proofs.Session.Cache

/-!
# The graph in a report

The report of the import graph finds the edges and the depths of the tabs one after the other and
lists the files by depth, while the order by imports sorts the tabs themselves. Both come to the
same: the files of the report are those of the ordered tabs, each once, with the depths that the
tabs were ordered by.
-/
namespace EditorTabs

/-- A report on the graph of some tabs that fits their order by some depths. -/
structure GraphReport.Agrees (report : GraphReport) (depths : Assoc Text Nat)
    (sorted : List Tab) : Prop where
  /-- The files come as in the order, without copies and without tabs that have no path. -/
  files_eq : report.ranked.map Prod.fst = Text.distinct (Tab.files sorted)
  depth_eq : ∀ path depth, (path, depth) ∈ report.ranked → depths.get? path = some depth
  /-- No edge leads to a file that is listed with a smaller depth. -/
  edge_le : ∀ source target, (source, target) ∈ report.pairs →
    ∃ m n, (source, m) ∈ report.ranked ∧ (target, n) ∈ report.ranked ∧ m ≤ n

namespace GraphReport

variable {report : GraphReport}

theorem ranked_perm (report : GraphReport) : report.ranked.Perm report.depths :=
  List.mergeSort_perm _ _

theorem pairwise_ranked (report : GraphReport) :
    report.ranked.Pairwise fun a b => a.2 < b.2 ∨ a.2 = b.2 ∧ a.1 ≤ b.1 := by
  have trans : ∀ a b c : Text × Nat, (a.2 < b.2 || a.2 = b.2 && decide (a.1 ≤ b.1)) = true →
      (b.2 < c.2 || b.2 = c.2 && decide (b.1 ≤ c.1)) = true →
      (a.2 < c.2 || a.2 = c.2 && decide (a.1 ≤ c.1)) = true := by
    intro a b c hab hbc
    simp only [Bool.or_eq_true, Bool.and_eq_true, decide_eq_true_eq] at *
    exact Text.ranked_trans hab hbc
  have total : ∀ a b : Text × Nat, ((a.2 < b.2 || a.2 = b.2 && decide (a.1 ≤ b.1)) ||
      (b.2 < a.2 || b.2 = a.2 && decide (b.1 ≤ a.1))) = true := by
    intro a b
    simp only [Bool.or_eq_true, Bool.and_eq_true, decide_eq_true_eq]
    exact Text.ranked_total a.2 b.2 a.1 b.1
  simpa only [ranked, Bool.or_eq_true, Bool.and_eq_true, decide_eq_true_eq] using
    List.pairwise_mergeSort trans total report.depths

theorem get?_of_mem_ranked (hnodup : report.depths.keys.Nodup) {path : Text} {depth : Nat}
    (h : (path, depth) ∈ report.ranked) : report.depths.get? path = some depth :=
  Assoc.get?_eq_some_of_mem hnodup (report.ranked_perm.mem_iff.mp h)

theorem pairwise_fileOrder_ranked (hnodup : report.depths.keys.Nodup) :
    (report.ranked.map Prod.fst).Pairwise
      fun p q => Session.FileOrder report.depths (some p) (some q) := by
  rw [List.pairwise_map]
  refine report.pairwise_ranked.imp_of_mem fun {a b} ha hb hab => ?_
  rw [Session.FileOrder, get?_of_mem_ranked hnodup ha, get?_of_mem_ranked hnodup hb]
  exact hab

end GraphReport

namespace Tab

variable {references : Text → List Text} {tabs : List Tab}

theorem pairwise_files_byImports (references : Text → List Text) (tabs : List Tab) :
    (files (byImports references tabs)).Pairwise
      fun p q => Session.FileOrder (depths references tabs) (some p) (some q) := by
  rw [files, List.pairwise_filterMap]
  refine (pairwise_byImports references tabs).imp fun {a b} hab p hp q hq => ?_
  have horder := Session.mayPrecede_iff.mp hab
  rwa [hp, hq] at horder

def graphReport (references : Text → List Text) (tabs : List Tab) : GraphReport where
  edges := edges references tabs
  depths := depths references tabs

theorem ranked_graphReport (references : Text → List Text) (tabs : List Tab) :
    (graphReport references tabs).ranked.map Prod.fst =
      Text.distinct (files (byImports references tabs)) := by
  have hnodup : (graphReport references tabs).depths.keys.Nodup :=
    (isLayered_depths references tabs).nodup_keys
  have hkeys : ((graphReport references tabs).ranked.map Prod.fst).Perm
      (depths references tabs).keys := (graphReport references tabs).ranked_perm.map Prod.fst
  have hperm : ((graphReport references tabs).ranked.map Prod.fst).Perm
      (Text.distinct (files (byImports references tabs))) := by
    refine hkeys.trans ((List.perm_ext_iff_of_nodup hnodup (Text.nodup_distinct _)).mpr ?_)
    intro path
    have hfiles : path ∈ files (byImports references tabs) ↔ path ∈ files tabs :=
      (byImports_perm.filterMap file?).mem_iff
    rw [Text.mem_distinct, hfiles]
    exact mem_keys_depths
  refine hperm.eq_of_pairwise (fun p q _ _ hpq hqp => ?_)
    (GraphReport.pairwise_fileOrder_ranked hnodup)
    ((pairwise_files_byImports references tabs).sublist (Text.distinct_sublist _))
  exact Option.some.inj (hpq.antisymm hqp)

theorem mem_out_of_mem_pairs {source target : Text}
    (h : (source, target) ∈ (graphReport references tabs).pairs) :
    target ∈ (edges references tabs).out source := by
  simp only [GraphReport.pairs, List.mem_flatMap, List.mem_map] at h
  obtain ⟨⟨path, targets⟩, hmem, target', htarget, heq⟩ := h
  cases heq
  have hnodup : (edges references tabs).keys.Nodup := by
    rw [edges, ImportGraph.keys_edges]
    exact Text.nodup_distinct _
  rw [ImportGraph.out, Assoc.get?_eq_some_of_mem hnodup hmem, Option.getD_some]
  exact htarget

theorem agrees_graphReport (references : Text → List Text) (tabs : List Tab) :
    (graphReport references tabs).Agrees (depths references tabs) (byImports references tabs) := by
  have hnodup := (isLayered_depths references tabs).nodup_keys
  constructor
  case files_eq => exact ranked_graphReport references tabs
  case depth_eq => exact fun path depth h => GraphReport.get?_of_mem_ranked hnodup h
  case edge_le =>
    intro source target h
    obtain ⟨m, n, hm, hn, hle, -⟩ :=
      (importsFirst_byImports references tabs).depth_le source target (mem_out_of_mem_pairs h)
    have hlisted {path : Text} {depth : Nat}
        (hdepth : (depths references tabs).get? path = some depth) :
        (path, depth) ∈ (graphReport references tabs).ranked :=
      (graphReport references tabs).ranked_perm.mem_iff.mpr (Assoc.mem_of_get? hdepth)
    exact ⟨m, n, hlisted hm, hlisted hn, hle⟩

end Tab

namespace CommandLine

variable {host : Host} {session after : Session} {sorted : List Tab}

/-- When the tabs can be ordered, the session that did so has found out all that is reported. -/
theorem graphReport_of_order (h : session.order host host.tabs = (.ok sorted, after)) :
    graphReport host session = (.ok (Tab.graphReport after.known host.tabs), after) := by
  obtain ⟨hbuild, -⟩ := Session.buildGraph_of_order h
  obtain ⟨-, hgraph, hknows, -⟩ := Session.order_ok h
  have hafter : { after with graph := Tab.graph after.known host.tabs } = after := by
    rw [← hgraph]
  simp only [graphReport, Session.edges_of_buildGraph hbuild, Session.depths_of_knows hknows,
    hafter]
  rfl

theorem exists_order_of_graphReport {report : GraphReport}
    (h : graphReport host session = (.ok report, after)) :
    ∃ sorted last, session.order host host.tabs = (.ok sorted, last) := by
  unfold graphReport at h
  split at h
  · cases h
  · next hedges => exact ⟨_, _, Session.order_of_depths (Session.depths_of_edges hedges)⟩

/-- The graph is reported whenever the tabs can be ordered, and the report agrees with the order:
what it shows are the edges, and then the files of the ordered tabs with the depths that they were
ordered by. -/
theorem graph_agrees_with_order (host : Host) :
    (∀ session : Session, (∃ report last, graphReport host session = (.ok report, last)) ↔
      ∃ sorted after, session.order host host.tabs = (.ok sorted, after)) ∧
    (∀ session report last sorted after, graphReport host session = (.ok report, last) →
      session.order host host.tabs = (.ok sorted, after) →
      ∃ depths, session.depths host host.tabs = (.ok depths, after) ∧
        sorted = host.tabs.mergeSort (Session.mayPrecede depths) ∧
        report.Agrees depths sorted) ∧
    ∀ report last tree, graphReport host .fresh = (.ok report, last) →
      (runGraph tree host false).status = .ok 0 ∧
      (runGraph tree host false).output =
        unlines ((report.pairs.map fun (source, target) => source ++ " -> " ++ target) ++
          report.ranked.map fun (path, depth) => Text.ofNat depth ++ "\t" ++ path) := by
  refine ⟨fun session => ⟨?_, ?_⟩, ?_, ?_⟩
  · rintro ⟨report, last, h⟩
    exact exists_order_of_graphReport h
  · rintro ⟨sorted, after, h⟩
    exact ⟨_, _, graphReport_of_order h⟩
  · intro session report last sorted after hreport horder
    cases (graphReport_of_order horder).symm.trans hreport
    obtain ⟨hbuild, rfl⟩ := Session.buildGraph_of_order horder
    have hdepths := Session.depths_of_edges (Session.edges_of_buildGraph hbuild)
    exact ⟨_, hdepths, rfl, Tab.agrees_graphReport _ host.tabs⟩
  · intro report last tree hreport
    rw [runGraph, hreport]
    exact ⟨rfl, rfl⟩

/-- A workspace in which one file imports a member of a ring of two. -/
def ringTree : Files.Tree :=
  ⟨[(["m"], .file (Text.Utf8.encode "require('./x')")),
    (["x"], .file (Text.Utf8.encode "require('./y')")),
    (["y"], .file (Text.Utf8.encode "require('./x')"))]⟩

/-- The tabs of that workspace, one file twice, and one tab without a path. -/
def ringHost : Host :=
  let tabs : List Tab :=
    [{ path := some "/y" }, { path := none }, { path := some "/m", label := "1" },
      { path := some "/x" }, { path := some "/m", label := "2" }]
  Local.host { tabs } ringTree "/"

theorem graph_agrees_with_order_ring :
    ∃ report last sorted after, graphReport ringHost .fresh = (.ok report, last) ∧
      Session.fresh.order ringHost ringHost.tabs = (.ok sorted, after) ∧
      Tab.files sorted = ["/m", "/m", "/x", "/y"] ∧
      (∃ depths, Session.fresh.depths ringHost ringHost.tabs = (.ok depths, after) ∧
        sorted = ringHost.tabs.mergeSort (Session.mayPrecede depths) ∧
        report.Agrees depths sorted) ∧
      (runGraph ringTree ringHost false).output =
        unlines ((report.pairs.map fun (source, target) => source ++ " -> " ++ target) ++
          report.ranked.map fun (path, depth) => Text.ofNat depth ++ "\t" ++ path) := by
  obtain ⟨hreturns, hagrees, hshown⟩ := graph_agrees_with_order ringHost
  have hdepths : (Session.fresh.depths ringHost ringHost.tabs).1 =
      .ok [("/m", 0), ("/x", 2), ("/y", 2)] := by decide +kernel
  have horder := Session.order_of_depths (Prod.ext hdepths rfl)
  obtain ⟨report, last, hreport⟩ := (hreturns .fresh).mpr ⟨_, _, horder⟩
  refine ⟨report, last, _, _, hreport, horder, ?_, hagrees _ _ _ _ _ hreport horder,
    (hshown report last ringTree hreport).2⟩
  rw [Session.mergeSort_mayPrecede]
  decide +kernel

end CommandLine

end EditorTabs
