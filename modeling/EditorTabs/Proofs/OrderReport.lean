import EditorTabs.CommandLine.Run
import EditorTabs.Proofs.Session.Cache
import Mathlib.Data.List.Forall2

/-!
# The depths in a report

A report that explains the order by imports shows a depth beside each file. Every group stands in
the order of its own depths, but the depths are shown by path alone. So a file that is open in
several groups is shown with the depth that it has in the last of them.
-/
namespace EditorTabs

/-- The last of several groups in which a file is open. -/
def IsLastWith (groups : List Members) (path : Text) (members : Members) : Prop :=
  ∃ before later, groups = before ++ members :: later ∧ path ∈ Tab.files members.2 ∧
    ∀ others ∈ later, path ∉ Tab.files others.2

/-- What a report shows of the groups of a host's tabs, when a session finds their depths. -/
structure OrderReport.ShowsDepths (report : OrderReport) (host : Host) (session : Session) :
    Prop where
  /-- Each group is in the order of its own depths. -/
  own_order : List.Forall₂
    (fun members arranged => arranged.group = members.1 ∧ ∃ own,
      (session.depths host members.2).1 = .ok own ∧
        arranged.tabs = members.2.mergeSort (Session.mayPrecede own))
    (groupTabs host.tabs) report.groups
  pathless : ∀ tab : Tab, tab.file? = none → report.depth? tab = none
  /-- A file has the depth that it has in the last group in which it is open. -/
  last_depth : ∀ path members, IsLastWith (groupTabs host.tabs) path members → ∃ depths n,
    (session.depths host members.2).1 = .ok depths ∧ depths.get? path = some n ∧
      ∀ tab : Tab, tab.file? = some path → report.depth? tab = some n
  /-- So a group shows its own depths, and they never decrease, if no file of it is open in a later
  group. -/
  own_depth : ∀ before members later, groupTabs host.tabs = before ++ members :: later →
    (∀ path ∈ Tab.files members.2, ∀ others ∈ later, path ∉ Tab.files others.2) →
    ∃ own arranged, (session.depths host members.2).1 = .ok own ∧
      report.groups[before.length]? = some arranged ∧
      (∀ tab ∈ arranged.tabs, report.depth? tab = tab.file?.bind own.get?) ∧
      (arranged.tabs.filterMap report.depth?).Pairwise (· ≤ ·)

namespace CommandLine

variable {host : Host} {session after : Session} {report : OrderReport}

theorem depth?_of_file? {tab : Tab} {path : Text} (h : tab.file? = some path) :
    report.depth? tab = report.depths.get? path := by
  obtain ⟨hpath, -⟩ := Option.filter_eq_some_iff.mp h
  rw [OrderReport.depth?, hpath, Option.bind_some]

/-- The empty path is no file, so that depths of files give it none. -/
theorem depth?_of_file?_eq_none {tab : Tab} (h : tab.file? = none)
    (hnil : report.depths.get? [] = none) : report.depth? tab = none := by
  cases hpath : tab.path with
  | none => rw [OrderReport.depth?, hpath, Option.bind_none]
  | some path =>
    have hempty : path = [] := by simpa [Tab.file?, hpath] using h
    rw [OrderReport.depth?, hpath, hempty, Option.bind_some, hnil]

theorem nil_notMem_files (tabs : List Tab) : [] ∉ Tab.files tabs := by
  simp [Tab.files, Tab.file?]

def depthsByPath (references : Text → List Text) (groups : List Members) : Assoc Text Nat :=
  groups.foldl (fun found members => found.putAll (Tab.depths references members.2)) []

section

variable {references : Text → List Text} {groups : List Members}

theorem nodup_keys_depths (members : Members) : (Tab.depths references members.2).keys.Nodup :=
  (Tab.isLayered_depths references members.2).nodup_keys

theorem get?_depthsByPath_of_last {path : Text} {members : Members}
    (h : IsLastWith groups path members) :
    (depthsByPath references groups).get? path = (Tab.depths references members.2).get? path := by
  obtain ⟨before, later, rfl, hpath, hlater⟩ := h
  exact Assoc.get?_foldl_putAll_of_last (fun members : Members => Tab.depths references members.2)
    nodup_keys_depths (by simpa using hpath) (by simpa using hlater) before []

theorem get?_depthsByPath_nil : (depthsByPath references groups).get? [] = none :=
  Assoc.get?_foldl_putAll_of_notMem (fun members : Members => Tab.depths references members.2)
    nodup_keys_depths groups [] (by simp [nil_notMem_files])

end

/-- Once the references of all files are known, the report shows their depths by path. -/
theorem showsDepths_of_knows
    (hknows : ∀ members ∈ groupTabs host.tabs, session.Knows (Tab.files members.2))
    (hgroups : report.groups = (groupTabs host.tabs).map (Members.byImports session.known))
    (hdepths : report.depths = depthsByPath session.known (groupTabs host.tabs)) :
    report.ShowsDepths host session := by
  have hown : ∀ members ∈ groupTabs host.tabs,
      (session.depths host members.2).1 = .ok (Tab.depths session.known members.2) :=
    fun members hm => by rw [Session.depths_of_knows (hknows members hm)]
  have hlast : ∀ path members, IsLastWith (groupTabs host.tabs) path members →
      ∀ tab : Tab, tab.file? = some path →
        report.depth? tab = (Tab.depths session.known members.2).get? path := by
    intro path members hmembers tab htab
    rw [depth?_of_file? htab, hdepths, get?_depthsByPath_of_last hmembers]
  have hpathless : ∀ tab : Tab, tab.file? = none → report.depth? tab = none :=
    fun tab htab => depth?_of_file?_eq_none htab (hdepths ▸ get?_depthsByPath_nil)
  constructor
  case own_order =>
    rw [hgroups, List.forall₂_map_right_iff, List.forall₂_same]
    exact fun members hm => ⟨rfl, _, hown members hm, rfl⟩
  case pathless => exact hpathless
  case last_depth =>
    intro path members hmembers
    obtain ⟨before, later, hsplit, hpath, -⟩ := id hmembers
    have hm : members ∈ groupTabs host.tabs := by simp [hsplit]
    have hkey : path ∈ (Tab.depths session.known members.2).keys := Tab.mem_keys_depths.mpr hpath
    obtain ⟨n, hn⟩ := Assoc.exists_get?_of_mem_keys hkey
    refine ⟨_, n, hown members hm, hn, fun tab htab => ?_⟩
    rw [hlast path members hmembers tab htab, hn]
  case own_depth =>
    intro before members later hsplit hlater
    have hm : members ∈ groupTabs host.tabs := by simp [hsplit]
    have hshown : ∀ tab ∈ Tab.byImports session.known members.2,
        report.depth? tab = tab.file?.bind (Tab.depths session.known members.2).get? := by
      intro tab htab
      cases hfile : tab.file? with
      | none => rw [hpathless tab hfile, Option.bind_none]
      | some path =>
        have hpath : path ∈ Tab.files members.2 :=
          List.mem_filterMap.mpr ⟨tab, Tab.byImports_perm.mem_iff.mp htab, hfile⟩
        rw [hlast path members ⟨before, later, hsplit, hpath, hlater path hpath⟩ tab hfile,
          Option.bind_some]
    refine ⟨_, Members.byImports session.known members, hown members hm, ?_, hshown, ?_⟩
    · simp [hgroups, hsplit]
    · have hpairwise := Tab.pairwise_depths_byImports session.known members.2
      rwa [← List.filterMap_congr hshown] at hpairwise

theorem orderReport_of_arrange {groups : List Arranged}
    (h : arrange .imports host host.tabs session = (.ok groups, after)) :
    ∃ last, orderReport host .imports true session =
      (.ok { strategy := .imports, groups
             depths := depthsByPath after.known (groupTabs host.tabs) }, last) ∧
      last.cache = after.cache := by
  obtain ⟨-, hknows, -⟩ := Session.arrangeGroups_ok h
  obtain ⟨last, hlast, hcache⟩ := Session.depthsOfGroups_of_knows hknows []
  refine ⟨last, ?_, hcache⟩
  have hdepths : after.groupDepths host host.tabs =
      (.ok (depthsByPath after.known (groupTabs host.tabs)), last) := hlast
  simp only [orderReport, h, and_self, if_true, hdepths]

/-- Whenever the groups can be arranged, the order by imports can be explained, by the depths that
the files have in the last groups in which they are open. -/
theorem showsDepths_of_arrange {groups : List Arranged}
    (h : arrange .imports host host.tabs session = (.ok groups, after)) :
    ∃ report last, orderReport host .imports true session = (.ok report, last) ∧
      report.groups = groups ∧ report.ShowsDepths host last := by
  obtain ⟨rfl, hknows, -⟩ := Session.arrangeGroups_ok h
  obtain ⟨last, hreport, hcache⟩ := orderReport_of_arrange h
  have hknown : last.known = after.known := by
    funext path
    rw [Session.known, Session.known, hcache]
  refine ⟨_, last, hreport, rfl, showsDepths_of_knows ?_ ?_ ?_⟩
  · intro members hm path hp
    rw [hcache]
    exact hknows members hm path hp
  · rw [hknown]
  · rw [hknown]

/-- Three files, of which the first two import the next; the last is also open in a second group,
alone. -/
def sharedChain : Host :=
  let tree : Files.Tree :=
    ⟨[(["a"], .file (Text.Utf8.encode "require('./b')")),
      (["b"], .file (Text.Utf8.encode "require('./c')")), (["c"], .file [])]⟩
  let tabs : List Tab :=
    [{ path := some "/a" }, { path := some "/b" }, { path := some "/c" },
      { path := some "/c", group := .number 1 }]
  Local.host { tabs } tree "/"

theorem showsDepths_sharedChain :
    ∃ groups after, arrange .imports sharedChain sharedChain.tabs .fresh = (.ok groups, after) ∧
      ∃ report last, orderReport sharedChain .imports true .fresh = (.ok report, last) ∧
        report.groups = groups ∧ report.ShowsDepths sharedChain last := by
  have hok : (arrange .imports sharedChain sharedChain.tabs .fresh).1.isOk = true := by
    decide +kernel
  rcases harrange : arrange .imports sharedChain sharedChain.tabs .fresh with ⟨_ | groups, after⟩
  · simp [harrange, Except.isOk, Except.toBool] at hok
  · exact ⟨groups, after, rfl, showsDepths_of_arrange harrange⟩

/-- The last file has depth two in the first group, in which both others lead to it, but is shown
there with the depth that it has when it is alone. -/
theorem depths_not_of_own_group :
    ¬ ∀ (host : Host) (session after : Session) (report : OrderReport),
      orderReport host .imports true session = (.ok report, after) →
        ∀ members ∈ groupTabs host.tabs, ∃ own, (after.depths host members.2).1 = .ok own ∧
          ∀ tab ∈ members.2, report.depth? tab = tab.file?.bind own.get? := by
  intro h
  have hshown : (orderReport sharedChain .imports true .fresh).1.map OrderReport.depths =
      .ok [("/a", 0), ("/b", 1), ("/c", 0)] := by decide +kernel
  have hfirst : ((orderReport sharedChain .imports true .fresh).2.depths sharedChain
      (sharedChain.tabs.take 3)).1 = .ok [("/a", 0), ("/b", 1), ("/c", 2)] := by decide +kernel
  rcases hreport : orderReport sharedChain .imports true .fresh with ⟨_ | report, after⟩
  · simp [hreport, Except.map] at hshown
  · rw [hreport] at hshown hfirst
    obtain ⟨own, hown, hdepth⟩ :=
      h _ _ _ _ hreport (.number 0, sharedChain.tabs.take 3) (by decide)
    obtain rfl := Except.ok.inj (hown.symm.trans hfirst)
    have hc := hdepth { path := some "/c" } (by decide)
    rw [OrderReport.depth?, Except.ok.inj hshown] at hc
    exact absurd hc (by decide)

end CommandLine

end EditorTabs
