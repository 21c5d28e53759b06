import EditorTabs.Proofs.Groups
import EditorTabs.Proofs.Session.Calls

/-!
# Arranging by groups

All groups are arranged in one session, one after the other. Still each group is arranged as if it
stood alone: what comes out for it is determined by its own tabs.
-/
namespace EditorTabs

/-- The groups of a list of tabs, arranged: each group once, in the order in which they first come
up and under the name of its first tab, with its own tabs. Their order is a new one if it is not the
one that the tabs had. -/
structure ByGroup (tabs : List Tab) (results : List Arranged) : Prop where
  keys_eq : results.map (·.group.key) = Text.distinct (tabs.map (·.group.key))
  name : ∀ result ∈ results,
    (Tab.ofGroup result.group tabs).head?.map Tab.group = some result.group
  perm : (results.flatMap Arranged.tabs).Perm tabs
  members_perm : ∀ result ∈ results, result.tabs.Perm (Tab.ofGroup result.group tabs)
  changed_iff : ∀ result ∈ results,
    result.changed = true ↔ result.tabs ≠ Tab.ofGroup result.group tabs

namespace Tab

variable {references : Text → List Text} {tabs tabs' : List Tab}

theorem file?_keyed (tab : Tab) : tab.keyed.file? = tab.file? := rfl

/-- Only tabs that stood in order before show the same after they were put in order. -/
theorem sameList_byImports_iff :
    sameList (byImports references tabs) tabs = true ↔ byImports references tabs = tabs := by
  constructor
  · intro h
    have hkeyed : (byImports references tabs).map keyed = tabs.map keyed := of_decide_eq_true h
    have hfiles : (byImports references tabs).map file? = tabs.map file? := by
      have h := congrArg (List.map file?) hkeyed
      simpa only [List.map_map, Function.comp_def, file?_keyed] using h
    apply byImports_eq_self
    rw [← hfiles]
    exact Session.pairwise_mayPrecede_iff.mp (pairwise_byImports references tabs)
  · intro h
    rw [h, sameList, decide_eq_true_eq]

theorem byGroup_groupTabs (references : Text → List Text) (tabs : List Tab) :
    ByGroup tabs ((groupTabs tabs).map (Members.byImports references)) := by
  constructor
  case keys_eq =>
    rw [← keys_groupTabs, List.map_map]
    rfl
  case perm =>
    refine List.Perm.trans ?_ (flatMap_groupTabs_perm tabs)
    rw [List.flatMap_map]
    exact List.Perm.flatMap_left _ fun members _ => byImports_perm
  all_goals
    intro result hr
    obtain ⟨members, hmem, rfl⟩ := List.mem_map.mp hr
    obtain ⟨hname, htabs⟩ := head?_ofGroup_of_mem_groupTabs hmem
  case name => exact hname
  case members_perm =>
    change (byImports references members.2).Perm (ofGroup members.1 tabs)
    rw [← htabs]
    exact byImports_perm
  case changed_iff =>
    change (!sameList (byImports references members.2) members.2) = true ↔
      byImports references members.2 ≠ ofGroup members.1 tabs
    rw [← htabs, Bool.not_eq_true', ← Bool.not_eq_true, sameList_byImports_iff]

/-- What comes out for a group is determined by its own tabs. -/
theorem find?_byImports_congr {group : Group} (h : ofGroup group tabs = ofGroup group tabs') :
    ((groupTabs tabs).map (Members.byImports references)).find? (·.group.same group) =
      ((groupTabs tabs').map (Members.byImports references)).find? (·.group.same group) := by
  have hfound : ∀ tabs : List Tab,
      ((groupTabs tabs).map (Members.byImports references)).find? (·.group.same group) =
        ((groupTabs tabs).find? (·.1.same group)).map (Members.byImports references) :=
    fun tabs => List.find?_map ..
  rw [hfound, hfound, find?_groupTabs, find?_groupTabs, h]

end Tab

namespace Session

variable {host : Host}

/-- Whatever a session did before, it arranges every group by itself: the tabs of the other groups
do not show in what comes out for a group. -/
theorem arrange_by_group (hload : (Alias.load host none .unloaded {}).fault = none)
    (tabs : List Tab) (calls : List Call) :
    ∃ results, (arrange .imports host tabs (afterCalls host calls fresh)).1 = .ok results ∧
      ByGroup tabs results ∧
      ∀ (group : Group) (tabs' : List Tab) (calls' : List Call),
        Tab.ofGroup group tabs' = Tab.ofGroup group tabs →
        ∃ results', (arrange .imports host tabs' (afterCalls host calls' fresh)).1 = .ok results' ∧
          results'.find? (·.group.same group) = results.find? (·.group.same group) := by
  have harrange : ∀ (tabs : List Tab) (calls : List Call),
      (arrange .imports host tabs (afterCalls host calls fresh)).1 =
        .ok ((groupTabs tabs).map (Members.byImports host.references)) :=
    fun tabs calls => (steady_arrangeGroups hload (groupTabs tabs)).fst_eq
      (coherent_afterCalls hload calls (coherent_fresh host))
  refine ⟨_, harrange tabs calls, Tab.byGroup_groupTabs _ tabs, ?_⟩
  intro group tabs' calls' h
  exact ⟨_, harrange tabs' calls', Tab.find?_byImports_congr h⟩

theorem arrange_aliased_by_group :
    let host := aliased.host
    let tabs : List Tab :=
      [{ path := some "/w/s/u", group := .number 1 }, { path := some "/w/i" },
        { path := some "/w/i", group := .flag true }]
    let tabs' : List Tab :=
      [{ path := some "/w/s/u" }, { path := some "/w/s/u", group := .number 1 },
        { path := some "/w/s/u", group := .none }, { path := some "/w/i", group := .flag true }]
    (Alias.load host none .unloaded {}).fault = none ∧
      Tab.ofGroup (.number 1) tabs' = Tab.ofGroup (.number 1) tabs ∧
      ∃ results, (arrange .imports host tabs fresh).1 = .ok results ∧ ByGroup tabs results ∧
        ∃ results', (arrange .imports host tabs' (afterCalls host [.arrange tabs] fresh)).1 =
            .ok results' ∧
          results'.find? (·.group.same (.number 1)) = results.find? (·.group.same (.number 1)) := by
  intro host tabs tabs'
  have hload : (Alias.load host none .unloaded {}).fault = none := by decide +kernel
  have hsame : Tab.ofGroup (.number 1) tabs' = Tab.ofGroup (.number 1) tabs := by decide
  obtain ⟨results, hresults, hgroups, hother⟩ := arrange_by_group hload tabs []
  exact ⟨hload, hsame, results, hresults, hgroups,
    hother (.number 1) tabs' [.arrange tabs] hsame⟩

end Session

end EditorTabs
