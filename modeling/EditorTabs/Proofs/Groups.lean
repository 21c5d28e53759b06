import EditorTabs.Proofs.Text.Sorted
import EditorTabs.Tab
import Mathlib.Data.List.Induction

/-!
# The groups of a list of tabs

Each group of a list of tabs comes up once, in the order in which the first tabs of the groups
stand. It goes by the name that its first tab gives it, and it holds the tabs of the list that
belong to it, in their order.
-/
namespace EditorTabs

def Tab.ofGroup (group : Group) (tabs : List Tab) : List Tab :=
  tabs.filter fun tab => tab.group.same group

theorem Group.same_eq_false_iff (a b : Group) : a.same b = false ↔ a.key ≠ b.key := by
  simp [Group.same]

theorem keys_insertTab (tab : Tab) (groups : List Members) :
    (insertTab tab groups).map (·.1.key) =
      if tab.group.key ∈ groups.map (·.1.key) then groups.map (·.1.key)
      else groups.map (·.1.key) ++ [tab.group.key] := by
  induction groups with
  | nil => simp [insertTab]
  | cons members rest ih =>
    rw [insertTab]
    split
    · next h => simp [(Group.same_iff _ _).mp h]
    · next h =>
      have hne : tab.group.key ≠ members.1.key := fun e => h ((Group.same_iff _ _).mpr e.symm)
      simp only [List.map_cons, ih, List.mem_cons, hne, false_or]
      split <;> rfl

/-- Looking up a group after a tab was put into its own. -/
theorem find?_insertTab (tab : Tab) (groups : List Members) (group : Group) :
    (insertTab tab groups).find? (·.1.same group) =
      if tab.group.same group then
        some (match groups.find? (·.1.same group) with
          | some members => (members.1, members.2 ++ [tab])
          | none => (tab.group, [tab]))
      else groups.find? (·.1.same group) := by
  induction groups with
  | nil => cases h : tab.group.same group <;> simp [insertTab, h]
  | cons members rest ih =>
    rw [insertTab]
    cases hown : members.1.same tab.group with
    | true =>
      have hkey := (Group.same_iff _ _).mp hown
      have hsame : members.1.same group = tab.group.same group := by
        rw [Group.same, Group.same, hkey]
      cases hgroup : tab.group.same group <;> simp [hsame, hgroup]
    | false =>
      cases hmembers : members.1.same group with
      | false => simp [hmembers, ih]
      | true =>
        have hgroup : tab.group.same group = false := by
          rw [Group.same_eq_false_iff, ← (Group.same_iff _ _).mp hmembers]
          exact ((Group.same_eq_false_iff _ _).mp hown).symm
        simp [hmembers, hgroup]

theorem flatMap_insertTab_perm (tab : Tab) (groups : List Members) :
    ((insertTab tab groups).flatMap (·.2)).Perm (groups.flatMap (·.2) ++ [tab]) := by
  induction groups with
  | nil => simp [insertTab]
  | cons members rest ih =>
    rw [insertTab]
    split
    · have hperm : ([tab] ++ rest.flatMap (·.2)).Perm (rest.flatMap (·.2) ++ [tab]) :=
        List.perm_append_comm
      simpa using hperm.append_left members.2
    · simpa using ih.append_left members.2

section GroupTabs

variable {tabs : List Tab} {members : Members}

theorem groupTabs_append_singleton (tabs : List Tab) (tab : Tab) :
    groupTabs (tabs ++ [tab]) = insertTab tab (groupTabs tabs) := by
  simp [groupTabs]

/-- Each group comes up once, in the order of the first tabs of the groups. -/
theorem keys_groupTabs (tabs : List Tab) :
    (groupTabs tabs).map (·.1.key) = Text.distinct (tabs.map (·.group.key)) := by
  induction tabs using List.reverseRecOn with
  | nil => rfl
  | append_singleton tabs tab ih =>
    rw [groupTabs_append_singleton, keys_insertTab, ih, List.map_append, List.map_singleton,
      Text.distinct_append_singleton]
    simp only [Text.mem_distinct]

/-- A group holds its own tabs under the name of the first of them. -/
theorem find?_groupTabs (tabs : List Tab) (group : Group) :
    (groupTabs tabs).find? (·.1.same group) =
      (Tab.ofGroup group tabs).head?.map fun first => (first.group, Tab.ofGroup group tabs) := by
  induction tabs using List.reverseRecOn with
  | nil => rfl
  | append_singleton tabs tab ih =>
    rw [groupTabs_append_singleton, find?_insertTab, ih]
    simp only [Tab.ofGroup, List.filter_append]
    cases hgroup : tab.group.same group with
    | false => simp [hgroup]
    | true => cases tabs.filter (·.group.same group) <;> simp [hgroup]

theorem flatMap_groupTabs_perm (tabs : List Tab) :
    ((groupTabs tabs).flatMap (·.2)).Perm tabs := by
  induction tabs using List.reverseRecOn with
  | nil => rfl
  | append_singleton tabs tab ih =>
    rw [groupTabs_append_singleton]
    exact (flatMap_insertTab_perm tab _).trans (ih.append_right [tab])

/-- No two groups of a list have the same name. -/
theorem find?_eq_of_mem_groupTabs (h : members ∈ groupTabs tabs) :
    (groupTabs tabs).find? (·.1.same members.1) = some members := by
  have hnodup : ((groupTabs tabs).map (·.1.key)).Nodup :=
    keys_groupTabs tabs ▸ Text.nodup_distinct _
  cases hfound : (groupTabs tabs).find? (·.1.same members.1) with
  | none =>
    have hself : members.1.same members.1 = true := (Group.same_iff _ _).mpr rfl
    exact absurd hself (List.find?_eq_none.mp hfound members h)
  | some found =>
    have hsame := List.find?_some hfound
    have hmem := List.mem_of_find?_eq_some hfound
    rw [List.inj_on_of_nodup_map hnodup hmem h ((Group.same_iff _ _).mp hsame)]

theorem head?_ofGroup_of_mem_groupTabs (h : members ∈ groupTabs tabs) :
    (Tab.ofGroup members.1 tabs).head?.map Tab.group = some members.1 ∧
      members.2 = Tab.ofGroup members.1 tabs := by
  have hfound := find?_eq_of_mem_groupTabs h
  rw [find?_groupTabs] at hfound
  obtain ⟨first, hfirst, heq⟩ := Option.map_eq_some_iff.mp hfound
  constructor
  · rw [hfirst, Option.map_some, ← heq]
  · exact (congrArg Prod.snd heq).symm

/-- Two tabs of a list are in one group exactly if their groups have the same key. -/
theorem mem_groupTabs_together_iff {tab tab' : Tab} (h : tab ∈ tabs) (h' : tab' ∈ tabs) :
    (∃ members ∈ groupTabs tabs, tab ∈ members.2 ∧ tab' ∈ members.2) ↔
      tab.group.key = tab'.group.key := by
  have hmem (group : Group) (tab : Tab) (h : tab ∈ tabs) :
      tab ∈ Tab.ofGroup group tabs ↔ tab.group.key = group.key := by
    rw [Tab.ofGroup, List.mem_filter, Group.same_iff, and_iff_right h]
  constructor
  · rintro ⟨members, hmembers, htab, htab'⟩
    rw [(head?_ofGroup_of_mem_groupTabs hmembers).2, hmem _ _ ‹_›] at htab htab'
    exact htab.trans htab'.symm
  · intro hkey
    have hfirst : tab ∈ Tab.ofGroup tab.group tabs := (hmem _ tab h).mpr rfl
    have hsecond : tab' ∈ Tab.ofGroup tab.group tabs := (hmem _ tab' h').mpr hkey.symm
    have hfound := find?_groupTabs tabs tab.group
    obtain ⟨first, rest, heq⟩ := List.exists_cons_of_ne_nil (List.ne_nil_of_mem hfirst)
    rw [heq, List.head?_cons, Option.map_some, ← heq] at hfound
    exact ⟨_, List.mem_of_find?_eq_some hfound, hfirst, hsecond⟩

end GroupTabs

end EditorTabs
