import EditorTabs.Proofs.Alias.Candidates
import EditorTabs.Proofs.Groups
import EditorTabs.Proofs.Session.Advance

/-!
# Faults of calls

The one thing that can go wrong in the order by imports is the loading of the alias table, which
happens at the first reference that wants it. So a call on a host whose table cannot be loaded ends
in that fault if it comes to a file with such a reference; otherwise it gives an answer.
-/
namespace EditorTabs

def Host.aliasFault? (host : Host) : Option Fault :=
  (Alias.load host none .unloaded {}).fault

theorem Host.aliasFault?_eq_some_iff {host : Host} {fault : Fault} :
    host.aliasFault? = some fault ↔ Alias.LoadFault host fault :=
  Alias.fault_load_iff

def Host.wantsAny (host : Host) (tabs : List Tab) : Prop :=
  ∃ path ∈ Tab.files tabs, host.wants path

theorem Host.exists_wantsAny_groupTabs {host : Host} {tabs : List Tab} :
    (∃ members ∈ groupTabs tabs, host.wantsAny members.2) ↔ host.wantsAny tabs := by
  have hfiles : ∀ path, path ∈ Tab.files tabs ↔
      ∃ members ∈ groupTabs tabs, path ∈ Tab.files members.2 := by
    intro path
    have hperm := (flatMap_groupTabs_perm tabs).filterMap Tab.file?
    rw [List.filterMap_flatMap] at hperm
    rw [Tab.files, ← hperm.mem_iff, List.mem_flatMap]
    rfl
  constructor
  · rintro ⟨members, hmembers, path, hpath, hwants⟩
    exact ⟨path, (hfiles path).mpr ⟨members, hmembers, hpath⟩, hwants⟩
  · rintro ⟨path, hpath, hwants⟩
    obtain ⟨members, hmembers, hmem⟩ := (hfiles path).mp hpath
    exact ⟨members, hmembers, path, hmem, hwants⟩

namespace Session

/-- A session that has not come to a reference that wants the alias table, or could load it. -/
structure Untouched (host : Host) (session : Session) : Prop where
  not_loaded : ∀ fault, host.aliasFault? = some fault → session.table.isLoaded = false
  not_cached : ∀ fault, host.aliasFault? = some fault → ∀ path, host.wants path →
    session.cache.get? path = none

/-- A call that has no other fault than that of the alias table, and has it just if it comes to a
reference that wants the table. -/
def Falters {α : Type} (host : Host) (wants : Prop) (call : Session → Outcome α) : Prop :=
  ∀ session, Untouched host session →
    match call session with
    | (.error fault, _) => wants ∧ host.aliasFault? = some fault
    | (.ok _, after) => (wants → host.aliasFault? = none) ∧ Untouched host after

variable {α β γ : Type} {host : Host} {session : Session} {wants wants' : Prop}

theorem untouched_fresh (host : Host) : Untouched host fresh :=
  ⟨fun _ _ => by decide, fun _ _ _ _ => rfl⟩

theorem Untouched.of_eq {after : Session} (h : Untouched host session)
    (htable : after.table = session.table) (hcache : after.cache = session.cache) :
    Untouched host after :=
  ⟨htable ▸ h.not_loaded, hcache ▸ h.not_cached⟩

theorem Falters.congr {call : Session → Outcome α} (h : Falters host wants call)
    (hwants : wants ↔ wants') : Falters host wants' call := by
  rwa [← propext hwants]

/-- A call that makes another one and works on its answer. -/
theorem Falters.map {first : Session → Outcome α} {call : Session → Outcome β}
    (h : Falters host wants first)
    (hfault : ∀ session fault after, first session = (.error fault, after) →
      call session = (.error fault, after))
    (hok : ∀ session found after, first session = (.ok found, after) →
      ∃ answer last, call session = (.ok answer, last) ∧
        last.table = after.table ∧ last.cache = after.cache) :
    Falters host wants call := by
  intro session hs
  have hfirst := h session hs
  rcases heq : first session with ⟨fault | found, after⟩
  · rw [heq] at hfirst
    rw [hfault session fault after heq]
    exact hfirst
  · rw [heq] at hfirst
    obtain ⟨answer, last, hcall, htable, hcache⟩ := hok session found after heq
    rw [hcall]
    exact ⟨hfirst.1, hfirst.2.of_eq htable hcache⟩

/-- A call that makes two others, one after the other, and works on their answers. -/
theorem Falters.bind {first : Session → Outcome α} {second : α → Session → Outcome β}
    {call : Session → Outcome γ} (h : Falters host wants first)
    (h' : ∀ found, Falters host wants' (second found))
    (hfirst : ∀ session fault after, first session = (.error fault, after) →
      call session = (.error fault, after))
    (hsecond : ∀ session found mid fault after, first session = (.ok found, mid) →
      second found mid = (.error fault, after) → call session = (.error fault, after))
    (hok : ∀ session found mid others after, first session = (.ok found, mid) →
      second found mid = (.ok others, after) → ∃ answer, call session = (.ok answer, after)) :
    Falters host (wants ∨ wants') call := by
  intro session hs
  have hstep := h session hs
  rcases heq : first session with ⟨fault | found, mid⟩
  · rw [heq] at hstep
    rw [hfirst session fault mid heq]
    exact ⟨.inl hstep.1, hstep.2⟩
  · rw [heq] at hstep
    have hrest := h' found mid hstep.2
    rcases heq' : second found mid with ⟨fault | others, after⟩
    · rw [heq'] at hrest
      rw [hsecond session found mid fault after heq heq']
      exact ⟨.inr hrest.1, hrest.2⟩
    · rw [heq'] at hrest
      obtain ⟨answer, hanswer⟩ := hok session found mid others after heq heq'
      rw [hanswer]
      exact ⟨fun hwants => hwants.elim hstep.1 hrest.1, hrest.2⟩

theorem falters_loadAliases (host : Host) : Falters host True (loadAliases host) := by
  intro session hs
  have hfault : (Alias.load host none session.table session.journal).fault =
      if session.table.isLoaded then none else host.aliasFault? := by
    cases hloaded : session.table.isLoaded with
    | true => rw [Alias.load_of_isLoaded hloaded, if_pos rfl]
    | false => exact Alias.fault_load hloaded _
  rw [loadAliases, hfault]
  cases halias : host.aliasFault? with
  | none =>
    have hnever (fault : Fault) : host.aliasFault? ≠ some fault := by simp [halias]
    rw [ite_self]
    exact ⟨fun _ => rfl, fun fault h => absurd h (hnever fault),
      fun fault h => absurd h (hnever fault)⟩
  | some fault =>
    rw [if_neg (by simp [hs.not_loaded fault halias])]
    exact ⟨trivial, rfl⟩

theorem falters_tableFor (host : Host) (module : Text) :
    Falters host (Resolution.needsAliases module = true) (tableFor host module) := by
  intro session hs
  by_cases hneeds : Resolution.needsAliases module = true
  · rw [tableFor, if_pos hneeds]
    exact (falters_loadAliases host).congr (iff_of_true trivial hneeds) session hs
  · rw [tableFor, if_neg hneeds]
    exact ⟨fun h => absurd h hneeds, hs⟩

theorem falters_resolve (host : Host) (importer module : Text) :
    Falters host (Resolution.needsAliases module = true) (resolve host importer module) := by
  apply (falters_tableFor host module).map
  · intro session fault after h
    rw [resolve, h]
  · intro session table after h
    exact ⟨_, _, resolve_of_tableFor h importer, rfl, rfl⟩

theorem falters_resolveAll (host : Host) (importer : Text) (modules : List Text) :
    Falters host (∃ module ∈ modules, Resolution.needsAliases module = true)
      (resolveAll host importer modules) := by
  induction modules with
  | nil => exact fun session hs => ⟨by simp, hs⟩
  | cons module rest ih =>
    rw [List.exists_mem_cons_iff (Resolution.needsAliases · = true)]
    apply (falters_resolve host importer module).bind fun _ => ih
    · intro session fault after h
      rw [resolveAll, h]
    · intro session file mid fault after h h'
      simp only [resolveAll, h, h']
    · intro session file mid files after h h'
      exact ⟨file.toList ++ files, by simp only [resolveAll, h, h']⟩

theorem Untouched.readText (h : Untouched host session) (path : Text) :
    Untouched host (session.readText host path).2 := by
  unfold Session.readText
  cases host.buffer path with
  | some text => exact h.of_eq rfl rfl
  | none => cases host.readText path <;> exact h.of_eq rfl rfl

theorem Untouched.put {path : Text} (h : Untouched host session)
    (hwants : host.wants path → host.aliasFault? = none) (found : List Text) :
    Untouched host { session with cache := session.cache.put path found } := by
  refine ⟨h.not_loaded, fun fault hfault other hother => ?_⟩
  have hne : path ≠ other := by
    rintro rfl
    exact absurd (hfault.symm.trans (hwants hother)) (by simp)
  rw [Assoc.get?_put_of_ne hne]
  exact h.not_cached fault hfault other hother

theorem falters_references (host : Host) (path : Text) :
    Falters host (host.wants path) (Session.references host path) := by
  intro session hs
  cases hget : session.cache.get? path with
  | some found =>
    rw [references_of_get? hget]
    refine ⟨fun hwants => Option.eq_none_iff_forall_ne_some.mpr fun fault hfault => ?_, hs⟩
    exact absurd ((hs.not_cached fault hfault path hwants).symm.trans hget) (by simp)
  | none =>
    have hall := falters_resolveAll host path (modules (host.text? path)) _ (hs.readText path)
    simp only [Session.references, hget, resolveInto, readText_fst]
    rcases heq : resolveAll host path (modules (host.text? path))
      (session.readText host path).2 with ⟨fault | files, after⟩
    · rw [heq] at hall
      exact hall
    · rw [heq] at hall
      exact ⟨hall.1, hall.2.put hall.1 _⟩

theorem falters_referencesAll (host : Host) (paths : List Text) :
    Falters host (∃ path ∈ paths, host.wants path) (referencesAll host paths) := by
  induction paths with
  | nil => exact fun session hs => ⟨by simp, hs⟩
  | cons path rest ih =>
    rw [List.exists_mem_cons_iff]
    apply (falters_references host path).bind fun _ => ih
    · intro session fault after h
      rw [referencesAll, h]
    · intro session found mid fault after h h'
      simp only [referencesAll, h, h']
    · intro session found mid graph after h h'
      exact ⟨(path, found) :: graph, by simp only [referencesAll, h, h']⟩

theorem falters_buildGraph (host : Host) (tabs : List Tab) :
    Falters host (host.wantsAny tabs) (buildGraph host tabs) := by
  have hfiles : (∃ path ∈ graphFiles (tabs.map Tab.path), host.wants path) ↔
      host.wantsAny tabs := by
    simp only [Tab.graphFiles_map_path, Text.mem_distinct, Host.wantsAny]
  apply ((falters_referencesAll host (graphFiles (tabs.map Tab.path))).congr hfiles).map
  · intro session fault after h
    rw [buildGraph, h]
  · intro session graph after h
    exact ⟨graph, { after with graph }, by rw [buildGraph, h], rfl, rfl⟩

theorem falters_edges (host : Host) (tabs : List Tab) :
    Falters host (host.wantsAny tabs) (edges host tabs) := by
  apply (falters_buildGraph host tabs).map
  · intro session fault after h
    rw [edges, h]
  · intro session graph after h
    exact ⟨_, after, edges_of_buildGraph h, rfl, rfl⟩

theorem falters_depths (host : Host) (tabs : List Tab) :
    Falters host (host.wantsAny tabs) (depths host tabs) := by
  apply (falters_edges host tabs).map
  · intro session fault after h
    rw [depths, h]
  · intro session edges after h
    exact ⟨edges.depths edges.keys, after, by rw [depths, h], rfl, rfl⟩

theorem falters_order (host : Host) (tabs : List Tab) :
    Falters host (host.wantsAny tabs) (order host tabs) := by
  apply (falters_depths host tabs).map
  · intro session fault after h
    rw [order, h]
  · intro session depths after h
    exact ⟨tabs.mergeSort (mayPrecede depths), after, by rw [order, h], rfl, rfl⟩

theorem falters_arrangeGroups (host : Host) (groups : List Members) :
    Falters host (∃ members ∈ groups, host.wantsAny members.2)
      (arrangeGroups .imports host groups) := by
  induction groups with
  | nil => exact fun session hs => ⟨by simp, hs⟩
  | cons members rest ih =>
    rw [List.exists_mem_cons_iff fun members : Members => host.wantsAny members.2]
    apply (falters_order host members.2).bind fun _ => ih
    · intro session fault after h
      simp only [arrangeGroups, Strategy.order, h]
    · intro session tabs mid fault after h h'
      simp only [arrangeGroups, Strategy.order, h, h']
    · intro session tabs mid others after h h'
      simp [arrangeGroups, Strategy.order, h, h']

theorem falters_depthsOfGroups (host : Host) (groups : List Members) (found : Assoc Text Nat) :
    Falters host (∃ members ∈ groups, host.wantsAny members.2)
      (depthsOfGroups host groups found) := by
  induction groups generalizing found with
  | nil => exact fun session hs => ⟨by simp, hs⟩
  | cons members rest ih =>
    rw [List.exists_mem_cons_iff fun members : Members => host.wantsAny members.2]
    apply (falters_depths host members.2).bind fun depths => ih (found.putAll depths)
    · intro session fault after h
      rw [depthsOfGroups, h]
    · intro session depths mid fault after h h'
      rw [depthsOfGroups, h]
      exact h'
    · intro session depths mid last after h h'
      refine ⟨last, ?_⟩
      rw [depthsOfGroups, h]
      exact h'

theorem falters_arrange (host : Host) (tabs : List Tab) :
    Falters host (host.wantsAny tabs) (arrange .imports host tabs) :=
  (falters_arrangeGroups host (groupTabs tabs)).congr Host.exists_wantsAny_groupTabs

theorem falters_groupDepths (host : Host) (tabs : List Tab) :
    Falters host (host.wantsAny tabs) (groupDepths host tabs) :=
  (falters_depthsOfGroups host (groupTabs tabs) []).congr Host.exists_wantsAny_groupTabs

/-- The fault of a call in a fresh session. -/
theorem Falters.fst_eq_error_iff {call : Session → Outcome α} (h : Falters host wants call)
    {fault : Fault} :
    (call .fresh).1 = .error fault ↔ wants ∧ Alias.LoadFault host fault := by
  rw [← Host.aliasFault?_eq_some_iff]
  have hcall := h .fresh (untouched_fresh host)
  rcases heq : call .fresh with ⟨other | answer, after⟩
  · rw [heq] at hcall
    obtain ⟨hwants, hother⟩ := hcall
    rw [hother]
    constructor
    · rintro ⟨⟩
      exact ⟨hwants, rfl⟩
    · rintro ⟨-, hfault⟩
      rw [Option.some.inj hfault]
  · rw [heq] at hcall
    constructor
    · rintro ⟨⟩
    · rintro ⟨hwants, hfault⟩
      exact absurd ((hcall.1 hwants).symm.trans hfault) (by simp)

end Session

end EditorTabs
