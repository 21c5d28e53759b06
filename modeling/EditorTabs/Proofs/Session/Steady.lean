import EditorTabs.Proofs.Alias.Loading
import EditorTabs.Proofs.Session.Cache

/-!
# Sessions on a host that does not change

On a host whose alias table loads without a fault, every file has its references, whatever a session
did before. A session is coherent if all that it remembers is what the host says, and a call is
steady if every coherent session gives it the same answer and stays coherent.
-/
namespace EditorTabs

def Host.table (host : Host) : Alias.Table :=
  (Alias.load host none .unloaded {}).table

def Host.text? (host : Host) (path : Text) : Option Text :=
  (host.buffer path).or (host.readText path).toOption

def Host.resolve (host : Host) (importer module : Text) : Option Text :=
  Resolution.resolve host.isFile (some host.table) module importer

def Host.references (host : Host) (path : Text) : List Text :=
  Text.sortedSet ((Session.modules (host.text? path)).filterMap (host.resolve path))

theorem Resolution.resolve_of_not_needsAliases {isFile : Text → Bool} {module importer : Text}
    (h : Resolution.needsAliases module = false) (table table' : Option Alias.Table) :
    Resolution.resolve isFile table module importer =
      Resolution.resolve isFile table' module importer := by
  have htarget : Resolution.target? table module importer =
      Resolution.target? table' module importer := by
    unfold Resolution.target?
    by_cases hm : module = []
    · rw [if_pos hm, if_pos hm]
    · have hr : Module.isRelative module = true := by simpa [Resolution.needsAliases, hm] using h
      rw [if_pos hr, if_pos hr]
  rw [Resolution.resolve, Resolution.resolve, htarget]

namespace Session

/-- A session that remembers nothing but what the host says. -/
structure Coherent (host : Host) (session : Session) : Prop where
  table_eq : session.table = .unloaded ∨ session.table = host.table
  cache_eq : ∀ path found, session.cache.get? path = some found → found = host.references path

/-- A call to which coherent sessions give the same answer, and which leaves them coherent. -/
def Steady {α : Type} (host : Host) (call : Session → Outcome α) (answer : α) : Prop :=
  ∀ session, Coherent host session →
    ∃ after, call session = (.ok answer, after) ∧ Coherent host after

variable {host : Host} {session : Session}

theorem Steady.fst_eq {α : Type} {call : Session → Outcome α} {answer : α}
    (h : Steady host call answer) (hs : Coherent host session) : (call session).1 = .ok answer := by
  obtain ⟨after, hafter, -⟩ := h session hs
  rw [hafter]

theorem coherent_fresh (host : Host) : Coherent host fresh :=
  ⟨.inl rfl, fun _ _ h => absurd h (by simp [fresh, Assoc.get?])⟩

theorem coherent_invalidate (host : Host) (session : Session) : Coherent host session.invalidate :=
  ⟨.inl rfl, fun _ _ h => absurd h (by simp [invalidate, Assoc.get?])⟩

theorem Coherent.of_eq {after : Session} (h : Coherent host session)
    (htable : after.table = session.table) (hcache : after.cache = session.cache) :
    Coherent host after :=
  ⟨htable ▸ h.table_eq, hcache ▸ h.cache_eq⟩

theorem Coherent.put {path : Text} (h : Coherent host session) :
    Coherent host { session with cache := session.cache.put path (host.references path) } := by
  refine ⟨h.table_eq, fun p found hp => ?_⟩
  rw [Assoc.get?_put] at hp
  split at hp
  · next heq =>
    cases hp
    rw [heq]
  · exact h.cache_eq p found hp

theorem readText_fst (host : Host) (path : Text) (session : Session) :
    (session.readText host path).1 = host.text? path := by
  unfold readText Host.text?
  cases host.buffer path with
  | some text => rfl
  | none => cases host.readText path <;> rfl

theorem Coherent.readText (h : Coherent host session) (path : Text) :
    Coherent host (session.readText host path).2 := by
  unfold Session.readText
  cases host.buffer path with
  | some text => exact h.of_eq rfl rfl
  | none => cases host.readText path <;> exact h.of_eq rfl rfl

theorem resolve_of_tableFor {after : Session} {module : Text} {table : Alias.Table}
    (h : session.tableFor host module = (.ok table, after)) (importer : Text) :
    session.resolve host importer module =
      (.ok (Resolution.resolve host.isFile (some table) module importer),
        { after with
          journal := after.journal.askAll
            ((Resolution.probed host.isFile (some table) module importer).map .isFile) }) := by
  rw [Session.resolve, h]

section

variable (hload : (Alias.load host none .unloaded {}).fault = none)

include hload

theorem steady_loadAliases : Steady host (loadAliases host) host.table := by
  intro session h
  cases h.table_eq with
  | inl htable =>
    obtain ⟨hfault, htable'⟩ : (Alias.load host none session.table session.journal).fault = none ∧
        (Alias.load host none session.table session.journal).table = host.table := by
      rw [htable, ← hload]
      exact Alias.load_journal ..
    have hcall : session.loadAliases host =
        (.ok host.table,
          { session with
            table := host.table
            journal := (Alias.load host none session.table session.journal).journal }) := by
      rw [loadAliases, hfault, htable']
    exact ⟨_, hcall, .inr rfl, h.cache_eq⟩
  | inr htable =>
    have hloaded : session.table.isLoaded = true := htable ▸ Alias.isLoaded_load ..
    refine ⟨session, ?_, h⟩
    rw [loadAliases, Alias.load_of_isLoaded hloaded, ← htable]

theorem steady_resolve (importer module : Text) :
    Steady host (Session.resolve host importer module) (host.resolve importer module) := by
  intro session h
  cases hneeds : Resolution.needsAliases module with
  | true =>
    obtain ⟨mid, hmid, hc⟩ := steady_loadAliases hload session h
    have htable : session.tableFor host module = (.ok host.table, mid) := by
      rw [tableFor, if_pos hneeds, hmid]
    exact ⟨_, resolve_of_tableFor htable importer, hc.of_eq rfl rfl⟩
  | false =>
    have htable : session.tableFor host module = (.ok session.table, session) := by
      rw [tableFor, if_neg (by simp [hneeds])]
    have hcall := resolve_of_tableFor htable importer
    rw [Resolution.resolve_of_not_needsAliases hneeds _ (some host.table)] at hcall
    exact ⟨_, hcall, h.of_eq rfl rfl⟩

theorem steady_resolveAll (importer : Text) (modules : List Text) :
    Steady host (resolveAll host importer modules) (modules.filterMap (host.resolve importer)) := by
  induction modules with
  | nil => exact fun session h => ⟨session, rfl, h⟩
  | cons module rest ih =>
    intro session h
    obtain ⟨mid, hmid, hc⟩ := steady_resolve hload importer module session h
    obtain ⟨after, hafter, hc'⟩ := ih mid hc
    refine ⟨after, ?_, hc'⟩
    simp only [resolveAll, hmid, hafter, List.filterMap_cons]
    cases host.resolve importer module <;> rfl

theorem steady_references (path : Text) :
    Steady host (Session.references host path) (host.references path) := by
  intro session h
  cases hget : session.cache.get? path with
  | some found =>
    exact ⟨session, h.cache_eq path found hget ▸ references_of_get? hget, h⟩
  | none =>
    obtain ⟨after, hafter, hc⟩ :=
      steady_resolveAll hload path (modules (host.text? path)) _ (h.readText path)
    refine ⟨{ after with cache := after.cache.put path (host.references path) }, ?_, hc.put⟩
    simp only [Session.references, hget, resolveInto, readText_fst, hafter]
    rfl

theorem steady_referencesAll (paths : List Text) :
    Steady host (referencesAll host paths)
      (paths.map fun path => (path, host.references path)) := by
  induction paths with
  | nil => exact fun session h => ⟨session, rfl, h⟩
  | cons path rest ih =>
    intro session h
    obtain ⟨mid, hmid, hc⟩ := steady_references hload path session h
    obtain ⟨after, hafter, hc'⟩ := ih mid hc
    exact ⟨after, by simp only [referencesAll, hmid, hafter, List.map_cons], hc'⟩

theorem steady_buildGraph (tabs : List Tab) :
    Steady host (buildGraph host tabs) (Tab.graph host.references tabs) := by
  intro session h
  obtain ⟨after, hafter, hc⟩ :=
    steady_referencesAll hload (Text.distinct (Tab.files tabs)) session h
  refine ⟨{ after with graph := Tab.graph host.references tabs }, ?_, hc.of_eq rfl rfl⟩
  rw [buildGraph, Tab.graphFiles_map_path, hafter]
  rfl

theorem steady_edges (tabs : List Tab) :
    Steady host (edges host tabs) (Tab.edges host.references tabs) := by
  intro session h
  obtain ⟨after, hafter, hc⟩ := steady_buildGraph hload tabs session h
  exact ⟨after, edges_of_buildGraph hafter, hc⟩

theorem steady_depths (tabs : List Tab) :
    Steady host (depths host tabs) (Tab.depths host.references tabs) := by
  intro session h
  obtain ⟨after, hafter, hc⟩ := steady_edges hload tabs session h
  exact ⟨after, depths_of_edges hafter, hc⟩

theorem steady_order (tabs : List Tab) :
    Steady host (order host tabs) (Tab.byImports host.references tabs) := by
  intro session h
  obtain ⟨after, hafter, hc⟩ := steady_depths hload tabs session h
  exact ⟨after, order_of_depths hafter, hc⟩

theorem steady_arrangeGroups (groups : List Members) :
    Steady host (arrangeGroups .imports host groups)
      (groups.map (Members.byImports host.references)) := by
  induction groups with
  | nil => exact fun session h => ⟨session, rfl, h⟩
  | cons members rest ih =>
    intro session h
    obtain ⟨mid, hmid, hc⟩ := steady_order hload members.2 session h
    obtain ⟨after, hafter, hc'⟩ := ih mid hc
    refine ⟨after, ?_, hc'⟩
    simp only [arrangeGroups, Strategy.order, hmid, hafter]
    rfl

theorem steady_depthsOfGroups (groups : List Members) (found : Assoc Text Nat) :
    Steady host (depthsOfGroups host groups found)
      (groups.foldl (fun found members => found.putAll (Tab.depths host.references members.2))
        found) := by
  induction groups generalizing found with
  | nil => exact fun session h => ⟨session, rfl, h⟩
  | cons members rest ih =>
    intro session h
    obtain ⟨mid, hmid, hc⟩ := steady_depths hload members.2 session h
    obtain ⟨after, hafter, hc'⟩ :=
      ih (found.putAll (Tab.depths host.references members.2)) mid hc
    exact ⟨after, by simp only [depthsOfGroups, hmid, hafter, List.foldl_cons], hc'⟩

end

end Session

end EditorTabs
