import EditorTabs.Proofs.ImportOrder

/-!
# What a session remembers

The references of a file are found once. After that they are taken from the cache and the session
stays as it is. So an order by imports that succeeds is the order by what the session then knows.
-/
namespace EditorTabs.Session

def known (session : Session) (path : Text) : List Text :=
  (session.cache.get? path).getD []

def Knows (session : Session) (paths : List Text) : Prop :=
  ∀ path ∈ paths, (session.cache.get? path).isSome

def Extends (after session : Session) : Prop :=
  ∀ path found, session.cache.get? path = some found → after.cache.get? path = some found

variable {host : Host} {session after : Session}

theorem Extends.refl (session : Session) : session.Extends session :=
  fun _ _ h => h

theorem Extends.trans {last : Session} (h : after.Extends session) (h' : last.Extends after) :
    last.Extends session :=
  fun path found hget => h' path found (h path found hget)

theorem cache_readText (host : Host) (path : Text) (session : Session) :
    (session.readText host path).2.cache = session.cache := by
  unfold readText
  cases host.buffer path with
  | some text => rfl
  | none => cases host.readText path <;> rfl

theorem cache_tableFor (host : Host) (module : Text) (session : Session) :
    (session.tableFor host module).2.cache = session.cache := by
  unfold tableFor loadAliases
  split
  · dsimp only
    split <;> rfl
  · rfl

theorem cache_resolve (host : Host) (importer module : Text) (session : Session) :
    (session.resolve host importer module).2.cache = session.cache := by
  rw [← cache_tableFor host module session, resolve]
  split
  · next h => rw [h]
  · next h => rw [h]

theorem cache_resolveAll (host : Host) (importer : Text) (modules : List Text)
    (session : Session) :
    (session.resolveAll host importer modules).2.cache = session.cache := by
  induction modules generalizing session with
  | nil => rfl
  | cons module rest ih =>
    have hstep := cache_resolve host importer module session
    rw [resolveAll]
    split
    · next after h => rw [h] at hstep; exact hstep
    · next file after h =>
      rw [h] at hstep
      have hrest := (ih after).trans hstep
      split
      · next last h' => rw [h'] at hrest; exact hrest
      · next last h' => rw [h'] at hrest; exact hrest

theorem references_of_get? {path : Text} {found : List Text}
    (h : session.cache.get? path = some found) :
    session.references host path = (.ok found, session) := by
  rw [references, h]

/-- References that were found are remembered. -/
theorem references_ok {path : Text} {found : List Text}
    (h : session.references host path = (.ok found, after)) :
    after.cache.get? path = some found ∧ after.Extends session := by
  cases hget : session.cache.get? path with
  | some remembered =>
    rw [references_of_get? hget] at h
    cases h
    exact ⟨hget, .refl session⟩
  | none =>
    have hcache := (cache_resolveAll host path (modules (session.readText host path).1)
      (session.readText host path).2).trans (cache_readText host path session)
    simp only [references, hget, resolveInto] at h
    split at h
    · cases h
    · next files read hall =>
      rw [hall] at hcache
      cases h
      refine ⟨by rw [Assoc.get?_put, if_pos rfl], fun p f hp => ?_⟩
      have hne : path ≠ p := by
        rintro rfl
        simp [hget] at hp
      rw [Assoc.get?_put, if_neg hne, hcache, hp]

theorem known_eq {path : Text} {found : List Text} (h : session.cache.get? path = some found) :
    session.known path = found := by
  rw [known, h, Option.getD_some]

theorem Knows.extends {paths : List Text} (h : session.Knows paths)
    (he : after.Extends session) : after.Knows paths := by
  intro path hp
  obtain ⟨found, hf⟩ := Option.isSome_iff_exists.mp (h path hp)
  simp [he path found hf]

theorem Extends.known_eq {paths : List Text} (h : after.Extends session)
    (hknows : session.Knows paths) {path : Text} (hp : path ∈ paths) :
    after.known path = session.known path := by
  obtain ⟨found, hfound⟩ := Option.isSome_iff_exists.mp (hknows path hp)
  rw [Session.known_eq hfound, Session.known_eq (h path found hfound)]

theorem references_of_knows {paths : List Text} (h : session.Knows paths) {path : Text}
    (hp : path ∈ paths) :
    session.references host path = (.ok (session.known path), session) := by
  obtain ⟨found, hfound⟩ := Option.isSome_iff_exists.mp (h path hp)
  rw [references_of_get? hfound, known_eq hfound]

theorem referencesAll_of_knows {paths : List Text} (h : session.Knows paths) :
    session.referencesAll host paths =
      (.ok (paths.map fun path => (path, session.known path)), session) := by
  induction paths with
  | nil => rfl
  | cons path rest ih =>
    obtain ⟨found, hfound⟩ := Option.isSome_iff_exists.mp (h path List.mem_cons_self)
    rw [referencesAll, references_of_get? hfound]
    simp only
    rw [ih fun p hp => h p (List.mem_cons_of_mem _ hp)]
    simp only [List.map_cons, known_eq hfound]

theorem referencesAll_ok {paths : List Text} {graph : ImportGraph}
    (h : session.referencesAll host paths = (.ok graph, after)) :
    graph = paths.map (fun path => (path, after.known path)) ∧ after.Knows paths ∧
      after.Extends session := by
  induction paths generalizing session graph with
  | nil =>
    cases h
    exact ⟨rfl, by simp [Knows], .refl _⟩
  | cons path rest ih =>
    rw [referencesAll] at h
    split at h
    · cases h
    · next found read hpath =>
      obtain ⟨hfound, hread⟩ := references_ok hpath
      split at h
      · cases h
      · next others last hrest =>
        cases h
        obtain ⟨rfl, hknows, hlast⟩ := ih hrest
        have hget := hlast path found hfound
        refine ⟨by rw [List.map_cons, known_eq hget], ?_, hread.trans hlast⟩
        exact List.forall_mem_cons.mpr ⟨by simp [hget], hknows⟩

variable {tabs tabs' sorted : List Tab}

theorem knows_distinct {paths : List Text} :
    session.Knows (Text.distinct paths) ↔ session.Knows paths := by
  simp [Knows, Text.mem_distinct]

theorem Knows.of_perm (h : session.Knows (Tab.files tabs)) (hp : tabs'.Perm tabs) :
    session.Knows (Tab.files tabs') :=
  fun path hpath => h path ((hp.filterMap Tab.file?).mem_iff.mp hpath)

theorem buildGraph_of_knows (h : session.Knows (Tab.files tabs)) :
    session.buildGraph host tabs = (.ok (Tab.graph session.known tabs),
      { session with graph := Tab.graph session.known tabs }) := by
  rw [buildGraph, Tab.graphFiles_map_path, referencesAll_of_knows (knows_distinct.mpr h)]
  rfl

theorem buildGraph_ok {graph : ImportGraph}
    (h : session.buildGraph host tabs = (.ok graph, after)) :
    graph = Tab.graph after.known tabs ∧ after.graph = graph ∧ after.Knows (Tab.files tabs) ∧
      after.Extends session := by
  rw [buildGraph, Tab.graphFiles_map_path] at h
  split at h
  · cases h
  · next built read hall =>
    cases h
    obtain ⟨hgraph, hknows, hext⟩ := referencesAll_ok hall
    exact ⟨hgraph, rfl, knows_distinct.mp hknows, hext⟩

theorem edges_of_buildGraph {graph : ImportGraph}
    (h : session.buildGraph host tabs = (.ok graph, after)) :
    session.edges host tabs = (.ok (graph.edges (.ofList (Tab.files tabs))), after) := by
  rw [edges, h]

theorem edges_ok {edges : ImportGraph} (h : session.edges host tabs = (.ok edges, after)) :
    edges = Tab.edges after.known tabs ∧ after.Knows (Tab.files tabs) ∧ after.Extends session := by
  rw [Session.edges] at h
  split at h
  · cases h
  · next graph built hbuild =>
    cases h
    obtain ⟨rfl, -, hknows, hext⟩ := buildGraph_ok hbuild
    exact ⟨rfl, hknows, hext⟩

theorem edges_of_knows (h : session.Knows (Tab.files tabs)) :
    session.edges host tabs = (.ok (Tab.edges session.known tabs),
      { session with graph := Tab.graph session.known tabs }) :=
  edges_of_buildGraph (buildGraph_of_knows h)

theorem depths_of_edges {edges : ImportGraph}
    (h : session.edges host tabs = (.ok edges, after)) :
    session.depths host tabs = (.ok (edges.depths edges.keys), after) := by
  rw [depths, h]

theorem depths_of_knows (h : session.Knows (Tab.files tabs)) :
    session.depths host tabs = (.ok (Tab.depths session.known tabs),
      { session with graph := Tab.graph session.known tabs }) :=
  depths_of_edges (edges_of_knows h)

theorem order_of_depths {depths : Assoc Text Nat}
    (h : session.depths host tabs = (.ok depths, after)) :
    session.order host tabs = (.ok (tabs.mergeSort (mayPrecede depths)), after) := by
  rw [order, h]

/-- Once the references of all files are known, the order is found without looking at the host. -/
theorem order_of_knows (h : session.Knows (Tab.files tabs)) :
    session.order host tabs = (.ok (Tab.byImports session.known tabs),
      { session with graph := Tab.graph session.known tabs }) :=
  order_of_depths (depths_of_knows h)

/-- An order that succeeds has built the graph of what the session knows afterwards. -/
theorem buildGraph_of_order (h : session.order host tabs = (.ok sorted, after)) :
    session.buildGraph host tabs = (.ok (Tab.graph after.known tabs), after) ∧
      sorted = Tab.byImports after.known tabs := by
  cases hbuild : session.buildGraph host tabs with
  | mk answer built =>
    cases answer with
    | error fault => simp [order, depths, edges, hbuild] at h
    | ok graph =>
      obtain ⟨rfl, -, -⟩ := buildGraph_ok hbuild
      rw [order_of_depths (depths_of_edges (edges_of_buildGraph hbuild))] at h
      cases h
      exact ⟨rfl, rfl⟩

theorem order_ok (h : session.order host tabs = (.ok sorted, after)) :
    sorted = Tab.byImports after.known tabs ∧ after.graph = Tab.graph after.known tabs ∧
      after.Knows (Tab.files tabs) ∧ after.Extends session := by
  obtain ⟨hbuild, hsorted⟩ := buildGraph_of_order h
  obtain ⟨-, hgraph, hknows, hext⟩ := buildGraph_ok hbuild
  exact ⟨hsorted, hgraph, hknows, hext⟩

section Groups

variable {groups : List Members}

/-- Groups whose files are known are arranged without looking at the host. -/
theorem arrangeGroups_of_knows (h : ∀ members ∈ groups, session.Knows (Tab.files members.2)) :
    ∃ last, arrangeGroups .imports host groups session =
      (.ok (groups.map (Members.byImports session.known)), last) := by
  induction groups generalizing session with
  | nil => exact ⟨_, rfl⟩
  | cons group rest ih =>
    obtain ⟨hgroup, hrest⟩ := List.forall_mem_cons.mp h
    obtain ⟨last, hothers⟩ : ∃ last, arrangeGroups .imports host rest
        { session with graph := Tab.graph session.known group.2 } =
          (.ok (rest.map (Members.byImports session.known)), last) := ih hrest
    refine ⟨last, ?_⟩
    simp only [arrangeGroups, Strategy.order, order_of_knows hgroup, hothers]
    rfl

/-- Groups that were arranged are in the order of what the session knows in the end. -/
theorem arrangeGroups_ok {results : List Arranged}
    (h : arrangeGroups .imports host groups session = (.ok results, after)) :
    results = groups.map (Members.byImports after.known) ∧
      (∀ members ∈ groups, after.Knows (Tab.files members.2)) ∧ after.Extends session := by
  induction groups generalizing session results with
  | nil =>
    cases h
    exact ⟨rfl, by simp, .refl _⟩
  | cons group rest ih =>
    simp only [arrangeGroups, Strategy.order] at h
    split at h
    · cases h
    · next tabs mid horder =>
      obtain ⟨rfl, -, hknows, hmid⟩ := order_ok horder
      split at h
      · cases h
      · next others last hrest =>
        cases h
        obtain ⟨rfl, hothers, hlast⟩ := ih hrest
        have hgroup : Tab.byImports mid.known group.2 = Tab.byImports after.known group.2 :=
          Tab.byImports_congr fun path hp => (hlast.known_eq hknows hp).symm
        refine ⟨?_, List.forall_mem_cons.mpr ⟨hknows.extends hlast, hothers⟩, hmid.trans hlast⟩
        rw [List.map_cons, Members.byImports, hgroup]

/-- The depths of groups whose files are known are put on top of one another. -/
theorem depthsOfGroups_of_knows (h : ∀ members ∈ groups, session.Knows (Tab.files members.2))
    (found : Assoc Text Nat) :
    ∃ last, depthsOfGroups host groups found session =
      (.ok (groups.foldl (fun found members => found.putAll (Tab.depths session.known members.2))
        found), last) ∧ last.cache = session.cache := by
  induction groups generalizing session found with
  | nil => exact ⟨_, rfl, rfl⟩
  | cons group rest ih =>
    obtain ⟨hgroup, hrest⟩ := List.forall_mem_cons.mp h
    let built : Session := { session with graph := Tab.graph session.known group.2 }
    have hbuilt : ∀ members ∈ rest, built.Knows (Tab.files members.2) := hrest
    obtain ⟨last, hothers, hcache⟩ := ih hbuilt (found.putAll (Tab.depths session.known group.2))
    refine ⟨last, ?_, hcache⟩
    simp only [depthsOfGroups, depths_of_knows hgroup, List.foldl_cons]
    exact hothers

end Groups

end EditorTabs.Session
