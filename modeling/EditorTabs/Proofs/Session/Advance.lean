import EditorTabs.Proofs.Alias.Candidates
import EditorTabs.Proofs.Session.Calls

/-!
# What a call does to a session

Whatever the host answers and whether or not the call ends in a fault, a call only adds to what a
session remembers. It asks for the text of a file only if the references of that file are not
remembered, and a file that turns out to be unreadable is remembered without references and leaves
one warning. All other reading is done to load the alias table, which happens once.
-/
namespace EditorTabs

def Host.unreadable? (host : Host) (path : Text) : Option Unreadable :=
  match host.buffer path, host.readText path with
  | none, .error cause => some cause
  | _, _ => none

def Journal.causes (journal : Journal) (path : Text) : List Unreadable :=
  journal.warnings.filterMap fun
    | .source other cause => if other = path then some cause else none
    | _ => none

def Host.wants (host : Host) (path : Text) : Prop :=
  ∃ module ∈ Session.modules (host.text? path), Resolution.needsAliases module = true

namespace Session

/-- A session whose graph shows the references that the session remembers. -/
def Agrees (session : Session) : Prop :=
  ∀ path found, session.graph.get? path = some found → session.cache.get? path = some found

/-- The alias table of a session is kept, or it is loaded, which asks some requests. -/
inductive Loads (host : Host) (session after : Session) : List Request → Prop
  | kept (h : after.table = session.table) : Loads host session after []
  | loaded (h : session.table.isLoaded = false) (h' : after.table.isLoaded = true) :
      Loads host session after (Alias.loadTrace host none).requests

/-- What a call does to a session when it asks some requests, and some of these to load the alias
table. -/
structure Advance (host : Host) (asked loads : List Request) (session after : Session) : Prop where
  cache_extends : after.Extends session
  agrees : session.Agrees → after.Agrees
  loads_table : Loads host session after loads
  requests_eq : after.journal.requests = session.journal.requests ++ asked
  not_cached : ∀ path, .buffer path ∈ asked → session.cache.get? path = none
  count_read : ∀ path, asked.count (.read path) =
    (if (host.buffer path).isSome then 0 else asked.count (.buffer path)) +
      loads.count (.read path)
  causes_eq : ∀ path, after.journal.causes path = session.journal.causes path ++
    if .buffer path ∈ asked then (host.unreadable? path).toList else []
  cached_empty : ∀ path, .buffer path ∈ asked → (host.unreadable? path).isSome →
    after.cache.get? path = some []
  asked_of_cached : ∀ path found, after.cache.get? path = some found →
    session.cache.get? path = some found ∨ .buffer path ∈ asked
  warnings_subset : session.journal.warnings ⊆ after.journal.warnings
  warned_of_loaded : after.table.isLoaded = true → session.table.isLoaded = true ∨
    (Alias.loadTrace host none).warnings ⊆ after.journal.warnings
  loaded_of_wants : ∀ path found, host.wants path → after.cache.get? path = some found →
    session.cache.get? path = some found ∨ after.table.isLoaded = true

def Advances (host : Host) (session after : Session) : Prop :=
  ∃ asked loads, Advance host asked loads session after

variable {host : Host} {session after last : Session} {asked loads asked' loads' : List Request}

theorem Agrees.of_extends (h : session.Agrees) (hgraph : after.graph = session.graph)
    (hext : after.Extends session) : after.Agrees := by
  intro path found hfound
  rw [hgraph] at hfound
  exact hext path found (h path found hfound)

theorem Loads.trans (h : Loads host session after loads) (h' : Loads host after last loads') :
    Loads host session last (loads ++ loads') := by
  cases h with
  | kept htable =>
    cases h' with
    | kept htable' => exact .kept (htable'.trans htable)
    | loaded hbefore hafter => exact .loaded (htable ▸ hbefore) hafter
  | loaded hbefore hafter =>
    cases h' with
    | kept htable' =>
      rw [List.append_nil]
      exact .loaded hbefore (htable' ▸ hafter)
    | loaded hbefore' => exact absurd (hafter.symm.trans hbefore') (by decide)

theorem Loads.isLoaded (h : Loads host session after loads)
    (hloaded : session.table.isLoaded = true) : after.table.isLoaded = true := by
  cases h with
  | kept htable => rwa [htable]
  | loaded hbefore hafter => exact hafter

theorem Advance.refl (host : Host) (session : Session) : Advance host [] [] session session where
  cache_extends := .refl session
  agrees := id
  loads_table := .kept rfl
  requests_eq := (List.append_nil _).symm
  not_cached := by simp
  count_read := by simp
  causes_eq := by simp
  cached_empty := by simp
  asked_of_cached := fun _ _ => .inl
  warnings_subset := List.Subset.refl _
  warned_of_loaded := .inl
  loaded_of_wants := fun _ _ _ => .inl

theorem Advance.trans (h : Advance host asked loads session after)
    (h' : Advance host asked' loads' after last) :
    Advance host (asked ++ asked') (loads ++ loads') session last := by
  -- What is not remembered in the end was not remembered before.
  have hback (path : Text) (hnone : after.cache.get? path = none) :
      session.cache.get? path = none := by
    cases hget : session.cache.get? path with
    | none => rfl
    | some found => exact absurd (hnone.symm.trans (h.cache_extends path found hget)) (by simp)
  refine ⟨h.cache_extends.trans h'.cache_extends, h'.agrees ∘ h.agrees,
    h.loads_table.trans h'.loads_table, ?_, ?_, ?_, ?_, ?_, ?_,
    List.Subset.trans h.warnings_subset h'.warnings_subset, ?_, ?_⟩
  · rw [h'.requests_eq, h.requests_eq, List.append_assoc]
  · intro path hpath
    rcases List.mem_append.mp hpath with hpath | hpath
    · exact h.not_cached path hpath
    · exact hback path (h'.not_cached path hpath)
  · intro path
    rw [List.count_append, List.count_append, List.count_append, h.count_read, h'.count_read]
    split <;> omega
  · intro path
    rw [h'.causes_eq, h.causes_eq, List.append_assoc]
    congr 1
    by_cases hfirst : .buffer path ∈ asked
    · by_cases hsecond : .buffer path ∈ asked'
      · -- A file that is asked for twice was readable, or else it would be remembered.
        have hreadable : host.unreadable? path = none := by
          cases hcause : host.unreadable? path with
          | none => rfl
          | some cause =>
            have hempty := h.cached_empty path hfirst (by simp [hcause])
            exact absurd (hempty.symm.trans (h'.not_cached path hsecond)) (by simp)
        simp [hreadable]
      · simp [hfirst, hsecond]
    · simp [hfirst]
  · intro path hpath hcause
    rcases List.mem_append.mp hpath with hpath | hpath
    · exact h'.cache_extends path [] (h.cached_empty path hpath hcause)
    · exact h'.cached_empty path hpath hcause
  · intro path found hfound
    rcases h'.asked_of_cached path found hfound with hfound | hasked
    · exact (h.asked_of_cached path found hfound).imp_right (List.mem_append_left _)
    · exact .inr (List.mem_append_right _ hasked)
  · intro hloaded
    rcases h'.warned_of_loaded hloaded with hmid | hwarned
    · refine (h.warned_of_loaded hmid).imp_right fun hwarned => ?_
      exact List.Subset.trans hwarned h'.warnings_subset
    · exact .inr hwarned
  · intro path found hwants hfound
    rcases h'.loaded_of_wants path found hwants hfound with hmid | hloaded
    · refine (h.loaded_of_wants path found hwants hmid).imp_right h'.loads_table.isLoaded
    · exact .inr hloaded

theorem Advances.refl (host : Host) (session : Session) : Advances host session session :=
  ⟨_, _, .refl host session⟩

theorem Advances.trans (h : Advances host session after) (h' : Advances host after last) :
    Advances host session last := by
  obtain ⟨asked, loads, h⟩ := h
  obtain ⟨asked', loads', h'⟩ := h'
  exact ⟨_, _, h.trans h'⟩

theorem loadAliases_snd (host : Host) (session : Session) :
    (session.loadAliases host).2 =
      { session with
        table := (Alias.load host none session.table session.journal).table
        journal := (Alias.load host none session.table session.journal).journal } := by
  rw [loadAliases]
  cases (Alias.load host none session.table session.journal).fault <;> rfl

theorem advances_loadAliases (host : Host) (session : Session) :
    Advances host session (session.loadAliases host).2 := by
  rw [loadAliases_snd]
  cases hloaded : session.table.isLoaded with
  | true =>
    rw [Alias.load_of_isLoaded hloaded]
    exact .refl host session
  | false =>
    have hbuffer := Alias.buffer_notMem_requests_loadTrace host none
    refine ⟨(Alias.loadTrace host none).requests, (Alias.loadTrace host none).requests, ?_⟩
    rw [Alias.journal_load hloaded]
    refine ⟨.refl session, id, .loaded hloaded (Alias.isLoaded_load ..), rfl, ?_, ?_, ?_, ?_,
      fun _ _ => .inl, List.subset_append_left _ _, fun _ => .inr (List.subset_append_right _ _),
      fun _ _ _ => .inl⟩
    · exact fun path h => absurd h (hbuffer path)
    · intro path
      simp [List.count_eq_zero.mpr (hbuffer path)]
    · intro path
      have hnone : (Alias.loadTrace host none).causes path = [] := by
        rw [Journal.causes, List.filterMap_eq_nil_iff]
        intro warning hwarning
        cases warning with
        | source other cause =>
          exact absurd hwarning (Alias.source_notMem_warnings_loadTrace host none other cause)
        | _ => rfl
      rw [if_neg (hbuffer path), ← hnone]
      exact List.filterMap_append ..
    · exact fun path h => absurd h (hbuffer path)

theorem advances_tableFor (host : Host) (module : Text) (session : Session) :
    Advances host session (session.tableFor host module).2 := by
  rw [tableFor]
  split
  · exact advances_loadAliases host session
  · exact .refl host session

theorem advance_probes (host : Host) (session : Session) (probes : List Text) :
    Advance host (probes.map .isFile) [] session
      { session with journal := session.journal.askAll (probes.map .isFile) } where
  cache_extends := .refl session
  agrees := id
  loads_table := .kept rfl
  requests_eq := rfl
  not_cached := by simp
  count_read := by
    intro path
    have hbuffer : Request.buffer path ∉ probes.map .isFile := by simp
    have hread : Request.read path ∉ probes.map .isFile := by simp
    simp [List.count_eq_zero.mpr hbuffer, List.count_eq_zero.mpr hread]
  causes_eq := by
    intro path
    simp [Journal.causes, Journal.askAll]
  cached_empty := by simp
  asked_of_cached := fun _ _ => .inl
  warnings_subset := List.Subset.refl _
  warned_of_loaded := .inl
  loaded_of_wants := fun _ _ _ => .inl

theorem advances_resolve (host : Host) (importer module : Text) (session : Session) :
    Advances host session (session.resolve host importer module).2 := by
  have htable := advances_tableFor host module session
  rw [resolve]
  split
  · next h => rwa [h] at htable
  · next table after h =>
    rw [h] at htable
    exact htable.trans ⟨_, _, advance_probes host after _⟩

theorem advances_resolveAll (host : Host) (importer : Text) (modules : List Text)
    (session : Session) : Advances host session (session.resolveAll host importer modules).2 := by
  induction modules generalizing session with
  | nil => exact .refl host session
  | cons module rest ih =>
    have hstep := advances_resolve host importer module session
    rw [resolveAll]
    split
    · next h => rwa [h] at hstep
    · next file after h =>
      rw [h] at hstep
      have hrest := hstep.trans (ih after)
      split
      · next h' => rwa [h'] at hrest
      · next h' => rwa [h'] at hrest

theorem extends_put {path : Text} (hnone : session.cache.get? path = none) (found : List Text) :
    Extends { session with cache := session.cache.put path found } session := by
  intro other kept hkept
  have hne : path ≠ other := by
    rintro rfl
    simp [hnone] at hkept
  rwa [Assoc.get?_put_of_ne hne]

/-- The references of a file that was asked for are put into the cache. -/
theorem Advance.put {path : Text} (h : Advance host asked loads session after)
    (hnone : after.cache.get? path = none) (hasked : .buffer path ∈ asked)
    (hloaded : host.wants path → after.table.isLoaded = true) (found : List Text) :
    Advance host asked loads session { after with cache := after.cache.put path found } := by
  have hext := extends_put hnone found
  refine ⟨h.cache_extends.trans hext, fun ha => (h.agrees ha).of_extends rfl hext, ?_,
    h.requests_eq, h.not_cached, h.count_read, h.causes_eq,
    fun other hother hcause => hext other [] (h.cached_empty other hother hcause), ?_,
    h.warnings_subset, h.warned_of_loaded, ?_⟩
  · cases h.loads_table with
    | kept htable => exact .kept htable
    | loaded hbefore hafter => exact .loaded hbefore hafter
  · intro other kept hkept
    by_cases heq : path = other
    · exact .inr (heq ▸ hasked)
    · rw [Assoc.get?_put_of_ne heq] at hkept
      exact h.asked_of_cached other kept hkept
  · intro other kept hwants hkept
    by_cases heq : path = other
    · exact .inr (hloaded (heq ▸ hwants))
    · rw [Assoc.get?_put_of_ne heq] at hkept
      exact h.loaded_of_wants other kept hwants hkept

theorem unreadable?_eq_some_iff {path : Text} {cause : Unreadable} :
    host.unreadable? path = some cause ↔
      host.buffer path = none ∧ host.readText path = .error cause := by
  unfold Host.unreadable?
  cases host.buffer path <;> cases host.readText path <;> simp

/-- Reading a text that is there asks for it and leaves no warning. -/
theorem advance_readText {path : Text} (hreadable : host.unreadable? path = none)
    (hnone : session.cache.get? path = none) :
    ∃ asked, .buffer path ∈ asked ∧
      Advance host asked [] session (session.readText host path).2 := by
  -- What is asked decides all; nothing else of the session changes.
  have hasked {asked : List Request} (hmem : ∀ other, .buffer other ∈ asked → other = path)
      (hcount : ∀ other, asked.count (.read other) =
        if (host.buffer other).isSome then 0 else asked.count (.buffer other)) :
      Advance host asked [] session
        { session with journal := session.journal.askAll asked } := by
    refine ⟨.refl session, id, .kept rfl, rfl, ?_, ?_, ?_, ?_, fun _ _ => .inl,
      List.Subset.refl _, .inl, fun _ _ _ => .inl⟩
    · intro other hother
      rw [hmem other hother, hnone]
    · exact hcount
    · intro other
      split
      · next hother => simp [hmem other hother, hreadable, Journal.causes, Journal.askAll]
      · simp [Journal.causes, Journal.askAll]
    · intro other hother hcause
      simp [hmem other hother, hreadable] at hcause
  cases hbuffer : host.buffer path with
  | some text =>
    have hafter : (session.readText host path).2 =
        { session with journal := session.journal.askAll [.buffer path] } := by
      rw [readText, hbuffer]
      rfl
    rw [hafter]
    refine ⟨_, List.mem_cons_self, hasked (by simp) ?_⟩
    intro other
    by_cases h : other = path
    · simp [h, hbuffer]
    · simp [Ne.symm h]
  | none =>
    cases hread : host.readText path with
    | error cause =>
      have hcause := unreadable?_eq_some_iff.mpr ⟨hbuffer, hread⟩
      simp [hreadable] at hcause
    | ok text =>
      have hafter : (session.readText host path).2 =
          { session with journal := session.journal.askAll [.buffer path, .read path] } := by
        simp [readText, hbuffer, hread, ask, Journal.ask, Journal.askAll]
      rw [hafter]
      refine ⟨_, List.mem_cons_self, hasked (by simp) ?_⟩
      intro other
      by_cases h : other = path
      · simp [h, hbuffer]
      · simp [Ne.symm h]

theorem text?_of_unreadable {path : Text} {cause : Unreadable}
    (hcause : host.unreadable? path = some cause) : host.text? path = none := by
  obtain ⟨hbuffer, hread⟩ := unreadable?_eq_some_iff.mp hcause
  rw [Host.text?, hbuffer, hread]
  rfl

/-- An unreadable file is found to refer to nothing, which is remembered and warned of. -/
theorem references_of_unreadable {path : Text} {cause : Unreadable}
    (hcause : host.unreadable? path = some cause) (hnone : session.cache.get? path = none) :
    session.references host path =
      (.ok [], { session with
        cache := session.cache.put path []
        journal := (session.journal.askAll [.buffer path, .read path]).warn
          (.source path cause) }) := by
  obtain ⟨hbuffer, hread⟩ := unreadable?_eq_some_iff.mp hcause
  have hset : Text.sortedSet [] = [] := by cbv
  simp only [references, hnone, readText, hbuffer, hread, modules, resolveInto, resolveAll, hset]
  simp [ask, Journal.ask, Journal.askAll]

theorem advance_references_of_unreadable {path : Text} {cause : Unreadable}
    (hcause : host.unreadable? path = some cause) (hnone : session.cache.get? path = none) :
    Advance host [.buffer path, .read path] [] session (session.references host path).2 := by
  rw [references_of_unreadable hcause hnone]
  have hbuffer : host.buffer path = none := (unreadable?_eq_some_iff.mp hcause).1
  have hext := extends_put hnone []
  refine ⟨hext, fun h => h.of_extends rfl hext, .kept rfl, rfl, ?_, ?_, ?_, ?_, ?_,
    List.subset_append_left _ _, .inl, ?_⟩
  · intro other hother
    obtain rfl : other = path := by simpa using hother
    exact hnone
  · intro other
    by_cases h : other = path
    · simp [h, hbuffer]
    · simp [Ne.symm h]
  · intro other
    by_cases h : other = path
    · simp [h, hcause, Journal.causes, Journal.warn, Journal.askAll]
    · simp [h, Ne.symm h, Journal.causes, Journal.warn, Journal.askAll]
  · intro other hother _
    obtain rfl : other = path := by simpa using hother
    exact Assoc.get?_put_self other [] session.cache
  · intro other found hfound
    by_cases heq : path = other
    · simp [heq]
    · exact .inl (by rwa [Assoc.get?_put_of_ne heq] at hfound)
  · intro other found hwants hfound
    left
    have hne : path ≠ other := by
      rintro rfl
      obtain ⟨module, hmodule, -⟩ := hwants
      simp [text?_of_unreadable hcause, modules] at hmodule
    rwa [Assoc.get?_put_of_ne hne] at hfound

theorem isLoaded_loadAliases (host : Host) (session : Session) :
    (session.loadAliases host).2.table.isLoaded = true := by
  rw [loadAliases_snd]
  exact Alias.isLoaded_load ..

/-- Resolving a reference that wants the alias table loads it. -/
theorem isLoaded_resolve {module : Text} (hneeds : Resolution.needsAliases module = true)
    (host : Host) (importer : Text) (session : Session) :
    (session.resolve host importer module).2.table.isLoaded = true := by
  have hload := isLoaded_loadAliases host session
  rw [resolve, tableFor, if_pos hneeds]
  split
  · next h => rwa [h] at hload
  · next h => rwa [h] at hload

theorem isLoaded_resolveAll {importer : Text} {modules files : List Text}
    (hneeds : ∃ module ∈ modules, Resolution.needsAliases module = true)
    (h : session.resolveAll host importer modules = (.ok files, after)) :
    after.table.isLoaded = true := by
  induction modules generalizing session files with
  | nil => simp at hneeds
  | cons module rest ih =>
    rw [resolveAll] at h
    split at h
    · cases h
    · next file mid hmid =>
      split at h
      · cases h
      · next others last hlast =>
        cases h
        by_cases hmodule : Resolution.needsAliases module = true
        · have hloaded := isLoaded_resolve hmodule host importer session
          rw [hmid] at hloaded
          obtain ⟨asked, loads, hadvance⟩ := advances_resolveAll host importer rest mid
          rw [hlast] at hadvance
          exact hadvance.loads_table.isLoaded hloaded
        · obtain ⟨other, hother, hwants⟩ := hneeds
          have hrest : other ∈ rest := by
            refine (List.mem_cons.mp hother).resolve_left ?_
            rintro rfl
            exact hmodule hwants
          exact ih ⟨other, hrest, hwants⟩ hlast

theorem advances_references (host : Host) (path : Text) (session : Session) :
    Advances host session (session.references host path).2 := by
  cases hget : session.cache.get? path with
  | some found =>
    rw [references_of_get? hget]
    exact .refl host session
  | none =>
    cases hcause : host.unreadable? path with
    | some cause => exact ⟨_, _, advance_references_of_unreadable hcause hget⟩
    | none =>
      obtain ⟨asked, hasked, hread⟩ := advance_readText hcause hget
      obtain ⟨asked', loads, hresolve⟩ := advances_resolveAll host path
        (modules (session.readText host path).1) (session.readText host path).2
      have hall := hread.trans hresolve
      have hnone : (resolveAll host path (modules (session.readText host path).1)
          (session.readText host path).2).2.cache.get? path = none := by
        rw [cache_resolveAll, cache_readText, hget]
      simp only [references, hget, resolveInto]
      split
      · next h =>
        rw [h] at hall
        exact ⟨_, _, hall⟩
      · next files after h =>
        rw [h] at hall hnone
        refine ⟨_, _, hall.put hnone (List.mem_append_left _ hasked) (fun hwants => ?_) _⟩
        have hneeds : ∃ module ∈ modules (session.readText host path).1,
            Resolution.needsAliases module = true := by
          rwa [readText_fst]
        exact isLoaded_resolveAll hneeds h

theorem advances_referencesAll (host : Host) (paths : List Text) (session : Session) :
    Advances host session (session.referencesAll host paths).2 := by
  induction paths generalizing session with
  | nil => exact .refl host session
  | cons path rest ih =>
    have hstep := advances_references host path session
    rw [referencesAll]
    split
    · next h => rwa [h] at hstep
    · next found after h =>
      rw [h] at hstep
      have hrest := hstep.trans (ih after)
      split
      · next h' => rwa [h'] at hrest
      · next h' => rwa [h'] at hrest

/-- A graph of what is remembered becomes the session's graph. -/
theorem Advances.graph (h : Advances host session after) {tabs : List Tab}
    (hknows : after.Knows (Tab.files tabs)) :
    Advances host session { after with graph := Tab.graph after.known tabs } := by
  obtain ⟨asked, loads, h⟩ := h
  have hagrees : Agrees { after with graph := Tab.graph after.known tabs } := by
    intro path found hfound
    have hmem : path ∈ Tab.files tabs := by
      have hkey := Assoc.mem_keys_of_get? hfound
      rw [Tab.graph, Assoc.keys_map_pair] at hkey
      exact Text.mem_distinct.mp hkey
    obtain ⟨kept, hkept⟩ := Option.isSome_iff_exists.mp (hknows path hmem)
    simp only [Tab.get?_graph hmem, known_eq hkept, Option.some.injEq] at hfound
    exact hfound ▸ hkept
  exact ⟨asked, loads, h.cache_extends, fun _ => hagrees,
    by cases h.loads_table with
      | kept htable => exact .kept htable
      | loaded hbefore hafter => exact .loaded hbefore hafter,
    h.requests_eq, h.not_cached, h.count_read, h.causes_eq, h.cached_empty,
    h.asked_of_cached, h.warnings_subset, h.warned_of_loaded, h.loaded_of_wants⟩

theorem advances_buildGraph (host : Host) (tabs : List Tab) (session : Session) :
    Advances host session (session.buildGraph host tabs).2 := by
  have hall := advances_referencesAll host (Text.distinct (Tab.files tabs)) session
  rw [buildGraph, Tab.graphFiles_map_path]
  split
  · next h => rwa [h] at hall
  · next graph after h =>
    rw [h] at hall
    obtain ⟨rfl, hknows, -⟩ := referencesAll_ok h
    exact hall.graph (knows_distinct.mp hknows)

theorem advances_edges (host : Host) (tabs : List Tab) (session : Session) :
    Advances host session (session.edges host tabs).2 := by
  have hbuild := advances_buildGraph host tabs session
  rw [edges]
  split <;> next h => rwa [h] at hbuild

theorem advances_depths (host : Host) (tabs : List Tab) (session : Session) :
    Advances host session (session.depths host tabs).2 := by
  have hedges := advances_edges host tabs session
  rw [depths]
  split <;> next h => rwa [h] at hedges

theorem advances_order (host : Host) (tabs : List Tab) (session : Session) :
    Advances host session (session.order host tabs).2 := by
  have hdepths := advances_depths host tabs session
  rw [order]
  split <;> next h => rwa [h] at hdepths

theorem advances_arrangeGroups (host : Host) (groups : List Members) (session : Session) :
    Advances host session (arrangeGroups .imports host groups session).2 := by
  induction groups generalizing session with
  | nil => exact .refl host session
  | cons members rest ih =>
    have hstep := advances_order host members.2 session
    simp only [arrangeGroups, Strategy.order]
    split
    · next h => rwa [h] at hstep
    · next tabs after h =>
      rw [h] at hstep
      have hrest := hstep.trans (ih after)
      split
      · next h' => rwa [h'] at hrest
      · next h' => rwa [h'] at hrest

theorem advances_depthsOfGroups (host : Host) (groups : List Members) (found : Assoc Text Nat)
    (session : Session) : Advances host session (depthsOfGroups host groups found session).2 := by
  induction groups generalizing found session with
  | nil => exact .refl host session
  | cons members rest ih =>
    have hstep := advances_depths host members.2 session
    rw [depthsOfGroups]
    split
    · next h => rwa [h] at hstep
    · next depths after h =>
      rw [h] at hstep
      exact hstep.trans (ih _ after)

/-- Every call but an invalidation goes on from the session, also when it ends in a fault. -/
theorem advances_perform (host : Host) {call : Call} (hcall : call ≠ .invalidate)
    (session : Session) : Advances host session (call.perform host session).2 := by
  cases call with
  | order tabs => exact advances_order host tabs session
  | arrange tabs => exact advances_arrangeGroups host (groupTabs tabs) session
  | depths tabs => exact advances_depths host tabs session
  | groupDepths tabs => exact advances_depthsOfGroups host (groupTabs tabs) [] session
  | edges tabs => exact advances_edges host tabs session
  | references path => exact advances_references host path session
  | invalidate => exact absurd rfl hcall

end Session

end EditorTabs
