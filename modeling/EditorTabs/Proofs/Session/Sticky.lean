import EditorTabs.Proofs.Session.Advance

/-!
# References stay as they were found

A run of events around a session changes its host at will and makes any calls, some of which may
end in faults. Until an invalidation, the references of a file are those that were found first: they
are answered without a look at the file, and every graph shows them. An unreadable file is found to
refer to nothing, and is warned of once.
-/
namespace EditorTabs

/-- What happens around a session: its host becomes another one, the alias table is wanted, or a
call is made. -/
inductive Event where
  | change (host : Host)
  | aliases
  | call (call : Session.Call)

structure Scene where
  host : Host
  session : Session

def Event.next : Event → Scene → Scene
  | .change host, scene => { scene with host }
  | .aliases, scene => { scene with session := (scene.session.loadAliases scene.host).2 }
  | .call made, scene => { scene with session := (made.perform scene.host scene.session).2 }

def Event.asked (event : Event) (scene : Scene) : List Request :=
  (event.next scene).session.journal.requests.drop scene.session.journal.requests.length

/-- The requests that loading the alias table makes, if an event does that. -/
def Event.loads (event : Event) (scene : Scene) : List Request :=
  if (event.next scene).session.table.isLoaded = scene.session.table.isLoaded then []
  else (Alias.load scene.host none .unloaded {}).journal.requests

namespace Scene

open Session

def after (scene : Scene) (events : List Event) : Scene :=
  events.foldl (fun scene event => event.next scene) scene

/-- A scene that a session which knew nothing has come to. -/
def Reachable (scene : Scene) : Prop :=
  ∃ host events, scene = Scene.after { host, session := fresh } events

/-- What holds of all scenes that are reached: the graph shows what is remembered, and a file that
was warned of is remembered without references. -/
structure Sound (scene : Scene) : Prop where
  agrees : scene.session.Agrees
  cached_of_causes : ∀ path, scene.session.journal.causes path ≠ [] →
    scene.session.cache.get? path = some []

/-- A scene in which the references of a file are settled. No event but an invalidation asks for
the text of the file, and its bytes are read only as often as loading the alias table does that. -/
structure Settles (path : Text) (found : List Text) (scene : Scene) : Prop where
  references_eq : scene.session.references scene.host path = (.ok found, scene.session)
  graph_eq : ∀ entry, scene.session.graph.get? path = some entry → entry = found
  graph_of_edges : ∀ tabs edges last, path ∈ Tab.files tabs →
    scene.session.edges scene.host tabs = (.ok edges, last) →
      last.graph.get? path = some found
  buffer_notMem : ∀ event : Event, event ≠ .call .invalidate → .buffer path ∉ event.asked scene
  count_read : ∀ event : Event, event ≠ .call .invalidate →
    (event.asked scene).count (.read path) = (event.loads scene).count (.read path)

variable {scene : Scene} {event : Event} {events : List Event} {path : Text} {found : List Text}

theorem advances_next (hevent : event ≠ .call .invalidate) (scene : Scene) :
    Advances scene.host scene.session (event.next scene).session := by
  cases event with
  | change host => exact .refl scene.host scene.session
  | aliases => exact advances_loadAliases scene.host scene.session
  | call call =>
    have hcall : call ≠ .invalidate := fun h => hevent (congrArg Event.call h)
    exact advances_perform scene.host hcall scene.session

/-- What an event does, in terms of the requests that it makes. -/
theorem advance_next (hevent : event ≠ .call .invalidate) (scene : Scene) :
    Advance scene.host (event.asked scene) (event.loads scene) scene.session
      (event.next scene).session := by
  obtain ⟨asked, loads, h⟩ := advances_next hevent scene
  have hasked : event.asked scene = asked := by
    rw [Event.asked, h.requests_eq, List.drop_left]
  have hloads : event.loads scene = loads := by
    rw [Event.loads]
    cases h.loads_table with
    | kept htable => rw [if_pos (by rw [htable])]
    | loaded hbefore hafter =>
      rw [if_neg (by simp [hbefore, hafter]), Alias.journal_load rfl, Journal.empty_followedBy]
  rwa [hasked, hloads]

theorem Sound.next (h : scene.Sound) (event : Event) : (event.next scene).Sound := by
  by_cases hevent : event = .call .invalidate
  · subst hevent
    refine ⟨fun path found hfound => ?_, fun path hpath => ?_⟩
    · simp [Event.next, Call.perform, invalidate, Assoc.get?] at hfound
    · simp [Event.next, Call.perform, invalidate, Journal.causes] at hpath
  · have hnext := advance_next hevent scene
    refine ⟨hnext.agrees h.agrees, fun path hpath => ?_⟩
    rw [hnext.causes_eq] at hpath
    by_cases hbefore : scene.session.journal.causes path = []
    · rw [hbefore, List.nil_append] at hpath
      split at hpath
      · next hasked =>
        refine hnext.cached_empty path hasked ?_
        cases hcause : scene.host.unreadable? path with
        | none => simp [hcause] at hpath
        | some cause => rfl
      · exact absurd rfl hpath
    · exact hnext.cache_extends path [] (h.cached_of_causes path hbefore)

theorem Sound.after (h : scene.Sound) (events : List Event) : (scene.after events).Sound := by
  induction events generalizing scene with
  | nil => exact h
  | cons event rest ih => exact ih (h.next event)

theorem Reachable.sound (h : scene.Reachable) : scene.Sound := by
  obtain ⟨host, events, rfl⟩ := h
  refine Sound.after ⟨fun path found hfound => ?_, fun path hpath => absurd rfl hpath⟩ events
  simp [fresh, Assoc.get?] at hfound

/-- What is remembered of a file stays as it is, and so do the warnings of it. -/
theorem get?_after (hget : scene.session.cache.get? path = some found)
    (hevents : .call .invalidate ∉ events) :
    (scene.after events).session.cache.get? path = some found ∧
      (scene.after events).session.journal.causes path = scene.session.journal.causes path := by
  induction events generalizing scene with
  | nil => exact ⟨hget, rfl⟩
  | cons event rest ih =>
    rw [List.mem_cons, not_or] at hevents
    have hnext := advance_next (Ne.symm hevents.1) scene
    have hasked : .buffer path ∉ event.asked scene := by
      intro h
      exact absurd (hget.symm.trans (hnext.not_cached path h)) (by simp)
    obtain ⟨hlast, hcauses⟩ := ih (hnext.cache_extends path found hget) hevents.2
    refine ⟨hlast, hcauses.trans ?_⟩
    rw [hnext.causes_eq, if_neg hasked, List.append_nil]

/-- What is remembered of a file settles its references. -/
theorem Sound.settles (h : scene.Sound) (hget : scene.session.cache.get? path = some found) :
    scene.Settles path found := by
  have hbuffer (event : Event) (hevent : event ≠ .call .invalidate) :
      .buffer path ∉ event.asked scene := by
    intro hasked
    have hnone := (advance_next hevent scene).not_cached path hasked
    exact absurd (hget.symm.trans hnone) (by simp)
  refine ⟨references_of_get? hget, fun entry hentry => ?_, fun tabs edges last hpath hedges => ?_,
    hbuffer, fun event hevent => ?_⟩
  · exact Option.some.inj ((h.agrees path entry hentry).symm.trans hget)
  · rw [Session.edges] at hedges
    split at hedges
    · cases hedges
    · next graph built hbuild =>
      cases hedges
      obtain ⟨rfl, hgraph, -, hext⟩ := buildGraph_ok hbuild
      rw [hgraph, Tab.get?_graph hpath, known_eq (hext path found hget)]
  · rw [(advance_next hevent scene).count_read, List.count_eq_zero.mpr (hbuffer event hevent),
      ite_self, Nat.zero_add]

theorem Reachable.settles_after (h : scene.Reachable)
    (hget : scene.session.cache.get? path = some found) (hevents : .call .invalidate ∉ events) :
    (scene.after events).Settles path found :=
  (h.sound.after events).settles (get?_after hget hevents).1

theorem Reachable.next (h : scene.Reachable) (event : Event) : (event.next scene).Reachable := by
  obtain ⟨host, events, rfl⟩ := h
  exact ⟨host, events ++ [event], by rw [after, after, List.foldl_append]; rfl⟩

/-- Once found, the references of a file are settled until an invalidation. If the file is
unreadable when an event first makes the session remember it, they are settled as none, and there
is one warning of the file. -/
theorem references_stick (hscene : scene.Reachable) (hlater : .call .invalidate ∉ events)
    (path : Text) :
    (∀ found, (scene.session.references scene.host path).1 = .ok found →
      (((Event.call (.references path)).next scene).after events).Settles path found) ∧
    ∀ cause, scene.host.unreadable? path = some cause → scene.session.cache.get? path = none →
      (scene.session.references scene.host path).1 = .ok [] ∧
      ∀ event : Event, event ≠ .call .invalidate →
        (event.next scene).session.cache.get? path = none ∧ .buffer path ∉ event.asked scene ∧
            (event.next scene).session.journal.causes path = [] ∨
          ((event.next scene).after events).Settles path [] ∧
            ((event.next scene).after events).session.journal.causes path = [cause] := by
  refine ⟨fun found hfound => ?_, fun cause hcause hnone => ⟨?_, fun event hevent => ?_⟩⟩
  · have hget : ((Event.call (.references path)).next scene).session.cache.get? path =
        some found := (references_ok (Prod.ext hfound rfl)).1
    exact (hscene.next _).settles_after hget hlater
  · rw [references_of_unreadable hcause hnone]
  · have hnext := advance_next hevent scene
    have hquiet : scene.session.journal.causes path = [] := by
      by_contra hne
      exact absurd ((hscene.sound.cached_of_causes path hne).symm.trans hnone) (by simp)
    have hcauses := hnext.causes_eq path
    rw [hquiet, List.nil_append] at hcauses
    by_cases hasked : .buffer path ∈ event.asked scene
    · right
      have hget := hnext.cached_empty path hasked (by simp [hcause])
      refine ⟨(hscene.next event).settles_after hget hlater, ?_⟩
      rw [(get?_after hget hlater).2, hcauses, if_pos hasked, hcause, Option.toList_some]
    · left
      refine ⟨?_, hasked, by rw [hcauses, if_neg hasked]⟩
      cases hget : (event.next scene).session.cache.get? path with
      | none => rfl
      | some found =>
        rcases hnext.asked_of_cached path found hget with hbefore | hasked'
        · exact absurd (hnone.symm.trans hbefore) (by simp)
        · exact absurd hasked' hasked

def importing : Scene where
  host := Memory.host
    { root := some "/w"
      files := [("/w/u", .bytes [])]
      buffers := [("/w/i", "require('./u')")] }
  session := fresh

/-- The workspace loses all its files, and the alias table cannot be loaded any more. -/
def emptying : List Event :=
  [.change { Memory.host { root := some "/w" } with endsUnnamed := true }, .aliases,
    .call (.order [{ path := some "/w/i" }, { path := some "/w/u" }])]

theorem references_stick_emptying :
    importing.Reachable ∧ .call .invalidate ∉ emptying ∧
      (importing.session.references importing.host "/w/i").1 = .ok ["/w/u"] ∧
      (((Event.call (.references "/w/i")).next importing).after emptying).Settles
        "/w/i" ["/w/u"] ∧
      importing.host.unreadable? "/w/g" = some (.file (.noEntry "/w/g")) ∧
      (((Event.call (.references "/w/g")).next importing).after emptying).Settles "/w/g" [] := by
  have hreachable : importing.Reachable := ⟨importing.host, [], rfl⟩
  have hlater : .call .invalidate ∉ emptying := by simp [emptying]
  have hfound : (importing.session.references importing.host "/w/i").1 = .ok ["/w/u"] := by
    decide +kernel
  have hcause : importing.host.unreadable? "/w/g" = some (.file (.noEntry "/w/g")) := by
    decide +kernel
  obtain ⟨hsettles, -⟩ := references_stick hreachable hlater "/w/i"
  obtain ⟨hsettles', hunreadable⟩ := references_stick hreachable hlater "/w/g"
  obtain ⟨hnone, -⟩ := hunreadable _ hcause rfl
  exact ⟨hreachable, hlater, hfound, hsettles _ hfound, hcause, hsettles' _ hnone⟩

end Scene

end EditorTabs
