import EditorTabs.Host.Memory
import EditorTabs.Proofs.Session.Steady

/-!
# Calls in a session

However many calls a session has answered, it answers the next one as a fresh session does, as long
as the host does not change and its alias table loads without a fault.
-/
namespace EditorTabs.Session

inductive Call where
  | order (tabs : List Tab)
  | arrange (tabs : List Tab)
  | depths (tabs : List Tab)
  | groupDepths (tabs : List Tab)
  | edges (tabs : List Tab)
  | references (path : Text)
  | invalidate
  deriving DecidableEq, Repr

inductive Answer where
  | tabs (tabs : List Tab)
  | groups (groups : List Arranged)
  | depths (depths : Assoc Text Nat)
  | edges (edges : ImportGraph)
  | references (files : List Text)
  | nothing
  deriving DecidableEq, Repr

def answered {α : Type} (answer : α → Answer) (outcome : Outcome α) : Outcome Answer :=
  (outcome.1.map answer, outcome.2)

def Call.perform (host : Host) (call : Call) (session : Session) : Outcome Answer :=
  match call with
  | .order tabs => answered .tabs (session.order host tabs)
  | .arrange tabs => answered .groups (EditorTabs.arrange .imports host tabs session)
  | .depths tabs => answered .depths (session.depths host tabs)
  | .groupDepths tabs => answered .depths (session.groupDepths host tabs)
  | .edges tabs => answered .edges (session.edges host tabs)
  | .references path => answered .references (session.references host path)
  | .invalidate => (.ok .nothing, session.invalidate)

/-- The answers to calls one after the other, those that are faults included. -/
def answers (host : Host) : List Call → Session → List (Except Fault Answer)
  | [], _ => []
  | call :: rest, session =>
    let outcome := call.perform host session
    outcome.1 :: answers host rest outcome.2

def afterCalls (host : Host) (calls : List Call) (session : Session) : Session :=
  calls.foldl (fun session call => (call.perform host session).2) session

/-- The answer to a call by the references that the files of a host have. -/
def Call.answer (host : Host) : Call → Answer
  | .order tabs => .tabs (Tab.byImports host.references tabs)
  | .arrange tabs => .groups ((groupTabs tabs).map (Members.byImports host.references))
  | .depths tabs => .depths (Tab.depths host.references tabs)
  | .groupDepths tabs => .depths <| (groupTabs tabs).foldl
      (fun found members => found.putAll (Tab.depths host.references members.2)) []
  | .edges tabs => .edges (Tab.edges host.references tabs)
  | .references path => .references (host.references path)
  | .invalidate => .nothing

variable {host : Host}

theorem Steady.answered {α : Type} {call : Session → Outcome α} {a : α}
    (h : Steady host call a) (answer : α → Answer) :
    Steady host (fun session => answered answer (call session)) (answer a) := by
  intro session hs
  obtain ⟨after, hafter, hc⟩ := h session hs
  exact ⟨after, by simp only [Session.answered, hafter, Except.map], hc⟩

variable (hload : (Alias.load host none .unloaded {}).fault = none)

include hload

theorem steady_perform (call : Call) :
    Steady host (call.perform host) (call.answer host) := by
  cases call with
  | order tabs => exact (steady_order hload tabs).answered _
  | arrange tabs => exact (steady_arrangeGroups hload (groupTabs tabs)).answered _
  | depths tabs => exact (steady_depths hload tabs).answered _
  | groupDepths tabs => exact (steady_depthsOfGroups hload (groupTabs tabs) []).answered _
  | edges tabs => exact (steady_edges hload tabs).answered _
  | references path => exact (steady_references hload path).answered _
  | invalidate => exact fun session _ => ⟨_, rfl, coherent_invalidate host session⟩

theorem coherent_afterCalls (calls : List Call) {session : Session}
    (h : Coherent host session) : Coherent host (afterCalls host calls session) := by
  induction calls generalizing session with
  | nil => exact h
  | cons call rest ih =>
    obtain ⟨after, hafter, hc⟩ := steady_perform hload call session h
    have hrest : Coherent host (afterCalls host rest (call.perform host session).2) :=
      ih (hafter ▸ hc)
    exact hrest

theorem answers_of_coherent (calls : List Call) {session : Session} (h : Coherent host session) :
    answers host calls session = calls.map fun call => .ok (call.answer host) := by
  induction calls generalizing session with
  | nil => rfl
  | cons call rest ih =>
    obtain ⟨after, hafter, hc⟩ := steady_perform hload call session h
    simp only [answers, hafter, ih hc, List.map_cons]

/-- What a session remembers never shows in its answers: each is that of a fresh session, and none
is a fault. -/
theorem answers_eq_fresh (calls : List Call) :
    answers host calls fresh = calls.map (fun call => (call.perform host fresh).1) ∧
      ∀ call : Call, (call.perform host fresh).1 = .ok (call.answer host) := by
  have hfresh : ∀ call : Call, (call.perform host fresh).1 = .ok (call.answer host) := by
    intro call
    obtain ⟨after, hafter, -⟩ := steady_perform hload call fresh (coherent_fresh host)
    rw [hafter]
  refine ⟨?_, hfresh⟩
  rw [answers_of_coherent hload calls (coherent_fresh host)]
  apply List.map_congr_left
  intro call _
  exact (hfresh call).symm

omit hload

/-- A workspace in which a file imports another one through an alias. -/
def aliased : Memory where
  root := some "/w"
  candidates := ["c"]
  files := [("/w/c", .bytes (Text.Utf8.encode
      "\x7b\"compilerOptions\":\x7b\"paths\":\x7b\"@\":\"s\"\x7d\x7d\x7d")),
    ("/w/s/u", .bytes [])]
  buffers := [("/w/i", "require('@/u')")]

def aliasedCalls : List Call :=
  let tabs : List Tab := [{ path := some "/w/s/u" }, { path := some "/w/i" }]
  [.references "/w/i", .order tabs, .arrange tabs, .invalidate, .edges tabs, .depths tabs,
    .groupDepths tabs, .references "/w/i"]

theorem answers_aliased :
    (Alias.load aliased.host none .unloaded {}).fault = none ∧
      answers aliased.host aliasedCalls fresh =
        aliasedCalls.map (fun call => (call.perform aliased.host fresh).1) ∧
      (Call.perform aliased.host (.references "/w/i") fresh).1 = .ok (.references ["/w/s/u"]) := by
  have hload : (Alias.load aliased.host none .unloaded {}).fault = none := by decide +kernel
  have hreferences : aliased.host.references "/w/i" = [("/w/s/u" : Text)] := by decide +kernel
  obtain ⟨hanswers, hfresh⟩ := answers_eq_fresh hload aliasedCalls
  refine ⟨hload, hanswers, ?_⟩
  rw [hfresh, Call.answer, hreferences]

end EditorTabs.Session
