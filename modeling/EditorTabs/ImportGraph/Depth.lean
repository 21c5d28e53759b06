import EditorTabs.ImportGraph.Basic

/-!
# Import depth

A file that no other imports has depth zero, and any other file is one deeper than its deepest
importer. Files are taken from a queue when all their importers have been; each taken file
discharges its edges and deepens their targets. Files on a cycle or behind one are never taken, and
stand together one band below the deepest file seen.
-/
namespace EditorTabs

namespace ImportGraph

/-- The state of the queue: for each file the number of edges into it that are not discharged yet,
the depths given so far in the order in which they were first given, and the files to take. -/
structure Layering where
  incoming : Assoc Text Int
  depths : Assoc Text Nat
  queue : List Text
  deriving DecidableEq, Repr

def out (edges : ImportGraph) (path : Text) : List Text :=
  (edges.get? path).getD []

/-- The edges into each file, an edge counted as often as it is listed. -/
def countIncoming (edges : ImportGraph) (paths : List Text) : Assoc Text Int :=
  let listed := paths.flatMap edges.out
  paths.map fun path => (path, (listed.count path : Int))

/-- The state before the first file is taken: those without an edge into them wait at depth
zero. -/
def Layering.initial (edges : ImportGraph) (paths : List Text) : Layering :=
  let incoming := countIncoming edges paths
  let free := Assoc.keys (incoming.filter (·.2 = 0))
  { incoming, depths := free.map (·, 0), queue := free }

/-- One edge from a file at a depth: it is discharged, its target is deepened, and waits when this
was the last edge into it. Targets outside of the list do not count. -/
def Layering.discharge (depth : Nat) (state : Layering) (target : Text) : Layering :=
  match state.incoming.get? target with
  | none => state
  | some count =>
    { incoming := state.incoming.put target (count - 1)
      depths := state.depths.put target (max ((state.depths.get? target).getD 0) (depth + 1))
      queue := if count - 1 = 0 then state.queue ++ [target] else state.queue }

/-- How many files wait or may still come to wait. -/
def Layering.remaining (state : Layering) : Nat :=
  state.queue.length + state.incoming.countP (0 < ·.2)

/-- A counter that is lowered by one stays above zero, unless it was one. -/
theorem countP_put_pred {incoming : Assoc Text Int} {target : Text} {count : Int}
    (h : incoming.get? target = some count) :
    (incoming.put target (count - 1)).countP (0 < ·.2) + (if count = 1 then 1 else 0) =
      incoming.countP (0 < ·.2) := by
  induction incoming with
  | nil => simp [Assoc.get?] at h
  | cons pair rest ih =>
    by_cases hk : pair.1 = target
    · simp only [Assoc.get?, hk, if_true, Option.some.injEq] at h
      simp only [Assoc.put, hk, if_true, List.countP_cons, decide_eq_true_eq, h]
      split <;> split <;> split <;> omega
    · simp only [Assoc.get?, hk, if_false] at h
      simp only [Assoc.put, hk, if_false, List.countP_cons]
      have := ih h
      omega

theorem Layering.remaining_discharge (depth : Nat) (state : Layering) (target : Text) :
    (state.discharge depth target).remaining = state.remaining := by
  unfold discharge
  split
  · rfl
  · next count h =>
    have hc := countP_put_pred h
    have hz : count - 1 = 0 ↔ count = 1 := by omega
    simp only [remaining, hz]
    split
    · next h1 =>
      rw [if_pos h1] at hc
      simp only [List.length_append, List.length_singleton]
      omega
    · next h1 =>
      rw [if_neg h1] at hc
      omega

theorem Layering.remaining_foldl_discharge (depth : Nat) (targets : List Text)
    (state : Layering) :
    (targets.foldl (Layering.discharge depth) state).remaining = state.remaining := by
  induction targets generalizing state with
  | nil => rfl
  | cons target rest ih => rw [List.foldl_cons, ih, remaining_discharge]

def Layering.take (edges : ImportGraph) (path : Text) (rest : List Text) (state : Layering) :
    Layering :=
  (edges.out path).foldl (Layering.discharge ((state.depths.get? path).getD 0))
    { state with queue := rest }

theorem Layering.remaining_take (edges : ImportGraph) {path : Text} {rest : List Text}
    {state : Layering} (h : state.queue = path :: rest) :
    (state.take edges path rest).remaining < state.remaining := by
  rw [take, remaining_foldl_discharge]
  simp only [remaining, h, List.length_cons]
  omega

def Layering.run (edges : ImportGraph) (state : Layering) : Layering :=
  match h : state.queue with
  | [] => state
  | path :: rest =>
    have := remaining_take edges h
    (state.take edges path rest).run edges
  termination_by state.remaining

/-- The depths when no file waits any more: what was given, and one band below for the files that
still have edges into them. -/
def Layering.settle (paths : List Text) (state : Layering) : Assoc Text Nat :=
  let deepest := (state.depths.map (·.2)).foldl max 0
  let left := paths.filter fun path => (state.incoming.get? path).any (0 < ·)
  left.foldl (fun depths path => depths.put path (deepest + 1)) state.depths

/-- The depths of a list of files, in the order in which they are first given. -/
def depths (edges : ImportGraph) (paths : List Text) : Assoc Text Nat :=
  let paths := Text.distinct paths
  ((Layering.initial edges paths).run edges).settle paths

end ImportGraph

end EditorTabs
