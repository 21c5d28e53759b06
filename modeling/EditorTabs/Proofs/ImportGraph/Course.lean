import EditorTabs.Proofs.ImportGraph.Depth

/-!
# The course of the layering

The queue is followed from one change to the next: a file is taken, or one of its edges is
discharged. At every point each counter is the number of edges into its file that are still to be
discharged. So a file comes to wait once, after all its importers, and with the depth that it has in
the end; and since only files that wait are taken, there are no more rounds than files.
-/
namespace EditorTabs.ImportGraph

variable {edges : ImportGraph} {paths taken left : List Text} {depth : Nat}

namespace Layering

variable {state : Layering}

/-- The states that the layering of a list of files comes to, with the files taken so far, the depth
of the last of them, and those of its edges that are left to be discharged. -/
inductive Comes (edges : ImportGraph) (paths : List Text) :
    List Text → Nat → List Text → Layering → Prop
  | start : Comes edges paths [] 0 [] (initial edges (Text.distinct paths))
  | take {taken : List Text} {depth : Nat} {path : Text} {rest : List Text} {state : Layering}
      (before : Comes edges paths taken depth [] state) (hq : state.queue = path :: rest) :
      Comes edges paths (taken ++ [path]) ((state.depths.get? path).getD 0) (edges.out path)
        { state with queue := rest }
  | discharge {taken : List Text} {depth : Nat} {target : Text} {left : List Text}
      {state : Layering} (before : Comes edges paths taken depth (target :: left) state) :
      Comes edges paths taken depth left (state.discharge depth target)

/-- What holds all through the layering of a list of files. The files that have ever come to wait
are those taken and then those in the queue, in this order. -/
structure Kept (edges : ImportGraph) (paths taken left : List Text) (state : Layering) : Prop where
  /-- A counter is the number of edges from files that are not taken yet, and of those that are left
  of the file taken last. -/
  incoming : ∀ path, state.incoming.get? path =
    if path ∈ paths then
      some ((edges.pending (Text.distinct paths) taken path + left.count path : Nat) : Int)
    else none
  listed : ∀ path ∈ taken ++ state.queue, path ∈ paths
  waits_once : (taken ++ state.queue).Nodup
  importers_taken : ∀ path ∈ taken ++ state.queue, ∀ importer, edges.Imports paths importer path →
    importer ∈ taken
  depth_final : ∀ path ∈ taken ++ state.queue, ∃ n, state.depths.get? path = some n ∧
    (edges.depths paths).get? path = some n
  rounds_le : taken.length ≤ (Text.distinct paths).length

/-- A state in the middle of a file: some of its edges were discharged after it was taken. -/
inductive Midway (edges : ImportGraph) (files : List Text) :
    List Text → Nat → List Text → Layering → Prop
  | intro {taken : List Text} {path : Text} {rest done left : List Text} {head : Layering}
      (h : Invariant edges files taken head) (hq : head.queue = path :: rest)
      (hout : edges.out path = done ++ left) :
      Midway edges files (taken ++ [path]) ((head.depths.get? path).getD 0) left
        (done.foldl (Layering.discharge ((head.depths.get? path).getD 0))
          { head with queue := rest })

/-- When no edge of the file is left, the next file is about to be taken. -/
theorem Midway.invariant {files : List Text} (hn : files.Nodup)
    (h : Midway edges files taken depth [] state) : Invariant edges files taken state := by
  cases h with
  | intro h hq hout =>
    rw [List.append_nil] at hout
    rw [← hout]
    exact h.take hn hq

theorem Comes.midway (h : Comes edges paths taken depth left state) :
    left = [] ∧ Invariant edges (Text.distinct paths) taken state ∨
      Midway edges (Text.distinct paths) taken depth left state := by
  have hn := Text.nodup_distinct paths
  induction h with
  | start => exact .inl ⟨rfl, invariant_initial edges hn⟩
  | take _ hq ih =>
    have hhead := ih.elim And.right (Midway.invariant hn)
    exact .inr (.intro hhead hq (List.nil_append _).symm)
  | @discharge taken depth target left state _ ih =>
    rcases ih with ⟨hnil, -⟩ | hmid
    · cases hnil
    · cases hmid with
      | @intro before path rest done _ head hhead hq hout =>
        have hout' : edges.out path = (done ++ [target]) ++ left := by simpa using hout
        have hmid := Midway.intro hhead hq hout'
        rw [List.foldl_append] at hmid
        exact .inr hmid

theorem imports_distinct_iff {a b : Text} :
    edges.Imports (Text.distinct paths) a b ↔ edges.Imports paths a b := by
  simp only [Imports, Text.mem_distinct]

/-- The depth of a file that waits or was taken is the one that it has in the end. -/
theorem Invariant.get?_depths_eq {path : Text}
    (h : Invariant edges (Text.distinct paths) taken state)
    (hpath : path ∈ taken ++ state.queue) :
    ∃ n, state.depths.get? path = some n ∧ (edges.depths paths).get? path = some n := by
  obtain ⟨n, hn, hlongest⟩ := h.longestChain path hpath
  have hlongest := (longestChain_congr (fun _ _ => imports_distinct_iff)
    (fun _ => Text.mem_distinct)).mp hlongest
  obtain ⟨n', hn', hlongest'⟩ := (isLayered_depths edges paths).off_cycle path
    (Text.mem_distinct.mp (h.mem path hpath)) hlongest.not_behindCycle
  exact ⟨n, hn, by rw [hn', hlongest.unique hlongest']⟩

/-- What is kept follows from the counters and from who waits: those files into which no edge is
left. -/
theorem kept_of_mem_iff
    (hincoming : ∀ path, state.incoming.get? path =
      if path ∈ Text.distinct paths then
        some ((edges.pending (Text.distinct paths) taken path + left.count path : Nat) : Int)
      else none)
    (hnodup : (taken ++ state.queue).Nodup)
    (hmem : ∀ path, path ∈ taken ++ state.queue ↔ path ∈ Text.distinct paths ∧
      edges.pending (Text.distinct paths) taken path + left.count path = 0)
    (hdepth : ∀ path ∈ taken ++ state.queue, ∃ n, state.depths.get? path = some n ∧
      (edges.depths paths).get? path = some n) : Kept edges paths taken left state where
  incoming path := by
    rw [hincoming path]
    simp only [Text.mem_distinct]
  listed path hpath := Text.mem_distinct.mp ((hmem path).mp hpath).1
  waits_once := hnodup
  importers_taken := by
    rintro path hpath importer ⟨himporter, -, htarget⟩
    have hzero : edges.pending (Text.distinct paths) taken path = 0 :=
      (Nat.add_eq_zero_iff.mp ((hmem path).mp hpath).2).1
    exact pending_eq_zero_iff.mp hzero importer (Text.mem_distinct.mpr himporter) htarget
  depth_final := hdepth
  rounds_le := by
    have hsub : taken ⊆ Text.distinct paths := fun path hpath =>
      ((hmem path).mp (List.mem_append_left _ hpath)).1
    exact (hnodup.sublist (List.sublist_append_left ..)).length_le_of_subset hsub

theorem Invariant.kept (h : Invariant edges (Text.distinct paths) taken state) :
    Kept edges paths taken [] state := by
  refine kept_of_mem_iff h.incoming h.nodup (fun path => ?_) fun path => h.get?_depths_eq
  by_cases hpath : path ∈ Text.distinct paths
  · simp [h.released path hpath, hpath]
  · simp only [hpath, false_and, iff_false]
    exact fun hmem => hpath (h.mem path hmem)

/-- The edges that are left of a file cannot deepen a file that waits, so that it has the depth
that it has when the next file is about to be taken. -/
theorem Midway.kept (h : Midway edges (Text.distinct paths) taken depth left state) :
    Kept edges paths taken left state := by
  have hn := Text.nodup_distinct paths
  cases h with
  | @intro taken path rest done _ head h hq hout =>
    have hmem := h.mem_midway_iff hn hq ((head.depths.get? path).getD 0) hout
    have hafter := h.take hn hq
    rw [Layering.take, hout, List.foldl_append] at hafter
    refine kept_of_mem_iff (h.get?_incoming_midway hn hq _ hout)
      (h.nodup_midway hn hq _ hout) hmem fun p hp => ?_
    obtain ⟨hfile, hzero⟩ := (hmem p).mp hp
    obtain ⟨hpending, hleft⟩ := Nat.add_eq_zero_iff.mp hzero
    obtain ⟨n, hn, hfinal⟩ := hafter.get?_depths_eq ((hafter.released p hfile).mpr hpending)
    rw [get?_depths_foldl_discharge,
      if_neg fun hmore => List.count_eq_zero.mp hleft hmore.1] at hn
    exact ⟨n, hn, hfinal⟩

theorem Comes.kept (h : Comes edges paths taken depth left state) :
    Kept edges paths taken left state := by
  rcases h.midway with ⟨rfl, hinvariant⟩ | hmid
  · exact hinvariant.kept
  · exact hmid.kept

/-! ## The end of the course -/

/-- All edges of a file can be discharged one after the other. -/
theorem Comes.foldl_discharge (h : Comes edges paths taken depth left state) :
    Comes edges paths taken depth [] (left.foldl (Layering.discharge depth) state) := by
  induction left generalizing state with
  | nil => exact h
  | cons target rest ih => exact ih h.discharge

/-- The layering comes to its end, where no file waits. -/
theorem Comes.run (h : Comes edges paths taken depth [] state) :
    ∃ all last, Comes edges paths all last [] (state.run edges) ∧ (state.run edges).queue = [] := by
  fun_induction Layering.run edges state generalizing taken depth with
  | case1 state hq => exact ⟨taken, depth, h, hq⟩
  | case2 state path rest hq _ ih => exact ih (h.take hq).foldl_discharge

end Layering

/-- All through the layering of a list of files, in the middle of a file and between two of them,
the counters are exact, no file has come to wait twice or before one of its importers was taken, and
each file that has come to wait has its final depth. And the layering ends after no more rounds than
there are files, whatever cycles there are. -/
theorem kept_to_the_end (edges : ImportGraph) (paths : List Text) :
    let files := Text.distinct paths
    let last := (Layering.initial edges files).run edges
    (∀ (taken : List Text) (depth : Nat) (left : List Text) (state : Layering),
      Layering.Comes edges paths taken depth left state →
        Layering.Kept edges paths taken left state) ∧
      edges.depths paths = last.settle files ∧ last.queue = [] ∧
      ∃ taken depth, Layering.Comes edges paths taken depth [] last ∧
        taken.length ≤ files.length := by
  have hstart : Layering.Comes edges paths [] 0 [] _ := .start
  obtain ⟨taken, depth, hend, hq⟩ := hstart.run
  exact ⟨fun _ _ _ _ h => h.kept, rfl, hq, taken, depth, hend, hend.kept.rounds_le⟩

/-- A file with two edges into a cycle and one to no file of the list, when the first of them is
discharged. -/
theorem kept_to_the_end_above_cycle :
    let edges : ImportGraph :=
      [(['r'], [['b'], ['b'], ['d']]), (['b'], [['b'], ['c']]), (['c'], [['b']])]
    let paths : List Text := [['r'], ['b'], ['r'], ['c']]
    let state : Layering :=
      { incoming := [(['r'], 0), (['b'], 3), (['c'], 1)]
        depths := [(['r'], 0), (['b'], 1)]
        queue := [] }
    Layering.Comes edges paths [['r']] 0 [['b'], ['d']] state ∧
      Layering.Kept edges paths [['r']] [['b'], ['d']] state := by
  intro edges paths state
  have hstart : Layering.Comes edges paths [] 0 [] (Layering.initial edges (Text.distinct paths)) :=
    .start
  have hqueue : (Layering.initial edges (Text.distinct paths)).queue = ([['r']] : List Text) := by
    decide
  have hout : edges.out ['r'] = ([['b'], ['b'], ['d']] : List Text) := by decide
  have htake := hstart.take hqueue
  rw [hout] at htake
  have hcomes : Layering.Comes edges paths [['r']] 0 [['b'], ['d']] state := htake.discharge
  exact ⟨hcomes, (kept_to_the_end edges paths).1 _ _ _ _ hcomes⟩

end EditorTabs.ImportGraph
