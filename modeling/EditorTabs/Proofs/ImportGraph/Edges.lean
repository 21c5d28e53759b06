import EditorTabs.Proofs.Assoc
import EditorTabs.Proofs.ImportGraph.Chain
import EditorTabs.Proofs.OpenPaths

/-!
# Edges among open paths

The edges of a graph go from open paths to open paths: a file has an edge to each open path that
one of its references stands for. What a reference stands for is looked for once and then kept for
all files; what is kept is true, so that the edges are those of a search without it.
-/
namespace EditorTabs.ImportGraph

variable {graph : ImportGraph} {index : OpenPaths} {known : Matches}

/-- The open paths that the references of one file stand for, each reference looked for by
itself. -/
def targets (index : OpenPaths) (references : List Text) : List Text :=
  Text.distinct ((Text.sortedSet references).filterMap index.match?)

/-- What is kept is what a search finds. -/
def Recalls (index : OpenPaths) (known : Matches) : Prop :=
  ∀ reference found, known.get? reference = some found → found = index.match? reference

theorem recalls_nil (index : OpenPaths) : Recalls index [] := by
  intro reference found h
  simp [Assoc.get?] at h

theorem remember_of_recalls (h : Recalls index known) (reference : Text) :
    (remember index known reference).1 = index.match? reference ∧
      Recalls index (remember index known reference).2 := by
  rw [remember]
  cases hget : known.get? reference with
  | some found => exact ⟨h reference found hget, h⟩
  | none =>
    refine ⟨rfl, fun other found hother => ?_⟩
    rw [Assoc.get?_put] at hother
    split at hother
    · next heq => exact heq ▸ (Option.some.inj hother).symm
    · exact h other found hother

/-- The paths collected so far are those of a list with its later copies left out. -/
theorem collect_of_recalls (h : Recalls index known) (references collected : List Text) :
    (collect index references (Text.distinct collected) known).1 =
        Text.distinct (collected ++ references.filterMap index.match?) ∧
      Recalls index (collect index references (Text.distinct collected) known).2 := by
  induction references generalizing collected known with
  | nil => simpa [collect] using h
  | cons reference rest ih =>
    obtain ⟨hfound, hknown⟩ := remember_of_recalls h reference
    rw [collect]
    cases hmatch : index.match? reference with
    | none =>
      simp only [hfound, hmatch, List.filterMap_cons]
      exact ih hknown collected
    | some target =>
      have hput : (if target ∈ Text.distinct collected then Text.distinct collected
          else Text.distinct collected ++ [target]) = Text.distinct (collected ++ [target]) := by
        by_cases htarget : target ∈ collected <;>
          simp [htarget, Text.distinct_append_singleton]
      simp only [hfound, hmatch, hput, List.filterMap_cons]
      simpa using ih hknown (collected ++ [target])

theorem edgesFrom_of_recalls (h : Recalls index known) (graph : ImportGraph)
    (paths : List Text) :
    graph.edgesFrom index paths known =
      paths.map fun path => (path, targets index ((graph.get? path).getD [])) := by
  induction paths generalizing known with
  | nil => rfl
  | cons path rest ih =>
    obtain ⟨htargets, hknown⟩ :=
      collect_of_recalls h (Text.sortedSet ((graph.get? path).getD [])) []
    rw [edgesFrom, List.map_cons]
    exact congrArg₂ List.cons (Prod.ext rfl htargets) (ih hknown)

theorem edges_eq_map (graph : ImportGraph) (index : OpenPaths) :
    graph.edges index =
      index.paths.map fun path => (path, targets index ((graph.get? path).getD [])) :=
  edgesFrom_of_recalls (recalls_nil index) graph index.paths

@[simp] theorem keys_edges (graph : ImportGraph) (index : OpenPaths) :
    (graph.edges index).keys = index.paths := by
  rw [edges_eq_map]
  exact Assoc.keys_map_pair _ index.paths

theorem mem_targets {references : List Text} {target : Text} :
    target ∈ targets index references ↔
      ∃ reference ∈ references, index.match? reference = some target := by
  simp [targets]

theorem targets_congr {index' : OpenPaths} {references : List Text}
    (h : ∀ reference ∈ references, index.match? reference = index'.match? reference) :
    targets index references = targets index' references := by
  have hmatches : (Text.sortedSet references).filterMap index.match? =
      (Text.sortedSet references).filterMap index'.match? :=
    List.filterMap_congr fun reference hr => h reference (Text.mem_sortedSet.mp hr)
  rw [targets, targets, hmatches]

theorem out_edges (graph : ImportGraph) (index : OpenPaths) (path : Text) :
    (graph.edges index).out path =
      if path ∈ index.paths then targets index ((graph.get? path).getD []) else [] := by
  rw [out, edges_eq_map, Assoc.get?_map_pair]
  split <;> rfl

theorem mem_out_edges {path target : Text} :
    target ∈ (graph.edges index).out path ↔ path ∈ index.paths ∧
      ∃ reference ∈ (graph.get? path).getD [], index.match? reference = some target := by
  rw [out_edges]
  split
  · next h => simp [h, mem_targets]
  · next h => simp [h]

theorem nodup_out_edges (graph : ImportGraph) (index : OpenPaths) (path : Text) :
    ((graph.edges index).out path).Nodup := by
  rw [out_edges]
  split
  · exact Text.nodup_distinct _
  · exact List.nodup_nil

/-- Both ends of an edge are open. -/
theorem imports_edges_iff {a b : Text} :
    (graph.edges index).Imports (graph.edges index).keys a b ↔ b ∈ (graph.edges index).out a := by
  rw [Imports, keys_edges]
  constructor
  · exact fun h => h.2.2
  · intro h
    obtain ⟨ha, _, _, hmatch⟩ := mem_out_edges.mp h
    exact ⟨ha, OpenPaths.match?_mem hmatch, h⟩

/-- The edges among open paths, whatever the files of the graph: each open path once and in order,
with what its references stand for in code point order, each reference looked for by itself. -/
theorem edges_eq_matches_in_order (graph : ImportGraph) (paths : List Text) :
    let index := OpenPaths.ofList paths
    (graph.edges index).keys = Text.distinct paths ∧
    graph.edges index = (Text.distinct paths).map (fun path =>
      (path, Text.distinct
        ((Text.sortedSet ((graph.get? path).getD [])).filterMap index.match?))) ∧
    (∀ path ∈ paths, ∃ ordered : List Text, ordered.Pairwise (· ≤ ·) ∧ ordered.Nodup ∧
      (∀ reference, reference ∈ ordered ↔ reference ∈ (graph.get? path).getD []) ∧
      (graph.edges index).get? path = some (Text.distinct (ordered.filterMap index.match?))) ∧
    ∀ path, (graph.edges index).out path ⊆ paths ∧ ((graph.edges index).out path).Nodup ∧
      ∀ target, target ∈ (graph.edges index).out path ↔ path ∈ paths ∧
        ∃ reference ∈ (graph.get? path).getD [], index.match? reference = some target := by
  intro index
  refine ⟨keys_edges graph index, edges_eq_map graph index, fun path hpath => ?_,
    fun path => ⟨?_, ?_, fun target => ?_⟩⟩
  · refine ⟨_, Text.pairwise_sortedSet _, Text.nodup_sortedSet _, fun _ => Text.mem_sortedSet, ?_⟩
    rw [edges_eq_map, Assoc.get?_map_pair, if_pos (OpenPaths.mem_paths_ofList.mpr hpath)]
    rfl
  · intro target h
    obtain ⟨_, _, _, hmatch⟩ := mem_out_edges.mp h
    exact OpenPaths.mem_paths_ofList.mp (OpenPaths.match?_mem hmatch)
  · exact nodup_out_edges graph index path
  · rw [mem_out_edges, OpenPaths.mem_paths_ofList]

end EditorTabs.ImportGraph
