import EditorTabs.Proofs.ImportGraph.Layering
import EditorTabs.Proofs.Text.Sorted

/-!
# Import depth as the longest chain

The depths of a list of files are characterised without the queue: a file off the cycles has the
length of the longest chain that ends at it, and the files on or behind a cycle stand in one band
above all that was given before. So the depth of a file does not depend on the order in which files
and targets are listed.
-/
namespace EditorTabs.ImportGraph

variable {edges edges' : ImportGraph} {paths paths' all : List Text}

/-- What the band of the cycles lies above: zero, the depth of every file off the cycles, and one
more than that for a file that imports one of the band. -/
def BelowBand (edges : ImportGraph) (paths : List Text) (n : Nat) : Prop :=
  n = 0 ∨ ∃ path ∈ paths, ¬ edges.BehindCycle paths path ∧ ∃ d, edges.LongestChain paths path d ∧
    (n = d ∨ n = d + 1 ∧ ∃ b, edges.Imports paths path b ∧ edges.BehindCycle paths b)

/-- Each file of the list has one depth: off the cycles the length of the longest chain that ends
at it, and on or behind a cycle one more than the greatest number below the band. -/
structure IsLayered (edges : ImportGraph) (paths : List Text) (depths : Assoc Text Nat) : Prop where
  nodup_keys : depths.keys.Nodup
  mem_keys : ∀ path, path ∈ depths.keys ↔ path ∈ paths
  off_cycle : ∀ path ∈ paths, ¬ edges.BehindCycle paths path →
    ∃ n, depths.get? path = some n ∧ edges.LongestChain paths path n
  band : ∃ M, IsGreatest {n | edges.BelowBand paths n} M ∧
    ∀ path ∈ paths, edges.BehindCycle paths path → depths.get? path = some (1 + M)

/-- A file off the cycles lies above every file that it imports. -/
theorem IsLayered.lt_of_imports {depths : Assoc Text Nat} (h : IsLayered edges paths depths)
    {a b : Text} (hi : edges.Imports paths a b) (hoff : ¬ edges.BehindCycle paths a) :
    ∃ m n, depths.get? a = some m ∧ depths.get? b = some n ∧ m < n := by
  obtain ⟨m, hm, hlongest⟩ := h.off_cycle a hi.1 hoff
  by_cases hb : edges.BehindCycle paths b
  · obtain ⟨M, hM, hband⟩ := h.band
    have hle : m + 1 ≤ M := hM.2 (.inr ⟨a, hi.1, hoff, m, hlongest, .inr ⟨rfl, b, hi, hb⟩⟩)
    exact ⟨m, 1 + M, hm, hband b hi.2.1 hb, by omega⟩
  · obtain ⟨n, hn, hlongest'⟩ := h.off_cycle b hi.2.1 hb
    exact ⟨m, n, hm, hn, hlongest'.2 (hlongest.1.snoc hi)⟩

/-- What a file of the band imports stands in the band, too. -/
theorem IsLayered.eq_of_imports {depths : Assoc Text Nat} (h : IsLayered edges paths depths)
    {a b : Text} (hi : edges.Imports paths a b) (hb : edges.BehindCycle paths a) :
    ∃ n, depths.get? a = some n ∧ depths.get? b = some n := by
  obtain ⟨M, _, hband⟩ := h.band
  exact ⟨1 + M, hband a hi.1 hb, hband b hi.2.1 (hb.of_imports hi)⟩

section Congr

variable (hp : ∀ path, path ∈ paths ↔ path ∈ paths')
  (hi : ∀ a b, edges.Imports paths a b ↔ edges'.Imports paths' a b)

include hp hi

theorem belowBand_congr {n : Nat} : edges.BelowBand paths n ↔ edges'.BelowBand paths' n := by
  simp only [BelowBand, hp, hi, behindCycle_congr hi, longestChain_congr hi hp]

theorem IsLayered.congr {depths : Assoc Text Nat} (h : IsLayered edges paths depths) :
    IsLayered edges' paths' depths := by
  obtain ⟨hn, hk, hoff, hband⟩ := h
  simp only [hp, behindCycle_congr hi, longestChain_congr hi hp, belowBand_congr hp hi]
    at hk hoff hband
  exact ⟨hn, hk, hoff, hband⟩

/-- The depth of a file is determined by which files there are and which imports. -/
theorem IsLayered.get?_eq {depths depths' : Assoc Text Nat} (h : IsLayered edges paths depths)
    (h' : IsLayered edges' paths' depths') (path : Text) :
    depths.get? path = depths'.get? path := by
  have h := h.congr hp hi
  by_cases hpath : path ∈ paths'
  · by_cases hb : edges'.BehindCycle paths' path
    · obtain ⟨M, hM, hband⟩ := h.band
      obtain ⟨M', hM', hband'⟩ := h'.band
      rw [hband path hpath hb, hband' path hpath hb, hM.unique hM']
    · obtain ⟨n, hn, hlongest⟩ := h.off_cycle path hpath hb
      obtain ⟨n', hn', hlongest'⟩ := h'.off_cycle path hpath hb
      rw [hn, hn', hlongest.unique hlongest']
  · rw [(Assoc.get?_eq_none_iff _ _).mpr (mt (h.mem_keys path).mp hpath),
      (Assoc.get?_eq_none_iff _ _).mpr (mt (h'.mem_keys path).mp hpath)]

end Congr

theorem isGreatest_foldl_max (ns : List Nat) (start : Nat) :
    IsGreatest {n | n = start ∨ n ∈ ns} (ns.foldl max start) := by
  induction ns generalizing start with
  | nil => simp
  | cons a rest ih =>
    obtain ⟨hmem, hle⟩ := ih (max start a)
    constructor
    · rcases hmem with hm | hm
      · rcases max_choice start a with hc | hc
        · exact .inl (hm.trans hc)
        · exact .inr (List.mem_cons.mpr (.inl (hm.trans hc)))
      · exact .inr (List.mem_cons_of_mem _ hm)
    · rintro n (rfl | hn)
      · exact (Nat.le_max_left n a).trans (hle (.inl rfl))
      · rcases List.mem_cons.mp hn with rfl | hn
        · exact (Nat.le_max_right start n).trans (hle (.inl rfl))
        · exact hle (.inr hn)

namespace Layering

def deepest (state : Layering) : Nat :=
  (state.depths.map (·.2)).foldl max 0

/-- The files of a list that still have edges into them. -/
def blocked (paths : List Text) (state : Layering) : List Text :=
  paths.filter fun path => (state.incoming.get? path).any (0 < ·)

theorem settle_eq_putAll (state : Layering) :
    state.settle paths =
      state.depths.putAll ((state.blocked paths).map fun path => (path, state.deepest + 1)) := by
  rw [Assoc.putAll, List.foldl_map]
  rfl

theorem get?_settle (state : Layering) (hn : paths.Nodup) (path : Text) :
    (state.settle paths).get? path =
      if path ∈ state.blocked paths then some (state.deepest + 1) else state.depths.get? path := by
  have hkeys := Assoc.keys_map_pair (fun _ => state.deepest + 1) (state.blocked paths)
  rw [settle_eq_putAll, Assoc.get?_putAll _ (hkeys.symm ▸ hn.filter _), Assoc.get?_map_pair]
  split <;> rfl

variable {state : Layering} (h : Invariant edges paths all state) (hq : state.queue = [])

include h

theorem Invariant.mem_depths_iff {n : Nat} :
    n ∈ state.depths.map (·.2) ↔ ∃ path, state.depths.get? path = some n := by
  constructor
  · intro hn
    obtain ⟨⟨path, _⟩, hmem, rfl⟩ := List.mem_map.mp hn
    exact ⟨path, Assoc.get?_eq_some_of_mem h.nodup_keys hmem⟩
  · rintro ⟨path, hget⟩
    exact List.mem_map.mpr ⟨(path, n), Assoc.mem_of_get? hget, rfl⟩

include hq

/-- When no file waits any more, the files that were taken are those off the cycles. -/
theorem Invariant.mem_taken_iff {path : Text} (hpath : path ∈ paths) :
    path ∈ all ↔ ¬ edges.BehindCycle paths path := by
  constructor
  · intro hall
    obtain ⟨n, _, hlongest⟩ := h.longestChain path (by simp [hall])
    exact hlongest.not_behindCycle
  · intro hoff
    refine offCycle_induction (P := (· ∈ all)) (fun b hb _ ih => ?_) hpath hoff
    have hz : edges.pending paths all b = 0 :=
      pending_eq_zero_iff.mpr fun a ha hab => ih a ⟨ha, hb, hab⟩
    simpa [hq] using (h.released b hb).mpr hz

theorem Invariant.get?_depths_off_cycle {path : Text} (hpath : path ∈ paths)
    (hoff : ¬ edges.BehindCycle paths path) :
    ∃ n, state.depths.get? path = some n ∧ edges.LongestChain paths path n :=
  h.longestChain path (by simp [(h.mem_taken_iff hq hpath).mpr hoff])

/-- A depth other than zero comes from an importer off the cycles. -/
theorem Invariant.exists_importer {path : Text} {n : Nat} (hpath : path ∈ paths)
    (hget : state.depths.get? path = some n) (hn : n ≠ 0) :
    ∃ a ∈ paths, ¬ edges.BehindCycle paths a ∧ ∃ d, edges.LongestChain paths a d ∧ n = d + 1 ∧
      edges.Imports paths a path := by
  have hdepth := h.depth path hpath
  rw [hget, Option.getD_some] at hdepth
  obtain ⟨a, ha, hi, m, hm, rfl⟩ := hdepth.1.resolve_left hn
  have hoff := (h.mem_taken_iff hq hi.1).mp ha
  obtain ⟨d, _, hlongest⟩ := h.get?_depths_off_cycle hq hi.1 hoff
  have hmd : m ≤ d := hlongest.2 hm
  have hdm : d + 1 ≤ m + 1 := hdepth.2 (.inr ⟨a, ha, hi, d, hlongest.1, rfl⟩)
  exact ⟨a, hi.1, hoff, d, hlongest, by omega, hi⟩

/-- The depths that files of the band got on the way count, too. -/
theorem Invariant.isGreatest_deepest :
    IsGreatest {n | edges.BelowBand paths n} state.deepest := by
  obtain ⟨hmem, hle⟩ := isGreatest_foldl_max (state.depths.map (·.2)) 0
  constructor
  · by_cases hz : state.deepest = 0
    · exact .inl hz
    · obtain ⟨path, hget⟩ := h.mem_depths_iff.mp (hmem.resolve_left hz)
      have hpath : path ∈ paths := by
        rcases (h.mem_keys path).mp (Assoc.mem_keys_of_get? hget) with hp | ⟨a, _, hi⟩
        · exact h.mem path hp
        · exact hi.2.1
      by_cases hb : edges.BehindCycle paths path
      · obtain ⟨a, ha, hoff, d, hlongest, hd, hi⟩ := h.exists_importer hq hpath hget hz
        exact .inr ⟨a, ha, hoff, d, hlongest, .inr ⟨hd, path, hi, hb⟩⟩
      · obtain ⟨n, hn, hlongest⟩ := h.get?_depths_off_cycle hq hpath hb
        rw [hget, Option.some_inj] at hn
        exact .inr ⟨path, hpath, hb, n, hlongest, .inl hn⟩
  · rintro n (rfl | ⟨path, hpath, hoff, d, hlongest, hn⟩)
    · exact Nat.zero_le _
    · obtain ⟨d', hget, hlongest'⟩ := h.get?_depths_off_cycle hq hpath hoff
      obtain rfl := hlongest.unique hlongest'
      rcases hn with rfl | ⟨rfl, b, hi, _⟩
      · exact hle (.inr (h.mem_depths_iff.mpr ⟨path, hget⟩))
      · have hall := (h.mem_taken_iff hq hpath).mpr hoff
        obtain ⟨v, hv⟩ :=
          Assoc.exists_get?_of_mem_keys ((h.mem_keys b).mpr (.inr ⟨path, hall, hi⟩))
        have hdepth := h.depth b hi.2.1
        rw [hv, Option.getD_some] at hdepth
        have hdv : d + 1 ≤ v := hdepth.2 (.inr ⟨path, hall, hi, d, hlongest.1, rfl⟩)
        exact hdv.trans (hle (.inr (h.mem_depths_iff.mpr ⟨b, hv⟩)))

theorem Invariant.mem_blocked_iff {path : Text} :
    path ∈ state.blocked paths ↔ path ∈ paths ∧ edges.BehindCycle paths path := by
  rw [blocked, List.mem_filter, h.incoming path]
  apply and_congr_right
  intro hpath
  have hz := h.released path hpath
  rw [hq, List.append_nil, h.mem_taken_iff hq hpath] at hz
  simp only [hpath, if_true, Option.any_some, decide_eq_true_eq]
  rw [← not_iff_not, hz]
  omega

theorem Invariant.isLayered_settle (hn : paths.Nodup) :
    IsLayered edges paths (state.settle paths) := by
  constructor
  case nodup_keys =>
    rw [settle_eq_putAll]
    exact Assoc.nodup_keys_putAll h.nodup_keys _
  case mem_keys =>
    intro path
    rw [settle_eq_putAll, Assoc.mem_keys_putAll, Assoc.keys_map_pair, h.mem_blocked_iff hq,
      h.mem_keys]
    constructor
    · rintro (hp | hp | ⟨a, _, hi⟩)
      · exact hp.1
      · exact h.mem path hp
      · exact hi.2.1
    · intro hpath
      by_cases hb : edges.BehindCycle paths path
      · exact .inl ⟨hpath, hb⟩
      · exact .inr (.inl (by simp [(h.mem_taken_iff hq hpath).mpr hb]))
  case off_cycle =>
    intro path hpath hoff
    rw [get?_settle state hn, if_neg fun hl => hoff ((h.mem_blocked_iff hq).mp hl).2]
    exact h.get?_depths_off_cycle hq hpath hoff
  case band =>
    refine ⟨state.deepest, h.isGreatest_deepest hq, fun path hpath hb => ?_⟩
    rw [get?_settle state hn, if_pos ((h.mem_blocked_iff hq).mpr ⟨hpath, hb⟩), Nat.add_comm]

end Layering

/-- The depths of a list of files are layered by the longest chains of imports. -/
theorem isLayered_depths (edges : ImportGraph) (paths : List Text) :
    IsLayered edges paths (edges.depths paths) := by
  have hn := Text.nodup_distinct paths
  obtain ⟨all, h, hq⟩ := (Layering.invariant_initial edges hn).run hn
  have hp : ∀ path, path ∈ Text.distinct paths ↔ path ∈ paths := fun _ => Text.mem_distinct
  exact (h.isLayered_settle hq hn).congr hp (by simp [Imports])

/-- The longest chain gives the depth of a file off the cycles, and all others share one band; the
order in which the files and the targets of a file are listed, and how often, does not matter. -/
theorem depths_eq_longest_chain_or_band (edges : ImportGraph) (paths : List Text) :
    IsLayered edges paths (edges.depths paths) ∧
      ∀ (edges' : ImportGraph) (paths' : List Text), (∀ path, path ∈ paths ↔ path ∈ paths') →
        (∀ path ∈ paths, ∀ target, target ∈ edges.out path ↔ target ∈ edges'.out path) →
        ∀ path, (edges.depths paths).get? path = (edges'.depths paths').get? path := by
  refine ⟨isLayered_depths edges paths, fun edges' paths' hp ho path => ?_⟩
  have hi : ∀ a b, edges.Imports paths a b ↔ edges'.Imports paths' a b := by
    intro a b
    simp only [Imports, ← hp]
    exact and_congr_right fun ha => and_congr_right fun _ => ho a ha b
  exact (isLayered_depths edges paths).get?_eq hp hi (isLayered_depths edges' paths') path

/-- A file that imports one of a cycle twice, listed first or last, with one edge or both. -/
theorem depths_importer_of_cycle :
    let edges : ImportGraph := [(['r'], [['b'], ['b']]), (['b'], [['c']]), (['c'], [['b']])]
    let edges' : ImportGraph := [(['c'], [['b']]), (['b'], [['c']]), (['r'], [['b']])]
    let paths : List Text := [['r'], ['b'], ['c']]
    let paths' : List Text := [['c'], ['b'], ['r']]
    (∀ path, path ∈ paths ↔ path ∈ paths') ∧
      (∀ path ∈ paths, ∀ target, target ∈ edges.out path ↔ target ∈ edges'.out path) ∧
      ∀ path, (edges.depths paths).get? path = (edges'.depths paths').get? path := by
  intro edges edges' paths paths'
  have hp : ∀ path, path ∈ paths ↔ path ∈ paths' := by
    intro path
    simp only [paths, paths', List.mem_cons, List.not_mem_nil]
    tauto
  have ho : ∀ path ∈ paths, ∀ target, target ∈ edges.out path ↔ target ∈ edges'.out path := by
    simp [paths, edges, edges', out, Assoc.get?]
  exact ⟨hp, ho, (depths_eq_longest_chain_or_band edges paths).2 edges' paths' hp ho⟩

end EditorTabs.ImportGraph
