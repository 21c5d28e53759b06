import EditorTabs.Proofs.Assoc
import EditorTabs.Proofs.ImportGraph.Chain
import Mathlib.Data.List.Perm.Basic

/-!
# The queue of the layering

The files that have been taken from the queue are not part of its state, so the invariant speaks of
them as a list beside it. Each counter is the number of edges from files that are not taken yet; a
file is released once that is zero; and the depth given to a file so far is the length of the
longest chain whose last import is discharged.
-/
namespace EditorTabs.ImportGraph

variable {edges : ImportGraph} {paths taken : List Text}

/-- The edges into a file from files of the list that are not taken, an edge counted as often as it
is listed. -/
def pending (edges : ImportGraph) (paths taken : List Text) (path : Text) : Nat :=
  ((paths.filter (· ∉ taken)).flatMap edges.out).count path

theorem pending_nil (path : Text) :
    edges.pending paths [] path = (paths.flatMap edges.out).count path := by
  simp [pending]

theorem pending_eq_zero_iff {b : Text} :
    edges.pending paths taken b = 0 ↔ ∀ a ∈ paths, b ∈ edges.out a → a ∈ taken := by
  simp only [pending, List.count_eq_zero, List.mem_flatMap, List.mem_filter, decide_eq_true_eq,
    not_exists, not_and]
  exact ⟨fun h a ha hb => by_contra fun ht => h a ⟨ha, ht⟩ hb, fun h a ha hb => ha.2 (h a ha.1 hb)⟩

/-- Taking a file discharges its edges and no others. -/
theorem count_add_pending (hn : paths.Nodup) {a : Text} (ha : a ∈ paths) (ht : a ∉ taken)
    (b : Text) :
    (edges.out a).count b + edges.pending paths (taken ++ [a]) b = edges.pending paths taken b := by
  have hmem : a ∈ paths.filter (· ∉ taken) := by simp [ha, ht]
  have herase : (paths.filter (· ∉ taken)).erase a = paths.filter (· ∉ taken ++ [a]) := by
    rw [(hn.filter _).erase_eq_filter, List.filter_filter]
    apply List.filter_congr
    intro c _
    by_cases hc : c = a <;> simp [hc, ht]
  have hperm : (paths.filter (· ∉ taken)).Perm (a :: paths.filter (· ∉ taken ++ [a])) :=
    herase ▸ List.perm_cons_erase hmem
  rw [pending, pending, (hperm.flatMap_right edges.out).count_eq b, List.flatMap_cons,
    List.count_append]

namespace Layering

section Discharge

variable (depth : Nat) (state : Layering)

theorem get?_incoming_discharge (target path : Text) :
    (state.discharge depth target).incoming.get? path =
      (state.incoming.get? path).map fun count => count - if target = path then 1 else 0 := by
  unfold discharge
  by_cases h : target = path
  · subst h
    split
    · next hg => simp [hg]
    · next count hg => simp [Assoc.get?_put_self, hg]
  · split <;> simp [Assoc.get?_put, h]

theorem mem_keys_incoming_discharge (target path : Text) :
    path ∈ (state.discharge depth target).incoming.keys ↔ path ∈ state.incoming.keys := by
  rw [← Assoc.isSome_get?_iff, ← Assoc.isSome_get?_iff, get?_incoming_discharge]
  simp

theorem get?_depths_discharge (target path : Text) :
    (state.discharge depth target).depths.get? path =
      if target = path ∧ path ∈ state.incoming.keys then
        some (max ((state.depths.get? path).getD 0) (depth + 1))
      else state.depths.get? path := by
  unfold discharge
  split
  · next hg =>
    rw [if_neg]
    rintro ⟨rfl, hk⟩
    exact (Assoc.get?_eq_none_iff _ _).mp hg hk
  · next count hg =>
    have hk := Assoc.mem_keys_of_get? hg
    by_cases h : target = path
    · subst h
      simp [Assoc.get?_put_self, hk]
    · simp [Assoc.get?_put, h]

theorem nodup_keys_depths_discharge (target : Text) (h : state.depths.keys.Nodup) :
    (state.discharge depth target).depths.keys.Nodup := by
  unfold discharge
  split
  · exact h
  · exact Assoc.nodup_keys_put _ _ h

theorem get?_incoming_foldl_discharge (targets : List Text) (path : Text) :
    (targets.foldl (Layering.discharge depth) state).incoming.get? path =
      (state.incoming.get? path).map (· - (targets.count path : Int)) := by
  induction targets generalizing state with
  | nil => simp
  | cons target rest ih =>
    rw [List.foldl_cons, ih, get?_incoming_discharge, Option.map_map]
    congr 1
    funext count
    by_cases h : target = path
    · simp [h]
      omega
    · simp [h]

theorem get?_depths_foldl_discharge (targets : List Text) (path : Text) :
    (targets.foldl (Layering.discharge depth) state).depths.get? path =
      if path ∈ targets ∧ path ∈ state.incoming.keys then
        some (max ((state.depths.get? path).getD 0) (depth + 1))
      else state.depths.get? path := by
  induction targets generalizing state with
  | nil => simp
  | cons target rest ih =>
    simp only [List.foldl_cons, ih, mem_keys_incoming_discharge, get?_depths_discharge]
    by_cases hk : path ∈ state.incoming.keys
    · by_cases h : target = path
      · simp [h, hk]
      · simp [h, hk, Ne.symm h]
    · simp [hk]

theorem nodup_keys_depths_foldl_discharge (targets : List Text) (h : state.depths.keys.Nodup) :
    (targets.foldl (Layering.discharge depth) state).depths.keys.Nodup := by
  induction targets generalizing state with
  | nil => exact h
  | cons target rest ih => exact ih _ (nodup_keys_depths_discharge depth state target h)

theorem queue_discharge {target : Text} {count : Int}
    (h : state.incoming.get? target = some count) :
    (state.discharge depth target).queue =
      state.queue ++ if count = 1 then [target] else [] := by
  have hc : count - 1 = 0 ↔ count = 1 := by omega
  simp only [discharge, h, hc]
  split <;> simp

/-- The last edge into a file is among edges that are discharged. -/
def Releases (targets : List Text) (path : Text) : Prop :=
  path ∈ targets ∧ state.incoming.get? path = some (targets.count path : Int)

variable {target : Text} {rest : List Text}

theorem releases_discharge_of_ne {path : Text} (hp : path ≠ target) :
    (state.discharge depth target).Releases rest path ↔ state.Releases (target :: rest) path := by
  rw [Releases, Releases, get?_incoming_discharge]
  simp [hp, Ne.symm hp]

theorem releases_cons_self_iff :
    state.Releases (target :: rest) target ↔
      state.incoming.get? target = some (rest.count target + 1 : Int) := by
  simp [Releases]

theorem releases_discharge_self_iff :
    (state.discharge depth target).Releases rest target ↔
      target ∈ rest ∧ state.Releases (target :: rest) target := by
  rw [releases_cons_self_iff, Releases, get?_incoming_discharge, if_pos rfl,
    Option.map_eq_some_iff]
  refine and_congr_right fun _ => ⟨?_, fun h => ⟨_, h, by omega⟩⟩
  rintro ⟨count, hg, hc⟩
  rw [hg, Option.some_inj]
  omega

/-- Counters that are high enough for some edges are so for those that are left after the first. -/
theorem count_le_discharge
    (h : ∀ path count, state.incoming.get? path = some count →
      ((target :: rest).count path : Int) ≤ count) (path : Text) (count : Int)
    (hc : (state.discharge depth target).incoming.get? path = some count) :
    (rest.count path : Int) ≤ count := by
  rw [get?_incoming_discharge] at hc
  obtain ⟨before, hb, rfl⟩ := Option.map_eq_some_iff.mp hc
  have := h path before hb
  rw [List.count_cons] at this
  by_cases hp : target = path <;> simp [hp] at this ⊢ <;> omega

/-- The files that come to wait while edges are discharged are those that are released, each
once. -/
theorem queue_foldl_discharge (targets : List Text)
    (h : ∀ path count, state.incoming.get? path = some count → (targets.count path : Int) ≤ count) :
    ∃ released : List Text,
      (targets.foldl (Layering.discharge depth) state).queue = state.queue ++ released ∧
        released.Nodup ∧ ∀ path, path ∈ released ↔ state.Releases targets path := by
  induction targets generalizing state with
  | nil => exact ⟨[], by simp [Releases]⟩
  | cons target rest ih =>
    obtain ⟨released, hq, hn, hm⟩ := ih _ (count_le_discharge depth state h)
    have hother : ∀ path, path ≠ target →
        (path ∈ released ↔ state.Releases (target :: rest) path) :=
      fun path hp => (hm path).trans (releases_discharge_of_ne depth state hp)
    have hself := (hm target).trans (releases_discharge_self_iff depth state)
    rw [List.foldl_cons, hq]
    by_cases h1 : state.incoming.get? target = some 1
    · -- the counter is down to the only edge into the target that is left
      have hle := h target 1 h1
      have hz : rest.count target = 0 := by
        rw [List.count_cons_self] at hle
        omega
      have hnot : target ∉ released := fun ht => List.count_eq_zero.mp hz (hself.mp ht).1
      refine ⟨target :: released, by simp [queue_discharge depth state h1],
        List.nodup_cons.mpr ⟨hnot, hn⟩, fun path => ?_⟩
      by_cases hp : path = target
      · subst hp
        simp [releases_cons_self_iff, h1, hz]
      · rw [← hother path hp]
        simp [hp]
    · have hqueue : (state.discharge depth target).queue = state.queue := by
        cases hg : state.incoming.get? target with
        | none => simp [discharge, hg]
        | some count =>
          rw [hg, Option.some_inj] at h1
          simp [queue_discharge depth state hg, h1]
      refine ⟨released, by rw [hqueue], hn, fun path => ?_⟩
      by_cases hp : path = target
      · subst hp
        refine hself.trans ⟨fun hr => hr.2, fun hr => ⟨?_, hr⟩⟩
        by_contra hnot
        rw [releases_cons_self_iff, List.count_eq_zero.mpr hnot] at hr
        exact h1 (by simpa using hr)
      · exact hother path hp

end Discharge

end Layering

/-- A chain that ends at a file and has no import, or one from a taken file as its last. -/
def DischargedChain (edges : ImportGraph) (paths taken : List Text) (n : Nat) (path : Text) :
    Prop :=
  n = 0 ∨ ∃ a ∈ taken, edges.Imports paths a path ∧ ∃ m, Chain edges paths m a ∧ n = m + 1

theorem dischargedChain_nil_iff {n : Nat} {path : Text} :
    edges.DischargedChain paths [] n path ↔ n = 0 := by
  simp [DischargedChain]

theorem dischargedChain_append_singleton_iff {n : Nat} {a path : Text} :
    edges.DischargedChain paths (taken ++ [a]) n path ↔
      edges.DischargedChain paths taken n path ∨
        edges.Imports paths a path ∧ ∃ m, Chain edges paths m a ∧ n = m + 1 := by
  simp only [DischargedChain, List.mem_append, List.mem_singleton, or_and_right, exists_or,
    exists_eq_left, or_assoc]

/-- Every chain that ends at a released file is discharged. -/
theorem dischargedChain_iff_chain {n : Nat} {path : Text} (hpath : path ∈ paths)
    (h : edges.pending paths taken path = 0) :
    edges.DischargedChain paths taken n path ↔ Chain edges paths n path := by
  constructor
  · rintro (rfl | ⟨a, _, ha, m, hm, rfl⟩)
    · exact .single hpath
    · exact hm.snoc ha
  · intro chain
    cases n with
    | zero => exact .inl rfl
    | succ m =>
      obtain ⟨a, ha, hm⟩ := chain_succ_iff.mp chain
      exact .inr ⟨a, pending_eq_zero_iff.mp h a ha.1 ha.2.2, ha, m, hm, rfl⟩

namespace Layering

/-- What holds of the queue each time the next file is about to be taken. -/
structure Invariant (edges : ImportGraph) (paths taken : List Text) (state : Layering) : Prop where
  nodup : (taken ++ state.queue).Nodup
  mem : ∀ path ∈ taken ++ state.queue, path ∈ paths
  incoming : ∀ path, state.incoming.get? path =
    if path ∈ paths then some (edges.pending paths taken path : Int) else none
  released : ∀ path ∈ paths, path ∈ taken ++ state.queue ↔ edges.pending paths taken path = 0
  nodup_keys : state.depths.keys.Nodup
  mem_keys : ∀ path, path ∈ state.depths.keys ↔
    path ∈ taken ++ state.queue ∨ ∃ a ∈ taken, edges.Imports paths a path
  depth : ∀ path ∈ paths, IsGreatest {n | edges.DischargedChain paths taken n path}
    ((state.depths.get? path).getD 0)

variable {state : Layering}

/-- The depth of a file that waits or was taken is final. -/
theorem Invariant.longestChain (h : Invariant edges paths taken state) (path : Text)
    (hpath : path ∈ taken ++ state.queue) :
    ∃ n, state.depths.get? path = some n ∧ edges.LongestChain paths path n := by
  obtain ⟨n, hn⟩ := Assoc.exists_get?_of_mem_keys ((h.mem_keys path).mpr (.inl hpath))
  have hz := (h.released path (h.mem path hpath)).mp hpath
  have hd := h.depth path (h.mem path hpath)
  simp only [hn, Option.getD_some, dischargedChain_iff_chain (h.mem path hpath) hz] at hd
  exact ⟨n, hn, hd⟩

theorem invariant_initial (edges : ImportGraph) (hn : paths.Nodup) :
    Invariant edges paths [] (initial edges paths) := by
  have hin : ∀ path, (countIncoming edges paths).get? path =
      if path ∈ paths then some (edges.pending paths [] path : Int) else none := by
    intro path
    simp only [countIncoming, pending_nil]
    exact Assoc.get?_map_pair _ paths path
  have hkeys : (countIncoming edges paths).keys = paths := Assoc.keys_map_pair _ paths
  have hfree : ∀ path, path ∈ (initial edges paths).queue ↔
      path ∈ paths ∧ edges.pending paths [] path = 0 := by
    intro path
    simp [initial, countIncoming, Assoc.keys, pending_nil]
  have hnodup : (initial edges paths).queue.Nodup := by
    have hsub : (initial edges paths).queue.Sublist paths := by
      conv_rhs => rw [← hkeys]
      exact List.filter_sublist.map Prod.fst
    exact hn.sublist hsub
  have hdepths : (initial edges paths).depths.keys = (initial edges paths).queue :=
    Assoc.keys_map_pair (fun _ => 0) _
  constructor
  case nodup => exact hnodup
  case mem => exact fun path hp => ((hfree path).mp hp).1
  case incoming => exact hin
  case released =>
    intro path hp
    simp [hfree, hp]
  case nodup_keys => exact hdepths.symm ▸ hnodup
  case mem_keys => simp [hdepths]
  case depth =>
    intro path _
    have hz : ((initial edges paths).depths.get? path).getD 0 = 0 := by
      simp only [initial, Assoc.get?_map_pair]
      split <;> rfl
    simp only [hz, dischargedChain_nil_iff, Set.ofPred_eq_eq_singleton]
    exact isGreatest_singleton

theorem Invariant.mem_keys_incoming (h : Invariant edges paths taken state) (path : Text) :
    path ∈ state.incoming.keys ↔ path ∈ paths := by
  rw [← Assoc.isSome_get?_iff, h.incoming path]
  split <;> simp [*]

section Take

variable {path : Text} {rest : List Text} (hn : paths.Nodup) (hq : state.queue = path :: rest)
  (h : Invariant edges paths taken state)

include hq h

theorem Invariant.head_mem : path ∈ paths :=
  h.mem path (by simp [hq])

theorem Invariant.head_notMem_taken : path ∉ taken := fun ht =>
  (List.nodup_append.mp h.nodup).2.2 path ht path (by simp [hq]) rfl

theorem Invariant.exists_take_eq :
    ∃ d, edges.LongestChain paths path d ∧ state.take edges path rest =
      (edges.out path).foldl (Layering.discharge d) { state with queue := rest } := by
  obtain ⟨d, hd, hlongest⟩ := h.longestChain path (by simp [hq])
  exact ⟨d, hlongest, by simp only [Layering.take, hd, Option.getD_some]⟩

theorem Invariant.get?_depths_take :
    ∃ d, edges.LongestChain paths path d ∧ ∀ p, (state.take edges path rest).depths.get? p =
      if edges.Imports paths path p then some (max ((state.depths.get? p).getD 0) (d + 1))
      else state.depths.get? p := by
  obtain ⟨d, hlongest, htake⟩ := h.exists_take_eq hq
  refine ⟨d, hlongest, fun p => ?_⟩
  simp only [htake, get?_depths_foldl_discharge, h.mem_keys_incoming, Imports, h.head_mem hq,
    true_and, and_comm]

include hn

theorem Invariant.count_add_pending (p : Text) :
    (edges.out path).count p + edges.pending paths (taken ++ [path]) p =
      edges.pending paths taken p :=
  ImportGraph.count_add_pending hn (h.head_mem hq) (h.head_notMem_taken hq) p

section Midway

variable {done left : List Text} (depth : Nat) (hout : edges.out path = done ++ left)

include hout

/-- In the middle of a file the edges that are left of it count as well. -/
theorem Invariant.get?_incoming_midway (p : Text) :
    (done.foldl (Layering.discharge depth) { state with queue := rest }).incoming.get? p =
      if p ∈ paths then
        some ((edges.pending paths (taken ++ [path]) p + left.count p : Nat) : Int)
      else none := by
  have := h.count_add_pending hn hq p
  rw [hout, List.count_append] at this
  rw [get?_incoming_foldl_discharge, h.incoming p]
  split
  · simp only [Option.map_some, Option.some_inj]
    omega
  · rfl

/-- The files that wait in the middle of a file: those that waited, and those that its edges so far
have released. -/
theorem Invariant.queue_midway :
    ∃ released : List Text,
      (taken ++ [path]) ++
          (done.foldl (Layering.discharge depth) { state with queue := rest }).queue =
        (taken ++ state.queue) ++ released ∧
      released.Nodup ∧ ∀ p, p ∈ released ↔
        p ∈ paths ∧ p ∈ done ∧ edges.pending paths (taken ++ [path]) p + left.count p = 0 := by
  have hcount : ∀ p, done.count p + left.count p + edges.pending paths (taken ++ [path]) p =
      edges.pending paths taken p := by
    intro p
    rw [← List.count_append, ← hout, h.count_add_pending hn hq p]
  have hle : ∀ p count, state.incoming.get? p = some count → (done.count p : Int) ≤ count := by
    intro p count hc
    have := hcount p
    rw [h.incoming p] at hc
    split at hc
    · have := Option.some_inj.mp hc
      omega
    · cases hc
  obtain ⟨released, hqueue, hnodup, hmem⟩ :=
    queue_foldl_discharge depth { state with queue := rest } done hle
  refine ⟨released, by simp [hqueue, hq], hnodup, fun p => ?_⟩
  have := hcount p
  simp only [hmem, Releases, h.incoming p]
  split
  · next hp =>
    simp only [Option.some_inj, hp, true_and]
    exact and_congr_right fun _ => by omega
  · next hp => simp [hp]

theorem Invariant.nodup_midway :
    ((taken ++ [path]) ++
      (done.foldl (Layering.discharge depth) { state with queue := rest }).queue).Nodup := by
  obtain ⟨released, hall, hnodup, hreleased⟩ := h.queue_midway hn hq depth hout
  rw [hall]
  refine List.nodup_append.mpr ⟨h.nodup, hnodup, ?_⟩
  rintro p hp q hr rfl
  obtain ⟨hpath, hdone, _⟩ := (hreleased p).mp hr
  have hz := (h.released p hpath).mp hp
  have htarget : p ∈ edges.out path := by simp [hout, hdone]
  exact h.head_notMem_taken hq (pending_eq_zero_iff.mp hz path (h.head_mem hq) htarget)

/-- A file waits or was taken exactly if no edge into it is left. -/
theorem Invariant.mem_midway_iff (p : Text) :
    p ∈ (taken ++ [path]) ++
        (done.foldl (Layering.discharge depth) { state with queue := rest }).queue ↔
      p ∈ paths ∧ edges.pending paths (taken ++ [path]) p + left.count p = 0 := by
  obtain ⟨released, hall, -, hreleased⟩ := h.queue_midway hn hq depth hout
  rw [hall, List.mem_append, hreleased]
  by_cases hp : p ∈ paths
  · have := h.count_add_pending hn hq p
    rw [hout, List.count_append] at this
    have hpos : p ∈ done ↔ 0 < done.count p := List.count_pos_iff.symm
    simp only [h.released p hp, hp, true_and, hpos]
    omega
  · simp only [hp, false_and, or_false, iff_false]
    exact fun hmem => hp (h.mem p hmem)

end Midway

/-- One more file is taken: its edges are discharged, and the files released by that wait. -/
theorem Invariant.take : Invariant edges paths (taken ++ [path]) (state.take edges path rest) := by
  obtain ⟨d, hlongest, hdepths⟩ := h.get?_depths_take hq
  obtain ⟨depth, -, htake⟩ := h.exists_take_eq hq
  have hout : edges.out path = edges.out path ++ [] := (List.append_nil _).symm
  constructor
  case nodup => exact htake ▸ h.nodup_midway hn hq depth hout
  case mem =>
    intro p hp
    rw [htake, h.mem_midway_iff hn hq depth hout] at hp
    exact hp.1
  case incoming =>
    intro p
    rw [htake, h.get?_incoming_midway hn hq depth hout]
    rfl
  case released =>
    intro p hp
    rw [htake, h.mem_midway_iff hn hq depth hout]
    simp [hp]
  case nodup_keys =>
    rw [htake]
    exact nodup_keys_depths_foldl_discharge _ _ _ h.nodup_keys
  case mem_keys =>
    intro p
    obtain ⟨released, hall, -, hreleased⟩ := h.queue_midway hn hq depth hout
    have hold : (state.depths.get? p).isSome = true ↔ _ :=
      (Assoc.isSome_get?_iff _ _).trans (h.mem_keys p)
    have himports : p ∈ released → edges.Imports paths path p := fun hp =>
      ⟨h.head_mem hq, ((hreleased p).mp hp).1, ((hreleased p).mp hp).2.1⟩
    rw [← Assoc.isSome_get?_iff, hdepths, htake, hall, List.mem_append (s := taken ++ state.queue)]
    simp only [List.mem_append, List.mem_singleton, or_and_right, exists_or, exists_eq_left]
      at hold ⊢
    split
    · next hi => simp [hi]
    · next hi => simp [hi, hold, mt himports hi]
  case depth =>
    intro p hp
    have hold := h.depth p hp
    rw [hdepths]
    split
    · next hi =>
      simp only [dischargedChain_append_singleton_iff, hi, true_and, Option.getD_some]
      constructor
      · rcases max_choice ((state.depths.get? p).getD 0) (d + 1) with hm | hm
        · rw [hm]
          exact .inl hold.1
        · rw [hm]
          exact .inr ⟨d, hlongest.1, rfl⟩
      · rintro n (hn | ⟨m, hm, rfl⟩)
        · exact le_max_of_le_left (hold.2 hn)
        · exact le_max_of_le_right (Nat.succ_le_succ (hlongest.2 hm))
    · next hi =>
      simpa only [dischargedChain_append_singleton_iff, hi, false_and, or_false] using hold

end Take

theorem Invariant.run (hn : paths.Nodup) (h : Invariant edges paths taken state) :
    ∃ all, Invariant edges paths all (state.run edges) ∧ (state.run edges).queue = [] := by
  fun_induction Layering.run edges state generalizing taken with
  | case1 state hq => exact ⟨taken, h, hq⟩
  | case2 state path rest hq _ ih => exact ih (h.take hn hq)

end Layering

end EditorTabs.ImportGraph
