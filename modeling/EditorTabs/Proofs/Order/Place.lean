import EditorTabs.Host.Memory
import EditorTabs.Proofs.Order.Hierarchy
import EditorTabs.Proofs.Order.Levels
import EditorTabs.Proofs.Path.Normal
import EditorTabs.Strategy

/-!
# The order by hierarchy as an order by depth and name

When paths are normalised, the directory of one never decides at equal depth: a directory that lies
above another one has fewer separators. The order by hierarchy is then the stable sort by the number
of separators and the key of the path, both as seen from the root.
-/
namespace EditorTabs

/-- A path in full: absolute, normalised, and without backslashes. -/
structure Path.IsPlain (path : Text) : Prop where
  absolute : Path.isAbsolute path = true
  normal : Path.normalize path = path
  forward : Path.backslash ∉ path

instance (path : Text) : Decidable (Path.IsPlain path) :=
  decidable_of_iff (Path.isAbsolute path = true ∧ Path.normalize path = path ∧
      Path.backslash ∉ path)
    ⟨fun ⟨habsolute, hnormal, hforward⟩ => ⟨habsolute, hnormal, hforward⟩,
      fun h => ⟨h.absolute, h.normal, h.forward⟩⟩

namespace Order

variable {cwd path a b : Text} {root : Option Text} {tabs : List Tab}

/-- Paths on the level of their depth, under their names as seen from the root. -/
def Placing.hierarchy (cwd : Text) (root : Option Text) : Placing where
  level path := (seenFrom cwd root path).count Path.slash
  name := seenFrom cwd root

theorem slashesApart_tail_seenFrom (h : Path.IsPlain path) (cwd : Text) (root : Option Text) :
    Path.SlashesApart (seenFrom cwd root path).tail := by
  rw [seenFrom]
  split
  · next start _ =>
    have habsolute : Path.absolute cwd path = path := by
      rw [Path.absolute, Path.join, if_pos h.absolute, h.normal]
    rw [Path.relative, habsolute,
      Path.forward_eq_self (Path.backslash_notMem_wayBetween h.forward _)]
    exact (Path.slashesApart_wayBetween _ _).tail
  · rw [Path.forward_eq_self h.forward, ← h.normal]
    exact Path.slashesApart_tail_normalize path

theorem not_isAbove_of_slashesApart (hapart : Path.SlashesApart a.tail) (ha : Path.forward a = a)
    (hb : Path.forward b = b) (hdepth : pathDepth a = pathDepth b) : ¬ isAbove a b = true := by
  intro habove
  obtain ⟨rest, hrest⟩ := separators_of_isAbove ha hb hdepth habove
  cases hparent : Path.parent a with
  | nil =>
    obtain ⟨n, name, -, hcount, hn⟩ := Path.exists_eq_parent_append a
    rw [hparent] at hcount hn hrest
    have hzero : n = 0 := hn.mpr (by simp)
    rw [← hrest, hzero] at hcount
    simp at hcount
  | cons c directory =>
    rw [hparent] at hrest
    rw [← hrest] at hapart
    have hslashes : [Path.slash, Path.slash] <:+: directory ++ [Path.slash, Path.slash] ++ rest :=
      ⟨directory, rest, rfl⟩
    have hpair : Path.SlashesApart [Path.slash, Path.slash] := List.IsChain.infix hapart hslashes
    exact List.rel_of_isChain_cons_cons hpair rfl rfl

/-- At equal depth the directory of a path in full is not above that of another. -/
theorem not_isAbove_seenFrom (h : Path.IsPlain path) {other : Text}
    (hdepth : pathDepth (seenFrom cwd root path) = pathDepth (seenFrom cwd root other)) :
    ¬ isAbove (seenFrom cwd root path) (seenFrom cwd root other) = true :=
  not_isAbove_of_slashesApart (slashesApart_tail_seenFrom h cwd root) (forward_seenFrom path)
    (forward_seenFrom other) hdepth

theorem compareSeen_eq_compare {p q : Text}
    (h : pathDepth (seenFrom cwd root p) = pathDepth (seenFrom cwd root q) →
      ¬ isAbove (seenFrom cwd root p) (seenFrom cwd root q) = true ∧
        ¬ isAbove (seenFrom cwd root q) (seenFrom cwd root p) = true) :
    compareSeen (seenFrom cwd root p) (seenFrom cwd root q) =
      (Placing.hierarchy cwd root).compare p q := by
  have hdepthP : pathDepth (seenFrom cwd root p) = (seenFrom cwd root p).count Path.slash :=
    pathDepth_eq_count (forward_seenFrom p)
  have hdepthQ : pathDepth (seenFrom cwd root q) = (seenFrom cwd root q).count Path.slash :=
    pathDepth_eq_count (forward_seenFrom q)
  simp only [Placing.compare, Placing.hierarchy, ← hdepthP, ← hdepthQ]
  split
  · next heq => exact compareSeen_of_not_isAbove heq (h heq).1 (h heq).2
  · next hne => exact compareSeen_of_depth_ne hne

variable {host : Host} {session : Session}

/-- On paths in full the order by hierarchy is the stable sort by depth and key, both as seen from
the root. The directories of two paths never decide at equal depth. -/
theorem hierarchy_eq_stable_sort (hplain : ∀ path ∈ Tab.files tabs, Path.IsPlain path)
    (hkeys : ∀ path ∈ seenFiles host.workingDirectory host.root tabs, HasKey path) :
    let placing := Placing.hierarchy host.workingDirectory host.root
    Strategy.fileSystem.order host tabs session =
        (.ok (tabs.mergeSort placing.mayPrecede), session.ask .root) ∧
      (∀ a ∈ tabs, ∀ b ∈ tabs, hierarchy host.workingDirectory host.root a b =
        .ok (Standing.compare (placing.standing a) (placing.standing b))) ∧
      ∀ p ∈ seenFiles host.workingDirectory host.root tabs,
        ∀ q ∈ seenFiles host.workingDirectory host.root tabs,
          pathDepth p = pathDepth q → ¬ isAbove p q = true := by
  intro placing
  have hcompare : ∀ p ∈ Tab.files tabs, ∀ q ∈ Tab.files tabs,
      compareSeen (seenFrom host.workingDirectory host.root p)
        (seenFrom host.workingDirectory host.root q) = placing.compare p q :=
    fun p hp q hq => compareSeen_eq_compare fun hdepth =>
      ⟨not_isAbove_seenFrom (hplain p hp) hdepth, not_isAbove_seenFrom (hplain q hq) hdepth.symm⟩
  have hnames : ∀ path ∈ Tab.files tabs, HasKey (placing.name path) :=
    List.forall_mem_map.mp hkeys
  refine ⟨?_, Placing.isByKey hcompare hnames, ?_⟩
  · rw [Strategy.order, hierarchy, Placing.sortTabs_eq_mergeSort hcompare hnames]
  · refine List.forall_mem_map.mpr fun p hp => List.forall_mem_map.mpr fun q hq => ?_
    exact not_isAbove_seenFrom (hplain p hp)

/-- Tabs of the root, of files below it and beside it, and of no file. -/
theorem hierarchy_eq_stable_sort_around_root :
    let host := Memory.host { root := some "/w" }
    let tabs : List Tab :=
      [{ path := some "/w/s/i10" }, { path := none }, { path := some "/v/i" },
        { path := some "/w" }, { path := some "/w/s/i9" }, { path := some "" },
        { path := some "/w/S/I09" }]
    (∀ path ∈ Tab.files tabs, Path.IsPlain path) ∧
      (∀ path ∈ seenFiles host.workingDirectory host.root tabs, HasKey path) ∧
      (Strategy.fileSystem.order host tabs Session.fresh).1 =
        .ok [{ path := some "/w" }, { path := some "/w/s/i9" }, { path := some "/w/S/I09" },
          { path := some "/w/s/i10" }, { path := some "/v/i" }, { path := none },
          { path := some "" }] ∧
      (Strategy.fileSystem.order host tabs Session.fresh).1 =
        .ok (tabs.mergeSort (Placing.hierarchy "/" (some "/w")).mayPrecede) := by
  intro host tabs
  have hplain : ∀ path ∈ Tab.files tabs, Path.IsPlain path := by decide +kernel
  have hkeys : ∀ path ∈ seenFiles host.workingDirectory host.root tabs, HasKey path := by
    decide +kernel
  obtain ⟨horder, -, -⟩ := @hierarchy_eq_stable_sort tabs host Session.fresh hplain hkeys
  exact ⟨hplain, hkeys, by decide +kernel, congrArg Prod.fst horder⟩

end Order

end EditorTabs
