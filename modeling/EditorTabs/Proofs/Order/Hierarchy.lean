import EditorTabs.Order.Hierarchy
import EditorTabs.Proofs.Order.Natural
import EditorTabs.Proofs.Path.Parent

/-!
# What the order by hierarchy decides

At equal depth a path comes before those whose directory lies below its own, and other paths come in
natural order. The two do not fit together: between a path and one below it there may be a third in
natural order that is related to neither, and then each of the three comes before another one. That
is all that keeps the comparison from being transitive, and it takes a path with several separators
in a row.
-/
namespace EditorTabs.Order

/-- Whether the directory of a path lies above that of another one. -/
def isAbove (a b : Text) : Bool :=
  isBelow (Path.parent b) (Path.parent a)

theorem isAbove_iff {a b : Text} :
    isAbove a b = true ↔ Path.parent a ++ [Path.slash] <+: Path.parent b := by
  rw [isAbove, isBelow, List.isPrefixOf_iff_prefix]

theorem length_parent_lt_of_isAbove {a b : Text} (h : isAbove a b = true) :
    (Path.parent a).length < (Path.parent b).length := by
  simpa [Nat.succ_le_iff] using (isAbove_iff.mp h).length_le

theorem isAbove_trans {a b c : Text} (hab : isAbove a b = true) (hbc : isAbove b c = true) :
    isAbove a c = true :=
  isAbove_iff.mpr <|
    (isAbove_iff.mp hab).trans ((List.prefix_append _ _).trans (isAbove_iff.mp hbc))

theorem not_isAbove_of_isAbove {a b : Text} (h : isAbove a b = true) : ¬ isAbove b a = true :=
  fun h' => (length_parent_lt_of_isAbove h).not_gt (length_parent_lt_of_isAbove h')

theorem compareSeen_eq (a b : Text) :
    compareSeen a b =
      if pathDepth a ≠ pathDepth b then .ok (compare (pathDepth a) (pathDepth b))
      else if isAbove a b then .ok .lt
      else if isAbove b a then .ok .gt
      else naturalCompare a b := by
  have hne {c d : Text} (h : isAbove c d = true) : Path.parent c ≠ Path.parent d :=
    fun heq => (length_parent_lt_of_isAbove h).ne (congrArg List.length heq)
  have hupper : (Path.parent a ≠ Path.parent b ∧
      isBelow (Path.parent b) (Path.parent a) = true) ↔ isAbove a b = true :=
    and_iff_right_of_imp hne
  have hlower : (Path.parent a ≠ Path.parent b ∧
      isBelow (Path.parent a) (Path.parent b) = true) ↔ isAbove b a = true :=
    and_iff_right_of_imp fun h => (hne h).symm
  simp only [compareSeen, hupper, hlower]

variable {a b c : Text} {paths : List Text}

theorem compareSeen_of_depth_ne (h : pathDepth a ≠ pathDepth b) :
    compareSeen a b = .ok (compare (pathDepth a) (pathDepth b)) := by
  rw [compareSeen_eq, if_pos h]

theorem compareSeen_of_isAbove (hdepth : pathDepth a = pathDepth b) (h : isAbove a b = true) :
    compareSeen a b = .ok .lt := by
  rw [compareSeen_eq, if_neg (not_not.mpr hdepth), if_pos h]

theorem compareSeen_of_isAbove' (hdepth : pathDepth a = pathDepth b) (h : isAbove b a = true) :
    compareSeen a b = .ok .gt := by
  rw [compareSeen_eq, if_neg (not_not.mpr hdepth), if_neg (not_isAbove_of_isAbove h), if_pos h]

theorem compareSeen_of_not_isAbove (hdepth : pathDepth a = pathDepth b)
    (h : ¬ isAbove a b = true) (h' : ¬ isAbove b a = true) :
    compareSeen a b = naturalCompare a b := by
  rw [compareSeen_eq, if_neg (not_not.mpr hdepth), if_neg h, if_neg h']

theorem compareSeen_ne_gt_iff :
    compareSeen a b ≠ .ok .gt ↔ pathDepth a < pathDepth b ∨
      pathDepth a = pathDepth b ∧
        (isAbove a b = true ∨ ¬ isAbove b a = true ∧ naturalCompare a b ≠ .ok .gt) := by
  rcases Nat.lt_trichotomy (pathDepth a) (pathDepth b) with h | h | h
  · simp [compareSeen_of_depth_ne h.ne, h, Nat.compare_eq_gt, h.le]
  · by_cases hab : isAbove a b = true
    · simp [compareSeen_of_isAbove h hab, h, hab]
    · by_cases hba : isAbove b a = true
      · simp [compareSeen_of_isAbove' h hba, h, hba, hab]
      · simp [compareSeen_of_not_isAbove h hab hba, h, hba, hab]
  · simp [compareSeen_of_depth_ne h.ne', Nat.compare_eq_gt, h, h.ne', h.le]

theorem decides_compareSeen (h : ∀ path ∈ paths, HasKey path) : Decides compareSeen paths := by
  intro a ha b hb
  by_cases hdepth : pathDepth a = pathDepth b
  · by_cases hab : isAbove a b = true
    · exact ⟨.lt, compareSeen_of_isAbove hdepth hab, compareSeen_of_isAbove' hdepth.symm hab⟩
    · by_cases hba : isAbove b a = true
      · exact ⟨.gt, compareSeen_of_isAbove' hdepth hba, compareSeen_of_isAbove hdepth.symm hba⟩
      · rw [compareSeen_of_not_isAbove hdepth hab hba,
          compareSeen_of_not_isAbove hdepth.symm hba hab]
        exact decides_naturalCompare h a ha b hb
  · exact ⟨_, compareSeen_of_depth_ne hdepth,
      (compareSeen_of_depth_ne (Ne.symm hdepth)).trans (congrArg _ (Nat.compare_swap _ _).symm)⟩

/-- A third path at the depth of two others comes between them in natural order, against the
directory of the first, which lies above that of the second. -/
structure Crosses (a b c : Text) : Prop where
  depth_eq : pathDepth a = pathDepth b
  depth_eq' : pathDepth a = pathDepth c
  above : isAbove a b = true
  not_above : ¬ isAbove a c = true
  not_below : ¬ isAbove c b = true
  not_before : naturalCompare b c ≠ .ok .gt
  not_after : naturalCompare c a ≠ .ok .gt

/-- The first of crossing paths comes before the second, which comes no later than the third, which
comes no later than the first. -/
theorem Crosses.cycle (h : Crosses a b c) :
    compareSeen a b = .ok .lt ∧ compareSeen b c ≠ .ok .gt ∧ compareSeen c a ≠ .ok .gt := by
  refine ⟨compareSeen_of_isAbove h.depth_eq h.above, ?_, ?_⟩
  · exact compareSeen_ne_gt_iff.mpr
      (.inr ⟨h.depth_eq.symm.trans h.depth_eq', .inr ⟨h.not_below, h.not_before⟩⟩)
  · exact compareSeen_ne_gt_iff.mpr (.inr ⟨h.depth_eq'.symm, .inr ⟨h.not_above, h.not_after⟩⟩)

theorem isTransitive_compareSeen_iff (h : ∀ path ∈ paths, HasKey path) :
    IsTransitive compareSeen paths ↔
      ∀ a ∈ paths, ∀ b ∈ paths, ∀ c ∈ paths, ¬ Crosses a b c := by
  have hnatural := decides_naturalCompare h
  refine ⟨fun htrans a ha b hb c hc hcross => ?_, fun hnone a ha b hb c hc hab hbc => ?_⟩
  · obtain ⟨-, hbc, hca⟩ := hcross.cycle
    exact htrans b hb c hc a ha hbc hca (compareSeen_of_isAbove' hcross.depth_eq.symm hcross.above)
  rw [compareSeen_ne_gt_iff] at hab hbc ⊢
  rcases hab with hab | ⟨hdepth, hab⟩
  · rcases hbc with hbc | ⟨hdepth', -⟩
    · exact .inl (hab.trans hbc)
    · exact .inl (hab.trans_eq hdepth')
  rcases hbc with hbc | ⟨hdepth', hbc⟩
  · exact .inl (hdepth.trans_lt hbc)
  refine .inr ⟨hdepth.trans hdepth', ?_⟩
  by_cases hac : isAbove a c = true
  · exact .inl hac
  -- The last path is not above the first and does not come before it by name, or the three cross.
  refine .inr ?_
  rcases hab with hab | ⟨hba, hab⟩
  · rcases hbc with hbc | ⟨hcb, hbc⟩
    · exact absurd (isAbove_trans hab hbc) hac
    · exact ⟨fun hca => hcb (isAbove_trans hca hab), fun hgt => hnone a ha b hb c hc
        ⟨hdepth, hdepth.trans hdepth', hab, hac, hcb, hbc, hnatural.ne_gt_of_eq_gt ha hc hgt⟩⟩
  · rcases hbc with hbc | ⟨hcb, hbc⟩
    · exact ⟨fun hca => hba (isAbove_trans hbc hca), fun hgt => hnone b hb c hc a ha
        ⟨hdepth', hdepth.symm, hbc, hba, hac, hnatural.ne_gt_of_eq_gt ha hc hgt, hab⟩⟩
    · exact ⟨fun hca => hnone c hc a ha b hb
        ⟨(hdepth.trans hdepth').symm, hdepth'.symm, hca, hcb, hba, hab, hbc⟩,
        isTransitive_naturalCompare h a ha b hb c hc hab hbc⟩

theorem pathDepth_eq_count (h : Path.forward a = a) : pathDepth a = a.count Path.slash := by
  rw [pathDepth, Path.segments, h, Path.length_split]
  split
  · next hempty => rcases hempty with rfl | rfl <;> decide
  · rfl

/-- At equal depth the upper path has several separators after its directory. -/
theorem separators_of_isAbove (ha : Path.forward a = a) (hb : Path.forward b = b)
    (hdepth : pathDepth a = pathDepth b) (habove : isAbove a b = true) :
    Path.parent a ++ [Path.slash, Path.slash] <+: a := by
  obtain ⟨m, name, hpathA, hcountA, hm⟩ := Path.exists_eq_parent_append a
  obtain ⟨n, -, -, hcountB, hn⟩ := Path.exists_eq_parent_append b
  obtain ⟨rest, hrest⟩ := isAbove_iff.mp habove
  rw [pathDepth_eq_count ha, pathDepth_eq_count hb, hcountA, hcountB, ← hrest, List.append_assoc,
    List.count_append, List.count_append, List.count_singleton_self] at hdepth
  have hm' : m ≠ 0 := by omega
  have hn' : n ≠ 0 := fun hzero =>
    hm' (hm.mpr fun c hc => hn.mp hzero c (hrest ▸ by simp [hc]))
  obtain ⟨k, rfl⟩ : ∃ k, m = k + 2 := ⟨m - 2, by omega⟩
  refine ⟨List.replicate k Path.slash ++ name, ?_⟩
  conv_rhs => rw [hpathA]
  simp [List.replicate_succ]

def seenFiles (cwd : Text) (root : Option Text) (tabs : List Tab) : List Text :=
  (Tab.files tabs).map (seenFrom cwd root)

variable {cwd : Text} {root : Option Text} {tabs : List Tab}

theorem forward_seenFrom (path : Text) :
    Path.forward (seenFrom cwd root path) = seenFrom cwd root path := by
  rw [seenFrom]
  split <;> exact Path.forward_forward _

theorem forward_of_mem_seenFiles {path : Text} (h : path ∈ seenFiles cwd root tabs) :
    Path.forward path = path := by
  obtain ⟨file, -, rfl⟩ := List.mem_map.mp h
  exact forward_seenFrom file

theorem decides_hierarchy (hkeys : ∀ path ∈ seenFiles cwd root tabs, HasKey path) :
    Decides (hierarchy cwd root) tabs :=
  decides_ofPaths (decides_compareSeen hkeys).of_map

theorem isTransitive_hierarchy_iff (hkeys : ∀ path ∈ seenFiles cwd root tabs, HasKey path) :
    IsTransitive (hierarchy cwd root) tabs ↔
      ∀ a ∈ seenFiles cwd root tabs, ∀ b ∈ seenFiles cwd root tabs,
        ∀ c ∈ seenFiles cwd root tabs, ¬ Crosses a b c := by
  rw [hierarchy, isTransitive_ofPaths_iff, ← isTransitive_map_iff]
  exact isTransitive_compareSeen_iff hkeys

theorem hierarchy_of_isAbove {a b : Tab} {p q : Text} (ha : a.file? = some p)
    (hb : b.file? = some q)
    (hdepth : pathDepth (seenFrom cwd root p) = pathDepth (seenFrom cwd root q))
    (habove : isAbove (seenFrom cwd root p) (seenFrom cwd root q) = true) :
    hierarchy cwd root a b = .ok .lt := by
  simp only [hierarchy, Comparison.ofPaths, ha, hb]
  exact compareSeen_of_isAbove hdepth habove

/-- Sorting by hierarchy gives a permutation of tabs whose paths have keys. The comparison decides
all pairs, and is transitive unless paths cross; those have several separators after a directory.
If it is transitive, the tabs are sorted the same way in whatever order they are given, up to those
that compare equal, and at equal depth a path comes before those that it is above. -/
theorem hierarchy_settled_unless_crosses
    (hkeys : ∀ path ∈ seenFiles cwd root tabs, HasKey path) :
    (∃ sorted, sortTabs (hierarchy cwd root) tabs = .ok sorted ∧ sorted.Perm tabs) ∧
    Decides (hierarchy cwd root) tabs ∧
    (IsTransitive (hierarchy cwd root) tabs ↔
      ∀ a ∈ seenFiles cwd root tabs, ∀ b ∈ seenFiles cwd root tabs,
        ∀ c ∈ seenFiles cwd root tabs, ¬ Crosses a b c) ∧
    (∀ a ∈ seenFiles cwd root tabs, ∀ b ∈ seenFiles cwd root tabs,
      ∀ c ∈ seenFiles cwd root tabs, Crosses a b c →
        Path.parent a ++ [Path.slash, Path.slash] <+: a) ∧
    (IsTransitive (hierarchy cwd root) tabs → ∃ sorted,
      IsSettled (hierarchy cwd root) tabs sorted ∧
      ∀ (a b : Tab) (p q : Text), a.file? = some p → b.file? = some q →
        pathDepth (seenFrom cwd root p) = pathDepth (seenFrom cwd root q) →
        isAbove (seenFrom cwd root p) (seenFrom cwd root q) = true → ¬ [b, a].Sublist sorted) := by
  have hdecides := decides_hierarchy hkeys
  refine ⟨?_, hdecides, isTransitive_hierarchy_iff hkeys, fun a ha b hb c hc hcross => ?_,
    fun htrans => ?_⟩
  · cases hsort : sortTabs (hierarchy cwd root) tabs with
    | ok sorted => exact ⟨sorted, rfl, perm_of_sortTabs hsort⟩
    | error fault =>
      obtain ⟨a, ha, b, hb, hfault⟩ := exists_of_sortTabs_error hsort
      obtain ⟨ordering, hab, -⟩ := hdecides a ha b hb
      cases hab.symm.trans hfault
  · exact separators_of_isAbove (forward_of_mem_seenFiles ha) (forward_of_mem_seenFiles hb)
      hcross.depth_eq hcross.above
  · obtain ⟨sorted, hsettled⟩ := exists_isSettled hdecides htrans
    exact ⟨sorted, hsettled, fun a b p q ha hb hdepth habove =>
      hsettled.isStableSort.not_sublist hdecides (hierarchy_of_isAbove ha hb hdepth habove)⟩

def upper : Tab := { path := some "/a//i" }

def lower : Tab := { path := some "/a/(b)/i" }

/-- A tab as deep whose path comes between the two in natural order. -/
def between : Tab := { path := some "/A/-/i" }

theorem hierarchy_settled_without_crossing :
    let tabs : List Tab := [lower, { path := none }, upper]
    (∀ path ∈ seenFiles "/" none tabs, HasKey path) ∧ IsTransitive (hierarchy "/" none) tabs ∧
      IsSettled (hierarchy "/" none) tabs [upper, lower, { path := none }] := by
  intro tabs
  have hkeys : ∀ path ∈ seenFiles "/" none tabs, HasKey path := by decide +kernel
  have htrans : IsTransitive (hierarchy "/" none) tabs := by decide +kernel
  have hsort : sortTabs (hierarchy "/" none) tabs = .ok [upper, lower, { path := none }] := by
    decide +kernel
  obtain ⟨-, -, -, -, hsettled⟩ := hierarchy_settled_unless_crosses hkeys
  obtain ⟨sorted, hsorted, -⟩ := hsettled htrans
  obtain rfl := Except.ok.inj (hsorted.sort_eq.symm.trans hsort)
  exact ⟨hkeys, htrans, hsorted⟩

/-- The three tabs come in different orders, and the upper one after the lower one, when they are
given in different orders. -/
theorem hierarchy_unsettled_by_crossing :
    (∀ path ∈ seenFiles "/" none [upper, lower, between], HasKey path) ∧
      pathDepth "/a//i" = pathDepth "/a/(b)/i" ∧ isAbove "/a//i" "/a/(b)/i" = true ∧
      ¬ IsTransitive (hierarchy "/" none) [upper, lower, between] ∧
      sortTabs (hierarchy "/" none) [upper, between, lower] = .ok [lower, between, upper] ∧
      sortTabs (hierarchy "/" none) [lower, upper, between] = .ok [between, upper, lower] := by
  decide +kernel

end EditorTabs.Order
