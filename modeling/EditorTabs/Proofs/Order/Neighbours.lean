import EditorTabs.Proofs.Order.Sorting

/-!
# Neighbours in sorted tabs

Whatever the comparison is, tabs that come to stand next to each other have been compared. So the
tabs without a path come last, in the order in which they were given. And sorting has a result when
every two tabs can be compared; no tab is compared with itself.
-/
namespace EditorTabs.Order

variable {tab : Tab} {tabs sorted placed : List Tab}

section Chains

variable {compare : Comparison}

/-- Whether the answer of a comparison lets a tab stand right before another one. -/
def MayMeet (compare : Comparison) (a b : Tab) : Prop :=
  comesFirst compare a b = .ok true ∨ comesFirst compare b a = .ok false

theorem isChain_place (h : place compare tab sorted = .ok placed)
    (hsorted : sorted.IsChain (MayMeet compare)) : placed.IsChain (MayMeet compare) := by
  obtain ⟨front, back, rfl, rfl, hfront, hback⟩ := exists_of_place h
  obtain ⟨hchain, hchain', -⟩ := List.isChain_append.mp hsorted
  refine List.isChain_append.mpr ⟨hchain, List.isChain_cons.mpr ⟨fun b hb => .inl (hback b hb),
    hchain'⟩, fun a ha b hb => ?_⟩
  obtain rfl : tab = b := by simpa using hb
  exact .inr (hfront a ha)

theorem isChain_firstRun {first others : List Tab}
    (h : firstRun compare tabs = .ok (first, others)) : first.IsChain (MayMeet compare) := by
  obtain ⟨falling, run, -, hchain, rfl⟩ := exists_of_firstRun h
  cases falling with
  | true => exact List.isChain_reverse.mpr (hchain.imp fun _ _ hfirst => .inl hfirst)
  | false => exact hchain.imp fun _ _ hfirst => .inr hfirst

/-- Tabs that stand next to each other after sorting have been compared. -/
theorem isChain_sortTabs (h : sortTabs compare tabs = .ok sorted) :
    sorted.IsChain (MayMeet compare) := by
  rw [sortTabs] at h
  split at h
  · cases h
  · next hrun =>
    exact foldlM_place_induction (P := fun sorted _ => sorted.IsChain (MayMeet compare))
      isChain_place h (isChain_firstRun hrun)

end Chains

section Pathless

variable {compare : Text → Text → Except Fault Ordering} {a b : Tab}

theorem comesFirst_of_file?_eq_none (h : a.file? = none) (b : Tab) :
    comesFirst (.ofPaths compare) a b = .ok false := by
  cases hb : b.file? <;> simp [comesFirst, Comparison.ofPaths, compareMissing, h, hb, Except.map]

theorem comesFirst_pathless (ha : a.file? ≠ none) (hb : b.file? = none) :
    comesFirst (.ofPaths compare) a b = .ok true := by
  obtain ⟨p, hp⟩ := Option.ne_none_iff_exists'.mp ha
  simp [comesFirst, Comparison.ofPaths, compareMissing, hp, hb, Except.map]

/-- After a tab without a path come others without. -/
theorem MayMeet.file?_eq_none (h : MayMeet (.ofPaths compare) a b) (ha : a.file? = none) :
    b.file? = none := by
  by_contra hb
  rcases h with h | h
  · rw [comesFirst_of_file?_eq_none ha] at h
    cases h
  · rw [comesFirst_pathless hb ha] at h
    cases h

theorem filter_pathless_place (h : place (.ofPaths compare) tab sorted = .ok placed)
    (rest : List Tab) :
    (placed ++ rest).filter (·.file? = none) = (sorted ++ tab :: rest).filter (·.file? = none) := by
  obtain ⟨front, back, rfl, rfl, -, hback⟩ := exists_of_place h
  by_cases htab : tab.file? = none
  · cases back with
    | nil => simp
    | cons b back =>
      have hfirst := hback b rfl
      rw [comesFirst_of_file?_eq_none htab] at hfirst
      cases hfirst
  · simp [htab]

theorem exists_rel_of_isChain_cons {α : Type} {r : α → α → Prop} {a b : α} {as : List α}
    (h : (a :: as).IsChain r) (hb : b ∈ as) : ∃ c, r c b := by
  induction as generalizing a with
  | nil => cases hb
  | cons c as ih =>
    obtain ⟨hac, hchain⟩ := List.isChain_cons_cons.mp h
    rcases List.mem_cons.mp hb with rfl | hb
    · exact ⟨a, hac⟩
    · exact ih hchain hb

/-- In a falling run only the first tab can be without a path. -/
theorem filter_pathless_reverse {run : List Tab}
    (h : run.IsChain fun a b => comesFirst (.ofPaths compare) b a = .ok true) :
    run.reverse.filter (·.file? = none) = run.filter (·.file? = none) := by
  cases run with
  | nil => rfl
  | cons first run =>
    have hrest : run.filter (·.file? = none) = [] := by
      refine List.filter_eq_nil_iff.mpr fun tab htab hpathless => ?_
      obtain ⟨before, hbefore⟩ := exists_rel_of_isChain_cons h htab
      rw [comesFirst_of_file?_eq_none (by simpa using hpathless)] at hbefore
      cases hbefore
    rw [List.reverse_cons, List.filter_append, List.filter_reverse, hrest]
    simp [List.filter_cons, hrest]

theorem filter_pathless_firstRun {first others : List Tab}
    (h : firstRun (.ofPaths compare) tabs = .ok (first, others)) :
    (first ++ others).filter (·.file? = none) = tabs.filter (·.file? = none) := by
  obtain ⟨falling, run, rfl, hchain, rfl⟩ := exists_of_firstRun h
  rw [List.filter_append, List.filter_append]
  cases falling with
  | true => rw [if_pos rfl, filter_pathless_reverse hchain]
  | false => rw [if_neg (by simp)]

theorem filter_pathless_sortTabs (h : sortTabs (.ofPaths compare) tabs = .ok sorted) :
    sorted.filter (·.file? = none) = tabs.filter (·.file? = none) := by
  rw [sortTabs] at h
  split at h
  · cases h
  · next hrun =>
    have hall : (sorted ++ []).filter (·.file? = none) = tabs.filter (·.file? = none) :=
      foldlM_place_induction (P := fun placed rest =>
          (placed ++ rest).filter (·.file? = none) = tabs.filter (·.file? = none))
        (fun hplace => (filter_pathless_place hplace _).trans) h (filter_pathless_firstRun hrun)
    rwa [List.append_nil] at hall

theorem eq_filter_append_filter {α : Type} {p : α → Bool} {as : List α}
    (h : as.Pairwise fun a b => p a = true → p b = true) :
    as = as.filter (!p ·) ++ as.filter p := by
  induction as with
  | nil => rfl
  | cons a as ih =>
    obtain ⟨hhead, htail⟩ := List.pairwise_cons.mp h
    cases ha : p a with
    | false => simpa [List.filter_cons, ha] using ih htail
    | true =>
      have hall : as.filter p = as := List.filter_eq_self.mpr fun b hb => hhead b hb ha
      have hnone : as.filter (!p ·) = [] :=
        List.filter_eq_nil_iff.mpr fun b hb => by simp [hhead b hb ha]
      simp [ha, hall, hnone]

/-- Whatever the comparison of paths is, tabs without a path come last, in the order in which they
were given. -/
theorem sortTabs_eq_append (h : sortTabs (.ofPaths compare) tabs = .ok sorted) :
    sorted = sorted.filter (·.file? ≠ none) ++ tabs.filter (·.file? = none) := by
  rw [← filter_pathless_sortTabs h]
  have htrans : IsTrans Tab fun a b => decide (a.file? = none) = true →
      decide (b.file? = none) = true := ⟨fun _ _ _ hab hbc ha => hbc (hab ha)⟩
  have hchain : sorted.IsChain fun a b => decide (a.file? = none) = true →
      decide (b.file? = none) = true :=
    (isChain_sortTabs h).imp fun _ _ hmeet => by simpa using hmeet.file?_eq_none
  simpa using eq_filter_append_filter (List.isChain_iff_pairwise.mp hchain)

theorem map_file?_eq_map_some (h : ∀ tab ∈ tabs, tab.file? ≠ none) :
    tabs.map Tab.file? = (Tab.files tabs).map some := by
  induction tabs with
  | nil => rfl
  | cons tab tabs ih =>
    obtain ⟨htab, htabs⟩ := List.forall_mem_cons.mp h
    obtain ⟨path, hpath⟩ := Option.ne_none_iff_exists'.mp htab
    simp [Tab.files, hpath, ih htabs]

def PathsMayMeet (compare : Text → Text → Except Fault Ordering) (p q : Text) : Prop :=
  compare p q = .ok .lt ∨ ∃ ordering, compare q p = .ok ordering ∧ ordering ≠ .lt

theorem MayMeet.paths (h : MayMeet (.ofPaths compare) a b) {p q : Text} (ha : a.file? = some p)
    (hb : b.file? = some q) : PathsMayMeet compare p q := by
  simpa [MayMeet, PathsMayMeet, comesFirst, Comparison.ofPaths, ha, hb, map_eq_ok_iff] using h

theorem files_eq_files_filter (tabs : List Tab) :
    Tab.files tabs = Tab.files (tabs.filter (·.file? ≠ none)) := by
  rw [Tab.files, Tab.files, List.filterMap_filter]
  refine List.filterMap_congr fun tab _ => ?_
  cases h : tab.file? <;> simp

/-- Paths of tabs that stand next to each other after sorting have been compared. -/
theorem isChain_files_of_sortTabs (h : sortTabs (.ofPaths compare) tabs = .ok sorted) :
    (Tab.files sorted).IsChain (PathsMayMeet compare) := by
  have hchain := isChain_sortTabs h
  rw [sortTabs_eq_append h] at hchain
  have hfiles : ((sorted.filter (·.file? ≠ none)).map Tab.file?).IsChain fun x y =>
      ∀ p q, x = some p → y = some q → PathsMayMeet compare p q :=
    (List.isChain_map _).mpr <| (List.isChain_append.mp hchain).1.imp
      fun _ _ hmeet _ _ ha hb => hmeet.paths ha hb
  rw [map_file?_eq_map_some (by simp), ← files_eq_files_filter] at hfiles
  exact ((List.isChain_map _).mp hfiles).imp fun p q hmeet => hmeet p q rfl rfl

end Pathless

section Comparable

variable {compare : Comparison}

/-- Whether a comparison has answers for two tabs, from either side. -/
def CanCompare (compare : Comparison) (a b : Tab) : Prop :=
  (∃ ordering, compare a b = .ok ordering) ∧ ∃ ordering, compare b a = .ok ordering

theorem CanCompare.symm {a b : Tab} (h : CanCompare compare a b) : CanCompare compare b a :=
  ⟨h.2, h.1⟩

/-- Sorting needs no more than that any two tabs can be compared. -/
theorem exists_sortTabs (h : tabs.Pairwise (CanCompare compare)) :
    ∃ sorted, sortTabs compare tabs = .ok sorted := by
  cases hsort : sortTabs compare tabs with
  | ok sorted => exact ⟨sorted, rfl⟩
  | error fault =>
    obtain ⟨a, b, ⟨pair, hperm, hsub⟩, hfault⟩ := exists_subperm_of_sortTabs_error hsort
    have hpair : [a, b].Pairwise (CanCompare compare) :=
      hperm.pairwise (h.sublist hsub) fun hab => hab.symm
    obtain ⟨⟨ordering, hab⟩, -⟩ := List.rel_of_pairwise_cons hpair (List.mem_singleton_self b)
    cases hab.symm.trans hfault

/-- Sorting by paths needs no more than that any two paths can be compared. -/
theorem exists_sortTabs_ofPaths {compare : Text → Text → Except Fault Ordering}
    (h : (Tab.files tabs).Pairwise fun p q =>
      (∃ ordering, compare p q = .ok ordering) ∧ ∃ ordering, compare q p = .ok ordering) :
    ∃ sorted, sortTabs (.ofPaths compare) tabs = .ok sorted := by
  refine exists_sortTabs ((List.pairwise_filterMap.mp h).imp fun {a b} hab => ?_)
  cases ha : a.file? with
  | none => simp [CanCompare, Comparison.ofPaths, ha]
  | some p =>
    cases hb : b.file? with
    | none => simp [CanCompare, Comparison.ofPaths, hb]
    | some q => simpa [CanCompare, Comparison.ofPaths, ha, hb] using hab p ha q hb

end Comparable

end EditorTabs.Order
