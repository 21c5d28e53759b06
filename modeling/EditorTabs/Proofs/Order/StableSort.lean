import EditorTabs.Proofs.Order.Sorting

/-!
# Stable sorting

When a comparison decides all pairs of tabs and is transitive, each tab has a rank, the number of
tabs that come before it, and sorting is stable sorting by rank. The order in which the tabs are
given then matters only for those that compare equal.
-/
namespace EditorTabs.Order

variable {compare : Comparison} {tab : Tab} {tabs sorted : List Tab}

section Rank

variable {α : Type} {rank : α → Nat} {as bs cs : List α}

/-- A list sorted by rank that keeps the order of the members of every rank. -/
structure SortedBy (rank : α → Nat) (as bs : List α) : Prop where
  pairwise : bs.Pairwise (rank · ≤ rank ·)
  filter_eq : ∀ k, bs.filter (rank · = k) = as.filter (rank · = k)

theorem SortedBy.of_pairwise (h : as.Pairwise (rank · ≤ rank ·)) : SortedBy rank as as :=
  ⟨h, fun _ => rfl⟩

theorem SortedBy.trans (h : SortedBy rank as bs) {rest : List α}
    (h' : SortedBy rank (bs ++ rest) cs) : SortedBy rank (as ++ rest) cs := by
  refine ⟨h'.pairwise, fun k => ?_⟩
  rw [h'.filter_eq, List.filter_append, h.filter_eq, ← List.filter_append]

/-- No two members of a falling list have the same rank, so that it can be turned around. -/
theorem SortedBy.reverse (h : as.Pairwise fun a b => rank b < rank a) :
    SortedBy rank as as.reverse := by
  refine ⟨List.pairwise_reverse.mpr (h.imp Nat.le_of_lt), fun k => ?_⟩
  have hsame : (as.filter (rank · = k)).Pairwise fun a b => rank b < rank a :=
    h.sublist List.filter_sublist
  have hrank : ∀ a ∈ as.filter (rank · = k), rank a = k := by simp
  rw [List.filter_reverse]
  generalize as.filter (rank · = k) = same at hsame hrank
  match same with
  | [] => rfl
  | [a] => rfl
  | a :: b :: rest =>
    have hlt : rank b < rank a := List.rel_of_pairwise_cons hsame (by simp)
    rw [hrank a (by simp), hrank b (by simp)] at hlt
    exact absurd hlt (Nat.lt_irrefl k)

theorem le_of_filter_eq {b c : α} (hbs : (b :: bs).Pairwise (rank · ≤ rank ·))
    (h : ∀ k, (b :: bs).filter (rank · = k) = (c :: cs).filter (rank · = k)) : rank b ≤ rank c := by
  have hmem : c ∈ (b :: bs).filter (rank · = rank c) := by simp [h]
  rcases List.mem_cons.mp (List.mem_of_mem_filter hmem) with rfl | hmem
  · exact Nat.le_refl _
  · exact List.rel_of_pairwise_cons hbs hmem

/-- A list sorted by rank is determined by the members of every rank. -/
theorem eq_of_filter_eq (hbs : bs.Pairwise (rank · ≤ rank ·)) (hcs : cs.Pairwise (rank · ≤ rank ·))
    (h : ∀ k, bs.filter (rank · = k) = cs.filter (rank · = k)) : bs = cs := by
  induction bs generalizing cs with
  | nil =>
    cases cs with
    | nil => rfl
    | cons c cs => simpa using h (rank c)
  | cons b bs ih =>
    cases cs with
    | nil => simpa using h (rank b)
    | cons c cs =>
      have hrank : rank b = rank c :=
        Nat.le_antisymm (le_of_filter_eq hbs h) (le_of_filter_eq hcs fun k => (h k).symm)
      have hhead := h (rank b)
      rw [List.filter_cons_of_pos (by simp), List.filter_cons_of_pos (by simp [hrank])] at hhead
      obtain rfl : b = c := List.head_eq_of_cons_eq hhead
      refine congrArg (b :: ·) (ih hbs.of_cons hcs.of_cons fun k => ?_)
      have hk := h k
      rw [List.filter_cons, List.filter_cons] at hk
      split at hk
      · exact List.tail_eq_of_cons_eq hk
      · exact hk

end Rank

def Comparison.IsByRank (compare : Comparison) (rank : Tab → Nat) (tabs : List Tab) : Prop :=
  ∀ a ∈ tabs, ∀ b ∈ tabs, compare a b = .ok (Ord.compare (rank a) (rank b))

section ByRank

variable {rank : Tab → Nat}

theorem Comparison.IsByRank.mono (h : compare.IsByRank rank tabs) {tabs' : List Tab}
    (hmem : ∀ a ∈ tabs', a ∈ tabs) : compare.IsByRank rank tabs' :=
  fun a ha b hb => h a (hmem a ha) b (hmem b hb)

theorem Comparison.IsByRank.comesFirst (h : compare.IsByRank rank tabs) {a b : Tab}
    (ha : a ∈ tabs) (hb : b ∈ tabs) : comesFirst compare a b = .ok (decide (rank a < rank b)) := by
  simp [Order.comesFirst, h a ha b hb, Except.map, Nat.compare_eq_lt]

theorem Comparison.IsByRank.compare_eq_iff (h : compare.IsByRank rank tabs) {a b : Tab}
    (ha : a ∈ tabs) (hb : b ∈ tabs) : compare a b = .ok .eq ↔ rank b = rank a := by
  rw [h a ha b hb, Except.ok.injEq, Nat.compare_eq_eq, eq_comm]

theorem place_of_isByRank (h : compare.IsByRank rank (tab :: sorted))
    (hsorted : sorted.Pairwise (rank · ≤ rank ·)) :
    ∃ front back, sorted = front ++ back ∧ place compare tab sorted = .ok (front ++ tab :: back) ∧
      (∀ a ∈ front, rank a ≤ rank tab) ∧ ∀ b ∈ back, rank tab < rank b := by
  fun_induction place compare tab sorted with
  | case1 sorted hhalf => exact ⟨[], [], eq_nil_of_drop_half hhalf, rfl, by simp, by simp⟩
  | case2 sorted middle after hhalf fault hfirst =>
    have hmem : middle ∈ sorted := eq_of_drop hhalf ▸ by simp
    rw [h.comesFirst (by simp) (List.mem_cons_of_mem _ hmem)] at hfirst
    cases hfirst
  | case3 sorted middle after hhalf hfirst ih =>
    have hsplit := eq_of_drop hhalf
    generalize sorted.take (sorted.length / 2) = before at hsplit ih ⊢
    subst hsplit
    rw [h.comesFirst (by simp) (by simp)] at hfirst
    obtain ⟨hbefore, hrest, -⟩ := List.pairwise_append.mp hsorted
    obtain ⟨front, back, rfl, hplace, hfront, hback⟩ := ih (h.mono (by simp +contextual)) hbefore
    refine ⟨front, back ++ middle :: after, by simp, by simp [hplace, Except.map], hfront, ?_⟩
    have hmiddle : rank tab < rank middle := by simpa using hfirst
    intro b hb
    rcases List.mem_append.mp hb with hb | hb
    · exact hback b hb
    rcases List.mem_cons.mp hb with rfl | hb
    · exact hmiddle
    · exact Nat.lt_of_lt_of_le hmiddle (List.rel_of_pairwise_cons hrest hb)
  | case4 sorted middle after hhalf hfirst ih =>
    have hsplit := eq_of_drop hhalf
    generalize sorted.take (sorted.length / 2) = before at hsplit ih ⊢
    subst hsplit
    rw [h.comesFirst (by simp) (by simp)] at hfirst
    obtain ⟨-, hrest, hcross⟩ := List.pairwise_append.mp hsorted
    obtain ⟨front, back, rfl, hplace, hfront, hback⟩ :=
      ih (h.mono (by simp +contextual)) hrest.of_cons
    refine ⟨before ++ middle :: front, back, by simp, by simp [hplace, Except.map], ?_, hback⟩
    have hmiddle : rank middle ≤ rank tab := by simpa using hfirst
    intro a ha
    rcases List.mem_append.mp ha with ha | ha
    · exact Nat.le_trans (hcross a ha middle (by simp)) hmiddle
    rcases List.mem_cons.mp ha with rfl | ha
    · exact hmiddle
    · exact hfront a ha

theorem sortedBy_place (h : compare.IsByRank rank (tab :: sorted))
    (hsorted : sorted.Pairwise (rank · ≤ rank ·)) :
    ∃ placed, place compare tab sorted = .ok placed ∧ SortedBy rank (sorted ++ [tab]) placed := by
  obtain ⟨front, back, rfl, hplace, hfront, hback⟩ := place_of_isByRank h hsorted
  refine ⟨front ++ tab :: back, hplace, ?_, fun k => ?_⟩
  · obtain ⟨hbefore, hafter, hcross⟩ := List.pairwise_append.mp hsorted
    refine List.pairwise_append.mpr ⟨hbefore, List.pairwise_cons.mpr ⟨fun b hb => (hback b hb).le,
      hafter⟩, fun a ha b hb => ?_⟩
    rcases List.mem_cons.mp hb with rfl | hb
    · exact hfront a ha
    · exact hcross a ha b hb
  · by_cases hk : rank tab = k
    · have hnone : back.filter (rank · = k) = [] := by
        simp only [List.filter_eq_nil_iff, decide_eq_true_eq]
        exact fun b hb heq => (hback b hb).ne (hk.trans heq.symm)
      simp [List.filter_cons, hnone]
    · simp [hk]

theorem extendRun_of_isByRank (falling : Bool) {last : Tab}
    (h : compare.IsByRank rank (last :: tabs)) :
    ∃ run others, extendRun compare falling last tabs = .ok (run, others) ∧ run ++ others = tabs ∧
      (last :: run).IsChain fun a b => decide (rank b < rank a) = falling := by
  induction tabs generalizing last with
  | nil => exact ⟨[], [], rfl, rfl, .singleton last⟩
  | cons tab rest ih =>
    rw [extendRun, h.comesFirst (List.mem_cons_of_mem _ List.mem_cons_self) List.mem_cons_self]
    dsimp only
    by_cases hfirst : decide (rank tab < rank last) = falling
    · obtain ⟨run, others, hrun, happend, hchain⟩ := ih (h.mono fun _ => List.mem_cons_of_mem last)
      refine ⟨tab :: run, others, ?_, by simp [happend], hchain.cons_cons hfirst⟩
      rw [if_pos hfirst, hrun]
      rfl
    · exact ⟨[], tab :: rest, by rw [if_neg hfirst], rfl, .singleton last⟩

theorem sortedBy_of_run {falling : Bool} {run : List Tab}
    (h : run.IsChain fun a b => decide (rank b < rank a) = falling) :
    SortedBy rank run (if falling then run.reverse else run) := by
  cases falling with
  | true =>
    have hfalls : run.IsChain fun a b => rank b < rank a := by simpa using h
    exact .reverse (List.isChain_iff_pairwise.mp hfalls)
  | false =>
    have hrises : run.IsChain (rank · ≤ rank ·) := by simpa using h
    exact .of_pairwise (List.isChain_iff_pairwise.mp hrises)

theorem sortedBy_firstRun (h : compare.IsByRank rank tabs) :
    ∃ first run others, firstRun compare tabs = .ok (run, others) ∧ first ++ others = tabs ∧
      SortedBy rank first run := by
  match tabs with
  | [] => exact ⟨[], [], [], rfl, rfl, .of_pairwise .nil⟩
  | [tab] => exact ⟨[tab], [tab], [], rfl, rfl, .of_pairwise (List.pairwise_singleton _ _)⟩
  | first :: second :: rest =>
    obtain ⟨run, others, hrun, rfl, hchain⟩ := extendRun_of_isByRank
      (decide (rank second < rank first)) (h.mono fun _ => List.mem_cons_of_mem first)
    refine ⟨first :: second :: run, _, others, ?_, by simp, sortedBy_of_run (hchain.cons_cons rfl)⟩
    rw [firstRun, h.comesFirst (by simp) (by simp)]
    dsimp only
    rw [hrun]
    rfl

theorem sortedBy_foldlM_place {first rest : List Tab} (h : compare.IsByRank rank (sorted ++ rest))
    (hsorted : SortedBy rank first sorted) :
    ∃ sorted', rest.foldlM (fun sorted tab => place compare tab sorted) sorted = .ok sorted' ∧
      SortedBy rank (first ++ rest) sorted' := by
  induction rest generalizing first sorted with
  | nil => exact ⟨sorted, rfl, by simpa using hsorted⟩
  | cons tab rest ih =>
    have hhere : compare.IsByRank rank (tab :: sorted) :=
      h.mono fun a ha => by rcases List.mem_cons.mp ha with rfl | ha <;> simp [*]
    obtain ⟨placed, hplace, hplaced⟩ := sortedBy_place hhere hsorted.pairwise
    have hperm := perm_of_place_append hplace rest
    obtain ⟨sorted', hrest, hsorted'⟩ :=
      ih (h.mono fun _ => hperm.mem_iff.mp) (hsorted.trans hplaced)
    refine ⟨sorted', ?_, by simpa using hsorted'⟩
    rw [List.foldlM_cons, hplace]
    exact hrest

theorem sortedBy_sortTabs (h : compare.IsByRank rank tabs) :
    ∃ sorted, sortTabs compare tabs = .ok sorted ∧ SortedBy rank tabs sorted := by
  obtain ⟨first, run, others, hrun, rfl, hsorted⟩ := sortedBy_firstRun h
  rw [sortTabs, hrun]
  exact sortedBy_foldlM_place (h.mono fun _ => (perm_of_firstRun hrun).mem_iff.mp) hsorted

end ByRank

section Ranking

variable {α : Type} {compare : α → α → Except Fault Ordering} {as : List α}

def Decides (compare : α → α → Except Fault Ordering) (as : List α) : Prop :=
  ∀ a ∈ as, ∀ b ∈ as, ∃ ordering, compare a b = .ok ordering ∧ compare b a = .ok ordering.swap

/-- Of three members of a list, when the first does not come after the second, nor the second after
the third, the first does not come after the third. -/
def IsTransitive (compare : α → α → Except Fault Ordering) (as : List α) : Prop :=
  ∀ a ∈ as, ∀ b ∈ as, ∀ c ∈ as,
    compare a b ≠ .ok .gt → compare b c ≠ .ok .gt → compare a c ≠ .ok .gt

/-- How many members of a list come before one of them. -/
def rankIn (compare : α → α → Except Fault Ordering) (as : List α) (a : α) : Nat :=
  as.countP fun b => compare b a = .ok .lt

theorem Decides.mono (h : Decides compare as) {bs : List α} (hmem : ∀ b ∈ bs, b ∈ as) :
    Decides compare bs :=
  fun a ha b hb => h a (hmem a ha) b (hmem b hb)

theorem IsTransitive.mono (h : IsTransitive compare as) {bs : List α} (hmem : ∀ b ∈ bs, b ∈ as) :
    IsTransitive compare bs :=
  fun a ha b hb c hc => h a (hmem a ha) b (hmem b hb) c (hmem c hc)

instance : Decidable (IsTransitive compare as) :=
  inferInstanceAs (Decidable (∀ a ∈ as, ∀ b ∈ as, ∀ c ∈ as,
    compare a b ≠ .ok .gt → compare b c ≠ .ok .gt → compare a c ≠ .ok .gt))

theorem Decides.eq_lt_iff (h : Decides compare as) {a b : α} (ha : a ∈ as) (hb : b ∈ as) :
    compare a b = .ok .lt ↔ ¬ compare b a ≠ .ok .gt := by
  obtain ⟨ordering, hab, hba⟩ := h a ha b hb
  rw [hab, hba]
  cases ordering <;> decide

theorem Decides.ne_gt_of_eq_gt (h : Decides compare as) {a b : α} (ha : a ∈ as) (hb : b ∈ as)
    (hab : compare a b = .ok .gt) : compare b a ≠ .ok .gt := by
  obtain ⟨ordering, hab', hba⟩ := h a ha b hb
  rw [hab', Except.ok.injEq] at hab
  rw [hba, hab]
  decide

theorem rankIn_le (h : Decides compare as) (htrans : IsTransitive compare as) {a b : α}
    (ha : a ∈ as) (hb : b ∈ as) (hab : compare a b ≠ .ok .gt) {cs : List α}
    (hcs : ∀ c ∈ cs, c ∈ as) : rankIn compare cs a ≤ rankIn compare cs b := by
  refine List.countP_mono_left fun c hc hca => ?_
  simp only [decide_eq_true_eq] at hca ⊢
  rw [h.eq_lt_iff (hcs c hc) ha] at hca
  rw [h.eq_lt_iff (hcs c hc) hb]
  exact fun hbc => hca (htrans a ha b hb c (hcs c hc) hab hbc)

theorem rankIn_lt (h : Decides compare as) (htrans : IsTransitive compare as) {a b : α}
    (ha : a ∈ as) (hb : b ∈ as) (hab : compare a b = .ok .lt) :
    rankIn compare as a < rankIn compare as b := by
  have hle : compare a b ≠ .ok .gt := by simp [hab]
  have hself : compare a a ≠ .ok .lt := fun haa => (h.eq_lt_iff ha ha).mp haa (by simp [haa])
  obtain ⟨front, back, hsplit⟩ := List.append_of_mem ha
  have hfront : rankIn compare front a ≤ rankIn compare front b :=
    rankIn_le h htrans ha hb hle (by simp +contextual [hsplit])
  have hback : rankIn compare back a ≤ rankIn compare back b :=
    rankIn_le h htrans ha hb hle (by simp +contextual [hsplit])
  simp only [rankIn] at hfront hback
  simp only [rankIn, hsplit, List.countP_append, List.countP_cons, hab, hself, decide_false,
    decide_true, Bool.false_eq_true, if_false, if_true]
  omega

theorem compare_eq_rankIn (h : Decides compare as) (htrans : IsTransitive compare as) {a b : α}
    (ha : a ∈ as) (hb : b ∈ as) :
    compare a b = .ok (Ord.compare (rankIn compare as a) (rankIn compare as b)) := by
  have hle {c d : α} (hc : c ∈ as) (hd : d ∈ as) (hcd : compare c d ≠ .ok .gt) :
      rankIn compare as c ≤ rankIn compare as d := rankIn_le h htrans hc hd hcd fun _ => id
  obtain ⟨ordering, hab, hba⟩ := h a ha b hb
  rw [hab]
  congr 1
  cases ordering with
  | lt => exact (Nat.compare_eq_lt.mpr (rankIn_lt h htrans ha hb hab)).symm
  | eq =>
    refine (Nat.compare_eq_eq.mpr (Nat.le_antisymm ?_ ?_)).symm
    · exact hle ha hb (by simp [hab])
    · exact hle hb ha (by simp [hba])
  | gt => exact (Nat.compare_eq_gt.mpr (rankIn_lt h htrans hb ha hba)).symm

section Through

variable {α β : Type} {compare : β → β → Except Fault Ordering} {f : α → β} {as : List α}

theorem Decides.of_map (h : Decides compare (as.map f)) :
    Decides (fun a b => compare (f a) (f b)) as :=
  fun _ ha _ hb => h _ (List.mem_map_of_mem ha) _ (List.mem_map_of_mem hb)

theorem isTransitive_map_iff :
    IsTransitive compare (as.map f) ↔ IsTransitive (fun a b => compare (f a) (f b)) as := by
  simp only [IsTransitive, List.forall_mem_map]

end Through

end Ranking

/-- What sorting stably by a comparison comes to. -/
structure IsStableSort (compare : Comparison) (tabs sorted : List Tab) : Prop where
  perm : sorted.Perm tabs
  pairwise : sorted.Pairwise fun a b => compare a b ≠ .ok .gt
  stable : ∀ a ∈ tabs, sorted.filter (compare a · = .ok .eq) = tabs.filter (compare a · = .ok .eq)

theorem isByRank_rankIn (h : Decides compare tabs) (htrans : IsTransitive compare tabs) :
    compare.IsByRank (rankIn compare tabs) tabs :=
  fun _ ha _ hb => compare_eq_rankIn h htrans ha hb

variable {rank : Tab → Nat}

theorem pairwise_map_rank_iff (h : compare.IsByRank rank tabs) (hperm : sorted.Perm tabs) :
    (sorted.map rank).Pairwise (· ≤ ·) ↔ sorted.Pairwise fun a b => compare a b ≠ .ok .gt := by
  rw [List.pairwise_map]
  refine List.Pairwise.iff_of_mem fun {a b} ha hb => ?_
  rw [h a (hperm.mem_iff.mp ha) b (hperm.mem_iff.mp hb)]
  simp [Nat.compare_eq_gt]

theorem isStableSort_of_sortedBy (h : compare.IsByRank rank tabs) (hperm : sorted.Perm tabs)
    (hsorted : SortedBy rank tabs sorted) : IsStableSort compare tabs sorted where
  perm := hperm
  pairwise := (pairwise_map_rank_iff h hperm).mp (List.pairwise_map.mpr hsorted.pairwise)
  stable a ha := by
    have hsame : ∀ b ∈ tabs, decide (compare a b = .ok .eq) = decide (rank b = rank a) :=
      fun b hb => decide_eq_decide.mpr (h.compare_eq_iff ha hb)
    rw [List.filter_congr hsame, List.filter_congr fun b hb => hsame b (hperm.mem_iff.mp hb)]
    exact hsorted.filter_eq (rank a)

/-- A comparison that decides all pairs and is transitive sorts every list of these tabs. -/
theorem isStableSort_sortTabs (h : Decides compare tabs) (htrans : IsTransitive compare tabs) :
    ∃ sorted, sortTabs compare tabs = .ok sorted ∧ IsStableSort compare tabs sorted := by
  have hrank := isByRank_rankIn h htrans
  obtain ⟨sorted, hsort, hsorted⟩ := sortedBy_sortTabs hrank
  exact ⟨sorted, hsort, isStableSort_of_sortedBy hrank (perm_of_sortTabs hsort) hsorted⟩

theorem IsStableSort.filter_rank_eq (h : compare.IsByRank rank tabs)
    (hsorted : IsStableSort compare tabs sorted) (k : Nat) :
    sorted.filter (rank · = k) = tabs.filter (rank · = k) := by
  by_cases hk : ∃ a ∈ tabs, rank a = k
  · obtain ⟨a, ha, rfl⟩ := hk
    have hsame : ∀ b ∈ tabs, decide (rank b = rank a) = decide (compare a b = .ok .eq) :=
      fun b hb => decide_eq_decide.mpr (h.compare_eq_iff ha hb).symm
    rw [List.filter_congr hsame, ← hsorted.stable a ha]
    exact List.filter_congr fun b hb => hsame b (hsorted.perm.mem_iff.mp hb)
  · have hnone : ∀ b ∈ tabs, ¬ decide (rank b = k) = true := fun b hb hb' =>
      hk ⟨b, hb, of_decide_eq_true hb'⟩
    rw [List.filter_eq_nil_iff.mpr hnone,
      List.filter_eq_nil_iff.mpr fun b hb => hnone b (hsorted.perm.mem_iff.mp hb)]

/-- There is only one way to sort stably. -/
theorem IsStableSort.unique (h : Decides compare tabs) (htrans : IsTransitive compare tabs)
    {sorted' : List Tab} (hsorted : IsStableSort compare tabs sorted)
    (hsorted' : IsStableSort compare tabs sorted') : sorted = sorted' := by
  have hrank := isByRank_rankIn h htrans
  generalize rankIn compare tabs = rank at hrank
  have hpairwise {other : List Tab} (hother : IsStableSort compare tabs other) :
      other.Pairwise (rank · ≤ rank ·) :=
    List.pairwise_map.mp ((pairwise_map_rank_iff hrank hother.perm).mpr hother.pairwise)
  exact eq_of_filter_eq (hpairwise hsorted) (hpairwise hsorted') fun k =>
    (hsorted.filter_rank_eq hrank k).trans (hsorted'.filter_rank_eq hrank k).symm

theorem sortTabs_eq_ok_iff (h : Decides compare tabs) (htrans : IsTransitive compare tabs) :
    sortTabs compare tabs = .ok sorted ↔ IsStableSort compare tabs sorted := by
  obtain ⟨sorted', hsort, hsorted'⟩ := isStableSort_sortTabs h htrans
  rw [hsort, Except.ok.injEq]
  exact ⟨fun heq => heq ▸ hsorted', fun hsorted => hsorted'.unique h htrans hsorted⟩

/-- Sorted tabs are sorted to themselves. -/
theorem IsStableSort.sortTabs_eq (h : Decides compare tabs) (htrans : IsTransitive compare tabs)
    (hsorted : IsStableSort compare tabs sorted) : sortTabs compare sorted = .ok sorted := by
  have hmem : ∀ a ∈ sorted, a ∈ tabs := fun a => hsorted.perm.mem_iff.mp
  exact (sortTabs_eq_ok_iff (h.mono hmem) (htrans.mono hmem)).mpr
    ⟨.rfl, hsorted.pairwise, fun _ _ => rfl⟩

section ByKey

open Std

variable {α κ : Type} {cmp : κ → κ → Ordering}

def IsByKey (compare : α → α → Except Fault Ordering) (cmp : κ → κ → Ordering) (key : α → κ)
    (as : List α) : Prop :=
  ∀ a ∈ as, ∀ b ∈ as, compare a b = .ok (cmp (key a) (key b))

/-- A stable sort keeps the order of members of which each may stand before each. -/
theorem filter_mergeSort {le : α → α → Bool}
    (trans : ∀ a b c, le a b = true → le b c = true → le a c = true)
    (total : ∀ a b, (le a b || le b a) = true) {p : α → Bool}
    (h : ∀ a b, p a = true → p b = true → le a b = true) (l : List α) :
    (l.mergeSort le).filter p = l.filter p := by
  have hle : (l.filter p).Pairwise (le · · = true) :=
    List.pairwise_of_forall_mem_list fun a ha b hb =>
      h a b (List.mem_filter.mp ha).2 (List.mem_filter.mp hb).2
  have hsub := (List.sublist_mergeSort trans total hle List.filter_sublist).filter p
  simp only [List.filter_filter, Bool.and_self] at hsub
  exact (hsub.eq_of_length ((List.mergeSort_perm l le).filter p).length_eq.symm).symm

variable [TransCmp cmp]

section

variable {compare : α → α → Except Fault Ordering} {key : α → κ} {as : List α}

theorem IsByKey.decides (h : IsByKey compare cmp key as) : Decides compare as :=
  fun a ha b hb =>
    ⟨_, h a ha b hb, (h b hb a ha).trans (congrArg Except.ok OrientedCmp.eq_swap)⟩

theorem IsByKey.isTransitive (h : IsByKey compare cmp key as) : IsTransitive compare as := by
  intro a ha b hb c hc hab hbc
  rw [h a ha b hb, ne_eq, Except.ok.injEq] at hab
  rw [h b hb c hc, ne_eq, Except.ok.injEq] at hbc
  rw [h a ha c hc, ne_eq, Except.ok.injEq]
  exact Ordering.ne_gt_iff_isLE.mpr <|
    TransCmp.isLE_trans (Ordering.ne_gt_iff_isLE.mp hab) (Ordering.ne_gt_iff_isLE.mp hbc)

end

variable {key : Tab → κ}

theorem IsByKey.isStableSort_mergeSort (h : IsByKey compare cmp key tabs) :
    IsStableSort compare tabs (tabs.mergeSort fun a b => (cmp (key a) (key b)).isLE) := by
  have htrans : ∀ a b c, (cmp (key a) (key b)).isLE = true → (cmp (key b) (key c)).isLE = true →
      (cmp (key a) (key c)).isLE = true := fun _ _ _ => TransCmp.isLE_trans
  have htotal : ∀ a b, ((cmp (key a) (key b)).isLE || (cmp (key b) (key a)).isLE) = true := by
    intro a b
    have hswap : cmp (key b) (key a) = (cmp (key a) (key b)).swap := OrientedCmp.eq_swap
    rw [hswap]
    cases cmp (key a) (key b) <;> rfl
  have hperm := List.mergeSort_perm tabs fun a b => (cmp (key a) (key b)).isLE
  refine ⟨hperm, ?_, fun a ha => ?_⟩
  · refine (List.pairwise_mergeSort htrans htotal tabs).imp_of_mem fun {a b} ha hb hab => ?_
    rw [h a (hperm.mem_iff.mp ha) b (hperm.mem_iff.mp hb), ne_eq, Except.ok.injEq]
    exact Ordering.ne_gt_iff_isLE.mpr hab
  · have hsame : ∀ b ∈ tabs, decide (compare a b = .ok .eq) = decide (cmp (key a) (key b) = .eq) :=
      fun b hb => by simp only [h a ha b hb, Except.ok.injEq]
    rw [List.filter_congr fun b hb => hsame b (hperm.mem_iff.mp hb), List.filter_congr hsame]
    refine filter_mergeSort htrans htotal (fun b c hb hc => ?_) tabs
    have hba : cmp (key b) (key a) = .eq := OrientedCmp.eq_comm.mp (of_decide_eq_true hb)
    rw [TransCmp.congr_left hba, of_decide_eq_true hc]
    rfl

/-- Sorting by a comparison of keys is the stable sort by them. -/
theorem IsByKey.sortTabs_eq (h : IsByKey compare cmp key tabs) :
    sortTabs compare tabs = .ok (tabs.mergeSort fun a b => (cmp (key a) (key b)).isLE) :=
  (sortTabs_eq_ok_iff h.decides h.isTransitive).mpr h.isStableSort_mergeSort

end ByKey

/-- The order of the given tabs matters only for tabs that compare equal. -/
theorem IsStableSort.agree (h : Decides compare tabs) (htrans : IsTransitive compare tabs)
    {tabs' sorted' : List Tab} (hperm : tabs'.Perm tabs)
    (hsorted : IsStableSort compare tabs sorted) (hsorted' : IsStableSort compare tabs' sorted') :
    List.Forall₂ (fun a b => compare a b = .ok .eq) sorted sorted' := by
  have hrank := isByRank_rankIn h htrans
  have hperm' := hsorted'.perm.trans hperm
  generalize rankIn compare tabs = rank at hrank
  have hsame : sorted.map rank = sorted'.map rank :=
    ((hsorted.perm.trans hperm'.symm).map rank).eq_of_pairwise (fun _ _ _ _ => Nat.le_antisymm)
      ((pairwise_map_rank_iff hrank hsorted.perm).mpr hsorted.pairwise)
      ((pairwise_map_rank_iff hrank hperm').mpr hsorted'.pairwise)
  refine List.forall₂_iff_get.mpr ⟨by simpa using congrArg List.length hsame, fun i hi hi' => ?_⟩
  have heq : rank (sorted.get ⟨i, hi⟩) = rank (sorted'.get ⟨i, hi'⟩) := by
    simpa [hi, hi'] using congrArg (·[i]?) hsame
  rw [hrank _ (hsorted.perm.mem_iff.mp (List.get_mem ..)) _ (hperm'.mem_iff.mp (List.get_mem ..)),
    Nat.compare_eq_eq.mpr heq]

theorem IsStableSort.not_sublist (h : Decides compare tabs)
    (hsorted : IsStableSort compare tabs sorted) {a b : Tab} (hab : compare a b = .ok .lt) :
    ¬ [b, a].Sublist sorted := by
  intro hsub
  have ha : a ∈ tabs := hsorted.perm.mem_iff.mp (hsub.subset (by simp))
  have hb : b ∈ tabs := hsorted.perm.mem_iff.mp (hsub.subset (by simp))
  have hba : compare b a ≠ .ok .gt :=
    List.rel_of_pairwise_cons (hsorted.pairwise.sublist hsub) (by simp)
  exact (h.eq_lt_iff ha hb).mp hab hba

/-- What sorting comes to when the order in which the tabs are given does not matter but for those
that compare equal. -/
structure IsSettled (compare : Comparison) (tabs sorted : List Tab) : Prop where
  sort_eq : sortTabs compare tabs = .ok sorted
  isStableSort : IsStableSort compare tabs sorted
  agree : ∀ tabs', tabs'.Perm tabs → ∃ sorted', sortTabs compare tabs' = .ok sorted' ∧
    List.Forall₂ (fun a b => compare a b = .ok .eq) sorted sorted'

theorem exists_isSettled (h : Decides compare tabs) (htrans : IsTransitive compare tabs) :
    ∃ sorted, IsSettled compare tabs sorted := by
  obtain ⟨sorted, hsort, hsorted⟩ := isStableSort_sortTabs h htrans
  refine ⟨sorted, hsort, hsorted, fun tabs' hperm => ?_⟩
  have hmem : ∀ a ∈ tabs', a ∈ tabs := fun a => hperm.mem_iff.mp
  obtain ⟨sorted', hsort', hsorted'⟩ := isStableSort_sortTabs (h.mono hmem) (htrans.mono hmem)
  exact ⟨sorted', hsort', hsorted.agree h htrans hperm hsorted'⟩

section Files

variable {compare : Text → Text → Except Fault Ordering} {tabs : List Tab}

theorem decides_ofPaths (h : Decides compare (Tab.files tabs)) :
    Decides (Comparison.ofPaths compare) tabs := by
  intro a ha b hb
  simp only [Comparison.ofPaths, compareMissing]
  cases hfileA : a.file? with
  | none => cases b.file? <;> exact ⟨_, rfl, rfl⟩
  | some p =>
    cases hfileB : b.file? with
    | none => exact ⟨_, rfl, rfl⟩
    | some q =>
      exact h p (List.mem_filterMap.mpr ⟨a, ha, hfileA⟩) q (List.mem_filterMap.mpr ⟨b, hb, hfileB⟩)

theorem isTransitive_ofPaths_iff :
    IsTransitive (Comparison.ofPaths compare) tabs ↔ IsTransitive compare (Tab.files tabs) := by
  refine ⟨fun h p hp q hq r hr => ?_, fun h a ha b hb c hc => ?_⟩
  · obtain ⟨a, ha, hfileA⟩ := List.mem_filterMap.mp hp
    obtain ⟨b, hb, hfileB⟩ := List.mem_filterMap.mp hq
    obtain ⟨c, hc, hfileC⟩ := List.mem_filterMap.mp hr
    simpa only [Comparison.ofPaths, hfileA, hfileB, hfileC] using h a ha b hb c hc
  · simp only [Comparison.ofPaths, compareMissing]
    -- No tab with a path comes after one without, which leaves the case of three paths.
    cases hfileA : a.file? with
    | none => cases b.file? <;> cases c.file? <;> simp
    | some p =>
      cases hfileC : c.file? with
      | none => simp
      | some r =>
        cases hfileB : b.file? with
        | none => simp
        | some q =>
          exact h p (List.mem_filterMap.mpr ⟨a, ha, hfileA⟩) q
            (List.mem_filterMap.mpr ⟨b, hb, hfileB⟩) r (List.mem_filterMap.mpr ⟨c, hc, hfileC⟩)

end Files

end EditorTabs.Order
