import EditorTabs.Proofs.Reference.Language
import EditorTabs.Proofs.Text.Sorted

/-!
# The search for references

A search goes through a text from left to right and, after a member of the language, goes on behind
it. So of all the places where members start it finds those that lie in none it found before, and
there is only one such list.
-/
namespace EditorTabs.Reference

/-- A member of a language at its place in a text, with the name it refers to. -/
structure Occurrence where
  start : Nat
  matched : Text
  reference : Text

namespace Occurrence

def stop (o : Occurrence) : Nat :=
  o.start + o.matched.length

def shift (n : Nat) (o : Occurrence) : Occurrence :=
  { o with start := n + o.start }

@[simp] theorem start_shift (n : Nat) (o : Occurrence) : (o.shift n).start = n + o.start := rfl

@[simp] theorem stop_shift (n : Nat) (o : Occurrence) : (o.shift n).stop = n + o.stop := by
  simp only [stop, shift]
  omega

theorem exists_eq_shift {n : Nat} {o : Occurrence} (h : n ≤ o.start) :
    ∃ inner : Occurrence, o = inner.shift n := by
  refine ⟨{ o with start := o.start - n }, ?_⟩
  simp [shift, Nat.add_sub_cancel' h]

end Occurrence

def Pattern.Occurs (pattern : Pattern) (text : Text) (o : Occurrence) : Prop :=
  pattern.Matches o.reference o.matched ∧ o.matched <+: text.drop o.start

/-- The occurrences that are met from left to right: they stand apart and in order, and every
occurrence that starts in none of them before it is one of them. -/
structure Pattern.IsScan (pattern : Pattern) (text : Text) (found : List Occurrence) : Prop where
  occurs : ∀ o ∈ found, pattern.Occurs text o
  ordered : found.Pairwise fun a b => a.stop ≤ b.start
  complete : ∀ o, pattern.Occurs text o →
    (∀ earlier ∈ found, earlier.start < o.start → earlier.stop ≤ o.start) → o ∈ found

namespace Pattern

variable {pattern : Pattern} {text rest s name : Text} {found others : List Occurrence}
  {a b o : Occurrence}

theorem occurs_shift (before : Text) :
    pattern.Occurs (before ++ rest) (o.shift before.length) ↔ pattern.Occurs rest o := by
  have hdrop : (before ++ rest).drop (before.length + o.start) = rest.drop o.start := by
    rw [← List.drop_drop, List.drop_left]
  simp only [Occurs, Occurrence.shift, hdrop]

theorem Occurs.start_lt_stop (h : pattern.Occurs text o) : o.start < o.stop := by
  have := List.length_pos_iff.mpr h.1.ne_nil
  rw [Occurrence.stop]
  omega

theorem Occurs.eq_of_start_eq (ha : pattern.Occurs text a) (hb : pattern.Occurs text b)
    (h : a.start = b.start) : a = b := by
  obtain ⟨start, matched, reference⟩ := a
  obtain ⟨start', matched', reference'⟩ := b
  obtain rfl : start = start' := h
  obtain ⟨rfl, rfl⟩ : matched = matched' ∧ reference = reference' := ha.1.unique ha.2 hb.1 hb.2
  rfl

theorem IsScan.nil : pattern.IsScan [] [] := by
  refine ⟨by simp, .nil, fun o ho => ?_⟩
  have hnil : o.matched = [] := by simpa using ho.2
  exact absurd hnil ho.1.ne_nil

/-- Where no member of the language starts, the scan is that of the text behind. -/
theorem IsScan.skip {c : CodePoint} (hnone : pattern.hit? (c :: rest) = none)
    (h : pattern.IsScan rest found) :
    pattern.IsScan (c :: rest) (found.map (Occurrence.shift 1)) where
  occurs := by
    simp only [List.mem_map]
    rintro _ ⟨o, ho, rfl⟩
    exact (occurs_shift [c]).mpr (h.occurs o ho)
  ordered := by
    rw [List.pairwise_map]
    refine h.ordered.imp fun hab => ?_
    simp only [Occurrence.stop_shift, Occurrence.start_shift]
    omega
  complete := by
    intro o ho hearlier
    have hstart : 1 ≤ o.start := by
      by_contra hzero
      obtain ⟨tail, htail⟩ := ho.2
      rw [Nat.lt_one_iff.mp (Nat.lt_of_not_le hzero), List.drop_zero] at htail
      rw [← htail, hit?_append ho.1 tail] at hnone
      cases hnone
    obtain ⟨inner, rfl⟩ := Occurrence.exists_eq_shift hstart
    refine List.mem_map_of_mem (h.complete inner ((occurs_shift [c]).mp ho) ?_)
    intro earlier hmem hlt
    have := hearlier _ (List.mem_map_of_mem hmem)
    simp only [Occurrence.stop_shift, Occurrence.start_shift] at this
    omega

/-- Where a member of the language starts, the scan goes on behind it. -/
theorem IsScan.hit (hs : pattern.Matches name s) (h : pattern.IsScan rest found) :
    pattern.IsScan (s ++ rest) (⟨0, s, name⟩ :: found.map (Occurrence.shift s.length)) where
  occurs := by
    simp only [List.mem_cons, List.mem_map]
    rintro _ (rfl | ⟨o, ho, rfl⟩)
    · exact ⟨hs, List.prefix_append s rest⟩
    · exact (occurs_shift s).mpr (h.occurs o ho)
  ordered := by
    rw [List.pairwise_cons, List.pairwise_map]
    refine ⟨?_, h.ordered.imp fun hab => ?_⟩
    · simp only [List.mem_map]
      rintro _ ⟨o, -, rfl⟩
      simp only [Occurrence.stop, Occurrence.start_shift]
      omega
    · simp only [Occurrence.stop_shift, Occurrence.start_shift]
      omega
  complete := by
    intro o ho hearlier
    by_cases hzero : o.start = 0
    · have hfirst : pattern.Occurs (s ++ rest) ⟨0, s, name⟩ := ⟨hs, List.prefix_append s rest⟩
      exact List.mem_cons.mpr (.inl (ho.eq_of_start_eq hfirst hzero))
    · have hstart : s.length ≤ o.start := by
        have := hearlier _ List.mem_cons_self (Nat.pos_of_ne_zero hzero)
        simpa [Occurrence.stop] using this
      obtain ⟨inner, rfl⟩ := Occurrence.exists_eq_shift hstart
      have hinner := (occurs_shift s).mp ho
      refine List.mem_cons_of_mem _ (List.mem_map_of_mem (h.complete inner hinner ?_))
      intro earlier hmem hlt
      have := hearlier _ (List.mem_cons_of_mem _ (List.mem_map_of_mem hmem))
      simp only [Occurrence.stop_shift, Occurrence.start_shift] at this
      omega

theorem exists_isScan (pattern : Pattern) (text : Text) :
    ∃ found, pattern.IsScan text found ∧ pattern.scan text = found.map Occurrence.reference := by
  fun_induction Pattern.scan pattern text with
  | case1 => exact ⟨[], .nil, rfl⟩
  | case2 c cs hit h hlength ih =>
    obtain ⟨found, hscan, hnames⟩ := ih
    obtain ⟨s, hs, hsplit⟩ := hit?_iff_matches.mp h
    rw [hsplit, hnames]
    exact ⟨_, hscan.hit hs, by simp [Occurrence.shift]⟩
  | case3 c cs h ih =>
    obtain ⟨found, hscan, hnames⟩ := ih
    rw [hnames]
    exact ⟨_, hscan.skip h, by simp [Occurrence.shift]⟩

/-- Of two occurrences in one scan the one that starts first also stops first. -/
theorem IsScan.stop_le (h : pattern.IsScan text found) (ha : a ∈ found) (hb : b ∈ found)
    (hab : a.start < b.start) : a.stop ≤ b.start := by
  have hforward : found.Pairwise fun a b => a.start < b.start → a.stop ≤ b.start :=
    h.ordered.imp fun {a b} hstop (_ : a.start < b.start) => hstop
  have hbackward : found.Pairwise fun a b => b.start < a.start → b.stop ≤ a.start := by
    refine h.ordered.imp_of_mem fun hmem _ hstop hlt => ?_
    have := (h.occurs _ hmem).start_lt_stop
    omega
  exact List.Pairwise.forall_of_forall_of_flip (fun o _ hlt => absurd hlt (Nat.lt_irrefl _))
    hforward hbackward ha hb hab

theorem IsScan.subset (h : pattern.IsScan text found) (h' : pattern.IsScan text others)
    (hsame : ∀ a, a.start < o.start → (a ∈ found ↔ a ∈ others)) (ho : o ∈ found) : o ∈ others := by
  refine h'.complete o (h.occurs o ho) fun earlier hearlier hlt => ?_
  exact h.stop_le ((hsame earlier hlt).mpr hearlier) ho hlt

theorem IsScan.mem_iff (h : pattern.IsScan text found) (h' : pattern.IsScan text others)
    (o : Occurrence) : o ∈ found ↔ o ∈ others := by
  induction hstart : o.start using Nat.strong_induction_on generalizing o with
  | h start ih =>
    have hsame : ∀ a, a.start < o.start → (a ∈ found ↔ a ∈ others) :=
      fun a ha => ih a.start (hstart ▸ ha) a rfl
    exact ⟨h.subset h' hsame, h'.subset h fun a ha => (hsame a ha).symm⟩

theorem IsScan.pairwise_start_lt (h : pattern.IsScan text found) :
    found.Pairwise fun a b => a.start < b.start := by
  refine h.ordered.imp_of_mem fun hmem _ hstop => ?_
  have := (h.occurs _ hmem).start_lt_stop
  omega

theorem IsScan.unique (h : pattern.IsScan text found) (h' : pattern.IsScan text others) :
    others = found := by
  have hnodup : ∀ {found}, pattern.IsScan text found → found.Nodup := by
    intro found h
    refine h.pairwise_start_lt.imp fun hlt heq => ?_
    rw [heq] at hlt
    exact absurd hlt (Nat.lt_irrefl _)
  have hperm : others.Perm found :=
    (List.perm_ext_iff_of_nodup (hnodup h') (hnodup h)).mpr fun o => h'.mem_iff h o
  exact hperm.eq_of_pairwise (fun a b _ _ hab hba => absurd hab (Nat.lt_asymm hba))
    h'.pairwise_start_lt h.pairwise_start_lt

end Pattern

theorem mem_set_iff {text name : Text} :
    name ∈ set text ↔ ∃ pattern : Pattern, name ∈ pattern.scan text := by
  have hall : ∀ pattern, pattern ∈ Pattern.all := by
    intro pattern
    cases pattern <;> decide
  simp [set, list, hall]

/-- At each place of a text at most one member of a language starts, and its name is what stands
between the first two quotes from there on. The names that a search reports are those of the only
list of occurrences that is met from left to right, and the references of the text are all of them,
whatever their pattern. -/
theorem scan_eq_leftmost (text : Text) :
    (∀ (pattern : Pattern) (a b : Occurrence), pattern.Occurs text a → pattern.Occurs text b →
      a.start = b.start → a = b) ∧
    (∀ (pattern : Pattern) (o : Occurrence), pattern.Occurs text o →
      o.reference ≠ [] ∧ BetweenFirstQuotes o.reference (text.drop o.start)) ∧
    (∀ pattern : Pattern, ∃ found, pattern.IsScan text found ∧
      (∀ others, pattern.IsScan text others → others = found) ∧
      pattern.scan text = found.map Occurrence.reference) ∧
    (set text).Nodup ∧ ∀ name, name ∈ set text ↔ ∃ pattern : Pattern, name ∈ pattern.scan text := by
  refine ⟨fun pattern a b ha hb => ha.eq_of_start_eq hb,
    fun pattern o ho => ho.1.betweenFirstQuotes ho.2, fun pattern => ?_,
    Text.nodup_sortedSet _, fun name => mem_set_iff⟩
  obtain ⟨found, hfound, hnames⟩ := pattern.exists_isScan text
  exact ⟨found, hfound, fun others hothers => hfound.unique hothers, hnames⟩

end EditorTabs.Reference
