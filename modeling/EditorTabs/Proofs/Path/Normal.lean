import EditorTabs.Proofs.Path.Parent
import Mathlib.Data.List.Chain

/-!
# Slashes in normalised paths

A normalised path is not empty, and its segments are names, as are those of the way from one
directory to another. So two slashes stand next to each other at most at the start of a normalised
path, and nowhere on a way.
-/
namespace EditorTabs.Path

def IsName (segment : Segment) : Prop :=
  segment ≠ [] ∧ slash ∉ segment

instance (segment : Segment) : Decidable (IsName segment) :=
  inferInstanceAs (Decidable (segment ≠ [] ∧ slash ∉ segment))

theorem isName_here : IsName here := by decide

theorem isName_up : IsName up := by decide

def SlashesApart (path : Text) : Prop :=
  path.IsChain fun c d => c = slash → d ≠ slash

theorem slash_notMem_of_mem_split {path : Text} {segment : Segment} (h : segment ∈ split path) :
    slash ∉ segment := by
  induction path generalizing segment with
  | nil => simp_all [split]
  | cons c cs ih =>
    by_cases hc : c = slash
    · rw [split, if_pos hc, List.mem_cons] at h
      rcases h with rfl | h
      · simp
      · exact ih h
    · cases hs : split cs with
      | nil => exact absurd hs (split_ne_nil cs)
      | cons first rest =>
        rw [hs] at ih
        simp only [split, hc, hs, if_false, List.mem_cons] at h
        rcases h with rfl | h
        · simpa [Ne.symm hc] using ih List.mem_cons_self
        · exact ih (List.mem_cons_of_mem first h)

section Unsplit

variable {segments : List Segment} {segment : Segment} {c : CodePoint}

theorem mem_unsplit_of_mem (h : segment ∈ segments) (hc : c ∈ segment) : c ∈ unsplit segments := by
  fun_induction unsplit segments with
  | case1 => cases h
  | case2 first => simpa [List.mem_singleton.mp h] using hc
  | case3 first rest hne ih =>
    rw [List.mem_append, List.mem_cons]
    rcases List.mem_cons.mp h with rfl | h
    · exact .inl hc
    · exact .inr (.inr (ih h))

theorem exists_mem_of_mem_unsplit (h : c ∈ unsplit segments) :
    c = slash ∨ ∃ segment ∈ segments, c ∈ segment := by
  fun_induction unsplit segments with
  | case1 => cases h
  | case2 first => exact .inr ⟨first, by simp, h⟩
  | case3 first rest hne ih =>
    rw [List.mem_append, List.mem_cons] at h
    rcases h with h | rfl | h
    · exact .inr ⟨first, by simp, h⟩
    · exact .inl rfl
    · exact (ih h).imp_right fun ⟨other, hother, hc⟩ => ⟨other, by simp [hother], hc⟩

theorem mem_of_mem_split {path : Text} (h : segment ∈ split path) (hc : c ∈ segment) : c ∈ path :=
  unsplit_split path ▸ mem_unsplit_of_mem h hc

theorem IsName.head?_ne (h : IsName segment) : ∀ c ∈ segment.head?, c ≠ slash := by
  rintro c hc rfl
  exact h.2 (List.mem_of_mem_head? hc)

theorem head?_unsplit_ne (h : ∀ segment ∈ segments, IsName segment) :
    ∀ c ∈ (unsplit segments).head?, c ≠ slash := by
  fun_cases unsplit segments with
  | case1 => simp
  | case2 first => exact (h first (by simp)).head?_ne
  | case3 first rest =>
    have hfirst := h first (by simp)
    rw [List.head?_append_of_ne_nil _ hfirst.1]
    exact hfirst.head?_ne

theorem IsName.slashesApart (h : IsName segment) : SlashesApart segment :=
  (List.pairwise_of_forall_mem_list fun c hc _ _ (heq : c = slash) =>
    absurd (heq ▸ hc) h.2).isChain

theorem slashesApart_unsplit (h : ∀ segment ∈ segments, IsName segment) :
    SlashesApart (unsplit segments) := by
  fun_induction unsplit segments with
  | case1 => exact .nil
  | case2 first => exact (h first (by simp)).slashesApart
  | case3 first rest hne ih =>
    obtain ⟨hfirst, hrest⟩ := List.forall_mem_cons.mp h
    refine List.isChain_append.mpr ⟨hfirst.slashesApart,
      List.isChain_cons.mpr ⟨fun c hc _ => head?_unsplit_ne hrest c hc, ih hrest⟩, ?_⟩
    rintro c hc d - rfl
    exact absurd (List.mem_of_mem_getLast? hc) hfirst.2

end Unsplit

section Normalize

variable {rooted : Bool} {segments kept : List Segment} {segment : Segment}

theorem isName_pushSegment (hkept : ∀ segment ∈ kept, IsName segment) (h : slash ∉ segment) :
    ∀ other ∈ pushSegment rooted kept segment, IsName other := by
  rw [pushSegment.eq_def]
  split
  · exact hkept
  · next hne =>
    split
    · split
      · cases rooted <;> simp [isName_up]
      · next last before =>
        split
        · exact List.forall_mem_cons.mpr ⟨isName_up, hkept⟩
        · exact (List.forall_mem_cons.mp hkept).2
    · exact List.forall_mem_cons.mpr ⟨⟨fun hnil => hne (.inl hnil), h⟩, hkept⟩

/-- What each push keeps of the segments, the segments of a normalised path have. -/
theorem forall_mem_normalSegments {P : Segment → Prop}
    (hpush : ∀ kept segment, (∀ other ∈ kept, P other) → slash ∉ segment →
      ∀ other ∈ pushSegment rooted kept segment, P other)
    (h : ∀ segment ∈ segments, slash ∉ segment) :
    ∀ segment ∈ normalSegments rooted segments, P segment := by
  have hfold (kept : List Segment) (hkept : ∀ segment ∈ kept, P segment) :
      ∀ segment ∈ segments.foldl (pushSegment rooted) kept, P segment := by
    induction segments generalizing kept with
    | nil => exact hkept
    | cons first rest ih =>
      obtain ⟨hfirst, hrest⟩ := List.forall_mem_cons.mp h
      exact ih hrest _ (hpush kept first hkept hfirst)
  simpa [normalSegments] using hfold [] (by simp)

theorem isName_normalSegments (h : ∀ segment ∈ segments, slash ∉ segment) :
    ∀ segment ∈ normalSegments rooted segments, IsName segment :=
  forall_mem_normalSegments (fun _ _ => isName_pushSegment) h

theorem leadingSlashes_le_two (path : Text) : leadingSlashes path ≤ 2 := by
  simp only [leadingSlashes]
  split <;> omega

/-- A normalised path has no slashes next to each other after its first character. -/
theorem normalize_ne_nil (path : Text) : normalize path ≠ [] := by
  unfold normalize
  dsimp only
  split
  · exact List.cons_ne_nil _ _
  · assumption

theorem slashesApart_tail_normalize (path : Text) : SlashesApart (normalize path).tail := by
  have hnames : ∀ segment ∈ normalSegments (leadingSlashes path ≠ 0) (split path), IsName segment :=
    isName_normalSegments fun segment => slash_notMem_of_mem_split
  simp only [normalize]
  split
  · exact .nil
  generalize normalSegments (leadingSlashes path ≠ 0) (split path) = segments at hnames
  have hapart := slashesApart_unsplit hnames
  have hle := leadingSlashes_le_two path
  obtain hslashes | hslashes | hslashes : leadingSlashes path = 0 ∨ leadingSlashes path = 1 ∨
      leadingSlashes path = 2 := by omega
  all_goals rw [hslashes]
  · exact hapart.tail
  · exact hapart
  · exact List.isChain_cons.mpr ⟨fun c hc _ => head?_unsplit_ne hnames c hc, hapart⟩

end Normalize

theorem mem_of_mem_dropCommon {α : Type} [DecidableEq α] {as bs : List α} {b : α}
    (h : b ∈ (dropCommon as bs).2) : b ∈ bs := by
  fun_induction dropCommon as bs with
  | case1 as a bs ih => exact List.mem_cons_of_mem a (ih h)
  | case2 => exact h
  | case3 => exact h

theorem isName_of_mem_names {path : Text} {segment : Segment} (h : segment ∈ names path) :
    IsName segment := by
  rw [names, List.mem_filter] at h
  exact ⟨by simpa using h.2, slash_notMem_of_mem_split h.1⟩

/-- A way leads up, down by names of the target, or nowhere. -/
theorem exists_wayBetween_eq (start target : Text) :
    ∃ segments, wayBetween start target = unsplit segments ∧
      ∀ segment ∈ segments, segment = here ∨ segment = up ∨ segment ∈ names target := by
  rw [wayBetween]
  dsimp only
  split
  · exact ⟨[here], rfl, by simp⟩
  · refine ⟨_, rfl, fun segment hsegment => .inr ?_⟩
    rcases List.mem_append.mp hsegment with h | h
    · exact .inl (List.eq_of_mem_replicate h)
    · exact .inr (mem_of_mem_dropCommon h)

theorem slashesApart_wayBetween (start target : Text) : SlashesApart (wayBetween start target) := by
  obtain ⟨segments, hway, hsegments⟩ := exists_wayBetween_eq start target
  rw [hway]
  refine slashesApart_unsplit fun segment hsegment => ?_
  rcases hsegments segment hsegment with rfl | rfl | h
  · exact isName_here
  · exact isName_up
  · exact isName_of_mem_names h

theorem backslash_notMem_wayBetween {target : Text} (h : backslash ∉ target) (start : Text) :
    backslash ∉ wayBetween start target := by
  obtain ⟨segments, hway, hsegments⟩ := exists_wayBetween_eq start target
  rw [hway]
  intro hmem
  rcases exists_mem_of_mem_unsplit hmem with hslash | ⟨segment, hsegment, hc⟩
  · exact absurd hslash (by decide)
  · rcases hsegments segment hsegment with rfl | rfl | hname
    · exact absurd hc (by decide)
    · exact absurd hc (by decide)
    · exact h (mem_of_mem_split (List.mem_of_mem_filter hname) hc)

theorem forward_eq_self {path : Text} (h : backslash ∉ path) : forward path = path := by
  have hsame : ∀ c ∈ path, (if c = backslash then slash else c) = id c := fun c hc =>
    if_neg fun (heq : c = backslash) => h (heq ▸ hc)
  rw [forward, List.map_congr_left hsame, List.map_id]

end EditorTabs.Path
