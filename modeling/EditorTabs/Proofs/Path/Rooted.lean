import EditorTabs.Proofs.Path.Normal

/-!
# Paths from a root

An absolute path leads from a root along its names. Normalising keeps the slashes of the root and
works on the names alone, so that it does not matter how many slashes divide them. Joining puts the
names of one path after those of another.
-/
namespace EditorTabs.Path

section Split

variable {segments : List Segment} {segment : Segment}

theorem split_append_slash (start path : Text) :
    split (start ++ slash :: path) = split start ++ split path := by
  induction start with
  | nil => rfl
  | cons c cs ih =>
    by_cases hc : c = slash
    · simp [split, hc, ih]
    · cases hs : split cs with
      | nil => exact absurd hs (split_ne_nil cs)
      | cons first rest => simp [split, hc, ih, hs]

theorem split_of_notMem (h : slash ∉ segment) : split segment = [segment] := by
  induction segment with
  | nil => rfl
  | cons c cs ih =>
    obtain ⟨hc, hcs⟩ := not_or.mp (mt List.mem_cons.mpr h)
    simp [split, Ne.symm hc, ih hcs]

theorem names_append_slash (start path : Text) :
    names (start ++ slash :: path) = names start ++ names path := by
  rw [names, split_append_slash, List.filter_append]
  rfl

theorem names_cons_slash (path : Text) : names (slash :: path) = names path :=
  names_append_slash [] path

theorem names_of_isName (h : IsName segment) : names segment = [segment] := by
  simp [names, split_of_notMem h.2, h.1]

theorem names_unsplit (h : ∀ segment ∈ segments, IsName segment) :
    names (unsplit segments) = segments := by
  fun_induction unsplit segments with
  | case1 => rfl
  | case2 first => exact names_of_isName (h first (by simp))
  | case3 first rest hne ih =>
    obtain ⟨hfirst, hrest⟩ := List.forall_mem_cons.mp h
    rw [names_append_slash, names_of_isName hfirst, ih hrest]
    rfl

/-- Names with a slash between each two are split into themselves. -/
theorem split_unsplit (hne : segments ≠ []) (h : ∀ segment ∈ segments, slash ∉ segment) :
    split (unsplit segments) = segments := by
  fun_induction unsplit segments with
  | case1 => exact absurd rfl hne
  | case2 first => exact split_of_notMem (h first (by simp))
  | case3 first rest hrest ih =>
    obtain ⟨hfirst, hothers⟩ := List.forall_mem_cons.mp h
    rw [split_append_slash, split_of_notMem hfirst, ih hrest hothers, List.singleton_append]

end Split

section Join

variable {base path : Text}

theorem join_of_isAbsolute (h : isAbsolute path = true) : join base path = path := by
  rw [join, if_pos h]

/-- A path below a base comes after it and a slash, of which the base may have brought one. -/
theorem names_join (h : isAbsolute path = false) :
    names (join base path) = names base ++ names path := by
  rw [join, if_neg (by simp [h])]
  split
  · next hbase =>
    rcases hbase with rfl | hlast
    · rfl
    · obtain ⟨start, rfl⟩ := List.getLast?_eq_some_iff.mp hlast
      rw [List.append_assoc, List.singleton_append, names_append_slash, names_append_slash]
      simp [names, split]
  · exact names_append_slash base path

theorem isAbsolute_join (h : isAbsolute base = true) : isAbsolute (join base path) = true := by
  obtain ⟨rest, rfl⟩ := List.head?_eq_some_iff.mp (by simpa [isAbsolute] using h)
  rw [join]
  split
  · assumption
  · split <;> simp [isAbsolute]

theorem takeWhile_slash_of_isAbsolute_eq_false (h : isAbsolute path = false) :
    path.takeWhile (· = slash) = [] := by
  cases path with
  | nil => rfl
  | cons c cs => simpa [isAbsolute] using h

theorem takeWhile_slash_eq_self_iff :
    base.takeWhile (· = slash) = base ↔ ∀ c ∈ base, c = slash := by
  simp [List.takeWhile_eq_self_iff]

/-- A path that is not all slashes keeps its root whatever comes after it. -/
theorem leadingSlashes_append (h : ∃ c ∈ base, c ≠ slash) (rest : Text) :
    leadingSlashes (base ++ rest) = leadingSlashes base := by
  have hlt : (base.takeWhile (· = slash)).length ≠ base.length := by
    intro heq
    obtain ⟨c, hc, hne⟩ := h
    have htake := (List.takeWhile_sublist (· = slash)).eq_of_length heq
    exact hne (takeWhile_slash_eq_self_iff.mp htake c hc)
  rw [leadingSlashes, leadingSlashes, List.takeWhile_append, if_neg hlt]

/-- Of the paths of slashes alone, those of one and of two are other roots with a slash more. -/
theorem leadingSlashes_append_slash (hbase : isAbsolute base = true) (hone : base ≠ [slash])
    (htwo : base ≠ [slash, slash]) (rest : Text) :
    leadingSlashes (base ++ slash :: rest) = leadingSlashes base := by
  by_cases hslashes : ∃ c ∈ base, c ≠ slash
  · exact leadingSlashes_append hslashes _
  · have hall : ∀ c ∈ base, c = slash := by simpa using hslashes
    have hlong : 2 < base.length := by
      rcases base with _ | ⟨first, _ | ⟨second, _ | ⟨third, more⟩⟩⟩
      · simp [isAbsolute] at hbase
      · simp_all
      · simp_all
      · simp
    simp only [leadingSlashes, List.takeWhile_append, takeWhile_slash_eq_self_iff.mpr hall,
      if_true, List.length_append]
    rw [if_neg (by omega), if_neg (by omega)]

theorem leadingSlashes_join (hbase : isAbsolute base = true) (h : isAbsolute path = false) :
    leadingSlashes (join base path) = leadingSlashes base := by
  by_cases hslashes : ∃ c ∈ base, c ≠ slash
  · rw [join, if_neg (by simp [h])]
    split <;> exact leadingSlashes_append hslashes _
  · have hall : ∀ c ∈ base, c = slash := by simpa using hslashes
    have hlast : base.getLast? = some slash := by
      cases hget : base.getLast? with
      | none => simp [isAbsolute, List.getLast?_eq_none_iff.mp hget] at hbase
      | some c => rw [hall c (List.mem_of_getLast? hget)]
    rw [join, if_neg (by simp [h]), if_pos (.inr hlast), leadingSlashes, leadingSlashes,
      List.takeWhile_append, takeWhile_slash_of_isAbsolute_eq_false h,
      takeWhile_slash_eq_self_iff.mpr hall]
    simp

end Join

section Normalize

variable {base path : Text}

theorem pushSegment_nil (rooted : Bool) (kept : List Segment) :
    pushSegment rooted kept [] = kept := by
  rw [pushSegment.eq_def, if_pos (.inl rfl)]

theorem pushSegment_here (rooted : Bool) (kept : List Segment) :
    pushSegment rooted kept here = kept := by
  rw [pushSegment.eq_def, if_pos (.inr rfl)]

/-- Empty segments do not count. -/
theorem normalSegments_filter (rooted : Bool) (segments : List Segment) :
    normalSegments rooted (segments.filter (· ≠ [])) = normalSegments rooted segments := by
  rw [normalSegments, normalSegments, List.foldl_filter]
  congr 2
  funext kept segment
  by_cases h : segment = []
  · simp [h, pushSegment_nil]
  · simp [h]

/-- The normalised path from a root of some slashes along segments. -/
def fromRoot (slashes : Nat) (segments : List Segment) : Text :=
  List.replicate slashes slash ++ unsplit (normalSegments true segments)

theorem leadingSlashes_ne_zero (h : isAbsolute path = true) : leadingSlashes path ≠ 0 := by
  obtain ⟨rest, rfl⟩ := List.head?_eq_some_iff.mp (by simpa [isAbsolute] using h)
  simp only [leadingSlashes, List.takeWhile_cons, decide_true, if_true, List.length_cons]
  split <;> omega

theorem normalize_of_isAbsolute (h : isAbsolute path = true) :
    normalize path = fromRoot (leadingSlashes path) (names path) := by
  have hslashes := leadingSlashes_ne_zero h
  rw [normalize, fromRoot, names, normalSegments_filter]
  simp [hslashes]

theorem normalize_join (hbase : isAbsolute base = true) (h : isAbsolute path = false) :
    normalize (join base path) = fromRoot (leadingSlashes base) (names base ++ names path) := by
  rw [normalize_of_isAbsolute (isAbsolute_join hbase), leadingSlashes_join hbase h, names_join h]

end Normalize

end EditorTabs.Path
