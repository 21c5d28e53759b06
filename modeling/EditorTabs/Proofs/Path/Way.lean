import EditorTabs.Proofs.Path.Rooted

/-!
# The way to a path

An absolute path leads from its root along names once it is normalised, so that normalising it again
leaves it as it is. A canonical path is absolute and normalised, from a root of one slash. It is
given by its names, and its directory has all of them but the last. The way from a directory to a
path goes up from the names that the two do not share and down to the path, so that it leads to the
path again.
-/
namespace EditorTabs.Path

/-- A name that stands for itself on any way. -/
def IsProper (segment : Segment) : Prop :=
  IsName segment ∧ segment ≠ here ∧ segment ≠ up

/-- A path that is absolute, with one slash at its start, and normalised. -/
def IsCanonical (path : Text) : Prop :=
  leadingSlashes path = 1 ∧ normalize path = path

instance (path : Text) : Decidable (IsCanonical path) :=
  inferInstanceAs (Decidable (leadingSlashes path = 1 ∧ normalize path = path))

/-- A path that is absolute and normalised, from a root of one slash or of two. -/
def IsNormal (path : Text) : Prop :=
  isAbsolute path = true ∧ normalize path = path

instance (path : Text) : Decidable (IsNormal path) :=
  inferInstanceAs (Decidable (isAbsolute path = true ∧ normalize path = path))

section Segments

variable {kept segments ups : List Segment} {segment : Segment}

theorem pushSegment_of_isProper (h : IsProper segment) (rooted : Bool) (kept : List Segment) :
    pushSegment rooted kept segment = segment :: kept := by
  rw [pushSegment.eq_def, if_neg (not_or.mpr ⟨h.1.1, h.2.1⟩), if_neg h.2.2]

theorem foldl_pushSegment_of_isProper (h : ∀ segment ∈ segments, IsProper segment)
    (rooted : Bool) (kept : List Segment) :
    segments.foldl (pushSegment rooted) kept = segments.reverse ++ kept := by
  induction segments generalizing kept with
  | nil => rfl
  | cons first rest ih =>
    obtain ⟨hfirst, hrest⟩ := List.forall_mem_cons.mp h
    rw [List.foldl_cons, pushSegment_of_isProper hfirst, ih hrest, List.reverse_cons,
      List.append_assoc, List.singleton_append]

/-- As many steps up as there are segments to take back. -/
theorem foldl_pushSegment_up (h : ∀ segment ∈ ups, segment ≠ up) (rooted : Bool)
    (kept : List Segment) :
    (List.replicate ups.length up).foldl (pushSegment rooted) (ups ++ kept) = kept := by
  induction ups with
  | nil => rfl
  | cons first rest ih =>
    obtain ⟨hfirst, hrest⟩ := List.forall_mem_cons.mp h
    have hpop : pushSegment rooted (first :: rest ++ kept) up = rest ++ kept := by
      rw [pushSegment.eq_def, if_neg (by decide), if_pos rfl]
      exact if_neg hfirst
    rw [List.length_cons, List.replicate_succ, List.foldl_cons, hpop, ih hrest]

theorem normalSegments_of_isProper (h : ∀ segment ∈ segments, IsProper segment) (rooted : Bool) :
    normalSegments rooted segments = segments := by
  rw [normalSegments, foldl_pushSegment_of_isProper h, List.append_nil, List.reverse_reverse]

theorem normalSegments_append_here (rooted : Bool) (before after : List Segment) :
    normalSegments rooted (before ++ here :: after) = normalSegments rooted (before ++ after) := by
  simp only [normalSegments, List.foldl_append, List.foldl_cons, pushSegment_here]

/-- At a root every step up is taken, or there is no way up. -/
theorem isProper_pushSegment (hkept : ∀ segment ∈ kept, IsProper segment) (h : slash ∉ segment) :
    ∀ other ∈ pushSegment true kept segment, IsProper other := by
  rw [pushSegment.eq_def]
  split
  · exact hkept
  · next hne =>
    obtain ⟨hnil, hhere⟩ := not_or.mp hne
    split
    · split
      · simp
      · next last before =>
        obtain ⟨hlast, hbefore⟩ := List.forall_mem_cons.mp hkept
        rw [if_neg hlast.2.2]
        exact hbefore
    · next hup => exact List.forall_mem_cons.mpr ⟨⟨⟨hnil, h⟩, hhere, hup⟩, hkept⟩

theorem isProper_normalSegments (h : ∀ segment ∈ segments, slash ∉ segment) :
    ∀ segment ∈ normalSegments true segments, IsProper segment :=
  forall_mem_normalSegments (fun _ _ => isProper_pushSegment) h

theorem fromRoot_of_isProper (h : ∀ segment ∈ segments, IsProper segment) (slashes : Nat) :
    fromRoot slashes segments = List.replicate slashes slash ++ unsplit segments := by
  rw [fromRoot, normalSegments_of_isProper h]

end Segments

section Canonical

variable {path : Text} {segments : List Segment}

theorem isAbsolute_of_leadingSlashes_ne (h : leadingSlashes path ≠ 0) : isAbsolute path = true := by
  cases habsolute : isAbsolute path with
  | true => rfl
  | false => simp [leadingSlashes, takeWhile_slash_of_isAbsolute_eq_false habsolute] at h

theorem isAbsolute_of_leadingSlashes_eq (h : leadingSlashes path = 1) : isAbsolute path = true :=
  isAbsolute_of_leadingSlashes_ne (by rw [h]; exact Nat.one_ne_zero)

theorem names_replicate_append (slashes : Nat) (path : Text) :
    names (List.replicate slashes slash ++ path) = names path := by
  induction slashes with
  | zero => rfl
  | succ slashes ih => rw [List.replicate_succ, List.cons_append, names_cons_slash, ih]

theorem names_fromRoot {slashes : Nat} (h : ∀ segment ∈ segments, IsProper segment) :
    names (fromRoot slashes segments) = segments := by
  rw [fromRoot_of_isProper h, names_replicate_append,
    names_unsplit fun segment hs => (h segment hs).1]

/-- The names after a root add no slash to it. -/
theorem leadingSlashes_fromRoot {slashes : Nat} (hslashes : slashes ≤ 2)
    (h : ∀ segment ∈ segments, IsProper segment) :
    leadingSlashes (fromRoot slashes segments) = slashes := by
  have hhead := head?_unsplit_ne fun segment hs => (h segment hs).1
  have htake : (unsplit segments).takeWhile (· = slash) = [] := by
    cases hs : unsplit segments with
    | nil => rfl
    | cons c cs =>
      have hc : c ≠ slash := hhead c (by rw [hs]; rfl)
      simp [hc]
  rw [fromRoot_of_isProper h, leadingSlashes, List.takeWhile_append_of_pos (by simp), htake]
  simp [hslashes]

theorem normalize_fromRoot {slashes : Nat} (hne : slashes ≠ 0) (hslashes : slashes ≤ 2)
    (h : ∀ segment ∈ segments, IsProper segment) :
    normalize (fromRoot slashes segments) = fromRoot slashes segments := by
  have hleading : leadingSlashes (fromRoot slashes segments) = slashes :=
    leadingSlashes_fromRoot hslashes h
  have habsolute : isAbsolute (fromRoot slashes segments) = true :=
    isAbsolute_of_leadingSlashes_ne (by rwa [hleading])
  rw [normalize_of_isAbsolute habsolute, hleading, names_fromRoot h]

theorem isCanonical_fromRoot (h : ∀ segment ∈ segments, IsProper segment) :
    IsCanonical (fromRoot 1 segments) :=
  ⟨leadingSlashes_fromRoot (by omega) h, normalize_fromRoot (by omega) (by omega) h⟩

/-- An absolute path leads from its root along proper names once it is normalised. -/
theorem normalize_eq_fromRoot (h : isAbsolute path = true) :
    ∃ segments, normalize path = fromRoot (leadingSlashes path) segments ∧
      ∀ segment ∈ segments, IsProper segment := by
  have hproper : ∀ segment ∈ normalSegments true (names path), IsProper segment :=
    isProper_normalSegments fun segment hs => (isName_of_mem_names hs).2
  refine ⟨normalSegments true (names path), ?_, hproper⟩
  rw [normalize_of_isAbsolute h, fromRoot, fromRoot, normalSegments_of_isProper hproper]

theorem isNormal_normalize (h : isAbsolute path = true) : IsNormal (normalize path) := by
  obtain ⟨segments, heq, hproper⟩ := normalize_eq_fromRoot h
  have hslashes := leadingSlashes_le_two path
  have hne := leadingSlashes_ne_zero h
  rw [heq]
  refine ⟨isAbsolute_of_leadingSlashes_ne ?_, normalize_fromRoot hne hslashes hproper⟩
  rwa [leadingSlashes_fromRoot hslashes hproper]

/-- A canonical path is given by its names. -/
theorem isCanonical_iff : IsCanonical path ↔
    path = fromRoot 1 (names path) ∧ ∀ segment ∈ names path, IsProper segment := by
  constructor
  · rintro ⟨hslashes, hnormal⟩
    obtain ⟨segments, hpath, hproper⟩ :=
      normalize_eq_fromRoot (isAbsolute_of_leadingSlashes_eq hslashes)
    rw [hnormal, hslashes] at hpath
    have hnames : names path = segments := by rw [hpath, names_fromRoot hproper]
    rw [hnames]
    exact ⟨hpath, hproper⟩
  · rintro ⟨hpath, hnames⟩
    rw [hpath]
    exact isCanonical_fromRoot hnames

end Canonical

section Parent

variable {directory path name : Text} {segments : List Segment}

theorem unsplit_append_singleton (h : segments ≠ []) (segment : Segment) :
    unsplit (segments ++ [segment]) = unsplit segments ++ slash :: segment := by
  induction segments with
  | nil => exact absurd rfl h
  | cons first rest ih =>
    cases rest with
    | nil => rfl
    | cons second rest =>
      have hrest : unsplit (second :: rest ++ [segment]) =
          unsplit (second :: rest) ++ slash :: segment := ih (by simp)
      simp only [List.cons_append, unsplit] at hrest ⊢
      rw [hrest, List.append_assoc, List.cons_append]

/-- Names end in something else than a slash. -/
theorem exists_unsplit_eq_append (hne : segments ≠ [])
    (h : ∀ segment ∈ segments, IsName segment) :
    ∃ start c, unsplit segments = start ++ [c] ∧ c ≠ slash := by
  have hname {name : Segment} (h : IsName name) : ∃ start c, name = start ++ [c] ∧ c ≠ slash := by
    obtain hnil | ⟨start, c, rfl⟩ := List.eq_nil_or_concat' name
    · exact absurd hnil h.1
    · exact ⟨start, c, rfl, fun hc => h.2 (by simp [hc])⟩
  obtain hnil | ⟨before, last, rfl⟩ := List.eq_nil_or_concat' segments
  · exact absurd hnil hne
  obtain ⟨start, c, rfl, hc⟩ := hname (h last (by simp))
  by_cases hbefore : before = []
  · exact ⟨start, c, by simp [hbefore, unsplit], hc⟩
  · exact ⟨unsplit before ++ slash :: start, c,
      by simp [unsplit_append_singleton hbefore], hc⟩

theorem parent_append_slash (hname : slash ∉ name) :
    parent (directory ++ slash :: name) =
      if directory.all (· = slash) then directory ++ [slash]
      else (directory.reverse.dropWhile (· = slash)).reverse := by
  have hpass : ∀ c ∈ name.reverse, decide (c ≠ slash) = true := by
    intro c hc
    simpa using fun heq : c = slash => hname (heq ▸ List.mem_reverse.mp hc)
  rw [parent, List.reverse_append, List.reverse_cons, List.append_assoc,
    List.dropWhile_append_of_pos hpass]
  simp

theorem parent_slash_cons (hname : slash ∉ name) : parent (slash :: name) = [slash] := by
  rw [← List.nil_append (slash :: name), parent_append_slash hname]
  rfl

theorem parent_of_getLast_ne (start : Text) {c : CodePoint} (hc : c ≠ slash)
    (hname : slash ∉ name) : parent (start ++ [c] ++ slash :: name) = start ++ [c] := by
  rw [parent_append_slash hname]
  simp [hc]

/-- The directory of a canonical path has its names but the last. -/
theorem parent_fromRoot (h : ∀ segment ∈ segments, IsProper segment) :
    parent (fromRoot 1 segments) = fromRoot 1 segments.dropLast := by
  obtain rfl | ⟨before, last, rfl⟩ := List.eq_nil_or_concat' segments
  · rfl
  have hlast : slash ∉ last := (h last (by simp)).1.2
  have hbefore : ∀ segment ∈ before, IsProper segment := fun segment hs => h segment (by simp [hs])
  rw [List.dropLast_concat, fromRoot_of_isProper h, fromRoot_of_isProper hbefore]
  by_cases hnil : before = []
  · rw [hnil]
    exact parent_slash_cons hlast
  · obtain ⟨start, c, hstart, hc⟩ :=
      exists_unsplit_eq_append hnil fun segment hs => (hbefore segment hs).1
    rw [unsplit_append_singleton hnil, hstart]
    exact parent_of_getLast_ne (slash :: start) hc hlast

theorem isCanonical_parent (h : IsCanonical path) :
    IsCanonical (parent path) ∧ names (parent path) = (names path).dropLast := by
  obtain ⟨hpath, hnames⟩ := isCanonical_iff.mp h
  have hdirectory : ∀ segment ∈ (names path).dropLast, IsProper segment :=
    fun segment hs => hnames segment (List.dropLast_subset _ hs)
  have hparent : parent path = fromRoot 1 (names path).dropLast := by
    conv_lhs => rw [hpath]
    exact parent_fromRoot hnames
  rw [hparent]
  exact ⟨isCanonical_fromRoot hdirectory, names_fromRoot hdirectory⟩

end Parent

section Way

variable {path start target importer file : Text}

theorem exists_common {α : Type} [DecidableEq α] (as bs : List α) :
    ∃ common, as = common ++ (dropCommon as bs).1 ∧ bs = common ++ (dropCommon as bs).2 := by
  fun_induction dropCommon as bs with
  | case1 as b bs ih =>
    obtain ⟨common, has, hbs⟩ := ih
    exact ⟨b :: common, congrArg (b :: ·) has, congrArg (b :: ·) hbs⟩
  | case2 => exact ⟨[], rfl, rfl⟩
  | case3 => exact ⟨[], rfl, rfl⟩

/-- Up once for each segment to leave, and down the others. -/
theorem normalSegments_upDown {common ups downs : List Segment}
    (hcommon : ∀ segment ∈ common, IsProper segment) (hups : ∀ segment ∈ ups, IsProper segment)
    (hdowns : ∀ segment ∈ downs, IsProper segment) :
    normalSegments true (common ++ ups ++ (List.replicate ups.length up ++ downs)) =
      common ++ downs := by
  have hne : ∀ segment ∈ ups.reverse, segment ≠ up :=
    fun segment hs => (hups segment (List.mem_reverse.mp hs)).2.2
  have hback := foldl_pushSegment_up hne true (common.reverse ++ [])
  rw [List.length_reverse] at hback
  rw [normalSegments, List.foldl_append, List.foldl_append, List.foldl_append,
    foldl_pushSegment_of_isProper hcommon, foldl_pushSegment_of_isProper hups, hback,
    foldl_pushSegment_of_isProper hdowns]
  simp

/-- Going the way from a start takes back what the target does not share and adds the rest of it. -/
theorem normalSegments_append_wayBetween (hstart : ∀ segment ∈ names start, IsProper segment)
    (htarget : ∀ segment ∈ names target, IsProper segment) :
    normalSegments true (names start ++ names (wayBetween start target)) = names target := by
  obtain ⟨common, hups, hdowns⟩ := exists_common (names start) (names target)
  rw [wayBetween]
  generalize dropCommon (names start) (names target) = parts at hups hdowns ⊢
  obtain ⟨ups, downs⟩ := parts
  dsimp only at hups hdowns ⊢
  rw [hups] at hstart
  rw [hdowns] at htarget
  obtain ⟨hcommon, hproperUps⟩ := List.forall_mem_append.mp hstart
  have hproperDowns := (List.forall_mem_append.mp htarget).2
  have hgo := normalSegments_upDown hcommon hproperUps hproperDowns
  rw [hups, hdowns]
  split
  · next hnone =>
    rw [hnone] at hgo
    rw [names_of_isName isName_here, normalSegments_append_here, hgo]
  · rw [names_unsplit, hgo]
    intro segment hs
    rcases List.mem_append.mp hs with hs | hs
    · exact List.eq_of_mem_replicate hs ▸ isName_up
    · exact (hproperDowns segment hs).1

theorem absolute_of_isCanonical (h : IsCanonical path) (cwd : Text) : absolute cwd path = path := by
  rw [absolute, join_of_isAbsolute (isAbsolute_of_leadingSlashes_eq h.1), h.2]

/-- The way from the directory of a file to another one, said to start in that directory, leads to
the other one. -/
theorem normalize_join_relative (himporter : IsCanonical importer) (hfile : IsCanonical file)
    (cwd : Text) :
    normalize (join (parent importer) (here ++ slash :: relative cwd file (parent importer))) =
      file := by
  obtain ⟨hparent, -⟩ := isCanonical_parent himporter
  obtain ⟨hpath, hnames⟩ := isCanonical_iff.mp hfile
  have hstart := (isCanonical_iff.mp hparent).2
  rw [relative, absolute_of_isCanonical hparent, absolute_of_isCanonical hfile,
    normalize_join (isAbsolute_of_leadingSlashes_eq hparent.1) rfl, hparent.1, names_append_slash,
    names_of_isName isName_here, fromRoot, List.singleton_append, normalSegments_append_here,
    normalSegments_append_wayBetween hstart hnames]
  conv_rhs => rw [hpath]
  rw [fromRoot_of_isProper hnames]

end Way

end EditorTabs.Path
