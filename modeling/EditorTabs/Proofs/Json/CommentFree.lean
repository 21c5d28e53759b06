import EditorTabs.Proofs.Json.Comments

/-!
# Texts without comments

No comment starts in what is left of a text without its comments: where a comment is taken out, a
slash is never left before it. So to take out comments a second time changes nothing, and the texts
that stay as they are are those in which no comment starts outside of the quoted texts.
-/
namespace EditorTabs.Json

/-- The region after a code point that stands in no comment and starts none. -/
def Region.next (region : Region) (c : CodePoint) : Region :=
  match region with
  | .code => if c = quotationMark then .quoted else .code
  | .quoted =>
    if c = backslash then .afterBackslash else if c = quotationMark then .code else .quoted
  | .afterBackslash => .quoted
  | .lineComment => .lineComment
  | .blockComment => .blockComment

def Region.resumed : Region → Region
  | .lineComment | .blockComment => .code
  | region => region

def StartsComment (c d : CodePoint) : Prop :=
  c = slash ∧ (d = slash ∨ d = star)

/-- A text from a region on in which no comment starts outside of the quoted texts. -/
def CommentFreeFrom (region : Region) (s : Text) : Prop :=
  ∀ before c d rest, s = before ++ c :: d :: rest → before.foldl Region.next region = .code →
    ¬ StartsComment c d

def CommentFree (s : Text) : Prop :=
  CommentFreeFrom .code s

variable {s rest : Text} {c : CodePoint} {region : Region}

theorem resumed_next (h : region.resumed = region) (c : CodePoint) :
    (region.next c).resumed = region.next c := by
  cases region with
  | code => simp only [Region.next]; split <;> rfl
  | quoted =>
    simp only [Region.next]
    split
    · rfl
    · split <;> rfl
  | afterBackslash => rfl
  | lineComment => cases h
  | blockComment => cases h

theorem commentFreeFrom_nil (region : Region) : CommentFreeFrom region [] := by
  intro before c d rest h
  simp at h

theorem commentFreeFrom_cons_iff :
    CommentFreeFrom region (c :: rest) ↔
      (region = .code → ∀ d ∈ rest.head?, ¬ StartsComment c d) ∧
        CommentFreeFrom (region.next c) rest := by
  constructor
  · refine fun h => ⟨fun hregion d hd => ?_, fun before a b after heq hafter => ?_⟩
    · obtain ⟨after, rfl⟩ := List.head?_eq_some_iff.mp hd
      exact h [] c d after rfl hregion
    · exact h (c :: before) a b after (by rw [heq, List.cons_append]) hafter
  · rintro ⟨hfirst, hrest⟩ before a b after heq hafter
    cases before with
    | nil =>
      obtain ⟨rfl, rfl⟩ := List.cons.inj heq
      exact hfirst hafter b rfl
    | cons e before =>
      obtain ⟨rfl, rfl⟩ := List.cons.inj heq
      exact hrest before a b after rfl hafter

/-- A code point that starts a comment with what comes after it is not kept, so a slash that is kept
has the same code point after it as before. -/
theorem not_startsComment_of_kept {d : CodePoint}
    (hline : ∀ after, c = slash → rest = slash :: after → False)
    (hblock : ∀ after, c = slash → rest = star :: after → False)
    (hd : d ∈ (stripFrom (if c = '"' then .quoted else .code) rest).head?) :
    ¬ StartsComment c d := by
  rintro ⟨rfl, hmark⟩
  cases rest with
  | nil => simp [stripFrom] at hd
  | cons e after =>
    have hne : e ≠ slash := fun he => hline after rfl (by rw [he])
    rw [if_neg (by decide), stripFrom_code_cons hne, List.head?_cons, Option.mem_some_iff] at hd
    subst hd
    rcases hmark with rfl | rfl
    · exact hne rfl
    · exact hblock after rfl rfl

/-- No comment starts in what is left, and the quoted texts of it are those of the whole. -/
theorem commentFreeFrom_stripFrom (region : Region) (s : Text) :
    CommentFreeFrom region.resumed (stripFrom region s) := by
  fun_induction stripFrom region s with
  | case1 region => exact commentFreeFrom_nil _
  | case2 rest ih => exact ih
  | case3 rest ih => exact ih
  | case4 c rest hline hblock ih =>
    refine commentFreeFrom_cons_iff.mpr ⟨fun _ d hd => ?_, ?_⟩
    · exact not_startsComment_of_kept hline hblock hd
    · change CommentFreeFrom (Region.next .code c) _
      rw [← resumed_next rfl]
      exact ih
  | case5 c rest ih =>
    refine commentFreeFrom_cons_iff.mpr ⟨nofun, ?_⟩
    change CommentFreeFrom (Region.next .quoted c) _
    rw [← resumed_next rfl]
    exact ih
  | case6 c rest ih => exact commentFreeFrom_cons_iff.mpr ⟨nofun, ih⟩
  | case7 rest ih =>
    refine commentFreeFrom_cons_iff.mpr ⟨fun _ d _ hstarts => ?_, ih⟩
    exact absurd hstarts.1 (by decide)
  | case8 c rest h ih => exact ih
  | case9 rest ih => exact ih
  | case10 c rest h ih => exact ih

/-- A text in which no comment starts keeps everything. -/
theorem stripFrom_of_commentFreeFrom (hregion : region.resumed = region)
    (h : CommentFreeFrom region s) : stripFrom region s = s := by
  induction s generalizing region with
  | nil => rw [stripFrom]
  | cons c rest ih =>
    obtain ⟨hfirst, hrest⟩ := commentFreeFrom_cons_iff.mp h
    have hkept : stripFrom region (c :: rest) = c :: stripFrom (region.next c) rest := by
      cases region with
      | code =>
        rw [stripFrom]
        · rfl
        · rintro after rfl rfl
          exact hfirst rfl _ rfl ⟨rfl, .inl rfl⟩
        · rintro after rfl rfl
          exact hfirst rfl _ rfl ⟨rfl, .inr rfl⟩
      | quoted => rw [stripFrom, Region.next]
      | afterBackslash => rw [stripFrom, Region.next]
      | lineComment => cases hregion
      | blockComment => cases hregion
    rw [hkept, ih (resumed_next hregion c) hrest]

theorem commentFree_stripComments (s : Text) : CommentFree (stripComments s) :=
  commentFreeFrom_stripFrom .code s

/-- The texts that stay as they are when comments are taken out are those in which none starts. -/
theorem stripComments_eq_self_iff : stripComments s = s ↔ CommentFree s := by
  constructor
  · intro h
    exact h ▸ commentFree_stripComments s
  · exact stripFrom_of_commentFreeFrom rfl

/-- To take out comments brings no two code points together that start another one, so that to take
them out again changes nothing. -/
theorem stripComments_stripComments (s : Text) :
    CommentFree (stripComments s) ∧ (stripComments s = s ↔ CommentFree s) ∧
      stripComments (stripComments s) = stripComments s := by
  have hfree := commentFree_stripComments s
  exact ⟨hfree, stripComments_eq_self_iff, stripComments_eq_self_iff.mpr hfree⟩

example : stripComments "/**//**/ \"/*\" / /* // */*/ //*" = Text.ofString " \"/*\" / */ " := by
  rfl

end EditorTabs.Json
