import EditorTabs.Reference.Basic
import Mathlib.Data.List.TakeWhile

/-!
# The languages of references

A pattern stands for a language: the texts that fall into the parts of the pattern in some way. The
search decides membership by the text before the first quote, the text between the first two quotes
and what follows. Here the two are shown to agree: there is a hit at the start of a text exactly
when the text starts with a member of the language, and then it starts with only one.
-/
namespace EditorTabs.Reference

open Text

abbrev openBracket : CodePoint := '('

abbrev closeBracket : CodePoint := ')'

def IsQuoted (name s : Text) : Prop :=
  ∃ first last, isQuote first = true ∧ isQuote last = true ∧ name ≠ [] ∧
    (∀ c ∈ name, isQuote c = false) ∧ s = first :: (name ++ [last])

/-- `import`, a clause between blanks, `from`, blanks, and a quoted name. -/
def IsImport (name s : Text) : Prop :=
  ∃ before clause between after quoted : Text,
    before ≠ [] ∧ isAllBlank before = true ∧ (∀ c ∈ clause, isClause c = true) ∧
    between ≠ [] ∧ isAllBlank between = true ∧ after ≠ [] ∧ isAllBlank after = true ∧
    IsQuoted name quoted ∧
    s = "import" ++ (before ++ (clause ++ (between ++ ("from" ++ (after ++ quoted)))))

/-- A word, an opening bracket, a quoted name and a closing bracket, with blanks between them. -/
def IsCall (word name s : Text) : Prop :=
  ∃ before inside quoted after : Text,
    isAllBlank before = true ∧ isAllBlank inside = true ∧ IsQuoted name quoted ∧
    isAllBlank after = true ∧
    s = word ++ (before ++ openBracket :: (inside ++ (quoted ++ (after ++ [closeBracket]))))

/-- The texts of a pattern's language, each with the name it refers to. -/
def Pattern.Matches : Pattern → Text → Text → Prop
  | .importFrom => IsImport
  | .require => IsCall "require"
  | .dynamicImport => IsCall "import"

/-- A name stands between the first two quote marks of a text. -/
def BetweenFirstQuotes (name cs : Text) : Prop :=
  ∃ head first last rest, (∀ c ∈ head, isQuote c = false) ∧ isQuote first = true ∧
    (∀ c ∈ name, isQuote c = false) ∧ isQuote last = true ∧
    cs = head ++ first :: (name ++ last :: rest)

variable {pattern : Pattern} {cs s name head after rest : Text} {hit : Hit}

theorem isClause_of_isBlank {c : CodePoint} (h : isBlank c = true) : isClause c = true := by
  simp [isClause, h]

theorem isQuote_of_isClause {c : CodePoint} (h : isClause c = true) : isQuote c = false := by
  rw [isQuote, Bool.or_eq_false_iff, decide_eq_false_iff_not, decide_eq_false_iff_not]
  constructor <;> rintro rfl <;> exact absurd h (by decide +kernel)

theorem isQuote_of_isBlank {c : CodePoint} (h : isBlank c = true) : isQuote c = false :=
  isQuote_of_isClause (isClause_of_isBlank h)

theorem isAllBlank_iff : isAllBlank s = true ↔ ∀ c ∈ s, isBlank c = true :=
  List.all_eq_true

theorem dropWhile_isBlank_append {blanks : Text} {c : CodePoint} (h : isAllBlank blanks = true)
    (hc : isBlank c = false) : (blanks ++ c :: rest).dropWhile isBlank = c :: rest := by
  rw [List.dropWhile_append_of_pos (isAllBlank_iff.mp h), List.dropWhile_cons_of_neg (by simp [hc])]

theorem exists_blanks_append (cs : Text) :
    ∃ blanks, isAllBlank blanks = true ∧ cs = blanks ++ cs.dropWhile isBlank :=
  ⟨cs.takeWhile isBlank, isAllBlank_iff.mpr fun _ => List.mem_takeWhile_imp,
    List.takeWhile_append_dropWhile.symm⟩

theorem afterFirst?_eq_some_iff : afterFirst? cs = some rest ↔ ∃ c, cs = c :: rest := by
  cases cs <;> simp [afterFirst?]

theorem isClauseBetweenBlanks_iff {cs : Text} :
    isClauseBetweenBlanks cs = true ↔ ∃ before clause between : Text,
      before ≠ [] ∧ isAllBlank before = true ∧ (∀ c ∈ clause, isClause c = true) ∧
      between ≠ [] ∧ isAllBlank between = true ∧ cs = before ++ (clause ++ between) := by
  constructor
  · intro h
    simp only [isClauseBetweenBlanks, Bool.and_eq_true, decide_eq_true_eq, List.all_eq_true] at h
    obtain ⟨⟨⟨hlength, hclause⟩, hfirst⟩, hlast⟩ := h
    -- the first and the last code point are the shortest blanks around the clause
    obtain ⟨first, tail, rfl⟩ := List.exists_cons_of_length_pos (l := cs) (by omega)
    have htail : tail ≠ [] := by
      rintro rfl
      simp at hlength
    obtain ⟨clause, last, rfl⟩ : ∃ clause last, tail = clause ++ [last] :=
      ⟨_, _, (List.dropLast_concat_getLast htail).symm⟩
    refine ⟨[first], clause, [last], by simp, ?_, ?_, by simp, ?_, by simp⟩
    · simpa [isAllBlank] using hfirst
    · exact fun c hc => hclause c (by simp [hc])
    · rw [← List.cons_append, List.getLast?_append] at hlast
      simpa [isAllBlank] using hlast
  · rintro ⟨before, clause, between, hbefore, hb, hclause, hbetween, hb', rfl⟩
    have hall : ∀ c ∈ before ++ (clause ++ between), isClause c = true := by
      intro c hc
      rcases List.mem_append.mp hc with hc | hc
      · exact isClause_of_isBlank (isAllBlank_iff.mp hb c hc)
      · rcases List.mem_append.mp hc with hc | hc
        · exact hclause c hc
        · exact isClause_of_isBlank (isAllBlank_iff.mp hb' c hc)
    have hlength : 2 ≤ (before ++ (clause ++ between)).length := by
      have := List.length_pos_iff.mpr hbefore
      have := List.length_pos_iff.mpr hbetween
      simp only [List.length_append]
      omega
    have hfirst : (before ++ (clause ++ between)).head?.any isBlank = true := by
      rw [List.head?_append, List.head?_eq_some_head hbefore]
      exact isAllBlank_iff.mp hb _ (List.head_mem hbefore)
    have hlast : (before ++ (clause ++ between)).getLast?.any isBlank = true := by
      rw [← List.append_assoc, List.getLast?_append, List.getLast?_eq_some_getLast hbetween]
      exact isAllBlank_iff.mp hb' _ (List.getLast_mem hbetween)
    simp only [isClauseBetweenBlanks, Bool.and_eq_true, decide_eq_true_eq, List.all_eq_true]
    exact ⟨⟨⟨hlength, hall⟩, hfirst⟩, hlast⟩

theorem isFromClause_iff :
    isFromClause head = true ↔ ∃ before clause between after : Text,
      before ≠ [] ∧ isAllBlank before = true ∧ (∀ c ∈ clause, isClause c = true) ∧
      between ≠ [] ∧ isAllBlank between = true ∧ after ≠ [] ∧ isAllBlank after = true ∧
      head = before ++ (clause ++ (between ++ ("from" ++ after))) := by
  constructor
  · intro h
    obtain ⟨blanks, hblanks, hreverse⟩ := exists_blanks_append head.reverse
    simp only [isFromClause] at h
    split at h
    · next clause hword =>
      rw [afterWord?_eq_some_iff] at hword
      simp only [Bool.and_eq_true, decide_eq_true_eq] at h
      obtain ⟨hlength, hclause⟩ := h
      obtain ⟨before, middle, between, hbefore, hb, hm, hbetween, hb', hsplit⟩ :=
        isClauseBetweenBlanks_iff.mp hclause
      refine ⟨before, middle, between, blanks.reverse, hbefore, hb, hm, hbetween, hb', ?_, ?_, ?_⟩
      · rintro hnil
        rw [List.reverse_eq_nil_iff.mp hnil, List.nil_append] at hreverse
        exact absurd hlength (by rw [← hreverse]; omega)
      · simpa [isAllBlank] using hblanks
      · have hhead := congrArg List.reverse hreverse
        rw [hword, List.reverse_reverse] at hhead
        simpa [hsplit] using hhead
    · cases h
  · rintro ⟨before, clause, between, after, hbefore, hb, hm, hbetween, hb', hafter, ha, rfl⟩
    have hreverse : (before ++ (clause ++ (between ++ (Text.ofString "from" ++ after)))).reverse =
        after.reverse ++ ((ofString "from").reverse ++ (before ++ (clause ++ between)).reverse) := by
      simp
    have hword : (after.reverse ++ ((ofString "from").reverse ++
        (before ++ (clause ++ between)).reverse)).dropWhile isBlank =
          (ofString "from").reverse ++ (before ++ (clause ++ between)).reverse :=
      dropWhile_isBlank_append (by simpa [isAllBlank] using ha) (by decide)
    have hclause : isClauseBetweenBlanks (before ++ (clause ++ between)) = true :=
      isClauseBetweenBlanks_iff.mpr ⟨before, clause, between, hbefore, hb, hm, hbetween, hb', rfl⟩
    have hlength : 0 < after.length := List.length_pos_iff.mpr hafter
    simp only [isFromClause, hreverse, hword, afterWord?_eq_some_iff.mpr rfl,
      List.reverse_reverse, hclause, Bool.and_true, decide_eq_true_eq]
    simp only [List.length_append, List.length_reverse]
    omega

theorem isCallOpening_iff :
    isCallOpening head = true ↔ ∃ before inside : Text,
      isAllBlank before = true ∧ isAllBlank inside = true ∧
        head = before ++ openBracket :: inside := by
  constructor
  · intro h
    obtain ⟨before, hbefore, hhead⟩ := exists_blanks_append head
    rw [isCallOpening] at h
    split at h
    · next inside hdrop =>
      rw [hdrop] at hhead
      exact ⟨before, inside, hbefore, h, hhead⟩
    · cases h
  · rintro ⟨before, inside, hbefore, hinside, rfl⟩
    rw [isCallOpening, dropWhile_isBlank_append hbefore (by decide)]
    exact hinside

theorem bracket_iff :
    afterWord? [')'] (after.dropWhile isBlank) = some rest ↔
      ∃ blanks, isAllBlank blanks = true ∧ after = blanks ++ closeBracket :: rest := by
  rw [afterWord?_eq_some_iff]
  constructor
  · intro h
    obtain ⟨blanks, hblanks, hafter⟩ := exists_blanks_append after
    rw [h] at hafter
    exact ⟨blanks, hblanks, hafter⟩
  · rintro ⟨blanks, hblanks, rfl⟩
    exact dropWhile_isBlank_append hblanks (by decide)

/-- What opens a reference has no quote in it. -/
theorem Pattern.quoteFree_of_opens (h : pattern.opens head = true) :
    ∀ c ∈ head, isQuote c = false := by
  have hcall : isCallOpening head = true → ∀ c ∈ head, isQuote c = false := by
    intro hopen c hc
    obtain ⟨before, inside, hb, hi, rfl⟩ := isCallOpening_iff.mp hopen
    simp only [List.mem_append, List.mem_cons] at hc
    rcases hc with hc | rfl | hc
    · exact isQuote_of_isBlank (isAllBlank_iff.mp hb c hc)
    · decide
    · exact isQuote_of_isBlank (isAllBlank_iff.mp hi c hc)
  cases pattern with
  | importFrom =>
    obtain ⟨before, clause, between, after, -, hb, hm, -, hb', -, ha, rfl⟩ := isFromClause_iff.mp h
    intro c hc
    simp only [List.mem_append] at hc
    rcases hc with hc | hc | hc | hc | hc
    · exact isQuote_of_isBlank (isAllBlank_iff.mp hb c hc)
    · exact isQuote_of_isClause (hm c hc)
    · exact isQuote_of_isBlank (isAllBlank_iff.mp hb' c hc)
    · revert c
      decide
    · exact isQuote_of_isBlank (isAllBlank_iff.mp ha c hc)
  | require => exact hcall h
  | dynamicImport => exact hcall h

theorem Pattern.quoteFree_keyword (pattern : Pattern) :
    ∀ c ∈ pattern.keyword, isQuote c = false := by
  cases pattern <;> decide

/-- The text before the first quote and the text after it. -/
theorem splitAtQuote_iff :
    cs.takeWhile (fun c => !isQuote c) = head ∧
        afterFirst? (cs.dropWhile fun c => !isQuote c) = some rest ↔
      (∀ c ∈ head, isQuote c = false) ∧
        ∃ quote, isQuote quote = true ∧ cs = head ++ quote :: rest := by
  constructor
  · rintro ⟨rfl, h⟩
    obtain ⟨quote, hdrop⟩ := afterFirst?_eq_some_iff.mp h
    refine ⟨fun c hc => by simpa using List.mem_takeWhile_imp hc, quote, ?_, ?_⟩
    · have := List.head_dropWhile_not (fun c => !isQuote c) (l := cs) (by simp [hdrop])
      simpa [hdrop] using this
    · rw [← hdrop, List.takeWhile_append_dropWhile]
  · rintro ⟨hhead, quote, hquote, rfl⟩
    have hbefore : ∀ c ∈ head, (!isQuote c) = true := by simpa using hhead
    rw [List.takeWhile_append_of_pos hbefore, List.dropWhile_append_of_pos hbefore,
      List.takeWhile_cons_of_neg (by simp [hquote]), List.dropWhile_cons_of_neg (by simp [hquote])]
    exact ⟨List.append_nil head, rfl⟩

/-- A hit by its parts: what opens it, the two quotes with the name between them, and what is left
after it. -/
theorem Pattern.hit?_eq_some_iff :
    pattern.hit? cs = some hit ↔ ∃ head first last after,
      pattern.opens head = true ∧ isQuote first = true ∧ isQuote last = true ∧
      hit.reference ≠ [] ∧ (∀ c ∈ hit.reference, isQuote c = false) ∧
      pattern.rest? after = some hit.rest ∧
      cs = pattern.keyword ++ (head ++ first :: (hit.reference ++ last :: after)) := by
  simp only [hit?, Option.bind_eq_bind, Option.bind_eq_some_iff, afterWord?_eq_some_iff]
  constructor
  · rintro ⟨text, rfl, quoted, hquoted, after, hafter, h⟩
    split at h
    · next hopens =>
      obtain ⟨rest, hrest, h⟩ := Option.bind_eq_some_iff.mp h
      obtain rfl : Hit.mk _ rest = hit := Option.some.inj h
      simp only [Bool.and_eq_true, decide_eq_true_eq] at hopens
      obtain ⟨-, first, hfirst, htext⟩ := splitAtQuote_iff.mp ⟨rfl, hquoted⟩
      obtain ⟨hname, last, hlast, hsplit⟩ := splitAtQuote_iff.mp ⟨rfl, hafter⟩
      refine ⟨_, first, last, after, hopens.1, hfirst, hlast, hopens.2, hname, hrest, ?_⟩
      rw [← hsplit, ← htext]
    · cases h
  · rintro ⟨head, first, last, after, hopens, hfirst, hlast, hne, hname, hrest, rfl⟩
    obtain ⟨hhead, hquoted⟩ := splitAtQuote_iff.mpr ⟨pattern.quoteFree_of_opens hopens, first,
      hfirst, rfl⟩
    obtain ⟨hreference, hafter⟩ := splitAtQuote_iff.mpr ⟨hname, last, hlast, rfl⟩
    refine ⟨_, rfl, _, hquoted, after, hafter, ?_⟩
    rw [if_pos (by simp [hhead, hopens, hreference, hne])]
    simp [hrest, hreference]

/-- There is a hit exactly at the texts that start with a member of the language. -/
theorem Pattern.hit?_iff_matches :
    pattern.hit? cs = some hit ↔ ∃ s, pattern.Matches hit.reference s ∧ cs = s ++ hit.rest := by
  have hcall : ∀ {word : Text}, (∃ head first last after,
      isCallOpening head = true ∧ isQuote first = true ∧ isQuote last = true ∧
      hit.reference ≠ [] ∧ (∀ c ∈ hit.reference, isQuote c = false) ∧
      afterWord? [')'] (after.dropWhile isBlank) = some hit.rest ∧
      cs = word ++ (head ++ first :: (hit.reference ++ last :: after))) ↔
        ∃ s, IsCall word hit.reference s ∧ cs = s ++ hit.rest := by
    intro word
    simp only [isCallOpening_iff, bracket_iff]
    constructor
    · rintro ⟨_, first, last, _, ⟨before, inside, hb, hi, rfl⟩, hfirst, hlast, hne, hname,
        ⟨blanks, hblanks, rfl⟩, rfl⟩
      exact ⟨_, ⟨before, inside, _, blanks, hb, hi, ⟨first, last, hfirst, hlast, hne, hname, rfl⟩,
        hblanks, rfl⟩, by simp⟩
    · rintro ⟨_, ⟨before, inside, _, blanks, hb, hi, ⟨first, last, hfirst, hlast, hne, hname, rfl⟩,
        hblanks, rfl⟩, rfl⟩
      exact ⟨_, first, last, _, ⟨before, inside, hb, hi, rfl⟩, hfirst, hlast, hne, hname,
        ⟨blanks, hblanks, rfl⟩, by simp⟩
  rw [hit?_eq_some_iff]
  cases pattern with
  | importFrom =>
    simp only [opens, rest?, isFromClause_iff, Option.some.injEq]
    constructor
    · rintro ⟨_, first, last, _, ⟨before, clause, between, after, hbefore, hb, hm, hbetween, hb',
        hafter, ha, rfl⟩, hfirst, hlast, hne, hname, rfl, rfl⟩
      exact ⟨_, ⟨before, clause, between, after, _, hbefore, hb, hm, hbetween, hb', hafter, ha,
        ⟨first, last, hfirst, hlast, hne, hname, rfl⟩, rfl⟩, by simp [keyword]⟩
    · rintro ⟨_, ⟨before, clause, between, after, _, hbefore, hb, hm, hbetween, hb', hafter, ha,
        ⟨first, last, hfirst, hlast, hne, hname, rfl⟩, rfl⟩, rfl⟩
      exact ⟨_, first, last, _, ⟨before, clause, between, after, hbefore, hb, hm, hbetween, hb',
        hafter, ha, rfl⟩, hfirst, hlast, hne, hname, rfl, by simp [keyword]⟩
  | require => exact hcall
  | dynamicImport => exact hcall

theorem Pattern.hit?_append (h : pattern.Matches name s) (rest : Text) :
    pattern.hit? (s ++ rest) = some ⟨name, rest⟩ :=
  hit?_iff_matches.mpr ⟨s, h, rfl⟩

/-- A text starts with no more than one member of a language. -/
theorem Pattern.Matches.unique {s' name' : Text} (h : pattern.Matches name s) (hs : s <+: cs)
    (h' : pattern.Matches name' s') (hs' : s' <+: cs) : s = s' ∧ name = name' := by
  obtain ⟨rest, rfl⟩ := hs
  obtain ⟨rest', hsame⟩ := hs'
  have hhit := hit?_append h' rest'
  rw [hsame, hit?_append h rest, Option.some.injEq, Hit.mk.injEq] at hhit
  obtain ⟨rfl, rfl⟩ := hhit
  exact ⟨(List.append_cancel_right hsame).symm, rfl⟩

theorem Pattern.Matches.betweenFirstQuotes (h : pattern.Matches name s) (hs : s <+: cs) :
    name ≠ [] ∧ BetweenFirstQuotes name cs := by
  obtain ⟨rest, rfl⟩ := hs
  obtain ⟨head, first, last, after, hopens, hfirst, hlast, hne, hname, -, hcs⟩ :=
    hit?_eq_some_iff.mp (hit?_append h rest)
  refine ⟨hne, pattern.keyword ++ head, first, last, after, ?_, hfirst, hname, hlast, by simp [hcs]⟩
  intro c hc
  rcases List.mem_append.mp hc with hc | hc
  · exact pattern.quoteFree_keyword c hc
  · exact pattern.quoteFree_of_opens hopens c hc

theorem Pattern.Matches.ne_nil (h : pattern.Matches name s) : s ≠ [] := by
  rintro rfl
  obtain ⟨hne, head, first, last, rest, -, -, -, -, hcs⟩ :=
    h.betweenFirstQuotes (List.prefix_refl [])
  simp at hcs

end EditorTabs.Reference
