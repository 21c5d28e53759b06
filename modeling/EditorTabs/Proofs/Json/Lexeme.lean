import EditorTabs.Proofs.Json.Number

/-!
# Lexemes

The spellings of tokens: marks, quoted texts, numbers and words. A lexeme that is followed by a
blank, a mark or the end is read as one token, whatever the position, and every token but a broken
one was spelled by a lexeme.
-/
namespace EditorTabs.Json

abbrev backslash : CodePoint := '\\'

inductive IsBody : Text → Prop
  | nil : IsBody []
  | plain {c : CodePoint} {rest : Text} (hc : 0x20 ≤ c.toNat) (hquote : c ≠ quotationMark)
      (hback : c ≠ backslash) (h : IsBody rest) : IsBody (c :: rest)
  | letter {c e : CodePoint} {rest : Text} (hc : escapes.lookup c = some e) (h : IsBody rest) :
      IsBody (backslash :: c :: rest)
  | unit {a b c d : CodePoint} {value : Nat} {rest : Text} (hvalue : fourHex? a b c d = some value)
      (h : IsBody rest) : IsBody (backslash :: CodePoint.char 'u' :: a :: b :: c :: d :: rest)

inductive Lexeme where
  | mark (c : CodePoint) (h : (mark? c).isSome = true)
  | quoted (body : Text) (h : IsBody body)
  | number (s : Text) (h : IsNumber s)
  | word (s : Text) (h : s ∈ words.map Prod.fst)

def Lexeme.text : Lexeme → Text
  | .mark c _ => [c]
  | .quoted body _ => quotationMark :: (body ++ [quotationMark])
  | .number s _ => s
  | .word s _ => s

def Lexeme.isMark : Lexeme → Bool
  | .mark _ _ => true
  | _ => false

def Token.isMark : Token → Bool
  | .openBrace | .closeBrace | .openBracket | .closeBracket | .colon | .comma => true
  | _ => false

/-- Whether a token is none that a text can hold. -/
def Token.isBroken : Token → Bool
  | .brokenText _ _ | .stray => true
  | _ => false

/-- The end of a text, or one that goes on with a blank or a mark. -/
def Ends (rest : Text) : Prop :=
  ∀ c ∈ rest.head?, isSpace c = true ∨ (mark? c).isSome = true

def Lexeme.token (lexeme : Lexeme) : Token :=
  match lexeme.text with
  | [] => .stray
  | c :: tail => (readToken 0 c tail).token

variable {c : CodePoint} {s rest body : Text}

/-! ## Quoted texts -/

section Pieces

variable (start pos : Nat)

theorem readPieces_plain (hc : 0x20 ≤ c.toNat) (hquote : c ≠ quotationMark)
    (hback : c ≠ backslash) (rest : Text) :
    readPieces start pos (c :: rest) =
      consPiece (.point c) (readPieces start (pos + 1) rest) := by
  have hnot : ¬ c.toNat < 0x20 := by omega
  rw [readPieces, if_neg hnot]
  · exact hquote
  · rintro rfl
    exact absurd rfl hback
  · rintro _ _ _ _ _ rfl
    exact absurd rfl hback
  · rintro _ rfl
    exact absurd rfl hback
  · rintro _ _ rfl
    exact absurd rfl hback

theorem readPieces_letter {e : CodePoint} (hc : escapes.lookup c = some e) (rest : Text) :
    readPieces start pos (backslash :: c :: rest) =
      consPiece (.point e) (readPieces start (pos + 2) rest) := by
  have hu : c ≠ 'u' := by
    rintro rfl
    have hnone : escapes.lookup (.char 'u') = none := by decide
    exact absurd (hnone.symm.trans hc) (by simp)
  rw [readPieces, hc]
  · rintro _ _ _ _ _ rfl
    exact absurd rfl hu
  · exact hu

theorem readPieces_unit {a b c d : CodePoint} {value : Nat} (hvalue : fourHex? a b c d = some value)
    (hne : rest ≠ []) :
    readPieces start pos (backslash :: CodePoint.char 'u' :: a :: b :: c :: d :: rest) =
      consPiece (.unit value) (readPieces start (pos + 6) rest) := by
  simp only [readPieces, hvalue, if_neg hne]

end Pieces

theorem readPieces_append (h : IsBody body) :
    ∃ pieces, ∀ start pos rest, ∃ stop,
      readPieces start pos (body ++ quotationMark :: rest) = .ok (pieces, rest, stop) := by
  induction h with
  | nil => exact ⟨[], fun start pos rest => ⟨pos + 1, rfl⟩⟩
  | @plain c tail hc hquote hback _ ih =>
    obtain ⟨pieces, hpieces⟩ := ih
    refine ⟨.point c :: pieces, fun start pos rest => ?_⟩
    obtain ⟨stop, hstop⟩ := hpieces start (pos + 1) rest
    refine ⟨stop, ?_⟩
    rw [List.cons_append, readPieces_plain start pos hc hquote hback, hstop]
    rfl
  | @letter c e tail hc _ ih =>
    obtain ⟨pieces, hpieces⟩ := ih
    refine ⟨.point e :: pieces, fun start pos rest => ?_⟩
    obtain ⟨stop, hstop⟩ := hpieces start (pos + 2) rest
    refine ⟨stop, ?_⟩
    rw [List.cons_append, List.cons_append, readPieces_letter start pos hc, hstop]
    rfl
  | @unit a b c d value tail hvalue _ ih =>
    obtain ⟨pieces, hpieces⟩ := ih
    refine ⟨.unit value :: pieces, fun start pos rest => ?_⟩
    obtain ⟨stop, hstop⟩ := hpieces start (pos + 6) rest
    refine ⟨stop, ?_⟩
    have hne : tail ++ quotationMark :: rest ≠ [] := by simp
    simp only [List.cons_append]
    rw [readPieces_unit start pos hvalue hne, hstop]
    rfl

theorem isBody_of_readPieces {start pos stop : Nat} {pieces : List Piece}
    (h : readPieces start pos s = .ok (pieces, rest, stop)) :
    ∃ body, IsBody body ∧ s = body ++ quotationMark :: rest := by
  fun_induction readPieces start pos s generalizing pieces with
  | case1 => cases h
  | case2 pos tail =>
    cases h
    exact ⟨[], .nil, rfl⟩
  | case3 => cases h
  | case4 => cases h
  | case5 pos a b c d tail value hvalue _ ih =>
    obtain ⟨_, hread⟩ := consPiece_eq_ok h
    obtain ⟨body, hbody, rfl⟩ := ih hread
    exact ⟨_, .unit hvalue hbody, rfl⟩
  | case6 => cases h
  | case7 => cases h
  | case8 pos c tail _ _ e he ih =>
    obtain ⟨_, hread⟩ := consPiece_eq_ok h
    obtain ⟨body, hbody, rfl⟩ := ih hread
    exact ⟨_, .letter he hbody, rfl⟩
  | case9 => cases h
  | case10 => cases h
  | case11 pos c tail hquote hlast hunit hbroken hletter hnot ih =>
    obtain ⟨_, hread⟩ := consPiece_eq_ok h
    obtain ⟨body, hbody, rfl⟩ := ih hread
    have hback : c ≠ backslash := by
      rintro rfl
      cases hcs : body ++ quotationMark :: rest with
      | nil => simp at hcs
      | cons d after => exact hletter d after rfl hcs
    exact ⟨_, .plain (by omega) hquote hback hbody, rfl⟩

/-! ## Marks and words -/

theorem isMark_of_mark? {token : Token} (h : mark? c = some token) : token.isMark = true := by
  unfold mark? at h
  repeat' split at h
  all_goals cases h
  all_goals rfl

theorem isSpace_iff : isSpace c = true ↔ c = ' ' ∨ c = '\t' ∨ c = '\n' ∨ c = '\r' := by
  simp [isSpace, or_assoc]

def marks : List CodePoint := ['\x7b', '\x7d', '[', ']', ':', ',']

def delimiters : List CodePoint := ' ' :: '\t' :: '\n' :: '\r' :: marks

theorem mem_marks (h : (mark? c).isSome = true) : c ∈ marks := by
  unfold mark? at h
  repeat' split at h
  all_goals simp_all [marks]

theorem mem_delimiters (h : isSpace c = true ∨ (mark? c).isSome = true) : c ∈ delimiters := by
  rcases h with hspace | hmark
  · rcases isSpace_iff.mp hspace with rfl | rfl | rfl | rfl <;> decide
  · have hc := mem_marks hmark
    simp only [delimiters, List.mem_cons, hc, or_true]

theorem mark?_of_isDigit (h : isDigit c = true) : mark? c = none := by
  cases hmark : mark? c with
  | none => rfl
  | some token =>
    have hmem : c ∈ marks := mem_marks (by simp [hmark])
    have hall : ∀ d ∈ marks, isDigit d = false := by decide
    exact absurd ((hall c hmem).symm.trans h) (by decide)

theorem Ends.endsNumber (h : Ends rest) : EndsNumber rest := by
  have hall : ∀ d ∈ delimiters, isDigit d = false ∧ d ∉ Text.ofString ".eE" := by decide
  exact fun c hc => hall c (mem_delimiters (h c hc))

theorem readWord?_append {value : Json} (h : (s, value) ∈ words) (rest : Text) :
    readWord? (s ++ rest) = some (.scalar value, rest) := by
  simp only [words, List.mem_cons, Prod.mk.injEq, List.not_mem_nil, or_false] at h
  rcases h with ⟨rfl, rfl⟩ | ⟨rfl, rfl⟩ | ⟨rfl, rfl⟩ | ⟨rfl, rfl⟩ | ⟨rfl, rfl⟩ | ⟨rfl, rfl⟩ <;> rfl

theorem exists_word_of_readWord? {token : Token} (h : readWord? s = some (token, rest)) :
    ∃ word value, (word, value) ∈ words ∧ token = .scalar value ∧ s = word ++ rest := by
  obtain ⟨⟨word, value⟩, hmem, h⟩ := List.exists_of_findSome?_eq_some h
  obtain ⟨after, hafter, heq⟩ := Option.map_eq_some_iff.mp h
  cases heq
  exact ⟨word, value, hmem, rfl, Text.afterWord?_eq_some_iff.mp hafter⟩

theorem readWord?_of_isNumber (h : IsNumber s) (rest : Text) : readWord? (s ++ rest) = none := by
  cases hread : readWord? (s ++ rest) with
  | none => rfl
  | some reading =>
    obtain ⟨word, value, hmem, -, heq⟩ := exists_word_of_readWord? hread
    obtain ⟨c, tail, rfl, hc⟩ := h.exists_cons
    exfalso
    simp only [words, List.mem_cons, Prod.mk.injEq, List.not_mem_nil, or_false] at hmem
    -- No word starts with a digit, and only a letter follows the sign of one.
    rcases hc with hdigit | ⟨rfl, d, hd, hdigit⟩
    · rcases hmem with ⟨rfl, -⟩ | ⟨rfl, -⟩ | ⟨rfl, -⟩ | ⟨rfl, -⟩ | ⟨rfl, -⟩ | ⟨rfl, -⟩
      all_goals
        rw [(List.cons.inj heq).1] at hdigit
        exact absurd hdigit (by decide)
    · obtain ⟨after, rfl⟩ := List.head?_eq_some_iff.mp hd
      rcases hmem with ⟨rfl, -⟩ | ⟨rfl, -⟩ | ⟨rfl, -⟩ | ⟨rfl, -⟩ | ⟨rfl, -⟩ | ⟨rfl, -⟩
      case inr.inr.inr.inr.inr =>
        rw [(List.cons.inj (List.cons.inj heq).2).1] at hdigit
        exact absurd hdigit (by decide)
      all_goals exact absurd (List.cons.inj heq).1 (by decide)

/-! ## Tokens -/

/-- A lexeme starts with an ASCII character and is read as a token that does not depend on what
comes after it. -/
def Lexeme.ReadsAs (lexeme : Lexeme) (token : Token) : Prop :=
  ∃ c tail, lexeme.text = c :: tail ∧ (isSpace c = false ∧ c.toNat < 0x80) ∧
    ∀ pos rest, lexeme.isMark = true ∨ Ends rest →
      ∃ stop, readToken pos c (tail ++ rest) = ⟨token, rest, stop⟩

theorem readToken_of_read {token : Token} {tail : Text} (hmark : mark? c = none)
    (hquote : c ≠ quotationMark) (pos : Nat)
    (hread : (readWord? (c :: tail)).or (readNumber? (c :: tail)) = some (token, rest)) :
    ∃ stop, readToken pos c tail = ⟨token, rest, stop⟩ := by
  refine ⟨pos + 1 + (tail.length - rest.length), ?_⟩
  rw [readToken, hmark]
  simp only [if_neg hquote, hread]

theorem Lexeme.exists_readsAs (lexeme : Lexeme) :
    ∃ token, lexeme.ReadsAs token ∧ token.isMark = lexeme.isMark := by
  cases lexeme with
  | mark c h =>
    obtain ⟨token, htoken⟩ := Option.isSome_iff_exists.mp h
    have hspace : isSpace c = false ∧ c.toNat < 0x80 := by
      have hall : ∀ d ∈ marks, isSpace d = false ∧ d.toNat < 0x80 := by decide
      exact hall c (mem_marks h)
    refine ⟨token, ⟨c, [], rfl, hspace, fun pos rest _ => ⟨pos + 1, ?_⟩⟩, isMark_of_mark? htoken⟩
    rw [List.nil_append, readToken, htoken]
  | quoted body h =>
    obtain ⟨pieces, hpieces⟩ := readPieces_append h
    refine ⟨.text (joinPieces pieces), ⟨quotationMark, body ++ [quotationMark], rfl, by decide,
      fun pos rest _ => ?_⟩, rfl⟩
    obtain ⟨stop, hstop⟩ := hpieces pos (pos + 1) rest
    refine ⟨stop, ?_⟩
    have hmark : mark? quotationMark = none := by decide
    rw [List.append_assoc, List.singleton_append, readToken, hmark]
    simp only [if_true, hstop]
  | number s h =>
    obtain ⟨token, htoken⟩ := readNumber?_append h
    obtain ⟨c, tail, rfl, hc⟩ := h.exists_cons
    have hhead : (isSpace c = false ∧ c.toNat < 0x80) ∧ mark? c = none ∧ c ≠ quotationMark := by
      rcases hc with hdigit | ⟨rfl, -⟩
      · refine ⟨⟨?_, ?_⟩, mark?_of_isDigit hdigit, ?_⟩
        · cases hspace : isSpace c with
          | false => rfl
          | true =>
            have hall : ∀ d ∈ delimiters, isDigit d = false := by decide
            exact absurd ((hall c (mem_delimiters (.inl hspace))).symm.trans hdigit) (by decide)
        · simp only [isDigit, Bool.and_eq_true, decide_eq_true_eq] at hdigit
          omega
        · rintro rfl
          exact absurd hdigit (by decide)
      · decide
    have hnumeral : IsNumeral token :=
      (isNumber_of_readNumber? (htoken [] (by simp [EndsNumber]))).1
    have hmark : token.isMark = false := by cases hnumeral <;> rfl
    refine ⟨token, ⟨c, tail, rfl, hhead.1, fun pos rest hrest => ?_⟩, hmark⟩
    have hends : Ends rest := hrest.resolve_left (by simp [isMark])
    apply readToken_of_read hhead.2.1 hhead.2.2
    rw [← List.cons_append, readWord?_of_isNumber h, htoken rest hends.endsNumber, Option.none_or]
  | word s h =>
    obtain ⟨⟨word, value⟩, hmem, hword⟩ := List.mem_map.mp h
    obtain rfl : word = s := hword
    have hhead : ∃ c tail, word = c :: tail ∧ (isSpace c = false ∧ c.toNat < 0x80) ∧
        mark? c = none ∧ c ≠ quotationMark := by
      simp only [words, List.mem_cons, Prod.mk.injEq, List.not_mem_nil, or_false] at hmem
      rcases hmem with ⟨rfl, -⟩ | ⟨rfl, -⟩ | ⟨rfl, -⟩ | ⟨rfl, -⟩ | ⟨rfl, -⟩ | ⟨rfl, -⟩
      all_goals exact ⟨_, _, rfl, by decide⟩
    obtain ⟨c, tail, rfl, hspace, hmark, hquote⟩ := hhead
    refine ⟨.scalar value, ⟨c, tail, rfl, hspace, fun pos rest _ => ?_⟩, rfl⟩
    apply readToken_of_read hmark hquote
    rw [← List.cons_append, readWord?_append hmem, Option.some_or]

theorem Lexeme.ReadsAs.token_eq {lexeme : Lexeme} {token : Token} (h : lexeme.ReadsAs token) :
    lexeme.token = token := by
  obtain ⟨c, tail, htext, -, hread⟩ := h
  obtain ⟨stop, hstop⟩ := hread 0 [] (.inr (by simp [Ends]))
  rw [Lexeme.token, htext]
  simp only
  rw [← List.append_nil tail, hstop]

theorem Lexeme.readsAs_token (lexeme : Lexeme) : lexeme.ReadsAs lexeme.token := by
  obtain ⟨token, hreads, -⟩ := lexeme.exists_readsAs
  exact hreads.token_eq ▸ hreads

theorem Lexeme.isMark_token (lexeme : Lexeme) : lexeme.token.isMark = lexeme.isMark := by
  obtain ⟨token, hreads, hmark⟩ := lexeme.exists_readsAs
  exact hreads.token_eq ▸ hmark

/-- Every token that is not broken was spelled by a lexeme. -/
theorem exists_lexeme_of_readToken {pos : Nat}
    (hsound : (readToken pos c s).token.isBroken = false) :
    ∃ lexeme : Lexeme, c :: s = lexeme.text ++ (readToken pos c s).rest ∧
      lexeme.isMark = (readToken pos c s).token.isMark := by
  cases hmark : mark? c with
  | some token =>
    simp only [readToken, hmark]
    exact ⟨.mark c (by simp [hmark]), rfl, (isMark_of_mark? hmark).symm⟩
  | none =>
    by_cases hquote : c = quotationMark
    · subst hquote
      cases hread : readPieces pos (pos + 1) s with
      | error problem => simp [readToken, hmark, hread, Token.isBroken] at hsound
      | ok reading =>
        obtain ⟨pieces, after, stop⟩ := reading
        obtain ⟨body, hbody, rfl⟩ := isBody_of_readPieces hread
        simp only [readToken, hmark, if_true, hread]
        exact ⟨.quoted body hbody, by simp [Lexeme.text], rfl⟩
    · cases hread : (readWord? (c :: s)).or (readNumber? (c :: s)) with
      | none => simp [readToken, hmark, hquote, hread, Token.isBroken] at hsound
      | some reading =>
        obtain ⟨token, after⟩ := reading
        simp only [readToken, hmark, if_neg hquote, hread]
        rcases Option.or_eq_some_iff.mp hread with hword | ⟨-, hnumber⟩
        · obtain ⟨word, value, hmem, rfl, heq⟩ := exists_word_of_readWord? hword
          exact ⟨.word word (List.mem_map_of_mem hmem), heq, rfl⟩
        · obtain ⟨hnumeral, number, hspelled, heq⟩ := isNumber_of_readNumber? hnumber
          refine ⟨.number number hspelled, heq, ?_⟩
          cases hnumeral <;> rfl

end EditorTabs.Json
