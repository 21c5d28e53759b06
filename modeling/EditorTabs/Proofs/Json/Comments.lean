import EditorTabs.Json.Comments
import EditorTabs.Proofs.Json.Document

/-!
# Commented documents

Taking the comments out of a document leaves its lexemes with the blanks between them, whatever
stands inside its quoted texts and its comments. So a commented document reads as the same document
written without comments, and a text that already has a value stays as it is.
-/
namespace EditorTabs.Json

abbrev slash : CodePoint := '/'

abbrev star : CodePoint := '*'

variable {s body rest : Text}

theorem stripFrom_code_cons {c : CodePoint} (h : c ≠ slash) (rest : Text) :
    stripFrom .code (c :: rest) =
      c :: stripFrom (if c = '"' then .quoted else .code) rest := by
  rw [stripFrom]
  · rintro _ rfl
    exact absurd rfl h
  · rintro _ rfl
    exact absurd rfl h

theorem stripFrom_code_append (h : ∀ c ∈ s, c ≠ slash ∧ c ≠ quotationMark) (rest : Text) :
    stripFrom .code (s ++ rest) = s ++ stripFrom .code rest := by
  induction s with
  | nil => rfl
  | cons c tail ih =>
    obtain ⟨⟨hslash, hquote⟩, htail⟩ := List.forall_mem_cons.mp h
    rw [List.cons_append, stripFrom_code_cons hslash, if_neg hquote, ih htail, List.cons_append]

/-- Inside a quoted text everything stays, and the text ends where the reading of it does. -/
theorem stripFrom_body (h : IsBody body) (rest : Text) :
    stripFrom .quoted (body ++ quotationMark :: rest) =
      body ++ quotationMark :: stripFrom .code rest := by
  induction h with
  | nil => rfl
  | plain _ hquote hback _ ih =>
    rw [List.cons_append, stripFrom, if_neg hback, if_neg hquote, ih, List.cons_append]
  | letter _ _ ih =>
    rw [List.cons_append, List.cons_append, stripFrom, if_pos rfl, stripFrom, ih,
      List.cons_append, List.cons_append]
  | @unit a b c d value tail hvalue _ ih =>
    -- The digits of an escape are neither quotation marks nor backslashes.
    have hdigit {e : CodePoint} {n : Nat} (he : Text.hexValue? e = some n) (rest : Text) :
        stripFrom .quoted (e :: rest) = e :: stripFrom .quoted rest := by
      have hback : e ≠ backslash := by
        rintro rfl
        have hnone : Text.hexValue? backslash = none := by decide
        exact absurd (hnone.symm.trans he) (by simp)
      have hquote : e ≠ quotationMark := by
        rintro rfl
        have hnone : Text.hexValue? quotationMark = none := by decide
        exact absurd (hnone.symm.trans he) (by simp)
      rw [stripFrom, if_neg hback, if_neg hquote]
    simp only [fourHex?, Option.bind_eq_bind, Option.bind_eq_some_iff] at hvalue
    obtain ⟨_, ha, _, hb, _, hc, _, hd, -⟩ := hvalue
    simp only [List.cons_append]
    rw [stripFrom, if_pos rfl, stripFrom, hdigit ha, hdigit hb, hdigit hc, hdigit hd, ih]

theorem stripFrom_lexeme (lexeme : Lexeme) (rest : Text) :
    stripFrom .code (lexeme.text ++ rest) = lexeme.text ++ stripFrom .code rest := by
  cases lexeme with
  | mark c h =>
    have hall : ∀ d ∈ marks, d ≠ slash ∧ d ≠ quotationMark := by decide
    apply stripFrom_code_append
    intro d hd
    obtain rfl := List.mem_singleton.mp hd
    exact hall d (mem_marks h)
  | quoted body h =>
    have hslash : quotationMark ≠ slash := by decide
    simp only [Lexeme.text, List.cons_append, List.append_assoc, List.nil_append]
    rw [stripFrom_code_cons hslash, if_pos rfl, stripFrom_body h]
  | number s h =>
    apply stripFrom_code_append
    intro c hc
    rcases h.forall_mem c hc with hdigit | hmem
    · constructor
      · rintro rfl
        exact absurd hdigit (by decide)
      · rintro rfl
        exact absurd hdigit (by decide)
    · have hall : ∀ d ∈ Text.ofString "-+.eE", d ≠ slash ∧ d ≠ quotationMark := by decide
      exact hall c hmem
  | word s h =>
    have hall : ∀ word ∈ words.map Prod.fst, ∀ c ∈ word, c ≠ slash ∧ c ≠ quotationMark := by decide
    exact stripFrom_code_append (hall s h) rest

/-- A block comment ends at the first star with a slash. -/
theorem stripFrom_block (h : ¬ Text.ofString "*/" <:+: body) (rest : Text) :
    stripFrom .blockComment (body ++ star :: slash :: rest) = stripFrom .code rest := by
  induction body with
  | nil => rfl
  | cons c tail ih =>
    have htail : ¬ Text.ofString "*/" <:+: tail := fun hin => h (List.infix_cons hin)
    rw [List.cons_append, stripFrom]
    · exact ih htail
    · rintro after rfl hafter
      cases tail with
      | nil => exact absurd (List.cons.inj hafter).1 (by decide)
      | cons d later =>
        obtain rfl := (List.cons.inj hafter).1
        exact h ⟨[], later, rfl⟩

theorem stripFrom_line (h : lineFeed ∉ body) (rest : Text) :
    stripFrom .lineComment (body ++ lineFeed :: rest) = lineFeed :: stripFrom .code rest := by
  induction body with
  | nil => rfl
  | cons c tail ih =>
    rw [List.mem_cons, not_or] at h
    rw [List.cons_append, stripFrom, if_neg (Ne.symm h.1), ih h.2]

theorem stripFrom_closing (h : lineFeed ∉ body) : stripFrom .lineComment body = [] := by
  induction body with
  | nil => rfl
  | cons c tail ih =>
    rw [List.mem_cons, not_or] at h
    rw [stripFrom, if_neg (Ne.symm h.1), ih h.2]

theorem stripFrom_gap (gap : Gap) (rest : Text) :
    stripFrom .code (gap.text ++ rest) = gap.bare.text ++ stripFrom .code rest := by
  induction gap with
  | nil => rfl
  | cons filler gap ih =>
    have hfiller (rest : Text) :
        stripFrom .code (filler.text ++ rest) =
          Gap.text filler.bare ++ stripFrom .code rest := by
      cases filler with
      | blank c h =>
        rcases isSpace_iff.mp h with rfl | rfl | rfl | rfl <;> rfl
      | block body h =>
        have hstrip := stripFrom_block h rest
        rw [Filler.text, List.append_assoc, List.append_assoc]
        exact hstrip
      | line body h =>
        have hstrip := stripFrom_line h rest
        rw [Filler.text, List.append_assoc, List.append_assoc]
        exact hstrip
    have hbare : Gap.text (Gap.bare (filler :: gap)) =
        Gap.text filler.bare ++ Gap.text (Gap.bare gap) := by
      simp only [Gap.text, Gap.bare, List.flatMap_cons, List.flatMap_append]
    rw [Document.text_cons, List.append_assoc, hfiller, ih, hbare, List.append_assoc]

theorem stripFrom_weave (parts : List (Gap × Lexeme)) (tail : Text) :
    stripFrom .code (weave parts tail) =
      weave (parts.map fun part => (part.1.bare, part.2)) (stripFrom .code tail) := by
  induction parts with
  | nil => rfl
  | cons part rest ih =>
    rw [weave, stripFrom_gap, stripFrom_lexeme, ih]
    rfl

/-- Without its comments, the text of a document is that of the document without comments. -/
theorem stripComments_text (document : Document) :
    stripComments document.text = document.bare.text := by
  have hending : stripFrom .code document.ending = [] := by
    rw [Document.ending]
    cases document.closing with
    | none => rfl
    | some body => exact stripFrom_closing body.property
  rw [stripComments, Document.text, stripFrom_weave, stripFrom_gap, hending]
  rfl

/-- A commented document reads as the same lexemes written without comments, to the value or to a
fault other than a malformed text; and a text with a value, which is such a document without
comments, is not touched. -/
theorem read_stripComments (limit : Nat) :
    (∀ plain commented : Document, plain.IsPlain → plain.Separated →
      commented.lexemes = plain.lexemes →
        (∀ value, read plain.text limit = .ok value →
          read (stripComments commented.text) limit = .ok value) ∧
        (commented.Separated → ∀ fault, (∀ place, fault ≠ .malformed place) →
          read plain.text limit = .error fault →
            read (stripComments commented.text) limit = .error fault)) ∧
      ∀ s value, read s limit = .ok value →
        (∃ plain : Document, plain.IsPlain ∧ plain.Separated ∧ plain.text = s) ∧
          stripComments s = s := by
  refine ⟨fun plain commented hplain hsep hsame => ?_, fun s value hvalue => ?_⟩
  · have halike (hsep' : commented.Separated) :
        Alike (readAll limit plain.text) (readAll limit (stripComments commented.text)) := by
      rw [stripComments_text]
      exact Document.alike_readAll hplain hsep commented.isPlain_bare hsep'.bare
        (commented.lexemes_bare.trans hsame)
    refine ⟨fun value hvalue => ?_, fun hsep' fault hfault hread => ?_⟩
    · -- The lexemes of a value need no blanks between them.
      have hchain := Document.isChain_of_read_text hplain hsep hvalue
      have hsep' := Document.separated_of_isChain (hsame ▸ hchain)
      have hall := halike hsep'
      rw [read_eq_ok_iff.mp hvalue] at hall
      exact read_eq_ok_iff.mpr hall.eq_of_ok
    · have hall := halike hsep'
      rw [readAll_eq_of_read hfault hread] at hall
      rw [read, hall.eq_of_fault]
  · obtain ⟨plain, hplain, rfl, hchain⟩ := Document.exists_document hvalue
    refine ⟨⟨plain, hplain, Document.separated_of_isChain hchain, rfl⟩, ?_⟩
    rw [stripComments_text, hplain.bare_eq]

def markedText : Lexeme :=
  .quoted "//*" (.plain (by decide) (by decide) (by decide) (.plain (by decide) (by decide)
    (by decide) (.plain (by decide) (by decide) (by decide) .nil)))

/-- An array of that text and a word, with a comment of each sort in each sort of place. -/
def remarked : Document where
  parts :=
    [([.line "a \"list\"" (by decide +kernel)], .mark '[' (by decide +kernel)),
      ([.block " one // " (by decide +kernel)], markedText), ([], .mark ',' (by decide +kernel)),
      ([.blank ' ' (by decide +kernel), .block "*" (by decide +kernel)],
        .word "true" (by decide +kernel)),
      ([], .mark ']' (by decide +kernel))]
  closing := some ⟨"*/ end", by decide +kernel⟩

def unremarked : Document where
  parts := remarked.lexemes.map fun lexeme => ([], lexeme)

theorem read_stripComments_remarked :
    remarked.text =
        Text.ofString "//a \"list\"\n[/* one // */\"//*\", /***/true]//*/ end" ∧
      unremarked.text = Text.ofString "[\"//*\",true]" ∧
      unremarked.IsPlain ∧ unremarked.Separated ∧ remarked.lexemes = unremarked.lexemes ∧
      read unremarked.text = .ok (.array [.text "//*", .bool true]) ∧
      read (stripComments remarked.text) = .ok (.array [.text "//*", .bool true]) ∧
      stripComments unremarked.text = unremarked.text := by
  have hplain : unremarked.IsPlain := by
    refine ⟨fun part hpart => ?_, List.forall_mem_nil _, rfl⟩
    obtain ⟨lexeme, -, rfl⟩ := List.mem_map.mp hpart
    exact List.forall_mem_nil _
  have hsep : unremarked.Separated := by
    simp [Document.Separated, unremarked, remarked, Document.lexemes, markedText, Lexeme.isMark]
  have hread : read unremarked.text = .ok (.array [.text "//*", .bool true]) := by
    exact hplain.read_of_lexemes hsep rfl
  obtain ⟨hcommented, huntouched⟩ := read_stripComments commonNesting
  exact ⟨by decide +kernel, by decide +kernel, hplain, hsep, rfl, hread,
    (hcommented unremarked remarked hplain hsep rfl).1 _ hread, (huntouched _ _ hread).2⟩

end EditorTabs.Json
