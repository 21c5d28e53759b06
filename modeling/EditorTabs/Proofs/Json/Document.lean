import EditorTabs.Proofs.Json.Reader

/-!
# Documents

A document is a sequence of lexemes with gaps around them. A gap holds blanks and comments, and the
last line may end in a comment without a line feed. A plain document has no comments. Its lexemes
are what is read from it, if it keeps apart those that would run into each other, and every text
with a value is such a document.
-/
namespace EditorTabs.Json

/-- What may stand between lexemes: a blank, a comment that is closed, or one to the end of its
line, with that end. -/
inductive Filler where
  | blank (c : CodePoint) (h : isSpace c = true)
  | block (body : Text) (h : ¬ Text.ofString "*/" <:+: body)
  | line (body : Text) (h : lineFeed ∉ body)

namespace Filler

def text : Filler → Text
  | blank c _ => [c]
  | block body _ => Text.ofString "/*" ++ (body ++ Text.ofString "*/")
  | line body _ => Text.ofString "//" ++ (body ++ [lineFeed])

def bare : Filler → List Filler
  | blank c h => [blank c h]
  | block _ _ => []
  | line _ _ => [blank lineFeed rfl]

def isBlank : Filler → Bool
  | blank _ _ => true
  | _ => false

end Filler

abbrev Gap := List Filler

def Gap.text (gap : Gap) : Text :=
  gap.flatMap Filler.text

def Gap.bare (gap : Gap) : Gap :=
  gap.flatMap Filler.bare

/-- Lexemes with the gaps before them, in front of a text. -/
def weave : List (Gap × Lexeme) → Text → Text
  | [], tail => tail
  | (gap, lexeme) :: rest, tail => gap.text ++ (lexeme.text ++ weave rest tail)

/-- A document: its lexemes with the gaps before them, the gap behind the last one, and the body of
a comment that ends with the text. -/
structure Document where
  parts : List (Gap × Lexeme)
  last : Gap := []
  closing : Option { body : Text // lineFeed ∉ body } := none

namespace Document

def ending (document : Document) : Text :=
  match document.closing with
  | some body => Text.ofString "//" ++ body.val
  | none => []

def text (document : Document) : Text :=
  weave document.parts (document.last.text ++ document.ending)

def lexemes (document : Document) : List Lexeme :=
  document.parts.map Prod.snd

def bare (document : Document) : Document where
  parts := document.parts.map fun part => (part.1.bare, part.2)
  last := document.last.bare

structure IsPlain (document : Document) : Prop where
  parts : ∀ part ∈ document.parts, ∀ filler ∈ part.1, filler.isBlank = true
  last : ∀ filler ∈ document.last, filler.isBlank = true
  closing : document.closing = none

/-- A document that keeps its lexemes apart: two of them have a mark or a blank between them. -/
def Separated (document : Document) : Prop :=
  document.parts.IsChain fun before after =>
    before.2.isMark = true ∨ after.2.isMark = true ∨ after.1.bare ≠ []

variable {limit : Nat} {document other : Document}

theorem lexemes_bare (document : Document) : document.bare.lexemes = document.lexemes := by
  simp [lexemes, bare, Function.comp_def]

theorem isBlank_of_mem_bare {gap : Gap} : ∀ filler ∈ gap.bare, filler.isBlank = true := by
  intro filler hfiller
  obtain ⟨origin, -, hmem⟩ := List.mem_flatMap.mp hfiller
  cases origin with
  | blank c h =>
    obtain rfl := List.mem_singleton.mp hmem
    rfl
  | block body h => cases hmem
  | line body h =>
    obtain rfl := List.mem_singleton.mp hmem
    rfl

theorem isPlain_bare (document : Document) : document.bare.IsPlain where
  parts := by
    intro part hpart
    obtain ⟨origin, -, rfl⟩ := List.mem_map.mp hpart
    exact isBlank_of_mem_bare
  last := isBlank_of_mem_bare
  closing := rfl

theorem bare_of_forall_isBlank {gap : Gap} (h : ∀ filler ∈ gap, filler.isBlank = true) :
    gap.bare = gap := by
  induction gap with
  | nil => rfl
  | cons filler rest ih =>
    obtain ⟨hfiller, hrest⟩ := List.forall_mem_cons.mp h
    have hbare : filler.bare = [filler] := by
      cases filler with
      | blank c hc => rfl
      | block body hbody => cases hfiller
      | line body hbody => cases hfiller
    have htail : rest.flatMap Filler.bare = rest := ih hrest
    rw [Gap.bare, List.flatMap_cons, hbare, htail, List.singleton_append]

theorem IsPlain.bare_eq (h : document.IsPlain) : document.bare = document := by
  have hparts : document.parts.map (fun part => (part.1.bare, part.2)) = document.parts := by
    conv_rhs => rw [← List.map_id document.parts]
    apply List.map_congr_left
    intro part hpart
    rw [bare_of_forall_isBlank (h.parts part hpart), id]
  obtain ⟨parts, last, closing⟩ := document
  obtain rfl : closing = none := h.closing
  rw [bare, hparts, bare_of_forall_isBlank h.last]

theorem Separated.bare (h : document.Separated) : document.bare.Separated := by
  rw [Separated, Document.bare, List.isChain_map]
  refine h.imp fun before after hbetween => ?_
  rwa [bare_of_forall_isBlank isBlank_of_mem_bare]

/-- The lexemes of a separated document are separated in every document if of two neighbours one is
always a mark. -/
theorem separated_of_isChain
    (h : (document.lexemes.map Lexeme.isMark).IsChain fun a b => a = true ∨ b = true) :
    document.Separated := by
  rw [lexemes, List.map_map, List.isChain_map] at h
  exact h.imp fun before after hmark => hmark.imp_right .inl

/-! ## Reading a plain document -/

theorem text_cons (filler : Filler) (gap : Gap) :
    Gap.text (filler :: gap) = filler.text ++ gap.text := rfl

theorem tokensFrom_gap {gap : Gap} (h : ∀ filler ∈ gap, filler.isBlank = true) (pos : Nat)
    (rest : Text) : ∃ stop, tokensFrom pos (gap.text ++ rest) = tokensFrom stop rest := by
  induction gap generalizing pos with
  | nil => exact ⟨pos, rfl⟩
  | cons filler gap ih =>
    obtain ⟨hfiller, hgap⟩ := List.forall_mem_cons.mp h
    cases filler with
    | blank c hc =>
      obtain ⟨stop, hstop⟩ := ih hgap (pos + 1)
      refine ⟨stop, ?_⟩
      rw [text_cons, Filler.text, List.append_assoc, List.singleton_append, tokensFrom, if_pos hc,
        hstop]
    | block body hbody => cases hfiller
    | line body hbody => cases hfiller

theorem ends_gap {gap : Gap} (h : ∀ filler ∈ gap, filler.isBlank = true) {rest : Text}
    (hrest : gap = [] → Ends rest) : Ends (gap.text ++ rest) := by
  cases gap with
  | nil => exact hrest rfl
  | cons filler gap =>
    cases filler with
    | blank c hc =>
      intro d hd
      obtain rfl : c = d := by simpa [text_cons, Filler.text] using hd
      exact .inl hc
    | block body hbody => cases h _ List.mem_cons_self
    | line body hbody => cases h _ List.mem_cons_self

theorem ends_of_isMark {lexeme : Lexeme} (h : lexeme.isMark = true) (rest : Text) :
    Ends (lexeme.text ++ rest) := by
  cases lexeme with
  | mark c hc =>
    intro d hd
    obtain rfl : c = d := by simpa [Lexeme.text] using hd
    exact .inr hc
  | _ => cases h

/-- The tokens of a plain and separated document are those of its lexemes. -/
theorem map_token_tokensFrom {parts : List (Gap × Lexeme)} {last : Gap}
    (hparts : ∀ part ∈ parts, ∀ filler ∈ part.1, filler.isBlank = true)
    (hlast : ∀ filler ∈ last, filler.isBlank = true)
    (hsep : parts.IsChain fun before after =>
      before.2.isMark = true ∨ after.2.isMark = true ∨ after.1.bare ≠ [])
    (pos : Nat) :
    (tokensFrom pos (weave parts last.text)).map Located.token =
      parts.map fun part => part.2.token := by
  induction parts generalizing pos with
  | nil =>
    obtain ⟨stop, hstop⟩ := tokensFrom_gap hlast pos []
    rw [List.append_nil] at hstop
    rw [weave, hstop, tokensFrom]
    rfl
  | cons part rest ih =>
    obtain ⟨gap, lexeme⟩ := part
    obtain ⟨hgap, hrest⟩ := List.forall_mem_cons.mp hparts
    obtain ⟨start, hstart⟩ := tokensFrom_gap hgap pos (lexeme.text ++ weave rest last.text)
    obtain ⟨c, tail, htext, ⟨hspace, -⟩, hread⟩ := lexeme.readsAs_token
    have hends : lexeme.isMark = true ∨ Ends (weave rest last.text) := by
      cases rest with
      | nil =>
        have hblank : Ends (last.text ++ []) := ends_gap hlast fun _ => by simp [Ends]
        rw [List.append_nil] at hblank
        exact .inr hblank
      | cons next later =>
        obtain ⟨hnext, -⟩ := List.forall_mem_cons.mp hrest
        rcases hsep.rel with hmark | hmark | hne
        · exact .inl hmark
        · exact .inr (ends_gap hnext fun _ => ends_of_isMark hmark _)
        · refine .inr (ends_gap hnext fun hnil => absurd ?_ hne)
          rw [hnil]
          rfl
    obtain ⟨stop, hstop⟩ := hread start (weave rest last.text) hends
    rw [weave, hstart, htext, List.cons_append, tokensFrom, if_neg (by simp [hspace]), hstop]
    simp only [List.map_cons, ih hrest hsep.of_cons stop]

theorem readAll_of_head {s : Text} (h : ∀ c ∈ s.head?, c.toNat ≠ 0xFEFF) :
    readAll limit s = ofTokens limit s.length (tokens s) := by
  cases s with
  | nil => rw [readAll, tokens, tokensFrom]; rfl
  | cons c tail => rw [readAll, if_neg (h c rfl)]

theorem IsPlain.readAll_eq (h : document.IsPlain) :
    readAll limit document.text = ofTokens limit document.text.length (tokens document.text) := by
  apply readAll_of_head
  have hblank {gap : Gap} (hgap : ∀ filler ∈ gap, filler.isBlank = true) {rest : Text}
      (hrest : ∀ c ∈ rest.head?, c.toNat ≠ 0xFEFF) :
      ∀ c ∈ (gap.text ++ rest).head?, c.toNat ≠ 0xFEFF := by
    cases gap with
    | nil => exact hrest
    | cons filler gap =>
      cases filler with
      | blank d hd =>
        intro c hc hbom
        obtain rfl : d = c := by simpa [text_cons, Filler.text] using hc
        rcases isSpace_iff.mp hd with rfl | rfl | rfl | rfl <;> exact absurd hbom (by decide)
      | block body hbody => cases hgap _ List.mem_cons_self
      | line body hbody => cases hgap _ List.mem_cons_self
  obtain ⟨parts, last, closing⟩ := document
  obtain rfl : closing = none := h.closing
  cases parts with
  | nil => exact hblank h.last (by simp [ending])
  | cons part rest =>
    obtain ⟨gap, lexeme⟩ := part
    refine hblank (h.parts _ List.mem_cons_self) ?_
    obtain ⟨c, tail, htext, ⟨-, hascii⟩, -⟩ := lexeme.readsAs_token
    rw [htext]
    intro d hd
    obtain rfl : c = d := by simpa using hd
    omega

theorem IsPlain.map_token_tokens (h : document.IsPlain) (hsep : document.Separated) :
    (tokens document.text).map Located.token = document.lexemes.map Lexeme.token := by
  obtain ⟨parts, last, closing⟩ := document
  obtain rfl : closing = none := h.closing
  have hmap := map_token_tokensFrom h.parts h.last hsep 0
  rw [text, ending, tokens, List.append_nil, hmap, lexemes, List.map_map]
  rfl

/-- Plain documents with the same lexemes read alike. -/
theorem alike_readAll (hplain : document.IsPlain) (hsep : document.Separated)
    (hplain' : other.IsPlain) (hsep' : other.Separated) (h : other.lexemes = document.lexemes) :
    Alike (readAll limit document.text) (readAll limit other.text) := by
  rw [hplain.readAll_eq, hplain'.readAll_eq]
  apply alike_ofTokens
  rw [hplain.map_token_tokens hsep, hplain'.map_token_tokens hsep', h]

/-- The value of a plain document is that of its lexemes, wherever they stand. -/
theorem IsPlain.read_of_lexemes (hplain : document.IsPlain) (hsep : document.Separated)
    {value : Json}
    (h : ofTokens limit 0 (document.lexemes.map fun lexeme => ⟨0, lexeme.token⟩) = .ok value) :
    read document.text limit = .ok value := by
  have htokens : (document.lexemes.map fun lexeme => Located.mk 0 lexeme.token).map
      Located.token = (tokens document.text).map Located.token := by
    rw [hplain.map_token_tokens hsep, List.map_map]
    rfl
  have halike := @alike_ofTokens limit _ _ htokens 0 document.text.length
  rw [h] at halike
  rw [read_eq_ok_iff, hplain.readAll_eq]
  exact halike.eq_of_ok

/-! ## Every text with a value is a document -/

/-- A text whose tokens are all whole is spelled by lexemes with blanks between them. -/
theorem exists_weave {pos : Nat} {s : Text}
    (h : ∀ t ∈ tokensFrom pos s, t.token.isBroken = false) :
    ∃ (parts : List (Gap × Lexeme)) (last : Gap), IsPlain { parts, last } ∧
      weave parts last.text = s ∧
      parts.map (fun part => part.2.isMark) =
        (tokensFrom pos s).map fun t => t.token.isMark := by
  fun_induction tokensFrom pos s with
  | case1 => exact ⟨[], [], ⟨by simp, by simp, rfl⟩, rfl, rfl⟩
  | case2 pos c rest hc ih =>
    obtain ⟨parts, last, hplain, rfl, hmarks⟩ := ih h
    cases parts with
    | nil =>
      refine ⟨[], .blank c hc :: last, ⟨by simp, ?_, rfl⟩, rfl, hmarks⟩
      exact List.forall_mem_cons.mpr ⟨rfl, hplain.last⟩
    | cons part later =>
      obtain ⟨gap, lexeme⟩ := part
      obtain ⟨hgap, hlater⟩ := List.forall_mem_cons.mp hplain.parts
      refine ⟨(.blank c hc :: gap, lexeme) :: later, last, ⟨?_, hplain.last, rfl⟩, rfl, hmarks⟩
      exact List.forall_mem_cons.mpr ⟨List.forall_mem_cons.mpr ⟨rfl, hgap⟩, hlater⟩
  | case3 pos c rest hc found ih =>
    obtain ⟨hwhole, hrest⟩ := List.forall_mem_cons.mp h
    obtain ⟨parts, last, hplain, hspelled, hmarks⟩ := ih hrest
    obtain ⟨lexeme, htext, hmark⟩ := exists_lexeme_of_readToken hwhole
    refine ⟨([], lexeme) :: parts, last, ⟨?_, hplain.last, rfl⟩, ?_, ?_⟩
    · exact List.forall_mem_cons.mpr ⟨by simp, hplain.parts⟩
    · rw [weave, hspelled, htext]
      rfl
    · rw [List.map_cons, List.map_cons, hmarks, hmark]

/-- The tokens of a text with a value are whole, and of two neighbours one is a mark. -/
theorem isChain_of_read {s : Text} {value : Json} (h : read s limit = .ok value) :
    (∀ t ∈ tokens s, t.token.isBroken = false) ∧
      ((tokens s).map fun t => t.token.isMark).IsChain fun a b => a = true ∨ b = true := by
  have htokens := ofTokens_of_read h
  rw [ofTokens] at htokens
  cases hrun : (tokens s).foldlM (State.step limit) State.initial with
  | error problem => rw [hrun] at htokens; cases htokens
  | ok state => exact isChain_of_foldlM hrun

/-- Every text with a value is spelled by lexemes of which no two neighbours need a blank. -/
theorem exists_document {s : Text} {value : Json} (h : read s limit = .ok value) :
    ∃ document : Document, document.IsPlain ∧ document.text = s ∧
      (document.lexemes.map Lexeme.isMark).IsChain fun a b => a = true ∨ b = true := by
  obtain ⟨hwhole, hchain⟩ := isChain_of_read h
  obtain ⟨parts, last, hplain, hspelled, hmarks⟩ := exists_weave hwhole
  refine ⟨{ parts, last }, hplain, ?_, ?_⟩
  · rw [text, ending, List.append_nil]
    exact hspelled
  · rw [lexemes, List.map_map]
    have hsame : parts.map (Lexeme.isMark ∘ Prod.snd) =
        (tokens s).map fun t => t.token.isMark := hmarks
    rw [hsame]
    exact hchain

/-- Of two neighbouring lexemes of a separated document that has a value, one is a mark. -/
theorem isChain_of_read_text {value : Json} (hplain : document.IsPlain)
    (hsep : document.Separated) (h : read document.text limit = .ok value) :
    (document.lexemes.map Lexeme.isMark).IsChain fun a b => a = true ∨ b = true := by
  have hsame : (tokens document.text).map (fun t => t.token.isMark) =
      document.lexemes.map Lexeme.isMark := by
    have hmap := congrArg (List.map Token.isMark) (hplain.map_token_tokens hsep)
    have hmark : Token.isMark ∘ Lexeme.token = Lexeme.isMark := funext Lexeme.isMark_token
    rw [List.map_map, List.map_map, hmark] at hmap
    exact hmap
  exact hsame ▸ (isChain_of_read h).2

end Document

/-! ## Numbers that are too long -/

theorem tokens_lexeme (lexeme : Lexeme) : tokens lexeme.text = [⟨0, lexeme.token⟩] := by
  obtain ⟨c, tail, htext, ⟨hspace, -⟩, hread⟩ := lexeme.readsAs_token
  obtain ⟨stop, hstop⟩ := hread 0 [] (.inr (by simp [Ends]))
  rw [List.append_nil] at hstop
  have hend : tokensFrom stop [] = [] := by rw [tokensFrom]
  rw [htext, tokens, tokensFrom, if_neg (by simp [hspace]), hstop]
  simp only [hend]

theorem readNumber?_of_isWhole {s : Text} (h : IsWhole s) (hlong : digitLimit < s.length) :
    readNumber? s = some (.hugeNumber s.length, []) := by
  have hunsigned : IsUnsigned s := ⟨s, [], [], h, .inl rfl, .inl rfl, by simp⟩
  have hwhole : readWhole? s = some (s, []) := by
    have happend : readWhole? (s ++ []) = some (s, []) := readWhole?_append h (by simp)
    rwa [List.append_nil] at happend
  have hsign : readNumber? s = readUnsigned? false s := by
    obtain ⟨c, tail, rfl, hc⟩ := hunsigned.exists_cons
    rw [readNumber?]
    rintro rest ⟨rfl, -⟩
    exact absurd hc (by decide)
  simp [hsign, readUnsigned?, hwhole, readFraction, readExponent, hlong]

/-- A whole number with too many digits is refused. -/
theorem read_of_isWhole {limit : Nat} {s : Text} (h : IsWhole s) (hlong : digitLimit < s.length) :
    read s limit = .error (.tooManyDigits s.length) := by
  have hunsigned : IsUnsigned s := ⟨s, [], [], h, .inl rfl, .inl rfl, by simp⟩
  have hnumber : IsNumber s := ⟨[], s, .inl rfl, hunsigned, rfl⟩
  obtain ⟨c, tail, rfl, hc⟩ := hunsigned.exists_cons
  have hquote : c ≠ quotationMark := by
    rintro rfl
    exact absurd hc (by decide)
  have hword : readWord? (c :: tail) = none := by
    have happend := readWord?_of_isNumber hnumber []
    rwa [List.append_nil] at happend
  have htoken : (Lexeme.number (c :: tail) hnumber).token = .hugeNumber (c :: tail).length := by
    obtain ⟨stop, hstop⟩ := readToken_of_read (mark?_of_isDigit hc) hquote 0
      (by rw [hword, Option.none_or, readNumber?_of_isWhole h hlong])
    rw [Lexeme.token, Lexeme.text]
    simp only [hstop]
  have htokens := tokens_lexeme (.number (c :: tail) hnumber)
  rw [htoken] at htokens
  have hascii : ∀ d ∈ (c :: tail).head?, d.toNat ≠ 0xFEFF := by
    simp only [isDigit, Bool.and_eq_true, decide_eq_true_eq] at hc
    simp
    omega
  have hall : readAll limit (c :: tail) = .error (.inr (.tooManyDigits (c :: tail).length)) := by
    rw [Document.readAll_of_head hascii]
    simp only [Lexeme.text] at htokens
    rw [htokens]
    rfl
  rw [read, hall]

end EditorTabs.Json
