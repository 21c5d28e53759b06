import EditorTabs.Json.Writer
import EditorTabs.Proofs.Json.Lexeme
import EditorTabs.Proofs.Text.Utf8
import Mathlib.Data.List.Chain

/-!
# Quoted texts

A text is read back from its quoted form, unless it holds the two halves of a surrogate pair one
after the other: these are read as one character. No text that was read holds such halves.
-/
namespace EditorTabs.Json

abbrev IsHigh (n : Nat) : Prop :=
  0xD800 ≤ n ∧ n < 0xDC00

abbrev IsLow (n : Nat) : Prop :=
  0xDC00 ≤ n ∧ n < 0xE000

/-- A text in which no two halves that follow each other make a pair. -/
def IsJoined (s : Text) : Prop :=
  s.IsChain fun a b => ¬ (IsHigh a.toNat ∧ IsLow b.toNat)

variable {c : CodePoint} {s t rest : Text} {pieces : List Piece} {n : Nat}

/-! ## Units -/

theorem fourHex?_hexDigits (hn : n < 0x10000) : ∃ a b c d, Text.hexDigits 4 n = [a, b, c, d] ∧
    fourHex? a b c d = some n := by
  have hdigit (n : Nat) : Text.hexValue? (Text.hexDigit n) = some (n % 16) := by
    have hall : ∀ d < 16, Text.hexValue? (Text.hexDigit d) = some d := by decide
    have hmod : Text.hexDigit n = Text.hexDigit (n % 16) := by
      rw [Text.hexDigit, Text.hexDigit, Nat.mod_mod]
    rw [hmod]
    exact hall _ (Nat.mod_lt n (by omega))
  refine ⟨_, _, _, _, rfl, ?_⟩
  simp only [fourHex?, hdigit, Option.bind_eq_bind, Option.bind_some, Option.pure_def,
    Option.some.injEq]
  omega

theorem readPieces_unitEscape (start pos : Nat) (hn : n < 0x10000) (hne : rest ≠ []) :
    readPieces start pos (unitEscape n ++ rest) =
      consPiece (.unit n) (readPieces start (pos + 6) rest) := by
  obtain ⟨a, b, c, d, hdigits, hvalue⟩ := fourHex?_hexDigits hn
  rw [unitEscape, hdigits]
  exact readPieces_unit start pos hvalue hne

theorem joinPieces_unit
    (h : IsHigh n → ∀ low, pieces.head? = some (.unit low) → ¬ IsLow low) :
    joinPieces (.unit n :: pieces) = .ofNat n :: joinPieces pieces := by
  cases pieces with
  | nil => rfl
  | cons piece pieces =>
    cases piece with
    | point c => rfl
    | unit low =>
      rw [joinPieces, if_neg]
      rintro ⟨hlow, hhigh, hpair⟩
      exact h ⟨hlow, hhigh⟩ low rfl hpair

/-! ## What is written -/

/-- The four ways in which a code point is written. -/
theorem escapePoint_cases (c : CodePoint) :
    (escapePoint c = [c] ∧ 0x20 ≤ c.toNat ∧ c ≠ quotationMark ∧ c ≠ backslash) ∨
    (∃ letter, escapePoint c = [backslash, letter] ∧ escapes.lookup letter = some c) ∨
    (escapePoint c = unitEscape c.toNat ∧ c.toNat < 0x10000) ∨
    (escapePoint c = unitEscape (0xD800 + (c.toNat - 0x10000) / 0x400) ++
      unitEscape (0xDC00 + (c.toNat - 0x10000) % 0x400) ∧ 0x10000 ≤ c.toNat) := by
  have hnumber (n : Nat) (h : c.toNat = n) : c = .ofNat n := by
    rw [← h, CodePoint.ofNat_toNat]
  unfold escapePoint
  split
  · next hself =>
    refine .inr (.inl ⟨c, rfl, ?_⟩)
    rcases hself with rfl | rfl <;> rfl
  · next hself =>
    obtain ⟨hquote, hback⟩ := not_or.mp hself
    split
    · next hc => exact .inr (.inl ⟨.char 'n', rfl, by rw [hc]; rfl⟩)
    split
    · next hc => exact .inr (.inl ⟨.char 'r', rfl, by rw [hc]; rfl⟩)
    split
    · next hc => exact .inr (.inl ⟨.char 't', rfl, by rw [hc]; rfl⟩)
    split
    · next hc => exact .inr (.inl ⟨.char 'b', rfl, by rw [hnumber 8 hc]; rfl⟩)
    split
    · next hc => exact .inr (.inl ⟨.char 'f', rfl, by rw [hnumber 12 hc]; rfl⟩)
    split
    · next hc => exact .inl ⟨rfl, hc.1, hquote, hback⟩
    split
    · next hc => exact .inr (.inr (.inl ⟨rfl, hc⟩))
    · next hc => exact .inr (.inr (.inr ⟨rfl, Nat.le_of_not_lt hc⟩))

/-- The pieces that a text is written in: the text is read as these, whatever comes after it, they
give back the text, and they start with the second half of a pair only if the text does. -/
structure ReadAs (s : Text) (pieces : List Piece) : Prop where
  read : ∀ start pos rest, ∃ stop, readPieces start pos
    (s.flatMap escapePoint ++ quotationMark :: rest) = .ok (pieces, rest, stop)
  join : joinPieces pieces = s
  head : ∀ low, pieces.head? = some (.unit low) → IsLow low → ∃ c ∈ s.head?, c.toNat = low

theorem readAs_nil : ReadAs [] [] where
  read _ pos _ := ⟨pos + 1, rfl⟩
  join := rfl
  head := by simp

theorem ReadAs.cons_point (h : ReadAs s pieces) (width : Nat)
    (hread : ∀ start pos rest, readPieces start pos (escapePoint c ++ rest) =
      consPiece (.point c) (readPieces start (pos + width) rest)) :
    ReadAs (c :: s) (.point c :: pieces) where
  read start pos rest := by
    obtain ⟨stop, hstop⟩ := h.read start (pos + width) rest
    refine ⟨stop, ?_⟩
    rw [List.flatMap_cons, List.append_assoc, hread, hstop]
    rfl
  join := by rw [joinPieces, h.join]
  head := by simp

theorem toNat_lt (c : CodePoint) : c.toNat < 0x110000 := by
  cases c with
  | char c =>
    have := c.valid
    simp only [UInt32.isValidChar, Nat.isValidChar] at this
    simp only [CodePoint.toNat, Char.toNat]
    omega
  | half index =>
    have := index.isLt
    simp only [CodePoint.toNat]
    omega

theorem ReadAs.cons (h : ReadAs s pieces) (hjoined : IsJoined (c :: s)) :
    ∃ pieces, ReadAs (c :: s) pieces := by
  rcases escapePoint_cases c with ⟨hescape, hc, hquote, hback⟩ | ⟨letter, hescape, hletter⟩ |
    ⟨hescape, hc⟩ | ⟨hescape, hc⟩
  · refine ⟨_, h.cons_point 1 fun start pos rest => ?_⟩
    rw [hescape]
    exact readPieces_plain start pos hc hquote hback rest
  · refine ⟨_, h.cons_point 2 fun start pos rest => ?_⟩
    rw [hescape]
    exact readPieces_letter start pos hletter rest
  · refine ⟨.unit c.toNat :: pieces, ?_, ?_, ?_⟩
    · intro start pos rest
      obtain ⟨stop, hstop⟩ := h.read start (pos + 6) rest
      refine ⟨stop, ?_⟩
      rw [List.flatMap_cons, hescape, List.append_assoc,
        readPieces_unitEscape start pos hc (by simp), hstop]
      rfl
    · rw [joinPieces_unit, h.join, CodePoint.ofNat_toNat]
      intro hhigh low hhead hlow
      obtain ⟨d, hd, rfl⟩ := h.head low hhead hlow
      obtain ⟨tail, rfl⟩ := List.head?_eq_some_iff.mp hd
      exact hjoined.rel ⟨hhigh, hlow⟩
    · intro low hhead _
      obtain rfl : c.toNat = low := by simpa using hhead
      exact ⟨c, rfl, rfl⟩
  · have hlt := toNat_lt c
    refine ⟨.unit (0xD800 + (c.toNat - 0x10000) / 0x400) ::
      .unit (0xDC00 + (c.toNat - 0x10000) % 0x400) :: pieces, ?_, ?_, ?_⟩
    · intro start pos rest
      obtain ⟨stop, hstop⟩ := h.read start (pos + 6 + 6) rest
      refine ⟨stop, ?_⟩
      rw [List.flatMap_cons, hescape, List.append_assoc, List.append_assoc,
        readPieces_unitEscape start pos (by omega) (by simp [unitEscape]),
        readPieces_unitEscape start (pos + 6) (by omega) (by simp), hstop]
      rfl
    · have hnumber : 0x10000 + (0xD800 + (c.toNat - 0x10000) / 0x400 - 0xD800) * 0x400 +
          (0xDC00 + (c.toNat - 0x10000) % 0x400 - 0xDC00) = c.toNat := by omega
      rw [joinPieces, if_pos (by omega), h.join, hnumber, CodePoint.ofNat_toNat]
    · intro low hhead hlow
      have hfirst : 0xD800 + (c.toNat - 0x10000) / 0x400 = low := by simpa using hhead
      omega

/-- A text that holds no pair of halves is read back from its quoted form. -/
theorem exists_readAs (h : IsJoined s) : ∃ pieces, ReadAs s pieces := by
  induction s with
  | nil => exact ⟨[], readAs_nil⟩
  | cons c s ih =>
    obtain ⟨pieces, hpieces⟩ := ih h.of_cons
    exact hpieces.cons h

/-- Two texts that are written alike are the same, and so is what comes after them. -/
theorem writeText_append_inj {rest' : Text} (hs : IsJoined s) (ht : IsJoined t)
    (h : writeText s ++ rest = writeText t ++ rest') : s = t ∧ rest = rest' := by
  obtain ⟨pieces, hpieces⟩ := exists_readAs hs
  obtain ⟨pieces', hpieces'⟩ := exists_readAs ht
  obtain ⟨stop, hread⟩ := hpieces.read 0 0 rest
  obtain ⟨stop', hread'⟩ := hpieces'.read 0 0 rest'
  have hbody : s.flatMap escapePoint ++ quotationMark :: rest =
      t.flatMap escapePoint ++ quotationMark :: rest' := by
    simpa [writeText, Text.ofString] using h
  rw [hbody, hread'] at hread
  simp only [Except.ok.injEq, Prod.mk.injEq] at hread
  obtain ⟨rfl, rfl, -⟩ := hread
  exact ⟨hpieces.join.symm.trans hpieces'.join, rfl⟩

/-! ## What is read -/

/-- A number whose code point is a half is the number of that half. -/
theorem toNat_ofNat_of_half (h : 0xD800 ≤ (CodePoint.ofNat n).toNat ∧
    (CodePoint.ofNat n).toNat < 0xE000) : (CodePoint.ofNat n).toNat = n := by
  unfold CodePoint.ofNat at h ⊢
  split at h
  · next hn =>
    rw [dif_pos hn]
    simp only [CodePoint.toNat]
    omega
  · exact absurd h (CodePoint.not_half_toNat _)

theorem head?_joinPieces (hchars : ∀ c, .point c ∈ pieces → c.IsChar) :
    ∀ c ∈ (joinPieces pieces).head?, IsLow c.toNat → pieces.head? = some (.unit c.toNat) := by
  intro c hc hlow
  fun_induction joinPieces pieces with
  | case1 => simp at hc
  | case2 d rest ih =>
    obtain rfl : d = c := by simpa using hc
    have := (hchars d List.mem_cons_self).not_half
    omega
  | case3 high low rest hpair ih =>
    obtain rfl : CodePoint.ofNat _ = c := by simpa using hc
    have := toNat_ofNat_of_half ⟨by omega, hlow.2⟩
    omega
  | case4 high low rest hpair ih =>
    obtain rfl : CodePoint.ofNat high = c := by simpa using hc
    rw [toNat_ofNat_of_half ⟨by omega, hlow.2⟩]
    rfl
  | case5 value rest hrest ih =>
    obtain rfl : CodePoint.ofNat value = c := by simpa using hc
    rw [toNat_ofNat_of_half ⟨by omega, hlow.2⟩]
    rfl

theorem isJoined_joinPieces (hchars : ∀ c, .point c ∈ pieces → c.IsChar) :
    IsJoined (joinPieces pieces) := by
  have hcons (c : CodePoint) (rest : List Piece) (hrest : ∀ c, .point c ∈ rest → c.IsChar)
      (hjoined : IsJoined (joinPieces rest))
      (hlow : ∀ low, IsHigh c.toNat → IsLow low → rest.head? ≠ some (.unit low)) :
      IsJoined (c :: joinPieces rest) := by
    refine List.isChain_cons.mpr ⟨fun d hd hpair => ?_, hjoined⟩
    exact hlow _ hpair.1 hpair.2 (head?_joinPieces hrest d hd hpair.2)
  fun_induction joinPieces pieces with
  | case1 => exact .nil
  | case2 c rest ih =>
    have hrest : ∀ c, .point c ∈ rest → c.IsChar := fun d hd => hchars d (List.mem_cons_of_mem _ hd)
    refine hcons c rest hrest (ih hrest) fun low hhigh => ?_
    have := (hchars c List.mem_cons_self).not_half
    omega
  | case3 high low rest hpair ih =>
    have hrest : ∀ c, .point c ∈ rest → c.IsChar := fun d hd => hchars d (by simp [hd])
    refine hcons _ rest hrest (ih hrest) fun low' hhigh => ?_
    have := toNat_ofNat_of_half ⟨hhigh.1, by omega⟩
    omega
  | case4 high low rest hpair ih =>
    have hrest : ∀ c, .point c ∈ .unit low :: rest → c.IsChar :=
      fun d hd => hchars d (List.mem_cons_of_mem _ hd)
    refine hcons _ _ hrest (ih hrest) fun low' hhigh hlow hhead => ?_
    obtain rfl : low = low' := by simpa using hhead
    have := toNat_ofNat_of_half ⟨hhigh.1, by omega⟩
    omega
  | case5 value rest hnone ih =>
    have hrest : ∀ c, .point c ∈ rest → c.IsChar := fun d hd => hchars d (List.mem_cons_of_mem _ hd)
    refine hcons _ rest hrest (ih hrest) fun low' hhigh hlow hhead => ?_
    obtain ⟨tail, rfl⟩ := List.head?_eq_some_iff.mp hhead
    exact hnone _ _ rfl

theorem eq_cons_of_consPiece {piece : Piece} {stop : Nat} {r : TextResult}
    (h : consPiece piece r = .ok (pieces, rest, stop)) :
    ∃ tail, pieces = piece :: tail ∧ r = .ok (tail, rest, stop) := by
  cases r with
  | error e => cases h
  | ok r =>
    cases h
    exact ⟨r.1, rfl, rfl⟩

theorem isChar_of_lookup {e : CodePoint} (h : escapes.lookup c = some e) : e.IsChar := by
  have hall : ∀ pair ∈ escapes, pair.2.IsChar := by
    simp only [escapes, List.forall_mem_cons]
    exact ⟨trivial, trivial, trivial, trivial, trivial, trivial, trivial, trivial, by simp⟩
  obtain ⟨before, after, heq, -⟩ := List.lookup_eq_some_iff.mp h
  exact hall (c, e) (heq ▸ List.mem_append_right before List.mem_cons_self)

/-- The pieces of characters are characters and units. -/
theorem isChar_of_readPieces {start pos stop : Nat} (hs : ∀ c ∈ s, c.IsChar)
    (h : readPieces start pos s = .ok (pieces, rest, stop)) :
    ∀ c, .point c ∈ pieces → c.IsChar := by
  fun_induction readPieces start pos s generalizing pieces with
  | case1 => cases h
  | case2 pos tail =>
    cases h
    simp
  | case3 => cases h
  | case4 => cases h
  | case5 pos a b c d tail value hvalue _ ih =>
    obtain ⟨pieces, rfl, hread⟩ := eq_cons_of_consPiece h
    have htail := ih (fun c hc => hs c (by simp [hc])) hread
    exact fun e he => htail e (by simpa using he)
  | case6 => cases h
  | case7 => cases h
  | case8 pos c tail _ _ e he ih =>
    obtain ⟨pieces, rfl, hread⟩ := eq_cons_of_consPiece h
    have htail := ih (fun c hc => hs c (by simp [hc])) hread
    intro d hd
    rcases List.mem_cons.mp hd with heq | hd
    · cases heq
      exact isChar_of_lookup he
    · exact htail d hd
  | case9 => cases h
  | case10 => cases h
  | case11 pos c tail _ _ _ _ _ _ ih =>
    obtain ⟨pieces, rfl, hread⟩ := eq_cons_of_consPiece h
    have htail := ih (fun c hc => hs c (by simp [hc])) hread
    intro d hd
    rcases List.mem_cons.mp hd with heq | hd
    · cases heq
      exact hs c List.mem_cons_self
    · exact htail d hd

end EditorTabs.Json
