import EditorTabs.Json.Token
import Mathlib.Data.List.TakeWhile

/-!
# Numbers of the format

How a number is spelled: a sign if it is negative, a whole part, and maybe a fraction and an
exponent. Where what follows does not go on with a number, the reading of a number takes its
spelling and nothing more, and whatever it takes is spelled so.
-/
namespace EditorTabs.Json

def IsDigits (s : Text) : Prop :=
  s ≠ [] ∧ ∀ c ∈ s, isDigit c = true

/-- A zero alone, or digits that start with another. -/
def IsWhole (s : Text) : Prop :=
  s = "0" ∨ IsDigits s ∧ s.head? ≠ some '0'

abbrev decimalPoint : CodePoint := '.'

def IsFraction (s : Text) : Prop :=
  s = [] ∨ ∃ digits, IsDigits digits ∧ s = decimalPoint :: digits

def IsExponent (s : Text) : Prop :=
  s = [] ∨ ∃ mark sign digits, mark ∈ Text.ofString "eE" ∧ (sign = [] ∨ sign = "-" ∨ sign = "+") ∧
    IsDigits digits ∧ s = mark :: (sign ++ digits)

def IsUnsigned (s : Text) : Prop :=
  ∃ whole fraction exponent, IsWhole whole ∧ IsFraction fraction ∧ IsExponent exponent ∧
    s = whole ++ (fraction ++ exponent)

def IsNumber (s : Text) : Prop :=
  ∃ sign unsigned, (sign = [] ∨ sign = "-") ∧ IsUnsigned unsigned ∧ s = sign ++ unsigned

/-- A text with which no number goes on. -/
def EndsNumber (rest : Text) : Prop :=
  ∀ c ∈ rest.head?, isDigit c = false ∧ c ∉ Text.ofString ".eE"

variable {s digits rest whole fraction exponent : Text}

theorem splitDigits_append (hdigits : ∀ c ∈ digits, isDigit c = true)
    (hrest : ∀ c ∈ rest.head?, isDigit c = false) :
    splitDigits (digits ++ rest) = (digits, rest) := by
  rw [splitDigits, List.takeWhile_append_of_pos hdigits, List.dropWhile_append_of_pos hdigits]
  cases rest with
  | nil => simp
  | cons c tail =>
    have hc : ¬ isDigit c = true := by simpa using hrest c rfl
    rw [List.takeWhile_cons_of_neg hc, List.dropWhile_cons_of_neg hc, List.append_nil]

theorem splitDigits_eq (cs : Text) :
    (∀ c ∈ (splitDigits cs).1, isDigit c = true) ∧
      cs = (splitDigits cs).1 ++ (splitDigits cs).2 :=
  ⟨fun _ hc => List.mem_takeWhile_imp hc, List.takeWhile_append_dropWhile.symm⟩

/-! ## Whole parts -/

theorem readWhole?_append (hwhole : IsWhole whole)
    (hrest : ∀ c ∈ rest.head?, isDigit c = false) :
    readWhole? (whole ++ rest) = some (whole, rest) := by
  rcases hwhole with rfl | ⟨⟨hne, hdigits⟩, hzero⟩
  · rfl
  · cases whole with
    | nil => exact absurd rfl hne
    | cons c tail =>
      have hc : c ≠ '0' := by simpa using hzero
      have hsplit := splitDigits_append hdigits hrest
      rw [List.cons_append] at hsplit
      rw [List.cons_append, readWhole?, if_neg hc, if_pos (hdigits c List.mem_cons_self), hsplit]

theorem isWhole_of_readWhole? (h : readWhole? s = some (whole, rest)) :
    IsWhole whole ∧ s = whole ++ rest := by
  cases s with
  | nil => simp [readWhole?] at h
  | cons c tail =>
    simp only [readWhole?] at h
    split at h
    · next hc =>
      cases h
      exact ⟨.inl (by rw [hc]; rfl), rfl⟩
    · next hc =>
      split at h
      · next hdigit =>
        obtain ⟨hdigits, heq⟩ := splitDigits_eq (c :: tail)
        simp only [Option.some.injEq] at h
        rw [h] at hdigits heq
        have hhead : whole.head? = some c := by
          have htake : whole = (c :: tail).takeWhile isDigit := (congrArg Prod.fst h).symm
          rw [htake, List.takeWhile_cons_of_pos hdigit, List.head?_cons]
        refine ⟨.inr ⟨⟨?_, hdigits⟩, ?_⟩, heq⟩
        · rintro rfl
          simp at hhead
        · rw [hhead]
          simpa using hc
      · cases h

/-! ## Fractions -/

theorem readFraction_append (hfraction : IsFraction fraction)
    (hrest : ∀ c ∈ rest.head?, isDigit c = false ∧ c ≠ '.') :
    readFraction (fraction ++ rest) = (fraction.drop 1, rest) := by
  rcases hfraction with rfl | ⟨digits, ⟨hne, hdigits⟩, rfl⟩
  · rw [List.nil_append, readFraction]
    · rfl
    · rintro tail rfl
      exact (hrest _ rfl).2 rfl
  · have hsplit := splitDigits_append hdigits fun c hc => (hrest c hc).1
    rw [List.cons_append, readFraction, hsplit]
    cases digits with
    | nil => exact absurd rfl hne
    | cons c tail => rfl

theorem isFraction_of_readFraction (h : readFraction s = (digits, rest)) :
    ∃ fraction, IsFraction fraction ∧ s = fraction ++ rest := by
  unfold readFraction at h
  split at h
  · next tail =>
    obtain ⟨hdigits, heq⟩ := splitDigits_eq tail
    split at h
    · cases h
      exact ⟨[], .inl rfl, rfl⟩
    · next split hne =>
      rw [h] at hdigits heq hne
      refine ⟨decimalPoint :: digits, .inr ⟨digits, ⟨?_, hdigits⟩, rfl⟩, by rw [heq]; rfl⟩
      rintro rfl
      exact hne _ rfl
  · cases h
    exact ⟨[], .inl rfl, rfl⟩

/-! ## Exponents -/

theorem readExponent_append (hexponent : IsExponent exponent) :
    ∃ value, ∀ rest, EndsNumber rest → readExponent (exponent ++ rest) = (value, rest) := by
  rcases hexponent with rfl | ⟨mark, sign, digits, hmark, hsign, ⟨hne, hdigits⟩, rfl⟩
  · refine ⟨none, fun rest hrest => ?_⟩
    cases rest with
    | nil => rfl
    | cons c tail =>
      have hc : ¬ (c = 'e' ∨ c = 'E') := by
        have := (hrest c rfl).2
        simp only [Text.ofString] at this
        simp_all
      rw [List.nil_append, readExponent, if_neg hc]
  · have hmark' : mark = 'e' ∨ mark = 'E' := by simpa [Text.ofString] using hmark
    obtain ⟨first, tail, rfl⟩ := List.exists_cons_of_ne_nil hne
    have hfirst : isDigit first = true := hdigits first List.mem_cons_self
    obtain ⟨negative, hread⟩ : ∃ negative, ∀ rest,
        readSign (sign ++ (first :: tail ++ rest)) = (negative, first :: tail ++ rest) := by
      rcases hsign with rfl | rfl | rfl
      · refine ⟨false, fun rest => ?_⟩
        rw [List.nil_append, List.cons_append, readSign]
        · rintro _ heq
          rw [(List.cons.inj heq).1] at hfirst
          exact absurd hfirst (by decide)
        · rintro _ heq
          rw [(List.cons.inj heq).1] at hfirst
          exact absurd hfirst (by decide)
      · exact ⟨true, fun rest => rfl⟩
      · exact ⟨false, fun rest => rfl⟩
    refine ⟨some (if negative then -(digitsValue (first :: tail) : Int)
      else digitsValue (first :: tail)), fun rest hrest => ?_⟩
    have hsplit := splitDigits_append hdigits fun c hc => (hrest c hc).1
    rw [List.cons_append, readExponent, if_pos hmark', List.append_assoc, hread]
    simp only [hsplit]

theorem readSign_eq (s : Text) :
    ∃ sign : Text, (sign = [] ∨ sign = "-" ∨ sign = "+") ∧ s = sign ++ (readSign s).2 := by
  unfold readSign
  split
  · exact ⟨"-", .inr (.inl rfl), rfl⟩
  · exact ⟨"+", .inr (.inr rfl), rfl⟩
  · exact ⟨[], .inl rfl, rfl⟩

theorem isExponent_of_readExponent {value : Option Int} (h : readExponent s = (value, rest)) :
    ∃ exponent, IsExponent exponent ∧ s = exponent ++ rest := by
  unfold readExponent at h
  split at h
  · cases h
    exact ⟨[], .inl rfl, rfl⟩
  · next mark tail =>
    split at h
    · next hmark =>
      obtain ⟨sign, hsign, htail⟩ := readSign_eq tail
      obtain ⟨hdigits, heq⟩ := splitDigits_eq (readSign tail).2
      simp only at h
      split at h
      · cases h
        exact ⟨[], .inl rfl, rfl⟩
      · next digits after hne hsplit =>
        cases h
        rw [hsplit] at hdigits heq
        have hmark' : mark ∈ Text.ofString "eE" := by simpa [Text.ofString] using hmark
        refine ⟨mark :: (sign ++ digits), .inr ⟨mark, sign, digits, hmark', hsign,
          ⟨hne, hdigits⟩, rfl⟩, ?_⟩
        rw [htail, heq]
        simp
    · cases h
      exact ⟨[], .inl rfl, rfl⟩

/-! ## Numbers -/

inductive IsNumeral : Token → Prop
  | scalar (value : Json) : IsNumeral (.scalar value)
  | huge (digits : Nat) : IsNumeral (.hugeNumber digits)

theorem head?_exponent_append (hexponent : IsExponent exponent) (hrest : EndsNumber rest) :
    ∀ c ∈ (exponent ++ rest).head?, isDigit c = false ∧ c ≠ decimalPoint := by
  intro c hc
  rcases hexponent with rfl | ⟨mark, sign, digits, hmark, -, -, rfl⟩
  · refine ⟨(hrest c hc).1, ?_⟩
    rintro rfl
    exact (hrest _ hc).2 (by decide)
  · obtain rfl : mark = c := by simpa using hc
    have hmark' : mark = 'e' ∨ mark = 'E' := by simpa [Text.ofString] using hmark
    rcases hmark' with rfl | rfl <;> decide

theorem head?_fraction_append (hfraction : IsFraction fraction)
    (hrest : ∀ c ∈ rest.head?, isDigit c = false) :
    ∀ c ∈ (fraction ++ rest).head?, isDigit c = false := by
  intro c hc
  rcases hfraction with rfl | ⟨digits, -, rfl⟩
  · exact hrest c hc
  · obtain rfl : decimalPoint = c := by simpa using hc
    decide

theorem IsUnsigned.exists_cons (h : IsUnsigned s) : ∃ c tail, s = c :: tail ∧ isDigit c = true := by
  obtain ⟨whole, fraction, exponent, hwhole, -, -, rfl⟩ := h
  rcases hwhole with rfl | ⟨⟨hne, hdigits⟩, -⟩
  · exact ⟨_, _, rfl, by decide⟩
  · obtain ⟨c, tail, rfl⟩ := List.exists_cons_of_ne_nil hne
    exact ⟨c, _, rfl, hdigits c List.mem_cons_self⟩

theorem readUnsigned?_append (negative : Bool) (h : IsUnsigned s) :
    ∃ token, ∀ rest, EndsNumber rest → readUnsigned? negative (s ++ rest) = some (token, rest) := by
  obtain ⟨whole, fraction, exponent, hwhole, hfraction, hexponent, rfl⟩ := h
  obtain ⟨value, hvalue⟩ := readExponent_append hexponent
  -- The three parts are the same for every rest, and the token is made of them.
  have hparts (rest : Text) (hrest : EndsNumber rest) :
      readWhole? (whole ++ (fraction ++ (exponent ++ rest))) =
          some (whole, fraction ++ (exponent ++ rest)) ∧
        readFraction (fraction ++ (exponent ++ rest)) = (fraction.drop 1, exponent ++ rest) := by
    have hhead := head?_exponent_append hexponent hrest
    have hhead' := head?_fraction_append hfraction fun c hc => (hhead c hc).1
    exact ⟨readWhole?_append hwhole hhead', readFraction_append hfraction hhead⟩
  by_cases hint : fraction.drop 1 = [] ∧ value = none
  · by_cases hlimit : digitLimit < whole.length
    · refine ⟨.hugeNumber whole.length, fun rest hrest => ?_⟩
      obtain ⟨hread, hread'⟩ := hparts rest hrest
      simp [readUnsigned?, hread, hread', hvalue rest hrest, hint, hlimit]
    · refine ⟨.scalar (.int (if negative then -(digitsValue whole : Int)
        else digitsValue whole)), fun rest hrest => ?_⟩
      obtain ⟨hread, hread'⟩ := hparts rest hrest
      simp [readUnsigned?, hread, hread', hvalue rest hrest, hint, hlimit]
  · refine ⟨.scalar (.real (.ofDecimal negative (digitsValue (whole ++ fraction.drop 1))
      (value.getD 0 - (fraction.drop 1).length))), fun rest hrest => ?_⟩
    obtain ⟨hread, hread'⟩ := hparts rest hrest
    simp only [readUnsigned?, List.append_assoc, hread, hread', hvalue rest hrest,
      Option.bind_eq_bind, Option.bind_some, if_neg hint]
    rfl

theorem isUnsigned_of_readUnsigned? {negative : Bool} {token : Token}
    (h : readUnsigned? negative s = some (token, rest)) :
    IsNumeral token ∧ ∃ unsigned, IsUnsigned unsigned ∧ s = unsigned ++ rest := by
  simp only [readUnsigned?, Option.bind_eq_bind, Option.bind_eq_some_iff] at h
  obtain ⟨⟨whole, afterWhole⟩, hread, h⟩ := h
  obtain ⟨hwhole, rfl⟩ := isWhole_of_readWhole? hread
  cases hfraction : readFraction afterWhole with
  | mk fractionDigits afterFraction =>
    obtain ⟨fraction, hfraction', rfl⟩ := isFraction_of_readFraction hfraction
    cases hexponent : readExponent afterFraction with
    | mk value afterExponent =>
      obtain ⟨exponent, hexponent', rfl⟩ := isExponent_of_readExponent hexponent
      have hspelled : IsUnsigned (whole ++ (fraction ++ exponent)) :=
        ⟨whole, fraction, exponent, hwhole, hfraction', hexponent', rfl⟩
      simp only [hfraction, hexponent] at h
      have hrest : rest = afterExponent ∧ IsNumeral token := by
        split at h
        · split at h
          · cases h
            exact ⟨rfl, .huge _⟩
          · cases h
            exact ⟨rfl, .scalar _⟩
        · cases h
          exact ⟨rfl, .scalar _⟩
      obtain ⟨rfl, htoken⟩ := hrest
      exact ⟨htoken, _, hspelled, by simp⟩

theorem IsNumber.exists_cons (h : IsNumber s) :
    ∃ c tail, s = c :: tail ∧
      (isDigit c = true ∨ c = '-' ∧ ∃ d ∈ tail.head?, isDigit d = true) := by
  obtain ⟨sign, unsigned, hsign, hunsigned, rfl⟩ := h
  obtain ⟨c, tail, rfl, hdigit⟩ := hunsigned.exists_cons
  rcases hsign with rfl | rfl
  · exact ⟨c, tail, rfl, .inl hdigit⟩
  · exact ⟨'-', c :: tail, rfl, .inr ⟨rfl, c, rfl, hdigit⟩⟩

theorem IsWhole.forall_isDigit (h : IsWhole s) : ∀ c ∈ s, isDigit c = true := by
  rcases h with rfl | ⟨⟨-, hdigits⟩, -⟩
  · decide
  · exact hdigits

theorem IsFraction.forall_mem (h : IsFraction s) :
    ∀ c ∈ s, isDigit c = true ∨ c ∈ Text.ofString "-+.eE" := by
  rcases h with rfl | ⟨digits, ⟨-, hdigits⟩, rfl⟩
  · simp
  · intro c hc
    rcases List.mem_cons.mp hc with rfl | hc
    · exact .inr (by decide)
    · exact .inl (hdigits c hc)

theorem IsExponent.forall_mem (h : IsExponent s) :
    ∀ c ∈ s, isDigit c = true ∨ c ∈ Text.ofString "-+.eE" := by
  rcases h with rfl | ⟨mark, sign, digits, hmark, hsign, ⟨-, hdigits⟩, rfl⟩
  · simp
  · have hmarks : ∀ c ∈ Text.ofString "eE", c ∈ Text.ofString "-+.eE" := by decide
    have hsigns : ∀ c ∈ sign, c ∈ Text.ofString "-+.eE" := by
      rcases hsign with rfl | rfl | rfl <;> decide
    intro c hc
    simp only [List.mem_cons, List.mem_append] at hc
    rcases hc with rfl | hc | hc
    · exact .inr (hmarks c hmark)
    · exact .inr (hsigns c hc)
    · exact .inl (hdigits c hc)

/-- Numbers have no other code points than digits, signs, points and marks of exponents. -/
theorem IsNumber.forall_mem (h : IsNumber s) :
    ∀ c ∈ s, isDigit c = true ∨ c ∈ Text.ofString "-+.eE" := by
  obtain ⟨sign, unsigned, hsign, ⟨whole, fraction, exponent, hwhole, hfraction, hexponent, rfl⟩,
    rfl⟩ := h
  have hsigns : ∀ c ∈ sign, c ∈ Text.ofString "-+.eE" := by
    rcases hsign with rfl | rfl <;> decide
  intro c hc
  simp only [List.mem_append] at hc
  rcases hc with hc | hc | hc | hc
  · exact .inr (hsigns c hc)
  · exact .inl (hwhole.forall_isDigit c hc)
  · exact hfraction.forall_mem c hc
  · exact hexponent.forall_mem c hc

theorem readNumber?_append (h : IsNumber s) :
    ∃ token, ∀ rest, EndsNumber rest → readNumber? (s ++ rest) = some (token, rest) := by
  obtain ⟨sign, unsigned, hsign, hunsigned, rfl⟩ := h
  rcases hsign with rfl | rfl
  · obtain ⟨token, htoken⟩ := readUnsigned?_append false hunsigned
    obtain ⟨c, tail, rfl, hdigit⟩ := hunsigned.exists_cons
    refine ⟨token, fun rest hrest => ?_⟩
    rw [List.nil_append, List.cons_append, readNumber?]
    · exact htoken rest hrest
    · rintro _ heq
      rw [(List.cons.inj heq).1] at hdigit
      exact absurd hdigit (by decide)
  · obtain ⟨token, htoken⟩ := readUnsigned?_append true hunsigned
    exact ⟨token, fun rest hrest => htoken rest hrest⟩

/-- What is read as a number is spelled as one. -/
theorem isNumber_of_readNumber? {token : Token} (h : readNumber? s = some (token, rest)) :
    IsNumeral token ∧ ∃ number, IsNumber number ∧ s = number ++ rest := by
  unfold readNumber? at h
  split at h
  · obtain ⟨htoken, unsigned, hunsigned, rfl⟩ := isUnsigned_of_readUnsigned? h
    exact ⟨htoken, "-" ++ unsigned, ⟨"-", unsigned, .inr rfl, hunsigned, rfl⟩, rfl⟩
  · obtain ⟨htoken, unsigned, hunsigned, rfl⟩ := isUnsigned_of_readUnsigned? h
    exact ⟨htoken, unsigned, ⟨[], unsigned, .inl rfl, hunsigned, rfl⟩, rfl⟩

end EditorTabs.Json
