import EditorTabs.Decimal.Notation
import EditorTabs.Proofs.Decimal.Shortest
import EditorTabs.Proofs.Json.Number

/-!
# What a written number says

A written number falls into a whole part, a fraction and an exponent, as one that is read does, and
these give back the value of the decimal that was written.
-/
namespace EditorTabs.Decimal

open Json (digitsValue isDigit IsDigits IsWhole EndsNumber)

variable {n : Nat} {ds es rest : Text}

/-! ## Digits -/

theorem digitsValue_append (ds es : Text) :
    digitsValue (ds ++ es) = digitsValue ds * 10 ^ es.length + digitsValue es := by
  have hfrom (n : Nat) : es.foldl (fun n d => n * 10 + (d.toNat - 48)) n =
      n * 10 ^ es.length + digitsValue es := by
    induction es generalizing n with
    | nil => simp [digitsValue]
    | cons d es ih =>
      rw [digitsValue, List.foldl_cons, List.foldl_cons, ih, ih (0 * 10 + (d.toNat - 48)),
        List.length_cons]
      ring
  rw [digitsValue, List.foldl_append, hfrom]
  rfl

theorem digitsValue_replicate_zero (count : Nat) : digitsValue (List.replicate count zero) = 0 := by
  induction count with
  | zero => rfl
  | succ count ih =>
    rw [List.replicate_succ, ← List.singleton_append, digitsValue_append, ih]
    simp [digitsValue, CodePoint.toNat]

theorem isDigit_of_mem_replicate {count : Nat} :
    ∀ c ∈ List.replicate count zero, isDigit c = true := by
  intro c hc
  rw [List.eq_of_mem_replicate hc]
  rfl

theorem digitsValue_ofNat (n : Nat) : digitsValue (Text.ofNat n) = n := by
  have hvalue := Nat.ofDigitChars_toDigits (n := n) (by omega : 1 < 10) (Nat.le_refl 10)
  rw [Nat.ofDigitChars] at hvalue
  simp only [digitsValue, Text.ofNat, List.foldl_map, CodePoint.toNat]
  simpa only [Nat.mul_comm, Char.reduceToNat] using hvalue

theorem isDigit_of_mem_ofNat : ∀ c ∈ Text.ofNat n, isDigit c = true := by
  intro c hc
  obtain ⟨d, hd, rfl⟩ := List.mem_map.mp hc
  have hdigit := Nat.isDigit_of_mem_toDigits (by omega) (Nat.le_refl 10) hd
  rw [Char.isDigit_iff_toNat] at hdigit
  rw [isDigit, Bool.and_eq_true, decide_eq_true_eq, decide_eq_true_eq]
  exact hdigit

theorem ofNat_ne_nil (n : Nat) : Text.ofNat n ≠ [] := by
  intro hnil
  have hlength := congrArg List.length hnil
  rw [Text.ofNat, List.length_map, List.length_nil] at hlength
  exact absurd hlength (Nat.pos_iff_ne_zero.mp Nat.length_toDigits_pos)

theorem ofNat_inj {m : Nat} : Text.ofNat m = Text.ofNat n ↔ m = n :=
  ⟨fun h => by rw [← digitsValue_ofNat m, h, digitsValue_ofNat], congrArg Text.ofNat⟩

theorem head?_ofNat (hn : 0 < n) : (Text.ofNat n).head? ≠ some zero := by
  induction n using Nat.strongRecOn with
  | _ n ih =>
    rw [Text.ofNat, Nat.toDigits_eq_if (by omega)]
    split
    · next hlt =>
      have hdigit : ∀ d < 10, 0 < d → CodePoint.char d.digitChar ≠ zero := by decide
      simpa using hdigit n hlt hn
    · next hle =>
      have hrest := ih (n / 10) (by omega) (by omega)
      have hne := ofNat_ne_nil (n / 10)
      rw [Text.ofNat] at hrest hne
      rwa [List.map_append, List.head?_append_of_ne_nil _ hne]

/-! ## Significant digits -/

theorem significantDigits_ne_nil (n : Nat) : significantDigits n ≠ [] := by
  unfold significantDigits
  split
  · simp
  · next hne => exact hne

/-- The digits of a positive number are its significant ones and zeros. -/
theorem exists_ofNat_eq_significantDigits_append (hn : 0 < n) :
    ∃ count, Text.ofNat n = significantDigits n ++ List.replicate count zero := by
  let trailing := (Text.ofNat n).reverse.takeWhile fun c => c = zero
  let leading := (Text.ofNat n).reverse.dropWhile fun c => c = zero
  have hzeros : trailing = List.replicate trailing.length zero :=
    List.eq_replicate_of_mem fun c hc => by simpa using List.mem_takeWhile_imp hc
  have hofNat : Text.ofNat n = leading.reverse ++ List.replicate trailing.length zero := by
    rw [← List.reverse_replicate, ← hzeros, ← List.reverse_append,
      List.takeWhile_append_dropWhile, List.reverse_reverse]
  refine ⟨trailing.length, ?_⟩
  rw [significantDigits]
  split
  · next hnil =>
    -- The digits were all zeros.
    have hvalue := digitsValue_ofNat n
    rw [hofNat, hnil, List.nil_append, digitsValue_replicate_zero] at hvalue
    omega
  · exact hofNat

theorem isDigit_of_mem_significantDigits (hn : 0 < n) :
    ∀ c ∈ significantDigits n, isDigit c = true := by
  obtain ⟨count, hofNat⟩ := exists_ofNat_eq_significantDigits_append hn
  exact fun c hc => isDigit_of_mem_ofNat (n := n) c (hofNat ▸ List.mem_append_left _ hc)

theorem head?_significantDigits (hn : 0 < n) : (significantDigits n).head? ≠ some zero := by
  obtain ⟨count, hofNat⟩ := exists_ofNat_eq_significantDigits_append hn
  have hhead := head?_ofNat hn
  rwa [hofNat, List.head?_append_of_ne_nil _ (significantDigits_ne_nil n)] at hhead

/-! ## The parts -/

/-- The digits of an exponent stand behind its sign. -/
theorem exists_exponentText_eq (k : Int) : ∃ digits, IsDigits digits ∧
    digitsValue digits = k.natAbs ∧ exponentText k = (if k < 0 then "-" else "+") ++ digits := by
  by_cases hshort : (Text.ofNat k.natAbs).length < 2
  · refine ⟨zero :: Text.ofNat k.natAbs, ⟨by simp, ?_⟩, ?_,
      by simp only [exponentText, if_pos hshort]⟩
    · exact List.forall_mem_cons.mpr ⟨rfl, isDigit_of_mem_ofNat⟩
    · rw [← List.singleton_append, digitsValue_append, digitsValue_ofNat]
      simp [digitsValue, CodePoint.toNat]
  · exact ⟨Text.ofNat k.natAbs, ⟨ofNat_ne_nil _, isDigit_of_mem_ofNat⟩, digitsValue_ofNat _,
      by simp only [exponentText, if_neg hshort]⟩

theorem isExponent_exponentText (k : Int) : Json.IsExponent ("e" ++ exponentText k) := by
  obtain ⟨digits, hdigits, -, heq⟩ := exists_exponentText_eq k
  refine .inr ⟨.char 'e', Text.ofString (if k < 0 then "-" else "+"), digits, by decide, ?_,
    hdigits, by rw [heq]; rfl⟩
  split
  · exact .inr (.inl rfl)
  · exact .inr (.inr rfl)

theorem readExponent_exponentText (k : Int) :
    Json.readExponent ("e" ++ exponentText k) = (some k, []) := by
  obtain ⟨digits, ⟨hne, hdigits⟩, hvalue, heq⟩ := exists_exponentText_eq k
  have hsplit : Json.splitDigits digits = (digits, []) := by
    have happend : Json.splitDigits (digits ++ []) = (digits, []) :=
      Json.splitDigits_append hdigits (by simp)
    rwa [List.append_nil] at happend
  have hsign : Json.readSign (exponentText k) = (decide (k < 0), digits) := by
    rw [heq]
    by_cases hneg : k < 0
    · rw [if_pos hneg, decide_eq_true hneg]
      rfl
    · rw [if_neg hneg, decide_eq_false hneg]
      rfl
  have hsigned : (if decide (k < 0) then -(k.natAbs : Int) else k.natAbs) = k := by
    split
    · next hneg =>
      have := of_decide_eq_true hneg
      omega
    · next hneg =>
      have := of_decide_eq_false (Bool.eq_false_of_not_eq_true hneg)
      omega
  change Json.readExponent (.char 'e' :: exponentText k) = _
  rw [Json.readExponent, if_pos (.inl rfl), hsign]
  simp only [hsplit, hvalue, hsigned]

/-- A text spells a value by its whole part and a fraction or an exponent or both. -/
inductive Spells : Text → ℚ → Prop
  | parts {whole fraction exponent : Text} {k : Int} (hwhole : IsWhole whole)
      (hfraction : Json.IsFraction fraction)
      (hexponent : exponent = [] ∧ k = 0 ∨ exponent = "e" ++ exponentText k)
      (hreal : fraction ≠ [] ∨ exponent ≠ []) :
      Spells (whole ++ (fraction ++ exponent))
        (Numeral.value ⟨digitsValue (whole ++ fraction.drop 1), k - (fraction.drop 1).length⟩)

def Numeral.ofText? (s : Text) : Option Numeral := do
  let (whole, afterWhole) ← Json.readWhole? s
  let (fraction, afterFraction) := Json.readFraction afterWhole
  let exponent := (Json.readExponent afterFraction).1.getD 0
  return ⟨digitsValue (whole ++ fraction), exponent - fraction.length⟩

section Spells

variable {s : Text} {x y : ℚ}

theorem Spells.value_eq (h : Spells s x) : (Numeral.ofText? s).map Numeral.value = some x := by
  obtain ⟨hwhole, hfraction, hexponent, -⟩ := h
  next whole fraction exponent k =>
  have hread : (Json.readExponent exponent).1.getD 0 = k := by
    rcases hexponent with ⟨rfl, rfl⟩ | rfl
    · rfl
    · rw [readExponent_exponentText]
      rfl
  have hhead : ∀ c ∈ exponent.head?, isDigit c = false ∧ c ≠ '.' := by
    rcases hexponent with ⟨rfl, -⟩ | rfl
    · simp
    · intro c hc
      obtain rfl : CodePoint.char 'e' = c := by simpa [Text.ofString] using hc
      decide
  have hhead' := Json.head?_fraction_append hfraction fun c hc => (hhead c hc).1
  rw [Numeral.ofText?, Json.readWhole?_append hwhole hhead', Option.bind_eq_bind, Option.bind_some]
  simp only [Json.readFraction_append hfraction hhead, hread]
  rfl

/-- No text spells two values. -/
theorem Spells.unique (h : Spells s x) (h' : Spells s y) : x = y :=
  Option.some.inj (h.value_eq.symm.trans h'.value_eq)

theorem Spells.isUnsigned (h : Spells s x) : Json.IsUnsigned s := by
  obtain ⟨hwhole, hfraction, hexponent, -⟩ := h
  refine ⟨_, _, _, hwhole, hfraction, ?_, rfl⟩
  rcases hexponent with ⟨rfl, -⟩ | rfl
  · exact .inl rfl
  · exact isExponent_exponentText _

/-- What spells a value so is not a row of digits. -/
theorem Spells.exists_mem (h : Spells s x) : ∃ c ∈ s, isDigit c = false := by
  obtain ⟨hwhole, hfraction, hexponent, hreal⟩ := h
  rcases hfraction with rfl | ⟨digits, -, rfl⟩
  · rcases hexponent with ⟨rfl, -⟩ | rfl
    · simp at hreal
    · exact ⟨.char 'e', by simp [Text.ofString], rfl⟩
  · exact ⟨Json.decimalPoint, by simp, rfl⟩

end Spells

/-! ## Both notations -/

/-- The value of digits with the point after the first `place` of them. -/
def placed (ds : Text) (place : Int) : ℚ :=
  digitsValue ds * 10 ^ (place - ds.length)

/-- Zeros behind the digits and the exponent make up for each other. -/
theorem value_eq_placed {d : Numeral} (place : Int) (count : Nat)
    (hdigits : d.digits = digitsValue ds * 10 ^ count)
    (hexponent : d.exponent + count = place - ds.length) : d.value = placed ds place := by
  rw [Numeral.value, placed, hdigits, ← hexponent, zpow_add₀ (by norm_num), zpow_natCast]
  push_cast
  ring

theorem spells_pointed {whole fraction : Text} {place : Int} (count : Nat) (hwhole : IsWhole whole)
    (hfraction : IsDigits fraction)
    (hvalue : digitsValue (whole ++ fraction) = digitsValue ds * 10 ^ count)
    (hplace : (count : Int) - fraction.length = place - ds.length) :
    Spells (whole ++ Json.decimalPoint :: fraction) (placed ds place) := by
  have hspells := Spells.parts hwhole (.inr ⟨fraction, hfraction, rfl⟩) (.inl ⟨rfl, rfl⟩)
    (.inl (List.cons_ne_nil _ _))
  rw [List.append_nil, value_eq_placed place count hvalue] at hspells
  · exact hspells
  · simp only [List.drop_succ_cons, List.drop_zero]
    omega

section Notations

variable (hne : ds ≠ []) (hdigits : ∀ c ∈ ds, isDigit c = true)
  (hhead : ds.head? ≠ some zero)
include hne hdigits hhead

theorem isWhole_take {count : Nat} (hcount : 0 < count) : IsWhole (ds.take count) := by
  refine .inr ⟨⟨?_, fun c hc => hdigits c (List.mem_of_mem_take hc)⟩, ?_⟩
  · simp [hne, Nat.pos_iff_ne_zero.mp hcount]
  · rwa [List.head?_take, if_neg (Nat.pos_iff_ne_zero.mp hcount)]

/-- Wherever the point stands, the digits and the place are told. -/
theorem spells_positional (place : Int) : Spells (positional ds place) (placed ds place) := by
  rw [positional]
  split
  · next hplace =>
    have hzeros : IsDigits (List.replicate place.natAbs zero ++ ds) :=
      ⟨by simp [hne], List.forall_mem_append.mpr ⟨isDigit_of_mem_replicate, hdigits⟩⟩
    have hspells : Spells ("0" ++ Json.decimalPoint :: (List.replicate place.natAbs zero ++ ds))
        (placed ds place) := spells_pointed 0 (.inl rfl) hzeros ?_ ?_
    · simpa [Text.ofString] using hspells
    · rw [digitsValue_append, digitsValue_append, digitsValue_replicate_zero]
      simp [digitsValue, Text.ofString, CodePoint.toNat]
    · rw [List.length_append, List.length_replicate]
      omega
  · next hplace =>
    split
    · next hlong =>
      have hwhole : IsWhole (ds ++ List.replicate (place.natAbs - ds.length) zero) := by
        refine .inr ⟨⟨by simp [hne], ?_⟩, ?_⟩
        · exact List.forall_mem_append.mpr ⟨hdigits, isDigit_of_mem_replicate⟩
        · rwa [List.head?_append_of_ne_nil _ hne]
      have hfraction : IsDigits "0" := ⟨by decide, by decide⟩
      have hspells : Spells (ds ++ List.replicate (place.natAbs - ds.length) zero ++
          Json.decimalPoint :: Text.ofString "0") (placed ds place) :=
        spells_pointed (place.natAbs - ds.length + 1) hwhole hfraction ?_ ?_
      · exact hspells
      · rw [digitsValue_append, digitsValue_append, digitsValue_replicate_zero,
          List.length_replicate, pow_succ]
        simp [digitsValue, Text.ofString, CodePoint.toNat, Nat.mul_assoc]
      · simp [Text.ofString]
        omega
    · next hshort =>
      have hdrop : IsDigits (ds.drop place.natAbs) :=
        ⟨by simp; omega, fun c hc => hdigits c (List.mem_of_mem_drop hc)⟩
      have htake : IsWhole (ds.take place.natAbs) := isWhole_take hne hdigits hhead (by omega)
      have hspells : Spells (ds.take place.natAbs ++ Json.decimalPoint :: ds.drop place.natAbs)
          (placed ds place) := spells_pointed 0 htake hdrop ?_ ?_
      · simpa [Text.ofString] using hspells
      · rw [List.take_append_drop, pow_zero, mul_one]
      · rw [List.length_drop]
        omega

/-- The form with an exponent tells the same. -/
theorem spells_scientific (place : Int) : Spells (scientific ds place) (placed ds place) := by
  have hone := isWhole_take hne hdigits hhead Nat.one_pos
  have hpos := List.length_pos_iff.mpr hne
  have hvalue : digitsValue (ds.take 1 ++ ds.drop 1) = digitsValue ds * 10 ^ 0 := by
    rw [List.take_append_drop, pow_zero, mul_one]
  have hexponent : Text.ofString "e" ++ exponentText (place - 1) ≠ [] := by simp [Text.ofString]
  rw [scientific]
  split
  · next hempty =>
    have hnil : ds.drop 1 = [] := List.isEmpty_iff.mp hempty
    have hspells := Spells.parts hone (.inl rfl) (.inr rfl) (.inr hexponent)
    rw [hnil] at hvalue
    rw [value_eq_placed place 0 hvalue, List.nil_append, ← List.append_assoc] at hspells
    · exact hspells
    · have hlength := congrArg List.length hnil
      rw [List.length_drop, List.length_nil] at hlength
      simp only [List.drop_nil, List.length_nil]
      omega
  · next hcons =>
    have hrest : IsDigits (ds.drop 1) :=
      ⟨fun hnil => hcons (List.isEmpty_iff.mpr hnil),
        fun c hc => hdigits c (List.mem_of_mem_drop hc)⟩
    have hspells := Spells.parts hone (.inr ⟨ds.drop 1, hrest, rfl⟩) (.inr rfl) (.inr hexponent)
    rw [value_eq_placed place 0 hvalue] at hspells
    · simpa [Text.ofString] using hspells
    · simp only [List.drop_succ_cons, List.drop_zero, List.length_drop]
      omega

end Notations

/-- The text of a positive number spells the value of its shortest decimal. -/
theorem spells_writeFinite {m : Nat} (hm : 0 < m) (e : Int) :
    Spells (writeFinite m e) (shortest m e).value := by
  have hpos := digits_pos_of_readsBack hm (readsBack_shortest hm e)
  obtain ⟨count, hofNat⟩ := exists_ofNat_eq_significantDigits_append hpos
  have hne := significantDigits_ne_nil (shortest m e).digits
  have hdigits := isDigit_of_mem_significantDigits hpos
  have hhead := head?_significantDigits hpos
  have hvalue : (shortest m e).value = placed (significantDigits (shortest m e).digits)
      ((Text.ofNat (shortest m e).digits).length + (shortest m e).exponent) := by
    refine value_eq_placed _ count ?_ ?_
    · conv_lhs => rw [← digitsValue_ofNat (shortest m e).digits, hofNat]
      rw [digitsValue_append, digitsValue_replicate_zero, List.length_replicate, add_zero]
    · rw [hofNat, List.length_append, List.length_replicate]
      push_cast
      ring
  rw [hvalue, writeFinite]
  split
  · exact spells_positional hne hdigits hhead _
  · exact spells_scientific hne hdigits hhead _

end EditorTabs.Decimal
