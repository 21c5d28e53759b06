import EditorTabs.Proofs.Decimal.Binary64
import EditorTabs.Proofs.Json.Quotation

/-!
# What a written value tells

Where texts hold no pair of halves and numbers have their only form, a value is told by what is
written for it. Scalars are words and numbers, which a mark ends; a text ends with its closing
quotation mark and a container with its closing mark.
-/
namespace EditorTabs.Json

open Decimal

/-- What holds of every value that is read. -/
inductive IsProper : Json → Prop
  | null : IsProper .null
  | bool (value : Bool) : IsProper (.bool value)
  | int (value : Int) : IsProper (.int value)
  | real {value : Binary64} (h : value.IsNormal) : IsProper (.real value)
  | text {value : Text} (h : IsJoined value) : IsProper (.text value)
  | array {items : List Json} (h : ∀ item ∈ items, IsProper item) : IsProper (.array items)
  | object {members : List (Text × Json)} (hnodup : (Assoc.keys members).Nodup)
      (hkeys : ∀ member ∈ members, IsJoined member.1)
      (hvalues : ∀ member ∈ members, IsProper member.2) : IsProper (.object members)

variable {a b : Json} {rest rest' : Text}

/-! ## Numbers -/

abbrev sign (negative : Bool) : Text :=
  Text.ofString (if negative then "-" else "")

/-- A number with its sign and the text behind that. -/
inductive Signed : Json → Bool → Text → Prop
  | int (n : Int) : Signed (.int n) (decide (n < 0)) (Text.ofNat n.natAbs)
  | real (negative : Bool) {mantissa : Nat} {exponent : Int}
      (h : Decimal.IsNormal mantissa exponent) :
      Signed (.real (.finite negative mantissa exponent)) negative (unsignedText mantissa exponent)

section Signed

variable {negative negative' : Bool} {s t : Text}

theorem Signed.write_eq (h : Signed a negative s) : write a = sign negative ++ s := by
  cases h with
  | int n =>
    cases n with
    | ofNat n => rfl
    | negSucc n =>
      rw [decide_eq_true (Int.negSucc_lt_zero n)]
      rfl
  | real negative h => exact write_finite configurationNames _ _ _

theorem isWhole_ofNat (n : Nat) : IsWhole (Text.ofNat n) := by
  by_cases hn : n = 0
  · exact .inl (by rw [hn]; rfl)
  · exact .inr ⟨⟨ofNat_ne_nil n, isDigit_of_mem_ofNat⟩, head?_ofNat (Nat.pos_iff_ne_zero.mpr hn)⟩

theorem Signed.isUnsigned (h : Signed a negative s) : IsUnsigned s := by
  cases h with
  | int n => exact ⟨_, [], [], isWhole_ofNat _, .inl rfl, .inl rfl, (List.append_nil _).symm⟩
  | real negative h => exact (spells_unsignedText _ _).isUnsigned

/-- The text behind the sign tells a whole number from one with a fraction, and each from its
like. -/
theorem Signed.unique (ha : Signed a negative s) (hb : Signed b negative s) : a = b := by
  have hreal (n m : Nat) (e : Int) : Text.ofNat n ≠ unsignedText m e := by
    intro heq
    obtain ⟨c, hc, hdigit⟩ := (spells_unsignedText m e).exists_mem
    rw [← heq] at hc
    exact absurd ((isDigit_of_mem_ofNat c hc).symm.trans hdigit) (by decide)
  generalize hn : negative = negative' at hb
  generalize hs : s = t at hb
  cases ha with
  | int n =>
    cases hb with
    | int n' =>
      have habs := ofNat_inj.mp hs
      have hneg : n < 0 ↔ n' < 0 := decide_eq_decide.mp hn
      congr 1
      omega
    | real negative' h => exact absurd hs (hreal _ _ _)
  | real negative h =>
    cases hb with
    | int n' => exact absurd hs.symm (hreal _ _ _)
    | real negative' h' =>
      obtain ⟨rfl, rfl⟩ := eq_of_unsignedText_eq h h' hs
      rw [hn]

theorem sign_append_inj (hs : IsUnsigned s) (ht : IsUnsigned t)
    (h : sign negative ++ s = sign negative' ++ t) : negative = negative' ∧ s = t := by
  obtain ⟨c, tail, rfl, hc⟩ := hs.exists_cons
  obtain ⟨d, tail', rfl, hd⟩ := ht.exists_cons
  have hminus : isDigit '-' = false := by decide
  cases negative <;> cases negative'
  · exact ⟨rfl, h⟩
  · obtain rfl : c = '-' := (List.cons.inj h).1
    exact absurd (hminus.symm.trans hc) (by decide)
  · obtain rfl : CodePoint.char '-' = d := (List.cons.inj h).1
    exact absurd (hminus.symm.trans hd) (by decide)
  · exact ⟨rfl, (List.cons.inj h).2⟩

theorem Signed.isNumber (h : Signed a negative s) : IsNumber (write a) := by
  refine ⟨sign negative, s, ?_, h.isUnsigned, h.write_eq⟩
  cases negative
  · exact .inl rfl
  · exact .inr rfl

end Signed

/-! ## Scalars -/

def IsScalar : Json → Prop
  | .null | .bool _ | .int _ | .real _ => True
  | .text _ | .array _ | .object _ => False

/-- A scalar is a word or a number. -/
theorem word_or_signed (ha : IsProper a) (hscalar : IsScalar a) :
    (write a, a) ∈ words ∨ ∃ negative s, Signed a negative s := by
  have hword (value : Json) (before after : List (Text × Json))
      (h : words = before ++ (write value, value) :: after) : (write value, value) ∈ words :=
    h ▸ List.mem_append_right before List.mem_cons_self
  cases ha with
  | null => exact .inl (hword _ [] _ rfl)
  | bool value =>
    cases value
    · exact .inl (hword _ [_, _] _ rfl)
    · exact .inl (hword _ [_] _ rfl)
  | int n => exact .inr ⟨_, _, .int n⟩
  | real h =>
    cases h with
    | finite negative h => exact .inr ⟨_, _, .real negative h⟩
    | infinite negative =>
      cases negative
      · exact .inl (hword _ [_, _, _, _] _ rfl)
      · exact .inl (hword _ [_, _, _, _, _] _ rfl)
    | nan => exact .inl (hword _ [_, _, _] _ rfl)
  | text | array | object => exact hscalar.elim

theorem eq_of_write_scalar (ha : IsProper a) (hb : IsProper b) (hscalar : IsScalar a)
    (hscalar' : IsScalar b) (h : write a = write b) : a = b := by
  rcases word_or_signed ha hscalar with hword | ⟨negative, s, hsigned⟩ <;>
    rcases word_or_signed hb hscalar' with hword' | ⟨negative', t, hsigned'⟩
  · have hread := readWord?_append hword []
    rw [h, readWord?_append hword' []] at hread
    simp only [Option.some.injEq, Prod.mk.injEq, Token.scalar.injEq, and_true] at hread
    exact hread.symm
  · have hread := readWord?_append hword []
    rw [h, readWord?_of_isNumber hsigned'.isNumber] at hread
    cases hread
  · have hread := readWord?_append hword' []
    rw [← h, readWord?_of_isNumber hsigned.isNumber] at hread
    cases hread
  · rw [hsigned.write_eq, hsigned'.write_eq] at h
    obtain ⟨rfl, rfl⟩ := sign_append_inj hsigned.isUnsigned hsigned'.isUnsigned h
    exact hsigned.unique hsigned'

/-- No mark and no quotation mark stands in a scalar. -/
theorem notMem_of_scalar (ha : IsProper a) (hscalar : IsScalar a) :
    write a ≠ [] ∧ ∀ c ∈ write a, c ∉ quotationMark :: delimiters := by
  rcases word_or_signed ha hscalar with hword | ⟨negative, s, hsigned⟩
  · have hall : ∀ word ∈ words.map Prod.fst,
        word ≠ [] ∧ ∀ c ∈ word, c ∉ quotationMark :: delimiters := by decide
    exact hall _ (List.mem_map_of_mem hword)
  · have hnumber := hsigned.isNumber
    refine ⟨?_, fun c hc => ?_⟩
    · obtain ⟨c, tail, heq, -⟩ := hnumber.exists_cons
      simp [heq]
    · have hall : ∀ d ∈ quotationMark :: delimiters,
          isDigit d = false ∧ d ∉ Text.ofString "-+.eE" := by decide
      intro hmem
      rcases hnumber.forall_mem c hc with hdigit | hpart
      · exact absurd ((hall c hmem).1.symm.trans hdigit) (by decide)
      · exact (hall c hmem).2 hpart

/-- What stands before the first mark or blank. -/
theorem append_inj_of_ends {s t : Text} (hs : ∀ c ∈ s, c ∉ delimiters)
    (ht : ∀ c ∈ t, c ∉ delimiters) (hrest : Ends rest) (hrest' : Ends rest')
    (h : s ++ rest = t ++ rest') : s = t ∧ rest = rest' := by
  have htake {s rest : Text} (hs : ∀ c ∈ s, c ∉ delimiters) (hrest : Ends rest) :
      (s ++ rest).takeWhile (fun c => c ∉ delimiters) = s := by
    rw [List.takeWhile_append_of_pos (by simpa using hs)]
    cases rest with
    | nil => simp
    | cons c tail =>
      have hc : c ∈ delimiters := mem_delimiters (hrest c rfl)
      rw [List.takeWhile_cons_of_neg (by simpa using hc), List.append_nil]
  have heq : s = t := by rw [← htake hs hrest, h, htake ht hrest']
  subst heq
  exact ⟨rfl, List.append_cancel_left h⟩

/-! ## Lists of parts -/

section Parts

variable {α : Type} {enc : α → Text} {xs ys : List α} {closing : CodePoint}

theorem separated_cons (separator part : Text) (parts : List Text) :
    Text.separated separator (part :: parts) = part ++ parts.flatMap (separator ++ ·) := by
  induction parts generalizing part with
  | nil => simp [Text.separated]
  | cons next parts ih =>
    rw [Text.separated, ih, List.flatMap_cons]
    · simp
    · simp

theorem ends_of_mark? (h : (mark? closing).isSome = true) (rest : Text) :
    Ends (closing :: rest) := by
  intro c hc
  obtain rfl : closing = c := by simpa using hc
  exact .inr h

/-- What comes after a part of a list ends it: a comma or the closing mark. -/
theorem ends_parts (h : (mark? closing).isSome = true) (xs : List α) (rest : Text) :
    Ends (xs.flatMap (fun x => Text.ofString ", " ++ enc x) ++ closing :: rest) := by
  cases xs with
  | nil => exact ends_of_mark? h rest
  | cons x xs =>
    have hcomma : (mark? ',').isSome = true := rfl
    exact ends_of_mark? hcomma _

variable (hclosing : (mark? closing).isSome = true) (hcomma : closing ≠ ',')
  (hstart : ∀ x ∈ xs, ∀ y ∈ ys, ∀ rest rest', Ends rest → Ends rest' →
    enc x ++ rest = enc y ++ rest' → x = y ∧ rest = rest')
include hclosing hcomma hstart

theorem tail_inj (h : xs.flatMap (fun x => Text.ofString ", " ++ enc x) ++ closing :: rest =
    ys.flatMap (fun y => Text.ofString ", " ++ enc y) ++ closing :: rest') :
    xs = ys ∧ rest = rest' := by
  induction xs generalizing ys with
  | nil =>
    cases ys with
    | nil => exact ⟨rfl, (List.cons.inj h).2⟩
    | cons y ys => exact absurd (List.cons.inj h).1 hcomma
  | cons x xs ih =>
    cases ys with
    | nil => exact absurd (List.cons.inj h).1.symm hcomma
    | cons y ys =>
      simp only [List.flatMap_cons, List.append_assoc, List.append_cancel_left_eq] at h
      obtain ⟨rfl, htail⟩ := hstart x List.mem_cons_self y List.mem_cons_self _ _
        (ends_parts hclosing xs rest) (ends_parts hclosing ys rest') h
      obtain ⟨rfl, hrest⟩ := ih (fun x hx y hy => hstart x (List.mem_cons_of_mem _ hx) y
        (List.mem_cons_of_mem _ hy)) htail
      exact ⟨rfl, hrest⟩

/-- The parts of a list are told by what is written for them up to the closing mark, if each part
is told by what is written for it and none starts with that mark. -/
theorem separated_inj (hhead : ∀ z ∈ xs ++ ys, ∃ c ∈ (enc z).head?, c ≠ closing)
    (h : Text.separated ", " (xs.map enc) ++ closing :: rest =
      Text.separated ", " (ys.map enc) ++ closing :: rest') : xs = ys ∧ rest = rest' := by
  have hempty (z : α) (zs : List α) (hz : z ∈ xs ++ ys) (rest rest' : Text) :
      closing :: rest ≠ Text.separated ", " ((z :: zs).map enc) ++ closing :: rest' := by
    obtain ⟨c, hc, hne⟩ := hhead z hz
    obtain ⟨tail, htail⟩ := List.head?_eq_some_iff.mp hc
    rw [List.map_cons, separated_cons, htail]
    exact fun heq => hne (List.cons.inj heq).1.symm
  cases xs with
  | nil =>
    cases ys with
    | nil => exact ⟨rfl, (List.cons.inj h).2⟩
    | cons y ys => exact absurd h (hempty y ys (by simp) rest rest')
  | cons x xs =>
    cases ys with
    | nil => exact absurd h.symm (hempty x xs (by simp) rest' rest)
    | cons y ys =>
      simp only [List.map_cons, separated_cons, List.flatMap_map, List.append_assoc] at h
      obtain ⟨rfl, htail⟩ := hstart x List.mem_cons_self y List.mem_cons_self _ _
        (ends_parts hclosing xs rest) (ends_parts hclosing ys rest') h
      obtain ⟨rfl, hrest⟩ := tail_inj hclosing hcomma (fun x hx y hy => hstart x
        (List.mem_cons_of_mem _ hx) y (List.mem_cons_of_mem _ hy)) htail
      exact ⟨rfl, hrest⟩

end Parts

/-! ## Values -/

theorem writeItems_eq_map (items : List Json) : writeItems items = items.map write := by
  induction items with
  | nil => rfl
  | cons item rest ih => rw [writeItems, ih, List.map_cons]

def writeMember (member : Text × Json) : Text :=
  writeText member.1 ++ (Text.ofString ": " ++ write member.2)

theorem writeMembers_eq_map (members : List (Text × Json)) :
    writeMembers members = members.map writeMember := by
  induction members with
  | nil => rfl
  | cons member rest ih =>
    rw [writeMembers, ih, List.map_cons, writeMember, List.append_assoc]

def opening? : Json → Option CodePoint
  | .text _ => some quotationMark
  | .array _ => some '['
  | .object _ => some '\x7b'
  | _ => none

/-- A value starts with its own mark, and a scalar with none. -/
theorem exists_head (ha : IsProper a) : ∃ c, (write a).head? = some c ∧
    (opening? a = some c ∨ opening? a = none ∧ c ∉ quotationMark :: delimiters) := by
  have hscalar (hscalar : IsScalar a) (hopening : opening? a = none) :
      ∃ c, (write a).head? = some c ∧
        (opening? a = some c ∨ opening? a = none ∧ c ∉ quotationMark :: delimiters) := by
    obtain ⟨hne, hchars⟩ := notMem_of_scalar ha hscalar
    obtain ⟨c, tail, hcons⟩ := List.exists_cons_of_ne_nil hne
    exact ⟨c, by rw [hcons]; rfl, .inr ⟨hopening, hchars c (by rw [hcons]; simp)⟩⟩
  cases ha with
  | null | bool | int | real => exact hscalar trivial rfl
  | text | array | object => exact ⟨_, rfl, .inl rfl⟩

theorem opening?_eq (ha : IsProper a) (hb : IsProper b) (h : write a ++ rest = write b ++ rest') :
    opening? a = opening? b := by
  obtain ⟨c, hc, ha'⟩ := exists_head ha
  obtain ⟨d, hd, hb'⟩ := exists_head hb
  have hhead := congrArg List.head? h
  rw [List.head?_append, List.head?_append, hc, hd] at hhead
  obtain rfl : c = d := Option.some.inj hhead
  have hmem (a : Json) (h : opening? a = some c) : c ∈ quotationMark :: delimiters := by
    cases a <;> cases h <;> decide
  rcases ha' with ha' | ⟨ha', hout⟩ <;> rcases hb' with hb' | ⟨hb', hout'⟩
  · rw [ha', hb']
  · exact absurd (hmem a ha') hout'
  · exact absurd (hmem b hb') hout
  · rw [ha', hb']

theorem head_ne_of_closing (ha : IsProper a) {closing : CodePoint}
    (hclosing : closing ∈ Text.ofString "]\x7d") : ∃ c ∈ (write a).head?, c ≠ closing := by
  obtain ⟨c, hc, hopening⟩ := exists_head ha
  refine ⟨c, hc, ?_⟩
  rintro rfl
  have hopenings : ∀ v, opening? v ≠ some c := by
    have hall : ∀ d ∈ Text.ofString "]\x7d", d ∉ Text.ofString "\"[\x7b" := by decide
    intro v hv
    apply hall c hclosing
    cases v <;> cases hv <;> decide
  have hdelimiters : ∀ d ∈ Text.ofString "]\x7d", d ∈ quotationMark :: delimiters := by decide
  rcases hopening with hopening | ⟨-, hout⟩
  · exact hopenings a hopening
  · exact hout (hdelimiters c hclosing)

/-- A value is told by what is written for it up to the next mark. -/
def IsTold (a : Json) : Prop :=
  ∀ b, IsProper b → ∀ rest rest', Ends rest → Ends rest' →
    write a ++ rest = write b ++ rest' → a = b ∧ rest = rest'

theorem isTold_of_scalar (ha : IsProper a) (hscalar : IsScalar a) (hopening : opening? a = none) :
    IsTold a := by
  intro b hb rest rest' hrest hrest' h
  have hscalar' : IsScalar b := by
    have hopening' := (opening?_eq ha hb h).symm.trans hopening
    cases b <;> trivial
  have hchars {v : Json} (hv : IsProper v) (hscalar : IsScalar v) : ∀ c ∈ write v, c ∉ delimiters :=
    fun c hc hmem => (notMem_of_scalar hv hscalar).2 c hc (List.mem_cons_of_mem _ hmem)
  obtain ⟨hwrite, hrests⟩ :=
    append_inj_of_ends (hchars ha hscalar) (hchars hb hscalar') hrest hrest' h
  exact ⟨eq_of_write_scalar ha hb hscalar hscalar' hwrite, hrests⟩

theorem isTold_text {s : Text} (h : IsJoined s) : IsTold (.text s) := by
  intro b hb rest rest' _ _ heq
  have hopening := opening?_eq (.text h) hb heq
  cases hb with
  | text h' =>
    obtain ⟨rfl, hrest⟩ := writeText_append_inj h h' heq
    exact ⟨rfl, hrest⟩
  | _ => cases hopening

theorem isTold_array {items : List Json} (h : ∀ item ∈ items, IsProper item)
    (ih : ∀ item ∈ items, IsTold item) : IsTold (.array items) := by
  intro b hb rest rest' _ _ heq
  have hopening := opening?_eq (.array h) hb heq
  cases hb with
  | @array items' h' =>
    have hparts : Text.separated ", " (items.map write) ++ CodePoint.char ']' :: rest =
        Text.separated ", " (items'.map write) ++ CodePoint.char ']' :: rest' := by
      simpa [write, writeItems_eq_map, Text.ofString] using heq
    have hhead : ∀ item ∈ items ++ items', ∃ c ∈ (write item).head?, c ≠ ']' := by
      intro item hitem
      refine head_ne_of_closing ?_ (by decide)
      rcases List.mem_append.mp hitem with hitem | hitem
      · exact h item hitem
      · exact h' item hitem
    obtain ⟨rfl, hrest⟩ := separated_inj rfl (by decide)
      (fun x hx y hy => ih x hx y (h' y hy)) hhead hparts
    exact ⟨rfl, hrest⟩
  | _ => cases hopening

theorem writeMember_append_inj {x y : Text × Json} (hx : IsJoined x.1) (hy : IsJoined y.1)
    (hvalue : IsProper y.2) (htold : IsTold x.2) (hrest : Ends rest) (hrest' : Ends rest')
    (h : writeMember x ++ rest = writeMember y ++ rest') : x = y ∧ rest = rest' := by
  simp only [writeMember, List.append_assoc] at h
  obtain ⟨hkey, hafter⟩ := writeText_append_inj hx hy h
  obtain ⟨hsame, hrests⟩ :=
    htold y.2 hvalue rest rest' hrest hrest' (List.append_cancel_left hafter)
  exact ⟨Prod.ext hkey hsame, hrests⟩

theorem isTold_object {members : List (Text × Json)} (h : IsProper (.object members))
    (ih : ∀ member ∈ members, IsTold member.2) : IsTold (.object members) := by
  intro b hb rest rest' _ _ heq
  have hopening := opening?_eq h hb heq
  cases hb with
  | @object members' hnodup' hkeys' hvalues' =>
    have hparts : Text.separated ", " (members.map writeMember) ++ CodePoint.char '\x7d' :: rest =
        Text.separated ", " (members'.map writeMember) ++ CodePoint.char '\x7d' :: rest' := by
      simpa [write, writeMembers_eq_map, Text.ofString] using heq
    have hmember : ∀ x ∈ members, ∀ y ∈ members', ∀ rest rest', Ends rest → Ends rest' →
        writeMember x ++ rest = writeMember y ++ rest' → x = y ∧ rest = rest' := by
      intro x hx y hy _ _
      cases h with
      | object _ hkeys =>
        exact writeMember_append_inj (hkeys x hx) (hkeys' y hy) (hvalues' y hy) (ih x hx)
    obtain ⟨rfl, hrest⟩ := separated_inj rfl (by decide) hmember
      (fun x _ => ⟨quotationMark, rfl, by decide⟩) hparts
    exact ⟨rfl, hrest⟩
  | _ => cases hopening

/-- Every value that can be read is told by what is written for it. -/
theorem isTold (ha : IsProper a) : IsTold a := by
  induction ha with
  | null => exact isTold_of_scalar .null trivial rfl
  | bool value => exact isTold_of_scalar (.bool value) trivial rfl
  | int value => exact isTold_of_scalar (.int value) trivial rfl
  | real h => exact isTold_of_scalar (.real h) trivial rfl
  | text h => exact isTold_text h
  | array h ih => exact isTold_array h ih
  | object hnodup hkeys hvalues ih => exact isTold_object (.object hnodup hkeys hvalues) ih

/-- Values that are written alike are the same. -/
theorem write_inj (ha : IsProper a) (hb : IsProper b) : write a = write b ↔ a = b := by
  refine ⟨fun h => ?_, congrArg write⟩
  have hnone : Ends [] := by simp [Ends]
  exact (isTold ha b hb [] [] hnone hnone (by rw [h])).1

end EditorTabs.Json
