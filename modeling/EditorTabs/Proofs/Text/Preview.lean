import EditorTabs.Proofs.Text.Utf8
import EditorTabs.Text.Preview

/-!
# What a preview keeps

The bytes of a character lead the decoder to this character with the last of them, and to nothing
before. So of a text that is cut at some byte all characters are decoded that are whole, and what is
left of the next one is dropped: this is the longest start of the text that fits.
-/
namespace EditorTabs.Text

namespace Utf8

/-- Bytes that complete a character. -/
inductive Completes : Pending → List UInt8 → CodePoint → Prop
  | last {p : Pending} {byte : UInt8} {c : CodePoint} (h : p.take? byte = some (.char c)) :
      Completes p [byte] c
  | next {p q : Pending} {byte : UInt8} {rest : List UInt8} {c : CodePoint}
      (h : p.take? byte = some (.pending q)) (hrest : Completes q rest c) :
      Completes p (byte :: rest) c

inductive MakeUp : List UInt8 → CodePoint → Prop
  | single {byte : UInt8} {c : CodePoint} (h : opening 0 byte = .char c) : MakeUp [byte] c
  | lead {p : Pending} {byte : UInt8} {rest : List UInt8} {c : CodePoint}
      (h : opening 0 byte = .pending p) (hrest : Completes p rest c) : MakeUp (byte :: rest) c

section Decode

variable {p : Pending} {bytes : List UInt8} {c : CodePoint}

theorem Completes.decodeDropping_append (h : Completes p bytes c) (rest : List UInt8) :
    decodeDropping (some p) (bytes ++ rest) = c :: decodeDropping none rest := by
  induction h with
  | last h => simp [decodeDropping, h]
  | next h _ ih => simpa [decodeDropping, h] using ih

theorem MakeUp.decodeDropping_append (h : MakeUp bytes c) (rest : List UInt8) :
    decodeDropping none (bytes ++ rest) = c :: decodeDropping none rest := by
  cases h with
  | single h => simp [decodeDropping, h]
  | lead h hrest => simpa [decodeDropping, h] using hrest.decodeDropping_append rest

theorem Completes.decodeDropping_take (h : Completes p bytes c) {n : Nat} (hn : n < bytes.length) :
    decodeDropping (some p) (bytes.take n) = [] := by
  induction h generalizing n with
  | last h =>
    obtain rfl : n = 0 := by simpa using hn
    rfl
  | next h _ ih =>
    cases n with
    | zero => rfl
    | succ n => simpa [decodeDropping, h] using ih (by simpa using hn)

/-- A character that is broken off is dropped. -/
theorem MakeUp.decodeDropping_take (h : MakeUp bytes c) {n : Nat} (hn : n < bytes.length) :
    decodeDropping none (bytes.take n) = [] := by
  cases n with
  | zero => rfl
  | succ n =>
    cases h with
    | single h => simp at hn
    | lead h hrest =>
      simpa [decodeDropping, h] using hrest.decodeDropping_take (n := n) (by simpa using hn)

end Decode

/-! ## The bytes of a character -/

/-- The bytes of a number after the first, six bits in each. -/
def continuation : (count n : Nat) → List UInt8
  | 0, _ => []
  | count + 1, n => .ofNat (n / 64 ^ count % 64 + 128) :: continuation count n

/-- One byte more: six more bits of the number are known. -/
theorem take?_continuation {p : Pending} {m : Nat} (hvalue : p.value = m / 64)
    (hlow : p.low ≤ m % 64 + 128) (hhigh : m % 64 + 128 ≤ p.high) :
    p.take? (.ofNat (m % 64 + 128)) =
      match p.more with
      | 0 => some (.char (.ofNat m))
      | more + 1 =>
        some (.pending ⟨p.start, p.bytes ++ [.ofNat (m % 64 + 128)], m, 0x80, 0xBF, more⟩) := by
  have hbyte : (UInt8.ofNat (m % 64 + 128)).toNat = m % 64 + 128 :=
    UInt8.toNat_ofNat_of_lt' (show m % 64 + 128 < 256 by omega)
  have hm : p.value * 64 + (m % 64 + 128) % 64 = m := by omega
  rw [Pending.take?, hbyte, if_pos ⟨hlow, hhigh⟩]
  cases p.more <;> simp only [hm]

/-- The bytes of a number complete its character, when the first of them is within the bounds. -/
theorem completes_continuation {p : Pending} {n : Nat} (hvalue : p.value = n / 64 ^ p.more / 64)
    (hlow : p.low ≤ n / 64 ^ p.more % 64 + 128) (hhigh : n / 64 ^ p.more % 64 + 128 ≤ p.high) :
    Completes p (continuation (p.more + 1) n) (.ofNat n) := by
  induction hmore : p.more generalizing p with
  | zero =>
    have htake := take?_continuation hvalue hlow hhigh
    rw [hmore] at htake
    exact .last (by simpa using htake)
  | succ more ih =>
    have htake := take?_continuation hvalue hlow hhigh
    rw [hmore] at htake
    refine .next htake (ih ?_ ?_ ?_ rfl)
    · rw [Nat.pow_succ, ← Nat.div_div_eq_div_mul]
    · exact Nat.le_add_left ..
    · dsimp only
      omega

theorem encodePoint_cases (c : Char) :
    c.toNat < 0x80 ∧ encodePoint c = [.ofNat c.toNat] ∨
      0x80 ≤ c.toNat ∧ c.toNat < 0x800 ∧
        encodePoint c = .ofNat (c.toNat / 64 + 0xC0) :: continuation 1 c.toNat ∨
      0x800 ≤ c.toNat ∧ c.toNat < 0x10000 ∧
        encodePoint c = .ofNat (c.toNat / 4096 + 0xE0) :: continuation 2 c.toNat ∨
      0x10000 ≤ c.toNat ∧
        encodePoint c = .ofNat (c.toNat / 262144 + 0xF0) :: continuation 3 c.toNat := by
  have hvalid := c.valid
  simp only [UInt32.isValidChar, Nat.isValidChar] at hvalid
  have hn : c.val.toNat = c.toNat := rfl
  simp only [encodePoint, String.utf8EncodeChar, continuation, hn] at hvalid ⊢
  split
  · exact .inl ⟨by omega, rfl⟩
  split
  · refine .inr (.inl ⟨by omega, by omega, ?_⟩)
    rw [show c.toNat / 64 % 32 = c.toNat / 64 by omega]
    simp
  split
  · refine .inr (.inr (.inl ⟨by omega, by omega, ?_⟩))
    rw [show c.toNat / 4096 % 16 = c.toNat / 4096 by omega]
    simp
  · refine .inr (.inr (.inr ⟨by omega, ?_⟩))
    rw [show c.toNat / 262144 % 8 = c.toNat / 262144 by omega]
    simp

/-! What a first byte tells: how many bytes follow, the first bits of the number, and between which
bounds the second byte lies, so that no number has two forms and none is that of a half or too
large. -/

theorem opening_of_two {v : Nat} (hlow : 2 ≤ v) (hhigh : v < 32) :
    opening 0 (.ofNat (v + 0xC0)) = .pending ⟨0, [.ofNat (v + 0xC0)], v, 0x80, 0xBF, 0⟩ := by
  simp only [opening, UInt8.toNat_ofNat_of_lt' (show v + 0xC0 < 256 by omega)]
  rw [if_neg (by omega), if_neg (by omega), if_pos (by omega), Nat.add_sub_cancel]

theorem opening_of_three {v : Nat} (hhigh : v < 16) :
    opening 0 (.ofNat (v + 0xE0)) =
      .pending ⟨0, [.ofNat (v + 0xE0)], v, if v = 0 then 0xA0 else 0x80,
        if v = 13 then 0x9F else 0xBF, 1⟩ := by
  simp only [opening, UInt8.toNat_ofNat_of_lt' (show v + 0xE0 < 256 by omega)]
  rw [if_neg (by omega), if_neg (by omega), if_neg (by omega)]
  by_cases hzero : v = 0
  · simp [hzero]
  by_cases hthirteen : v = 13
  · simp [hthirteen]
  rw [if_neg (by omega), if_neg (by omega), if_pos (by omega), if_neg hzero, if_neg hthirteen,
    Nat.add_sub_cancel]

theorem opening_of_four {v : Nat} (hhigh : v < 5) :
    opening 0 (.ofNat (v + 0xF0)) =
      .pending ⟨0, [.ofNat (v + 0xF0)], v, if v = 0 then 0x90 else 0x80,
        if v = 4 then 0x8F else 0xBF, 2⟩ := by
  simp only [opening, UInt8.toNat_ofNat_of_lt' (show v + 0xF0 < 256 by omega)]
  rw [if_neg (by omega), if_neg (by omega), if_neg (by omega), if_neg (by omega),
    if_neg (by omega), if_neg (by omega)]
  by_cases hzero : v = 0
  · simp [hzero]
  by_cases hfour : v = 4
  · simp [hfour]
  rw [if_neg (by omega), if_pos (by omega), if_neg hzero, if_neg hfour, Nat.add_sub_cancel]

/-- The bounds that a first byte sets let the second byte of every character pass. -/
theorem makeUp_encodePoint (c : Char) : MakeUp (encodePoint c) c := by
  have hhalf := CodePoint.not_half_toNat c
  have hlast : c.toNat < 0x110000 := by
    have := c.valid
    simp only [UInt32.isValidChar, Nat.isValidChar] at this
    have hn : c.val.toNat = c.toNat := rfl
    omega
  have hc : CodePoint.ofNat c.toNat = c := CodePoint.ofNat_toNat c
  rcases encodePoint_cases c with ⟨hn, hbytes⟩ | ⟨hlow, hhigh, hbytes⟩ | ⟨hlow, hhigh, hbytes⟩ |
    ⟨hlow, hbytes⟩
  all_goals
    rw [hbytes, ← hc]
    generalize c.toNat = n at *
  · have hbyte : (UInt8.ofNat n).toNat = n := UInt8.toNat_ofNat_of_lt' (show n < 256 by omega)
    exact .single (by simp only [opening, hbyte, if_pos hn])
  · refine .lead (opening_of_two (by omega) (by omega)) (completes_continuation ?_ ?_ ?_)
    · dsimp only
      omega
    · exact Nat.le_add_left ..
    · dsimp only
      omega
  · refine .lead (opening_of_three (by omega)) (completes_continuation ?_ ?_ ?_)
    · dsimp only
      omega
    · dsimp only
      split <;> omega
    · dsimp only
      split <;> omega
  · refine .lead (opening_of_four (by omega)) (completes_continuation ?_ ?_ ?_)
    · dsimp only
      omega
    · dsimp only
      split <;> omega
    · dsimp only
      split <;> omega

/-- A text without halves of surrogate pairs is made up of its characters. -/
theorem makeUp_of_isChar {c : CodePoint} (h : c.IsChar) : MakeUp (encodePoint c) c := by
  cases c with
  | char c => exact makeUp_encodePoint c
  | half index => exact h.elim

end Utf8

/-! ## The longest start that fits -/

/-- The longest start of a text, in whole code points, with no more bytes than a limit. -/
structure IsLongestStart (limit : Nat) (s q : Text) : Prop where
  start : q <+: s
  fits : (Utf8.encode q).length ≤ limit
  longest : ∀ other : Text, other <+: s → (Utf8.encode other).length ≤ limit → other <+: q

section Longest

variable {limit : Nat} {s q : Text} {c : CodePoint}

theorem length_encode_cons (c : CodePoint) (s : Text) :
    (Utf8.encode (c :: s)).length = (Utf8.encodePoint c).length + (Utf8.encode s).length := by
  simp [Utf8.encode]

theorem isLongestStart_nil (limit : Nat) : IsLongestStart limit [] [] where
  start := List.prefix_rfl
  fits := Nat.zero_le limit
  longest _ h _ := h

theorem IsLongestStart.cons (h : IsLongestStart (limit - (Utf8.encodePoint c).length) s q)
    (hc : (Utf8.encodePoint c).length ≤ limit) : IsLongestStart limit (c :: s) (c :: q) where
  start := (List.prefix_cons_inj c).mpr h.start
  fits := by
    have := h.fits
    rw [length_encode_cons]
    omega
  longest other hstart hfits := by
    cases other with
    | nil => exact List.nil_prefix
    | cons d other =>
      obtain ⟨rfl, hrest⟩ := List.cons_prefix_cons.mp hstart
      rw [length_encode_cons] at hfits
      exact (List.prefix_cons_inj d).mpr (h.longest other hrest (by omega))

theorem isLongestStart_of_lt (h : limit < (Utf8.encodePoint c).length) :
    IsLongestStart limit (c :: s) [] where
  start := List.nil_prefix
  fits := Nat.zero_le limit
  longest other hstart hfits := by
    cases other with
    | nil => exact List.prefix_rfl
    | cons d other =>
      obtain ⟨rfl, -⟩ := List.cons_prefix_cons.mp hstart
      rw [length_encode_cons] at hfits
      omega

/-- What is decoded from the first bytes of a text is the longest start of it that they hold. -/
theorem isLongestStart_decodeDropping (h : ∀ c ∈ s, c.IsChar) (limit : Nat) :
    IsLongestStart limit s (Utf8.decodeDropping none ((Utf8.encode s).take limit)) := by
  induction s generalizing limit with
  | nil => simpa [Utf8.encode, Utf8.decodeDropping] using isLongestStart_nil limit
  | cons c s ih =>
    obtain ⟨hc, hs⟩ := List.forall_mem_cons.mp h
    have hmakeUp := Utf8.makeUp_of_isChar hc
    have hencode : Utf8.encode (c :: s) = Utf8.encodePoint c ++ Utf8.encode s := rfl
    rw [hencode, List.take_append]
    by_cases hfits : (Utf8.encodePoint c).length ≤ limit
    · rw [List.take_of_length_le hfits, hmakeUp.decodeDropping_append]
      exact (ih hs _).cons hfits
    · have hrest : limit - (Utf8.encodePoint c).length = 0 := by omega
      rw [hrest, List.take_zero, List.append_nil, hmakeUp.decodeDropping_take (by omega)]
      exact isLongestStart_of_lt (by omega)

end Longest

/-- A text of characters that fits a limit is shown as it is. Of a longer one the longest start that
fits is shown, and three dots after it. -/
theorem preview_longest_start {s : Text} (h : ∀ c ∈ s, c.IsChar) (limit : Nat) :
    ((Utf8.encode s).length ≤ limit → preview s limit = s) ∧
      (limit < (Utf8.encode s).length →
        ∃ q, IsLongestStart limit s q ∧ preview s limit = q ++ "...") := by
  constructor
  · intro hfits
    rw [preview, if_pos (by exact_mod_cast hfits)]
  · intro hlong
    refine ⟨_, isLongestStart_decodeDropping h limit, ?_⟩
    have hkept : keptBytes (Utf8.encode s).length limit = limit := by
      rw [keptBytes, if_neg (by omega), Int.toNat_natCast]
    rw [preview, if_neg (by omega), hkept]

/-- A text with a character of each length, cut in the middle of the last one. -/
theorem preview_longest_start_of_lengths :
    let s : Text := "aé€😀"
    (∀ c ∈ s, c.IsChar) ∧ 8 < (Utf8.encode s).length ∧ preview s 8 = "aé€..." ∧
      ∃ q, IsLongestStart 8 s q ∧ preview s 8 = q ++ "..." := by
  intro s
  have h : ∀ c ∈ s, c.IsChar := by decide
  have hlong : 8 < (Utf8.encode s).length := by decide +kernel
  exact ⟨h, hlong, by decide +kernel, (preview_longest_start h 8).2 hlong⟩

end EditorTabs.Text
