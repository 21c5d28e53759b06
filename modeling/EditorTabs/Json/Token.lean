import EditorTabs.Json.Fault
import EditorTabs.Json.Value
import EditorTabs.Text.Hex
import EditorTabs.Text.Start

/-!
# JSON tokens

A text falls into tokens whatever their order: what a token is depends on its own code points only.
A token that is broken inside carries the fault, which counts only where a value or a key is
wanted. The first code point that starts no token ends the list, since no text goes on from there.
-/
namespace EditorTabs.Json

open Decimal (Binary64)

inductive Token where
  | openBrace
  | closeBrace
  | openBracket
  | closeBracket
  | colon
  | comma
  | text (value : Text)
  | scalar (value : Json)
  | brokenText (problem : Problem) (position : Nat)
  | hugeNumber (digits : Nat)
  | stray
  deriving Repr

structure Located where
  position : Nat
  token : Token
  deriving Repr

def isSpace (c : CodePoint) : Bool :=
  c = ' ' || c = '\t' || c = '\n' || c = '\r'

abbrev quotationMark : CodePoint := '"'

/-! ## Texts -/

/-- A piece of a text: code points that stand for themselves or are escaped by a letter, and the
units that are escaped by their number. -/
inductive Piece where
  | point (c : CodePoint)
  | unit (value : Nat)
  deriving DecidableEq, Repr

/-- The pieces of a text and what comes after its closing quote, with the number of code points up
to there; or a problem and its position. -/
abbrev TextResult := Except (Problem × Nat) (List Piece × Text × Nat)

def fourHex? (a b c d : CodePoint) : Option Nat := do
  let a ← Text.hexValue? a
  let b ← Text.hexValue? b
  let c ← Text.hexValue? c
  let d ← Text.hexValue? d
  return ((a * 16 + b) * 16 + c) * 16 + d

def escapes : List (CodePoint × CodePoint) :=
  [('"', '"'), ('\\', '\\'), ('/', '/'), ('b', .ofNat 8), ('f', .ofNat 12), ('n', '\n'),
   ('r', '\r'), ('t', '\t')]

def consPiece (piece : Piece) : TextResult → TextResult :=
  Except.map fun (pieces, rest, position) => (piece :: pieces, rest, position)

/-- The pieces of a text after its opening quote, which stands at `start`. A `\u` escape needs
four hexadecimal digits and at least one code point after them. -/
def readPieces (start : Nat) : Nat → Text → TextResult
  | _, [] => .error (.unterminatedText, start)
  | pos, .char '"' :: rest => .ok ([], rest, pos + 1)
  | _, [.char '\\'] => .error (.unterminatedText, start)
  | pos, .char '\\' :: .char 'u' :: a :: b :: c :: d :: rest =>
    match fourHex? a b c d with
    | some value =>
      if rest = [] then .error (.unicodeEscape, pos + 1)
      else consPiece (.unit value) (readPieces start (pos + 6) rest)
    | none => .error (.unicodeEscape, pos + 1)
  | pos, .char '\\' :: .char 'u' :: _ => .error (.unicodeEscape, pos + 1)
  | pos, .char '\\' :: c :: rest =>
    match escapes.lookup c with
    | some e => consPiece (.point e) (readPieces start (pos + 2) rest)
    | none => .error (.escape, pos)
  | pos, c :: rest =>
    if c.toNat < 0x20 then .error (.controlCharacter, pos)
    else consPiece (.point c) (readPieces start (pos + 1) rest)

/-- The text of pieces. Two units that follow each other and are the halves of a surrogate pair make
one character, and any other unit is a code point. -/
def joinPieces : List Piece → Text
  | [] => []
  | .point c :: rest => c :: joinPieces rest
  | .unit high :: .unit low :: rest =>
    if 0xD800 ≤ high ∧ high < 0xDC00 ∧ 0xDC00 ≤ low ∧ low < 0xE000 then
      .ofNat (0x10000 + (high - 0xD800) * 0x400 + (low - 0xDC00)) :: joinPieces rest
    else .ofNat high :: joinPieces (.unit low :: rest)
  | .unit value :: rest => .ofNat value :: joinPieces rest

theorem consPiece_eq_ok {piece : Piece} {stop : Nat} {pieces : List Piece} {rest : Text}
    {r : TextResult} (h : consPiece piece r = .ok (pieces, rest, stop)) :
    ∃ tail, r = .ok (tail, rest, stop) := by
  cases r with
  | error e => simp [consPiece, Except.map] at h
  | ok r =>
    simp only [consPiece, Except.map, Except.ok.injEq, Prod.mk.injEq] at h
    exact ⟨r.1, by rw [← h.2.1, ← h.2.2]⟩

theorem length_of_readPieces {start pos : Nat} {cs rest : Text} {pieces : List Piece}
    {stop : Nat} (h : readPieces start pos cs = .ok (pieces, rest, stop)) :
    rest.length < cs.length := by
  fun_induction readPieces start pos cs generalizing pieces with
  | case1 => simp at h
  | case2 pos rest' =>
    simp only [Except.ok.injEq, Prod.mk.injEq] at h
    simp [h.2.1]
  | case3 => simp at h
  | case4 => simp at h
  | case5 pos a b c d tail unit _ _ ih =>
    obtain ⟨us, hr⟩ := consPiece_eq_ok h
    have := ih hr
    simp only [List.length_cons]
    omega
  | case6 => simp at h
  | case7 => simp at h
  | case8 pos c tail _ _ _ _ ih =>
    obtain ⟨us, hr⟩ := consPiece_eq_ok h
    have := ih hr
    simp only [List.length_cons]
    omega
  | case9 => simp at h
  | case10 => simp at h
  | case11 pos c tail _ _ _ _ _ _ ih =>
    obtain ⟨us, hr⟩ := consPiece_eq_ok h
    have := ih hr
    simp only [List.length_cons]
    omega

/-! ## Numbers -/

def isDigit (c : CodePoint) : Bool :=
  48 ≤ c.toNat && c.toNat ≤ 57

def digitsValue (ds : Text) : Nat :=
  ds.foldl (fun n d => n * 10 + (d.toNat - 48)) 0

def splitDigits (cs : Text) : Text × Text :=
  (cs.takeWhile isDigit, cs.dropWhile isDigit)

/-- The whole part of a number: a zero alone, or digits that start with another. -/
def readWhole? : Text → Option (Text × Text)
  | [] => none
  | c :: rest =>
    if c = '0' then some ([c], rest)
    else if isDigit c then some (splitDigits (c :: rest))
    else none

def readFraction : Text → Text × Text
  | .char '.' :: rest =>
    match splitDigits rest with
    | ([], _) => ([], '.' :: rest)
    | split => split
  | cs => ([], cs)

def readSign : Text → Bool × Text
  | .char '-' :: rest => (true, rest)
  | .char '+' :: rest => (false, rest)
  | cs => (false, cs)

def readExponent (cs : Text) : Option Int × Text :=
  match cs with
  | [] => (none, [])
  | c :: rest =>
    if c = 'e' ∨ c = 'E' then
      let (negative, unsigned) := readSign rest
      match splitDigits unsigned with
      | ([], _) => (none, cs)
      | (ds, after) =>
        (some (if negative then -(digitsValue ds : Int) else digitsValue ds), after)
    else (none, cs)

/-- The token of a number without its sign, and the rest. A number with neither fraction nor
exponent is whole. -/
def readUnsigned? (negative : Bool) (cs : Text) : Option (Token × Text) := do
  let (whole, afterWhole) ← readWhole? cs
  let (fraction, afterFraction) := readFraction afterWhole
  let (exponent, rest) := readExponent afterFraction
  if fraction = [] ∧ exponent = none then
    if digitLimit < whole.length then
      return (.hugeNumber whole.length, rest)
    else
      let value : Int := digitsValue whole
      return (.scalar (.int (if negative then -value else value)), rest)
  else
    let scale := exponent.getD 0 - fraction.length
    return (.scalar (.real (.ofDecimal negative (digitsValue (whole ++ fraction)) scale)), rest)

def readNumber? (cs : Text) : Option (Token × Text) :=
  match cs with
  | .char '-' :: rest => readUnsigned? true rest
  | _ => readUnsigned? false cs

/-! ## All tokens -/

def words : List (Text × Json) :=
  [("null", .null), ("true", .bool true), ("false", .bool false),
   ("NaN", .real .nan), ("Infinity", .real (.infinite false)),
   ("-Infinity", .real (.infinite true))]

def readWord? (cs : Text) : Option (Token × Text) :=
  words.findSome? fun (word, value) =>
    (Text.afterWord? word cs).map fun rest => (.scalar value, rest)

def mark? (c : CodePoint) : Option Token :=
  if c = '\x7b' then some .openBrace
  else if c = '\x7d' then some .closeBrace
  else if c = '[' then some .openBracket
  else if c = ']' then some .closeBracket
  else if c = ':' then some .colon
  else if c = ',' then some .comma
  else none

/-- A token with what comes after it and the number of code points up to there. -/
structure Reading where
  token : Token
  rest : Text
  position : Nat

/-- The token at the start of a text that does not start with a blank. After a token that no
text can go on from nothing is left. -/
def readToken (pos : Nat) (c : CodePoint) (rest : Text) : Reading :=
  match mark? c with
  | some token => ⟨token, rest, pos + 1⟩
  | none =>
    if c = quotationMark then
      match readPieces pos (pos + 1) rest with
      | .ok (pieces, after, stop) => ⟨.text (joinPieces pieces), after, stop⟩
      | .error (problem, position) => ⟨.brokenText problem position, [], position⟩
    else
      match (readWord? (c :: rest)).or (readNumber? (c :: rest)) with
      | some (token, after) => ⟨token, after, pos + 1 + (rest.length - after.length)⟩
      | none => ⟨.stray, [], pos⟩

theorem length_splitDigits (cs : Text) : (splitDigits cs).2.length ≤ cs.length := by
  exact (List.dropWhile_sublist _).length_le

theorem length_readFraction (cs : Text) : (readFraction cs).2.length ≤ cs.length := by
  unfold readFraction
  split
  · next rest =>
    split
    · simp
    · have := length_splitDigits rest
      simp only [List.length_cons]
      omega
  · simp

theorem length_readSign (cs : Text) : (readSign cs).2.length ≤ cs.length := by
  unfold readSign
  split <;> simp

theorem length_readExponent (cs : Text) : (readExponent cs).2.length ≤ cs.length := by
  unfold readExponent
  split
  · simp
  · next c rest =>
    split
    · have hs := length_readSign rest
      have hd := length_splitDigits (readSign rest).2
      simp only
      split
      · simp
      · next ds after _ heq =>
        rw [heq] at hd
        simp only [List.length_cons] at hd ⊢
        omega
    · simp

theorem length_of_readWhole? {cs whole rest : Text} (h : readWhole? cs = some (whole, rest)) :
    rest.length < cs.length := by
  cases cs with
  | nil => simp [readWhole?] at h
  | cons c cs =>
    simp only [readWhole?] at h
    split at h
    · simp only [Option.some.injEq, Prod.mk.injEq] at h
      simp [h.2]
    · split at h
      · next hd =>
        simp only [splitDigits, Option.some.injEq, Prod.mk.injEq] at h
        rw [← h.2, List.dropWhile_cons_of_pos hd]
        have := (List.dropWhile_sublist isDigit (l := cs)).length_le
        simp only [List.length_cons]
        omega
      · simp at h

theorem length_of_readUnsigned? {negative : Bool} {cs rest : Text} {token : Token}
    (h : readUnsigned? negative cs = some (token, rest)) : rest.length < cs.length := by
  simp only [readUnsigned?, Option.bind_eq_bind, Option.bind_eq_some_iff] at h
  obtain ⟨⟨whole, afterWhole⟩, hw, h⟩ := h
  have h1 := length_of_readWhole? hw
  have h2 := length_readFraction afterWhole
  have h3 := length_readExponent (readFraction afterWhole).2
  have hr : rest = (readExponent (readFraction afterWhole).2).2 := by
    split at h
    · split at h <;> simp_all
    · simp_all
  rw [hr]
  omega

theorem length_of_readNumber? {cs rest : Text} {token : Token}
    (h : readNumber? cs = some (token, rest)) : rest.length < cs.length := by
  unfold readNumber? at h
  split at h
  · next tail =>
    have := length_of_readUnsigned? h
    simp only [List.length_cons]
    omega
  · exact length_of_readUnsigned? h

theorem length_of_readWord? {cs rest : Text} {token : Token}
    (h : readWord? cs = some (token, rest)) : rest.length < cs.length := by
  obtain ⟨⟨word, value⟩, hm, h⟩ := List.exists_of_findSome?_eq_some h
  obtain ⟨after, ha, he⟩ := Option.map_eq_some_iff.1 h
  have hlen : 0 < word.length := by
    simp only [words, List.mem_cons, Prod.mk.injEq, List.not_mem_nil, or_false] at hm
    rcases hm with h | h | h | h | h | h <;> rw [h.1] <;> decide
  simp only [Prod.mk.injEq] at he
  rw [Text.afterWord?_eq_some_iff.1 ha, he.2, List.length_append]
  omega

theorem length_readToken (pos : Nat) (c : CodePoint) (rest : Text) :
    (readToken pos c rest).rest.length ≤ rest.length := by
  unfold readToken
  split
  · simp
  · split
    · split
      · next h => exact Nat.le_of_lt (length_of_readPieces h)
      · simp
    · split
      · next token after h =>
        have : after.length < (c :: rest).length := by
          rcases Option.or_eq_some_iff.1 h with h | ⟨_, h⟩
          · exact length_of_readWord? h
          · exact length_of_readNumber? h
        simp only [List.length_cons] at this ⊢
        omega
      · simp

def tokensFrom (pos : Nat) : Text → List Located
  | [] => []
  | c :: rest =>
    if isSpace c then tokensFrom (pos + 1) rest
    else
      let found := readToken pos c rest
      ⟨pos, found.token⟩ :: tokensFrom found.position found.rest
  termination_by cs => cs.length
  decreasing_by
    · simp
    · have := length_readToken pos c rest
      simp only [List.length_cons]
      omega

def tokens (cs : Text) : List Located :=
  tokensFrom 0 cs

end EditorTabs.Json
