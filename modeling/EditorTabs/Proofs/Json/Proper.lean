import EditorTabs.Proofs.Assoc
import EditorTabs.Proofs.Json.Reader
import EditorTabs.Proofs.Json.Writer

/-!
# What is read is proper

From a text of characters every token holds a proper value, one step of the machine keeps what it
has read so far proper, and so does a whole run.
-/
namespace EditorTabs.Json

def Token.IsProper : Token → Prop
  | .text value => IsJoined value
  | .scalar value => Json.IsProper value
  | _ => True

variable {limit : Nat} {c : CodePoint} {s rest : Text} {token : Token} {value : Json} {key : Text}

/-! ## Tokens -/

theorem isProper_of_mem_words (h : (s, value) ∈ words) : IsProper value := by
  simp only [words, List.mem_cons, Prod.mk.injEq, List.not_mem_nil, or_false] at h
  rcases h with ⟨-, rfl⟩ | ⟨-, rfl⟩ | ⟨-, rfl⟩ | ⟨-, rfl⟩ | ⟨-, rfl⟩ | ⟨-, rfl⟩
  · exact .null
  · exact .bool true
  · exact .bool false
  · exact .real .nan
  · exact .real (.infinite false)
  · exact .real (.infinite true)

theorem isProper_of_readUnsigned? {negative : Bool}
    (h : readUnsigned? negative s = some (token, rest)) : token.IsProper := by
  simp only [readUnsigned?, Option.bind_eq_bind, Option.bind_eq_some_iff] at h
  obtain ⟨_, -, h⟩ := h
  split at h
  · split at h
    · cases h
      trivial
    · cases h
      exact .int _
  · cases h
    exact .real (Decimal.isNormal_ofDecimal _ _ _)

theorem isProper_of_readNumber? (h : readNumber? s = some (token, rest)) : token.IsProper := by
  unfold readNumber? at h
  split at h
  · exact isProper_of_readUnsigned? h
  · exact isProper_of_readUnsigned? h

theorem isProper_of_isMark (h : token.isMark = true) : token.IsProper := by
  cases token with
  | text | scalar => cases h
  | _ => trivial

/-- A token of characters is proper, and characters are left. -/
theorem isProper_readToken (pos : Nat) (hs : ∀ d ∈ c :: s, d.IsChar) :
    (readToken pos c s).token.IsProper ∧ ∀ d ∈ (readToken pos c s).rest, d.IsChar := by
  obtain ⟨-, hrest⟩ := List.forall_mem_cons.mp hs
  unfold readToken
  split
  · next hmark => exact ⟨isProper_of_isMark (isMark_of_mark? hmark), hrest⟩
  · split
    · split
      · next pieces after stop hread =>
        obtain ⟨body, -, rfl⟩ := isBody_of_readPieces hread
        refine ⟨isJoined_joinPieces (isChar_of_readPieces hrest hread), fun d hd => ?_⟩
        exact hrest d (by simp [hd])
      · exact ⟨trivial, by simp⟩
    · split
      · next after hread =>
        rcases Option.or_eq_some_iff.mp hread with hword | ⟨-, hnumber⟩
        · obtain ⟨word, value, hmem, rfl, heq⟩ := exists_word_of_readWord? hword
          exact ⟨isProper_of_mem_words hmem, fun d hd => hs d (by simp [heq, hd])⟩
        · obtain ⟨-, number, -, heq⟩ := isNumber_of_readNumber? hnumber
          exact ⟨isProper_of_readNumber? hnumber, fun d hd => hs d (by simp [heq, hd])⟩
      · exact ⟨trivial, by simp⟩

theorem isProper_tokensFrom {pos : Nat} (hs : ∀ c ∈ s, c.IsChar) :
    ∀ t ∈ tokensFrom pos s, t.token.IsProper := by
  fun_induction tokensFrom pos s with
  | case1 => simp
  | case2 pos c rest hc ih => exact ih (List.forall_mem_cons.mp hs).2
  | case3 pos c rest hc found ih =>
    obtain ⟨htoken, hrest⟩ := isProper_readToken pos hs
    exact List.forall_mem_cons.mpr ⟨htoken, ih hrest⟩

/-! ## The machine -/

section Machine

variable {members : List (Text × Json)} {frames : List Frame} {state next : State} {t : Located}
  {tokens : List Located}

theorem mem_put {pair : Text × Json} (h : pair ∈ Assoc.put key value members) :
    pair = (key, value) ∨ pair ∈ members := by
  induction members with
  | nil => simpa [Assoc.put] using h
  | cons member rest ih =>
    rw [Assoc.put] at h
    split at h
    · next hkey =>
      rcases List.mem_cons.mp h with rfl | h
      · exact .inl (by rw [← hkey])
      · exact .inr (List.mem_cons_of_mem _ h)
    · rcases List.mem_cons.mp h with rfl | h
      · exact .inr List.mem_cons_self
      · exact (ih h).imp_right (List.mem_cons_of_mem _)

/-- A proper object stays proper when a proper value is put under a key. -/
theorem IsProper.put (h : IsProper (.object members)) (hkey : IsJoined key)
    (hvalue : IsProper value) : IsProper (.object (Assoc.put key value members)) := by
  cases h with
  | object hnodup hkeys hvalues =>
    refine .object (Assoc.nodup_keys_put key value hnodup) ?_ ?_
    · intro pair hpair
      rcases mem_put hpair with rfl | hmem
      · exact hkey
      · exact hkeys pair hmem
    · intro pair hpair
      rcases mem_put hpair with rfl | hmem
      · exact hvalue
      · exact hvalues pair hmem

def Frame.IsProper : Frame → Prop
  | .items found => ∀ item ∈ found, Json.IsProper item
  | .member members key => Json.IsProper (.object members) ∧ IsJoined key

def Awaiting.IsProper : Awaiting → Prop
  | .key members => Json.IsProper (.object members)
  | .colon members key => Json.IsProper (.object members) ∧ IsJoined key
  | .afterValue value => Json.IsProper value
  | .value | .firstItem | .firstKey => True

/-- All that the machine has read so far is proper. -/
structure State.IsProper (state : State) : Prop where
  awaiting : state.awaiting.IsProper
  frames : ∀ frame ∈ state.frames, frame.IsProper

theorem isProper_empty : IsProper (.object []) :=
  .object (by simp [Assoc.keys]) (by simp) (by simp)

theorem isProper_of_stepValue (hframes : ∀ frame ∈ frames, frame.IsProper)
    (ht : t.token.IsProper) (h : stepValue limit frames t = .ok next) : next.IsProper := by
  obtain ⟨position, token⟩ := t
  cases token with
  | scalar value =>
    cases h
    exact ⟨ht, hframes⟩
  | text value =>
    cases h
    exact ⟨.text ht, hframes⟩
  | openBracket =>
    simp only [stepValue] at h
    split at h
    · cases h
    · cases h
      exact ⟨trivial, List.forall_mem_cons.mpr ⟨by simp [Frame.IsProper], hframes⟩⟩
  | openBrace =>
    simp only [stepValue] at h
    split at h
    · cases h
    · cases h
      exact ⟨trivial, hframes⟩
  | _ => cases h

theorem isProper_of_stepKey (hmembers : IsProper (.object members))
    (hframes : ∀ frame ∈ frames, frame.IsProper) (ht : t.token.IsProper)
    (h : stepKey members frames t = .ok next) : next.IsProper := by
  obtain ⟨position, token⟩ := t
  cases token with
  | text key =>
    cases h
    exact ⟨⟨hmembers, ht⟩, hframes⟩
  | _ => cases h

theorem isProper_of_stepAfter (hvalue : IsProper value)
    (hframes : ∀ frame ∈ frames, frame.IsProper) (h : stepAfter value frames t = .ok next) :
    next.IsProper := by
  obtain ⟨position, token⟩ := t
  cases frames with
  | nil => cases h
  | cons frame outer =>
    obtain ⟨hframe, houter⟩ := List.forall_mem_cons.mp hframes
    cases frame with
    | items items =>
      have hitems : ∀ item ∈ value :: items, IsProper item :=
        List.forall_mem_cons.mpr ⟨hvalue, hframe⟩
      cases token with
      | comma =>
        cases h
        exact ⟨trivial, List.forall_mem_cons.mpr ⟨hitems, houter⟩⟩
      | closeBracket =>
        cases h
        exact ⟨.array fun item hitem => hitems item (List.mem_reverse.mp hitem), houter⟩
      | _ => cases h
    | member members key =>
      have hmembers := hframe.1.put hframe.2 hvalue
      cases token with
      | comma =>
        cases h
        exact ⟨hmembers, houter⟩
      | closeBrace =>
        cases h
        exact ⟨hmembers, houter⟩
      | _ => cases h

/-- One token keeps what was read proper. -/
theorem isProper_of_step (hstate : state.IsProper) (ht : t.token.IsProper)
    (h : state.step limit t = .ok next) : next.IsProper := by
  obtain ⟨awaiting, frames⟩ := state
  obtain ⟨hawaiting, hframes⟩ := hstate
  cases awaiting with
  | value => exact isProper_of_stepValue hframes ht h
  | firstItem =>
    obtain ⟨position, token⟩ := t
    cases token with
    | closeBracket =>
      cases h
      exact ⟨.array (by simp), fun frame hframe => hframes frame (List.mem_of_mem_tail hframe)⟩
    | _ => exact isProper_of_stepValue hframes ht (show stepValue limit frames _ = _ from h)
  | firstKey =>
    obtain ⟨position, token⟩ := t
    cases token with
    | closeBrace =>
      cases h
      exact ⟨isProper_empty, hframes⟩
    | _ => exact isProper_of_stepKey isProper_empty hframes ht h
  | key members => exact isProper_of_stepKey hawaiting hframes ht h
  | colon members key =>
    obtain ⟨position, token⟩ := t
    cases token with
    | colon =>
      cases h
      exact ⟨trivial, List.forall_mem_cons.mpr ⟨hawaiting, hframes⟩⟩
    | _ => cases h
  | afterValue value => exact isProper_of_stepAfter hawaiting hframes h

/-- A run keeps what was read proper. -/
theorem isProper_of_foldlM (hstate : state.IsProper) (ht : ∀ t ∈ tokens, t.token.IsProper)
    (h : tokens.foldlM (State.step limit) state = .ok next) : next.IsProper := by
  induction tokens generalizing state with
  | nil =>
    cases h
    exact hstate
  | cons t rest ih =>
    obtain ⟨hfirst, hrest⟩ := List.forall_mem_cons.mp ht
    rw [List.foldlM_cons] at h
    cases hstep : state.step limit t with
    | error problem =>
      rw [hstep] at h
      cases h
    | ok mid =>
      rw [hstep] at h
      exact ih (isProper_of_step hstate hfirst hstep) hrest h

theorem isProper_of_finish {length : Nat} (hstate : state.IsProper)
    (h : state.finish length = .ok value) : IsProper value := by
  obtain ⟨awaiting, frames⟩ := state
  cases awaiting with
  | afterValue value =>
    cases frames with
    | nil =>
      cases h
      exact hstate.awaiting
    | cons frame outer => cases h
  | _ => cases h

end Machine

/-- Every value that is read from characters is proper. -/
theorem isProper_of_read (hs : ∀ c ∈ s, c.IsChar) (h : read s limit = .ok value) :
    IsProper value := by
  have htokens := ofTokens_of_read h
  rw [ofTokens] at htokens
  cases hrun : (tokens s).foldlM (State.step limit) State.initial with
  | error problem =>
    rw [hrun] at htokens
    cases htokens
  | ok state =>
    rw [hrun] at htokens
    have hinitial : State.initial.IsProper := ⟨trivial, by simp [State.initial]⟩
    exact isProper_of_finish (isProper_of_foldlM hinitial (isProper_tokensFrom hs) hrun) htokens

end EditorTabs.Json
