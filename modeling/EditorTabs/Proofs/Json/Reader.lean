import EditorTabs.Json.Reader
import EditorTabs.Proofs.Json.Lexeme
import Mathlib.Data.List.Chain

/-!
# What the reading of tokens depends on

The machine that reads tokens never looks at their positions but to say where a problem is. It takes
no broken token, and of two neighbouring tokens that it takes one is a mark.
-/
namespace EditorTabs.Json

/-- Outcomes that are the same but for the place of a problem. -/
inductive Alike {α : Type} : Step α → Step α → Prop
  | refl (r : Step α) : Alike r r
  | problem (problem : Problem) (position position' : Nat) :
      Alike (problemAt problem position) (problemAt problem position')

variable {limit length : Nat} {state next : State} {t t' : Located}
  {tokens tokens' : List Located} {value : Json}

theorem Alike.eq_of_ok {α : Type} {r : Step α} {a : α} (h : Alike (.ok a) r) : r = .ok a := by
  cases h
  rfl

theorem Alike.eq_of_fault {α : Type} {r : Step α} {fault : Fault}
    (h : Alike (.error (.inr fault)) r) : r = .error (.inr fault) := by
  cases h
  rfl

theorem alike_step (h : t.token = t'.token) (state : State) :
    Alike (state.step limit t) (state.step limit t') := by
  obtain ⟨position, token⟩ := t
  obtain ⟨position', token'⟩ := t'
  obtain rfl : token = token' := h
  obtain ⟨awaiting, frames⟩ := state
  have hvalue : Alike (stepValue limit frames ⟨position, token⟩)
      (stepValue limit frames ⟨position', token⟩) := by
    cases token with
    | scalar | text | openBracket | openBrace | brokenText | hugeNumber => exact .refl _
    | _ => exact .problem ..
  have hkey (members : List (Text × Json)) :
      Alike (stepKey members frames ⟨position, token⟩)
        (stepKey members frames ⟨position', token⟩) := by
    cases token with
    | text | brokenText => exact .refl _
    | _ => exact .problem ..
  have hafter (value : Json) :
      Alike (stepAfter value frames ⟨position, token⟩)
        (stepAfter value frames ⟨position', token⟩) := by
    cases frames with
    | nil => exact .problem ..
    | cons frame outer =>
      cases frame with
      | items items =>
        cases token with
        | comma | closeBracket => exact .refl _
        | _ => exact .problem ..
      | member members key =>
        cases token with
        | comma | closeBrace => exact .refl _
        | _ => exact .problem ..
  cases awaiting with
  | value => exact hvalue
  | firstItem =>
    cases token with
    | closeBracket => exact .refl _
    | _ => exact hvalue
  | firstKey =>
    cases token with
    | closeBrace => exact .refl _
    | _ => exact hkey []
  | key members => exact hkey members
  | colon members key =>
    cases token with
    | colon => exact .refl _
    | _ => exact .problem ..
  | afterValue value => exact hafter value

theorem alike_finish (length length' : Nat) (state : State) :
    Alike (state.finish length) (state.finish length') := by
  obtain ⟨awaiting, frames⟩ := state
  cases awaiting with
  | afterValue value =>
    cases frames with
    | nil => exact .refl _
    | cons frame outer => exact .problem ..
  | _ => exact .problem ..

/-- What is read from tokens depends on their positions only in the place of a problem. -/
theorem alike_ofTokens (h : tokens.map Located.token = tokens'.map Located.token)
    (length length' : Nat) :
    Alike (ofTokens limit length tokens) (ofTokens limit length' tokens') := by
  have hrun (state : State) :
      Alike (tokens.foldlM (State.step limit) state >>= State.finish length)
        (tokens'.foldlM (State.step limit) state >>= State.finish length') := by
    induction tokens generalizing tokens' state with
    | nil =>
      rw [List.map_nil, eq_comm, List.map_eq_nil_iff] at h
      subst h
      exact alike_finish length length' state
    | cons t rest ih =>
      obtain ⟨t', rest', rfl, ht, hrest⟩ := List.map_eq_cons_iff.mp h.symm
      have hstep : Alike (state.step limit t) (state.step limit t') := alike_step ht.symm state
      simp only [List.foldlM_cons, bind_assoc]
      generalize hr : state.step limit t = r at hstep ⊢
      generalize hr' : state.step limit t' = r' at hstep ⊢
      cases hstep with
      | refl =>
        cases r with
        | error problem => exact .refl _
        | ok next => exact ih hrest.symm next
      | problem problem position position' => exact .problem ..
  exact hrun State.initial

theorem read_eq_ok_iff {s : Text} {value : Json} :
    read s limit = .ok value ↔ readAll limit s = .ok value := by
  unfold read
  split
  · next value' h => rw [h]; simp
  · next problem position h => rw [h]; simp
  · next fault h => rw [h]; simp

theorem ofTokens_of_read {s : Text} {value : Json} (h : read s limit = .ok value) :
    ofTokens limit s.length (Json.tokens s) = .ok value := by
  have hread := read_eq_ok_iff.mp h
  rw [readAll.eq_def] at hread
  cases s with
  | nil =>
    rw [Json.tokens, tokensFrom]
    exact hread
  | cons c rest =>
    simp only at hread
    split at hread
    · cases hread
    · exact hread

theorem readAll_eq_of_read {s : Text} {fault : Fault} (hfault : ∀ place, fault ≠ .malformed place)
    (h : read s limit = .error fault) : readAll limit s = .error (.inr fault) := by
  unfold read at h
  split at h
  · cases h
  · cases h
    exact absurd rfl (hfault _)
  · next fault' hread =>
    cases h
    exact hread

def State.WantsMark (state : State) : Prop :=
  match state.awaiting with
  | .colon _ _ | .afterValue _ => True
  | _ => False

/-- A token that was taken is whole, and after one that is no mark there comes a mark. -/
structure Takes (token : Token) (next : State) : Prop where
  whole : token.isBroken = false
  wantsMark : token.isMark = false → next.WantsMark

theorem takes_of_isMark (h : t.token.isMark = true) (next : State) : Takes t.token next := by
  refine ⟨?_, fun hmark => absurd (h.symm.trans hmark) (by decide)⟩
  cases ht : t.token with
  | brokenText | stray => simp [ht, Token.isMark] at h
  | _ => rfl

theorem takes_of_stepValue (frames : List Frame) (h : stepValue limit frames t = .ok next) :
    Takes t.token next := by
  obtain ⟨position, token⟩ := t
  cases token with
  | scalar value | text value =>
    cases h
    exact ⟨rfl, fun _ => trivial⟩
  | openBrace | openBracket => exact takes_of_isMark rfl next
  | hugeNumber digits => cases h
  | _ => cases h

theorem takes_of_stepKey (members : List (Text × Json)) (frames : List Frame)
    (h : stepKey members frames t = .ok next) : Takes t.token next := by
  obtain ⟨position, token⟩ := t
  cases token with
  | text key =>
    cases h
    exact ⟨rfl, fun _ => trivial⟩
  | _ => cases h

theorem isMark_of_stepAfter {frames : List Frame} (h : stepAfter value frames t = .ok next) :
    t.token.isMark = true := by
  obtain ⟨position, token⟩ := t
  cases frames with
  | nil => cases h
  | cons frame outer =>
    cases frame with
    | items items =>
      cases token with
      | comma | closeBracket => rfl
      | _ => cases h
    | member members key =>
      cases token with
      | comma | closeBrace => rfl
      | _ => cases h

theorem isMark_of_step (hstate : state.WantsMark) (h : state.step limit t = .ok next) :
    t.token.isMark = true := by
  obtain ⟨awaiting, frames⟩ := state
  cases awaiting with
  | colon members key =>
    obtain ⟨position, token⟩ := t
    cases token with
    | colon => rfl
    | _ => cases h
  | afterValue value => exact isMark_of_stepAfter h
  | _ => exact hstate.elim

theorem takes_of_step (h : state.step limit t = .ok next) : Takes t.token next := by
  obtain ⟨awaiting, frames⟩ := state
  cases awaiting with
  | value => exact takes_of_stepValue frames h
  | firstItem =>
    obtain ⟨position, token⟩ := t
    cases token with
    | closeBracket => exact takes_of_isMark rfl next
    | _ => exact takes_of_stepValue frames (show stepValue limit frames _ = _ from h)
  | firstKey =>
    obtain ⟨position, token⟩ := t
    cases token with
    | closeBrace => exact takes_of_isMark rfl next
    | _ => exact takes_of_stepKey [] frames h
  | key members => exact takes_of_stepKey members frames h
  | colon members key =>
    have hwants : State.WantsMark ⟨.colon members key, frames⟩ := trivial
    exact takes_of_isMark (isMark_of_step hwants h) next
  | afterValue value =>
    have hwants : State.WantsMark ⟨.afterValue value, frames⟩ := trivial
    exact takes_of_isMark (isMark_of_step hwants h) next

/-- Tokens that are taken one after the other are whole, and of two neighbours one is a mark. -/
theorem isChain_of_foldlM (h : tokens.foldlM (State.step limit) state = .ok next) :
    (∀ t ∈ tokens, t.token.isBroken = false) ∧
      (tokens.map fun t => t.token.isMark).IsChain (fun a b => a = true ∨ b = true) := by
  induction tokens generalizing state with
  | nil => exact ⟨by simp, .nil⟩
  | cons t rest ih =>
    rw [List.foldlM_cons] at h
    cases hstep : state.step limit t with
    | error problem => rw [hstep] at h; cases h
    | ok mid =>
      rw [hstep] at h
      have htakes := takes_of_step hstep
      obtain ⟨hwhole, hchain⟩ := ih h
      refine ⟨List.forall_mem_cons.mpr ⟨htakes.whole, hwhole⟩, ?_⟩
      cases rest with
      | nil => exact .singleton _
      | cons t' later =>
        refine .cons_cons ?_ hchain
        cases hmark : t.token.isMark with
        | true => exact .inl hmark
        | false =>
          right
          change State.step limit mid t' >>= _ = _ at h
          cases hstep' : mid.step limit t' with
          | error problem => rw [hstep'] at h; cases h
          | ok last => exact isMark_of_step (htakes.wantsMark hmark) hstep'

end EditorTabs.Json
