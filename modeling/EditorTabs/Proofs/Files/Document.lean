import EditorTabs.Files.Document
import EditorTabs.Proofs.Alias.Candidates
import EditorTabs.Proofs.Json.Comments

/-!
# What documents hold

A document that cannot be read as a value is unreadable or refused, unless no file can have its
path. A whole number with too many digits is refused, though its bytes and its spelling are in
order.
-/
namespace EditorTabs

theorem Text.Utf8.decode_ascii {s : Text} (h : ∀ c ∈ s, c.toNat < 0x80) :
    decode (s.map fun c => .ofNat c.toNat) = .ok s := by
  have hfrom (pos : Nat) : decodeFrom pos none (s.map fun c => .ofNat c.toNat) = .ok s := by
    induction s generalizing pos with
    | nil => rfl
    | cons c tail ih =>
      obtain ⟨hc, htail⟩ := List.forall_mem_cons.mp h
      have hbyte : (UInt8.ofNat c.toNat).toNat = c.toNat := by
        rw [UInt8.toNat_ofNat']
        omega
      have hopening : opening pos (.ofNat c.toNat) = .char c := by
        simp only [opening, hbyte, if_pos hc, CodePoint.ofNat_toNat]
      rw [List.map_cons, decodeFrom, hopening]
      simp only [ih htail]
      rfl
  exact hfrom 0

theorem Text.unifyLineEnds_of_notMem {s : Text} (h : .char '\r' ∉ s) : unifyLineEnds s = s := by
  induction s with
  | nil => rfl
  | cons c tail ih =>
    obtain ⟨hc, htail⟩ := not_or.mp (mt List.mem_cons.mpr h)
    rw [unifyLineEnds, ih htail]
    · rintro rest rfl
      exact absurd rfl hc
    · rintro rfl
      exact absurd rfl hc

namespace Files

variable {tree : Tree} {cwd path : Text} {comments : Bool} {limit : Nat} {fault : EditorTabs.Fault}

theorem pathFault?_eq_none_of_isThere (h : tree.isThere cwd path = true) :
    pathFault? path = none := by
  rw [← Option.not_isSome_iff_eq_none]
  intro hfault
  simp [Tree.isThere, Tree.walk, hfault] at h

theorem cases_of_readDocument (h : readDocument tree cwd path = .error fault) :
    (∃ cause, fault = .unreadable cause) ∨
      ∃ cause, pathFault? path = some cause ∧ fault = .impossible cause := by
  rw [readDocument, Tree.read] at h
  cases hpath : pathFault? path with
  | some cause =>
    simp only [hpath] at h
    cases h
    exact .inr ⟨cause, rfl, rfl⟩
  | none =>
    left
    simp only [hpath] at h
    cases hfile : tree.readFile cwd path with
    | error other =>
      rw [hfile] at h
      cases h
      exact ⟨.file other, rfl⟩
    | ok bytes =>
      rw [hfile] at h
      simp only [Except.mapError] at h
      split at h <;> cases h
      exact ⟨_, rfl⟩

theorem readDocument_ascii {s : Text} (h : ∀ c ∈ s, c.toNat < 0x80) (hreturn : .char '\r' ∉ s)
    (hread : tree.read cwd path = .ok (s.map fun c => .ofNat c.toNat)) :
    readDocument tree cwd path = .ok s := by
  simp only [readDocument, hread, Text.Utf8.decode_ascii h, Text.unifyLineEnds_of_notMem hreturn]

theorem cases_of_readValue (h : readValue tree cwd path comments limit = .error fault) :
    (∃ cause, fault = .unreadable cause) ∨ fault.IsRefusal ∨
      ∃ cause, pathFault? path = some cause ∧ fault = .impossible cause := by
  rw [readValue] at h
  split at h
  · next hread =>
    cases h
    exact (cases_of_readDocument hread).imp_right .inr
  · rcases Fault.isRefusal_of_mapError h with ⟨place, hplace⟩ | hrefusal
    · exact .inl ⟨.malformed place, hplace⟩
    · exact .inr (.inl hrefusal)

theorem readValue_of_isWhole {s : Text} (hwhole : Json.IsWhole s)
    (hlong : Json.digitLimit < s.length)
    (hread : tree.read cwd path = .ok (s.map fun c => .ofNat c.toNat)) :
    readValue tree cwd path comments limit = .error (.tooManyDigits s.length) := by
  have hdigits : ∀ c ∈ s, 48 ≤ c.toNat ∧ c.toNat ≤ 57 := by
    intro c hc
    simpa [Json.isDigit] using hwhole.forall_isDigit c hc
  have hne (d : CodePoint) (hd : d.toNat < 48) : ∀ c ∈ s, c ≠ d := by
    rintro c hc rfl
    exact absurd (hdigits c hc).1 (by omega)
  have hdocument : readDocument tree cwd path = .ok s := by
    apply readDocument_ascii _ _ hread
    · intro c hc
      have hle := (hdigits c hc).2
      omega
    · exact fun hc => hne _ (by decide) _ hc rfl
  have hstrip : Json.stripComments s = s := by
    have hcode := Json.stripFrom_code_append (s := s)
      (fun c hc => ⟨hne _ (by decide) c hc, hne _ (by decide) c hc⟩) []
    rwa [List.append_nil, Json.stripFrom, List.append_nil] at hcode
  simp only [readValue, hdocument, hstrip, ite_self, Json.read_of_isWhole hwhole hlong]
  rfl

end Files

end EditorTabs
