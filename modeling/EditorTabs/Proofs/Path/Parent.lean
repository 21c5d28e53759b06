import EditorTabs.Path.Basic
import Mathlib.Data.List.TakeWhile

/-!
# The directory of a path

A path is its directory, the slashes after it and a name without slashes. There are slashes after
the directory unless it consists of slashes itself.
-/
namespace EditorTabs.Path

theorem length_split (path : Text) : (split path).length = path.count slash + 1 := by
  induction path with
  | nil => rfl
  | cons c cs ih =>
    rw [split, List.count_cons]
    by_cases h : c = slash
    · simp [h, ih]
    · cases hs : split cs with
      | nil => exact absurd hs (split_ne_nil cs)
      | cons segment segments =>
        rw [hs] at ih
        simpa [h] using ih

@[simp] theorem forward_forward (path : Text) : forward (forward path) = forward path := by
  simp only [forward, List.map_map]
  refine List.map_congr_left fun c _ => ?_
  by_cases h : c = backslash <;> simp [h]

/-- A text without the characters of a kind at its end, and those. -/
theorem reverse_dropWhile_append (p : CodePoint → Bool) (text : Text) :
    (text.reverse.dropWhile p).reverse ++ (text.reverse.takeWhile p).reverse = text := by
  rw [← List.reverse_append, List.takeWhile_append_dropWhile, List.reverse_reverse]

/-- The slashes at the end of a text. -/
theorem exists_append_replicate (text : Text) :
    ∃ n, text = (text.reverse.dropWhile (· = slash)).reverse ++ List.replicate n slash ∧
      (text.getLast? = some slash → n ≠ 0) := by
  refine ⟨(text.reverse.takeWhile (· = slash)).length, ?_, fun hlast hzero => ?_⟩
  · have hslashes : (text.reverse.takeWhile (· = slash)).reverse =
        List.replicate (text.reverse.takeWhile (· = slash)).length slash :=
      List.eq_replicate_iff.mpr ⟨List.length_reverse, fun c hc => by
        simpa using List.mem_takeWhile_imp (List.mem_reverse.mp hc)⟩
    rw [← hslashes, reverse_dropWhile_append]
  · rw [List.getLast?_eq_head?_reverse] at hlast
    obtain ⟨rest, hrest⟩ := List.head?_eq_some_iff.mp hlast
    simp [hrest] at hzero

theorem exists_eq_parent_append (path : Text) :
    ∃ n name, path = parent path ++ List.replicate n slash ++ name ∧
      path.count slash = (parent path).count slash + n ∧
      (n = 0 ↔ ∀ c ∈ parent path, c = slash) := by
  have hpath := reverse_dropWhile_append (· ≠ slash) path
  have hname : slash ∉ (path.reverse.takeWhile (· ≠ slash)).reverse := fun hmem => by
    simpa using List.mem_takeWhile_imp (List.mem_reverse.mp hmem)
  have hlast : (path.reverse.dropWhile (· ≠ slash)).reverse ≠ [] →
      (path.reverse.dropWhile (· ≠ slash)).reverse.getLast? = some slash := by
    intro hne
    rw [Ne, List.reverse_eq_nil_iff] at hne
    rw [List.getLast?_reverse, List.head?_eq_some_head hne]
    simpa using List.head_dropWhile_not (· ≠ slash) hne
  rw [parent]
  generalize (path.reverse.takeWhile (· ≠ slash)).reverse = name at hpath hname
  generalize (path.reverse.dropWhile (· ≠ slash)).reverse = head at hpath hlast ⊢
  have hcount : path.count slash = head.count slash := by
    rw [← hpath, List.count_append, List.count_eq_zero.mpr hname, Nat.add_zero]
  rw [hcount, ← hpath]
  split
  · next hall => exact ⟨0, name, by simp, rfl, by simpa using hall⟩
  · next hall =>
    obtain ⟨n, hhead, hn⟩ := exists_append_replicate head
    generalize (head.reverse.dropWhile (· = slash)).reverse = directory at hhead ⊢
    refine ⟨n, name, by rw [← hhead], by simp [hhead], iff_of_false (hn (hlast ?_)) ?_⟩
    · rintro rfl
      simp at hall
    · intro hdirectory
      refine hall (List.all_eq_true.mpr fun c hc => ?_)
      rw [hhead, List.mem_append] at hc
      rcases hc with hc | hc
      · simpa using hdirectory c hc
      · simpa using List.eq_of_mem_replicate hc

end EditorTabs.Path
