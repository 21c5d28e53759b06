import EditorTabs.Text.Basic

/-!
# Words at the start of a text
-/
namespace EditorTabs.Text

/-- What is left of a text after a word at its start. -/
def afterWord? : (word cs : Text) → Option Text
  | [], cs => some cs
  | _ :: _, [] => none
  | w :: word, c :: cs => if w = c then afterWord? word cs else none

theorem afterWord?_eq_some_iff {word cs rest : Text} :
    afterWord? word cs = some rest ↔ cs = word ++ rest := by
  induction word generalizing cs with
  | nil => simp [afterWord?]
  | cons w word ih =>
    cases cs with
    | nil => simp [afterWord?]
    | cons c cs =>
      by_cases h : w = c
      · simp [afterWord?, h, ih]
      · simp [afterWord?, h, Ne.symm h]

end EditorTabs.Text
