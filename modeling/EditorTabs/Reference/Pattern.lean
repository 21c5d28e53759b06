import EditorTabs.Text.Blank
import EditorTabs.Text.Start
import EditorTabs.Text.Word

/-!
# References in source text

A source text refers to other modules in three ways: `import … from "m"`, `require("m")` and
`import("m")`, each with either quote at either end. In all of them the text from the keyword to
the first quote decides whether there is a reference, the text from there to the next quote is its
name, and a call has to be closed after it. So at one place there is at most one reference of a
kind. Comments and other texts are not told apart.
-/
namespace EditorTabs.Reference

open Text

/-- The three ways to refer to a module. -/
inductive Pattern where
  | importFrom
  | require
  | dynamicImport
  deriving DecidableEq, Repr

def Pattern.all : List Pattern :=
  [.importFrom, .require, .dynamicImport]

def isQuote (c : CodePoint) : Bool :=
  c = '\'' || c = '"'

def Pattern.keyword : Pattern → Text
  | .importFrom => "import"
  | .require => "require"
  | .dynamicImport => "import"

def isClause (c : CodePoint) : Bool :=
  isWord c || isBlank c || c = '*' || c = '\x7b' || c = '\x7d' || c = ','

/-- An import clause with the blanks around it: at least two code points, with a blank at either
end. -/
def isClauseBetweenBlanks (cs : Text) : Bool :=
  2 ≤ cs.length && cs.all isClause && cs.head?.any isBlank && cs.getLast?.any isBlank

def isFromClause (head : Text) : Bool :=
  let reversed := head.reverse
  let word := reversed.dropWhile isBlank
  match afterWord? (Text.ofString "from").reverse word with
  | some clause => word.length < reversed.length && isClauseBetweenBlanks clause.reverse
  | none => false

def isCallOpening (head : Text) : Bool :=
  match head.dropWhile isBlank with
  | .char '(' :: rest => rest.all isBlank
  | _ => false

def Pattern.opens : Pattern → Text → Bool
  | .importFrom => isFromClause
  | .require => isCallOpening
  | .dynamicImport => isCallOpening

/-- What comes after a reference, from its closing quote on: for a call, what follows the closing
bracket, which has to come next but for blanks. -/
def Pattern.rest? : Pattern → Text → Option Text
  | .importFrom, after => some after
  | .require, after | .dynamicImport, after => afterWord? [')'] (after.dropWhile isBlank)

/-- A reference and what comes after it. -/
structure Hit where
  reference : Text
  rest : Text
  deriving DecidableEq, Repr

def afterFirst? : Text → Option Text
  | [] => none
  | _ :: rest => some rest

def Pattern.hit? (pattern : Pattern) (cs : Text) : Option Hit := do
  let text ← afterWord? pattern.keyword cs
  let quoted ← afterFirst? (text.dropWhile fun c => !isQuote c)
  let reference := quoted.takeWhile fun c => !isQuote c
  let after ← afterFirst? (quoted.dropWhile fun c => !isQuote c)
  if pattern.opens (text.takeWhile fun c => !isQuote c) && reference ≠ [] then
    return ⟨reference, ← pattern.rest? after⟩
  else none

theorem length_of_afterFirst? {cs rest : Text} (h : afterFirst? cs = some rest) :
    rest.length < cs.length := by
  cases cs with
  | nil => simp [afterFirst?] at h
  | cons c cs =>
    simp only [afterFirst?, Option.some.injEq] at h
    simp [h]

theorem Pattern.length_of_rest? {pattern : Pattern} {after rest : Text}
    (h : pattern.rest? after = some rest) : rest.length ≤ after.length := by
  have bracket : ∀ {cs : Text}, afterWord? [')'] (cs.dropWhile isBlank) = some rest →
      rest.length ≤ cs.length := by
    intro cs hc
    have := (List.dropWhile_sublist isBlank (l := cs)).length_le
    rw [afterWord?_eq_some_iff.1 hc] at this
    simp only [List.length_append, List.length_singleton] at this
    omega
  cases pattern with
  | importFrom => simp_all [rest?]
  | require => exact bracket h
  | dynamicImport => exact bracket h

theorem Pattern.length_of_hit? {pattern : Pattern} {cs : Text} {hit : Hit}
    (h : pattern.hit? cs = some hit) : hit.rest.length < cs.length := by
  simp only [hit?, Option.bind_eq_bind, Option.bind_eq_some_iff] at h
  obtain ⟨text, ht, quoted, hq, after, ha, h⟩ := h
  split at h
  · obtain ⟨rest, hr, h⟩ := Option.bind_eq_some_iff.1 h
    simp only [Option.pure_def, Option.some.injEq] at h
    have h1 := congrArg List.length (afterWord?_eq_some_iff.1 ht)
    have h2 := length_of_afterFirst? hq
    have h3 := length_of_afterFirst? ha
    have h4 := length_of_rest? hr
    have h5 := (List.dropWhile_sublist (fun c => !isQuote c) (l := text)).length_le
    have h6 := (List.dropWhile_sublist (fun c => !isQuote c) (l := quoted)).length_le
    rw [← h]
    simp only [List.length_append] at h1
    simp only
    omega
  · simp at h

/-- All references of one kind, from left to right. The search goes on after each reference. -/
def Pattern.scan (pattern : Pattern) : Text → List Text
  | [] => []
  | c :: cs =>
    match h : pattern.hit? (c :: cs) with
    | some hit =>
      have := pattern.length_of_hit? h
      hit.reference :: pattern.scan hit.rest
    | none => pattern.scan cs
  termination_by cs => cs.length
  decreasing_by
  · assumption
  · exact Nat.lt_succ_self _

end EditorTabs.Reference
