import EditorTabs.Text.Basic

/-!
# Paths

A path is any text, split at its slashes. Joining, normalising, the parent and the way from one
directory to another go by the segments; nothing here looks at files.
-/
namespace EditorTabs.Path

abbrev slash : CodePoint := '/'

abbrev backslash : CodePoint := '\\'

abbrev Segment := Text

/-- The segments of a path, one more than it has slashes. -/
def split : Text → List Segment
  | [] => [[]]
  | c :: cs =>
    if c = slash then [] :: split cs
    else
      match split cs with
      | [] => [[c]]
      | segment :: segments => (c :: segment) :: segments

def unsplit : List Segment → Text
  | [] => []
  | [segment] => segment
  | segment :: segments => segment ++ slash :: unsplit segments

theorem split_ne_nil (cs : Text) : split cs ≠ [] := by
  cases cs with
  | nil => simp [split]
  | cons c cs =>
    simp only [split]
    split
    · simp
    · split <;> simp

theorem unsplit_split (cs : Text) : unsplit (split cs) = cs := by
  induction cs with
  | nil => rfl
  | cons c cs ih =>
    by_cases h : c = slash
    · subst h
      cases hs : split cs with
      | nil => exact absurd hs (split_ne_nil cs)
      | cons segment segments => simpa [split, hs, unsplit] using ih
    · cases hs : split cs with
      | nil => exact absurd hs (split_ne_nil cs)
      | cons segment segments =>
        rw [hs] at ih
        cases segments <;> simp_all [split, unsplit]

def here : Segment := ['.']

def up : Segment := ['.', '.']

def isAbsolute (path : Text) : Bool :=
  path.head? = some slash

/-- A path below a base. An absolute path stands for itself, and a base that is empty or ends with
a slash needs no other one. -/
def join (base path : Text) : Text :=
  if isAbsolute path then path
  else if base = [] ∨ base.getLast? = some slash then base ++ path
  else base ++ slash :: path

/-- The slashes a normalised path starts with: exactly two are kept, more are one. -/
def leadingSlashes (path : Text) : Nat :=
  let count := (path.takeWhile (· = slash)).length
  if count ≤ 2 then count else 1

/-- One segment of a path to be normalised, over the segments kept so far, last first. A way up
takes back the segment before it; at the root there is no way up. -/
def pushSegment (rooted : Bool) (kept : List Segment) (segment : Segment) : List Segment :=
  if segment = [] ∨ segment = here then kept
  else if segment = up then
    match kept with
    | [] => if rooted then [] else [up]
    | last :: before => if last = up then up :: kept else before
  else segment :: kept

def normalSegments (rooted : Bool) (segments : List Segment) : List Segment :=
  (segments.foldl (pushSegment rooted) []).reverse

/-- The shortest spelling of a path: no empty segment, no segment for the directory itself, and a
way up only at the start of a path that is not absolute. -/
def normalize (path : Text) : Text :=
  let slashes := leadingSlashes path
  let normal := List.replicate slashes slash ++ unsplit (normalSegments (slashes ≠ 0) (split path))
  if normal = [] then here else normal

/-- Everything before the last segment, without slashes at its end unless it is all slashes. -/
def parent (path : Text) : Text :=
  let head := (path.reverse.dropWhile (· ≠ slash)).reverse
  if head.all (· = slash) then head else (head.reverse.dropWhile (· = slash)).reverse

def absolute (cwd path : Text) : Text :=
  normalize (join cwd path)

def names (path : Text) : List Segment :=
  (split path).filter (· ≠ [])

def dropCommon {α : Type} [DecidableEq α] : List α → List α → List α × List α
  | a :: as, b :: bs => if a = b then dropCommon as bs else (a :: as, b :: bs)
  | as, bs => (as, bs)

/-- The way from one directory to a path, both absolute: up to the last common directory and down
from there. -/
def wayBetween (start target : Text) : Text :=
  let (ups, downs) := dropCommon (names start) (names target)
  match List.replicate ups.length up ++ downs with
  | [] => here
  | segments => unsplit segments

/-- A path as seen from a directory, both taken in a working directory. -/
def relative (cwd path start : Text) : Text :=
  wayBetween (absolute cwd start) (absolute cwd path)

def forward (path : Text) : Text :=
  path.map fun c => if c = backslash then slash else c

def segments (path : Text) : List Text :=
  split (forward path)

end EditorTabs.Path
