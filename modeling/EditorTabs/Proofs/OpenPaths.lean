import EditorTabs.OpenPaths
import EditorTabs.Proofs.Text.Sorted
import Mathlib.Data.Nat.Cast.Order.Basic
import Mathlib.Order.Bounds.Basic
import Mathlib.Tactic.Tauto

/-!
# The open path that a path stands for

A path that is not open stands for the first of the open paths with which it shares the most
segments, and it shares as many with another path as the longest list of segments has at which both
end. Which open path that is depends on the order of the open paths only if several of them share
the most.
-/
namespace EditorTabs

section Suffix

variable {α : Type} [DecidableEq α]

theorem le_length_takeWhile_zip_iff {left right : List α} {k : Nat} :
    k ≤ ((left.zip right).takeWhile fun pair => pair.1 = pair.2).length ↔
      ∃ start : List α, start.length = k ∧ start <+: left ∧ start <+: right := by
  induction left generalizing right k with
  | nil => simp [eq_comm]
  | cons a left ih =>
    cases right with
    | nil => simp [eq_comm]
    | cons b right =>
      cases k with
      | zero => simp
      | succ k =>
        constructor
        · intro h
          by_cases hab : a = b
          · subst hab
            simp only [List.zip_cons_cons, decide_true, List.takeWhile_cons_of_pos,
              List.length_cons, Nat.add_le_add_iff_right] at h
            obtain ⟨start, hlength, hleft, hright⟩ := ih.mp h
            exact ⟨a :: start, by simp [hlength], by simpa using hleft, by simpa using hright⟩
          · simp [hab] at h
        · rintro ⟨start, hlength, hleft, hright⟩
          cases start with
          | nil => simp at hlength
          | cons c start =>
            obtain ⟨rfl, hleft'⟩ := List.cons_prefix_cons.mp hleft
            obtain ⟨rfl, hright'⟩ := List.cons_prefix_cons.mp hright
            simpa using ih.mpr ⟨start, by simpa using hlength, hleft', hright'⟩

theorem le_commonSuffix_iff {left right : List α} {k : Nat} :
    k ≤ commonSuffix left right ↔
      ∃ tail : List α, tail.length = k ∧ tail <:+ left ∧ tail <:+ right := by
  rw [commonSuffix, le_length_takeWhile_zip_iff]
  constructor
  · rintro ⟨start, hlength, hleft, hright⟩
    refine ⟨start.reverse, by simpa using hlength, ?_, ?_⟩
    · rwa [← List.reverse_prefix, List.reverse_reverse]
    · rwa [← List.reverse_prefix, List.reverse_reverse]
  · rintro ⟨tail, hlength, hleft, hright⟩
    exact ⟨tail.reverse, by simpa using hlength, List.reverse_prefix.mpr hleft,
      List.reverse_prefix.mpr hright⟩

end Suffix

/-- The number of segments in the longest list of them at which both paths end. -/
def SharesExactly (left right : Text) (count : Nat) : Prop :=
  IsGreatest {k | ∃ tail : List Text, tail.length = k ∧ tail <:+ Path.segments left ∧
    tail <:+ Path.segments right} count

theorem sharesExactly_iff {left right : Text} {count : Nat} :
    SharesExactly left right count ↔ count = sharedSegments left right := by
  have hshared : IsGreatest {k | ∃ tail : List Text, tail.length = k ∧
      tail <:+ Path.segments left ∧ tail <:+ Path.segments right} (sharedSegments left right) :=
    ⟨le_commonSuffix_iff.mp le_rfl, fun _ h => le_commonSuffix_iff.mpr h⟩
  constructor
  · exact fun h => h.unique hshared
  · rintro rfl
    exact hshared

namespace OpenPaths

/-- The first path of a list with which a path shares the most segments, and enough of them. -/
def IsFirstBest (least : Int) (path : Text) (paths : List Text) (found : Text) : Prop :=
  ∃ before after, paths = before ++ found :: after ∧ least ≤ sharedSegments path found ∧
    0 < sharedSegments path found ∧
    (∀ other ∈ before, sharedSegments path other < sharedSegments path found) ∧
    ∀ other ∈ after, sharedSegments path other ≤ sharedSegments path found

variable {least : Int} {path : Text} {paths : List Text}

theorem IsFirstBest.mem {found : Text} (h : IsFirstBest least path paths found) :
    found ∈ paths := by
  obtain ⟨before, after, rfl, _⟩ := h
  simp

theorem IsFirstBest.shared_le {found : Text} (h : IsFirstBest least path paths found)
    {other : Text} (ho : other ∈ paths) :
    sharedSegments path other ≤ sharedSegments path found := by
  obtain ⟨before, after, rfl, _, _, hbefore, hafter⟩ := h
  rcases List.mem_append.mp ho with ho | ho
  · exact (hbefore other ho).le
  · rcases List.mem_cons.mp ho with rfl | ho
    · exact le_rfl
    · exact hafter other ho

theorem IsFirstBest.find?_eq {found : Text} (h : IsFirstBest least path paths found) :
    paths.find? (fun other => sharedSegments path found ≤ sharedSegments path other) =
      some found := by
  obtain ⟨before, after, rfl, _, _, hbefore, _⟩ := h
  have hnone : before.find? (fun other => sharedSegments path found ≤ sharedSegments path other) =
      none := by
    simpa using hbefore
  simp [List.find?_append, hnone]

theorem isFirstBest_iff {found : Text} :
    IsFirstBest least path paths found ↔ least ≤ sharedSegments path found ∧
      0 < sharedSegments path found ∧
      (∀ other ∈ paths, sharedSegments path other ≤ sharedSegments path found) ∧
      paths.find? (fun other => sharedSegments path found ≤ sharedSegments path other) =
        some found := by
  constructor
  · intro h
    obtain ⟨_, _, _, hleast, hpos, _⟩ := id h
    exact ⟨hleast, hpos, fun other => h.shared_le, h.find?_eq⟩
  · rintro ⟨hleast, hpos, hle, hfind⟩
    obtain ⟨-, before, after, rfl, hbefore⟩ := List.find?_eq_some_iff_append.mp hfind
    refine ⟨before, after, rfl, hleast, hpos, by simpa using hbefore, fun other ho => ?_⟩
    exact hle other (by simp [ho])

theorem isFirstBest_distinct_iff {found : Text} :
    IsFirstBest least path (Text.distinct paths) found ↔ IsFirstBest least path paths found := by
  simp only [isFirstBest_iff, Text.mem_distinct, Text.find?_distinct]

/-- A path that shares enough for a greater number shares enough for a smaller one. -/
theorem IsFirstBest.of_le {found : Text} {more : Int} (h : IsFirstBest more path paths found)
    (hle : least ≤ more) : IsFirstBest least path paths found := by
  obtain ⟨before, after, hpaths, hmore, hrest⟩ := h
  exact ⟨before, after, hpaths, hle.trans hmore, hrest⟩

theorem IsFirstBest.unique {found found' : Text} (h : IsFirstBest least path paths found)
    (h' : IsFirstBest least path paths found') : found = found' := by
  have hshared : sharedSegments path found = sharedSegments path found' :=
    le_antisymm (h'.shared_le h.mem) (h.shared_le h'.mem)
  have hfound := h.find?_eq
  rw [hshared, h'.find?_eq, Option.some_inj] at hfound
  exact hfound.symm

/-- The search either keeps what it had, or ends with the first path that shares the most. -/
theorem bestFrom_eq_or (least : Int) (path : Text) (paths : List Text)
    (best : Option Text × Nat) :
    (bestFrom path least best paths = best ∧
      ∀ other ∈ paths, least ≤ sharedSegments path other → sharedSegments path other ≤ best.2) ∨
    ∃ found, bestFrom path least best paths = (some found, sharedSegments path found) ∧
      best.2 < sharedSegments path found ∧ IsFirstBest least path paths found := by
  induction paths generalizing best with
  | nil => exact .inl ⟨rfl, by simp⟩
  | cons c rest ih =>
    rw [bestFrom]
    by_cases hc : least ≤ sharedSegments path c ∧ best.2 < sharedSegments path c
    · rw [if_pos hc]
      right
      rcases ih (some c, sharedSegments path c) with ⟨he, hle⟩ | ⟨found, he, hlt, hbest⟩
      · refine ⟨c, he, hc.2, [], rest, rfl, hc.1, by omega, by simp, fun other ho => ?_⟩
        have := hle other ho
        omega
      · obtain ⟨before, after, rfl, hleast, hpos, hbefore, hafter⟩ := hbest
        refine ⟨found, he, hc.2.trans hlt, c :: before, after, rfl, hleast, hpos, ?_, hafter⟩
        exact List.forall_mem_cons.mpr ⟨hlt, hbefore⟩
    · rw [if_neg hc]
      rcases ih best with ⟨he, hle⟩ | ⟨found, he, hlt, hbest⟩
      · refine .inl ⟨he, List.forall_mem_cons.mpr ⟨fun hleast => ?_, hle⟩⟩
        exact Nat.le_of_not_lt fun h => hc ⟨hleast, h⟩
      · obtain ⟨before, after, rfl, hleast, hpos, hbefore, hafter⟩ := hbest
        refine .inr ⟨found, he, hlt, c :: before, after, rfl, hleast, hpos, ?_, hafter⟩
        exact List.forall_mem_cons.mpr ⟨by omega, hbefore⟩

variable {openPaths : OpenPaths}

theorem matchWith?_of_mem (h : path ∈ openPaths.paths) :
    openPaths.matchWith? least path = some path := by
  rw [matchWith?, if_pos h]

/-- A path that is not open stands for the first open path that shares the most segments, or for
none when no open path shares enough. -/
theorem matchWith?_of_notMem (least : Int) (h : path ∉ openPaths.paths) :
    (openPaths.matchWith? least path = none ∧ ∀ other ∈ openPaths.paths,
      least ≤ sharedSegments path other → sharedSegments path other = 0) ∨
    ∃ found, openPaths.matchWith? least path = some found ∧
      IsFirstBest least path openPaths.paths found := by
  rw [matchWith?, if_neg h]
  rcases bestFrom_eq_or least path openPaths.paths (none, 0) with
    ⟨he, hle⟩ | ⟨found, he, _, hbest⟩
  · exact .inl ⟨by rw [he], fun other ho hleast => Nat.le_zero.mp (hle other ho hleast)⟩
  · exact .inr ⟨found, by rw [he], hbest⟩

/-- What a path stands for: for itself if it is open, and else for the first open path that shares
the most segments, and enough of them. -/
theorem matchWith?_eq_some_iff {found : Text} :
    openPaths.matchWith? least path = some found ↔
      path ∈ openPaths.paths ∧ found = path ∨
        path ∉ openPaths.paths ∧ IsFirstBest least path openPaths.paths found := by
  by_cases hpath : path ∈ openPaths.paths
  · rw [matchWith?_of_mem hpath, Option.some_inj, eq_comm]
    simp [hpath]
  · rcases matchWith?_of_notMem least hpath with ⟨he, hnone⟩ | ⟨best, he, hbest⟩
    · have hno : ¬ IsFirstBest least path openPaths.paths found := by
        intro hfound
        obtain ⟨_, _, _, hleast, hpos, _⟩ := id hfound
        exact hpos.ne' (hnone found hfound.mem hleast)
      simp [he, hpath, hno]
    · rw [he, Option.some_inj]
      constructor
      · rintro rfl
        exact .inr ⟨hpath, hbest⟩
      · rintro (⟨h, _⟩ | ⟨_, hfound⟩)
        · exact absurd h hpath
        · exact hbest.unique hfound

theorem matchWith?_mem {found : Text} (h : openPaths.matchWith? least path = some found) :
    found ∈ openPaths.paths := by
  by_cases hpath : path ∈ openPaths.paths
  · rw [matchWith?_of_mem hpath, Option.some_inj] at h
    exact h ▸ hpath
  · rcases matchWith?_of_notMem least hpath with ⟨hnone, _⟩ | ⟨best, he, hbest⟩
    · simp [hnone] at h
    · rw [he, Option.some_inj] at h
      exact h ▸ hbest.mem

/-- A path has no ties among open paths: it is open, or at most one of those with which it shares
enough segments shares as many as it does with any. -/
def TieFree (least : Int) (paths : List Text) (path : Text) : Prop :=
  path ∉ paths → ∀ p ∈ paths, ∀ q ∈ paths, least ≤ sharedSegments path p →
    sharedSegments path q = sharedSegments path p →
    (∀ other ∈ paths, sharedSegments path other ≤ sharedSegments path p) → q = p

instance (least : Int) (paths : List Text) (path : Text) : Decidable (TieFree least paths path) :=
  inferInstanceAs <| Decidable <| path ∉ paths → ∀ p ∈ paths, ∀ q ∈ paths,
    least ≤ sharedSegments path p → sharedSegments path q = sharedSegments path p →
    (∀ other ∈ paths, sharedSegments path other ≤ sharedSegments path p) → q = p

/-- Without ties the order of the open paths does not matter. -/
theorem matchWith?_congr {openPaths' : OpenPaths}
    (hp : ∀ p, p ∈ openPaths.paths ↔ p ∈ openPaths'.paths)
    (htie : TieFree least openPaths.paths path) :
    openPaths.matchWith? least path = openPaths'.matchWith? least path := by
  by_cases hpath : path ∈ openPaths.paths
  · rw [matchWith?_of_mem hpath, matchWith?_of_mem ((hp path).mp hpath)]
  · have hpath' : path ∉ openPaths'.paths := fun h => hpath ((hp path).mpr h)
    rcases matchWith?_of_notMem least hpath with ⟨he, hnone⟩ | ⟨found, he, hbest⟩ <;>
      rcases matchWith?_of_notMem least hpath' with
        ⟨he', hnone'⟩ | ⟨found', he', hbest'⟩
    · rw [he, he']
    · obtain ⟨_, _, _, hleast, hpos, _⟩ := hbest'
      have := hnone found' ((hp _).mpr (matchWith?_mem he')) hleast
      omega
    · obtain ⟨_, _, _, hleast, hpos, _⟩ := hbest
      have := hnone' found ((hp _).mp (matchWith?_mem he)) hleast
      omega
    · have hle := hbest.shared_le ((hp _).mpr hbest'.mem)
      have hle' := hbest'.shared_le ((hp _).mp hbest.mem)
      obtain ⟨_, _, _, hleast, _⟩ := id hbest
      have heq := htie hpath found hbest.mem found' ((hp _).mpr hbest'.mem) hleast
        (le_antisymm hle hle') fun other ho => hbest.shared_le ho
      rw [he, he', heq]

theorem match?_mem {found : Text} (h : openPaths.match? path = some found) :
    found ∈ openPaths.paths :=
  matchWith?_mem h

@[simp] theorem mem_paths_ofList {paths : List Text} {path : Text} :
    path ∈ (ofList paths).paths ↔ path ∈ paths :=
  Text.mem_distinct

theorem matchWith?_eq_none_iff :
    openPaths.matchWith? least path = none ↔ path ∉ openPaths.paths ∧
      ∀ other ∈ openPaths.paths, (sharedSegments path other : Int) < max least 1 := by
  by_cases hpath : path ∈ openPaths.paths
  · simp [matchWith?_of_mem hpath, hpath]
  · rcases matchWith?_of_notMem least hpath with ⟨he, hnone⟩ | ⟨found, he, hbest⟩
    · refine ⟨fun _ => ⟨hpath, fun other ho => ?_⟩, fun _ => he⟩
      have := hnone other ho
      omega
    · refine ⟨fun h => by simp [he] at h, fun ⟨_, hfew⟩ => ?_⟩
      obtain ⟨_, _, _, hleast, hpos, _⟩ := id hbest
      have := hfew found hbest.mem
      omega

theorem matchWith?_of_le {more : Int} (hle : least ≤ more) :
    openPaths.matchWith? more path = openPaths.matchWith? least path ∨
      openPaths.matchWith? more path = none := by
  cases hmore : openPaths.matchWith? more path with
  | none => exact .inr rfl
  | some found =>
    left
    rcases matchWith?_eq_some_iff.mp hmore with hopen | ⟨hpath, hbest⟩
    · exact (matchWith?_eq_some_iff.mpr (.inl hopen)).symm
    · exact (matchWith?_eq_some_iff.mpr (.inr ⟨hpath, hbest.of_le hle⟩)).symm

/-- The open path that a path stands for, for every list of open paths: itself if it is open, and
else the first of those with which it shares the most segments, if these are as many as asked for
and at least one. Asking for more gives the same answer or none. -/
theorem matchWith?_eq_first_best (paths : List Text) (least : Int) (path : Text) :
    (∀ found, (ofList paths).matchWith? least path = some found ↔
      path ∈ paths ∧ found = path ∨
      path ∉ paths ∧ ∃ before after count, paths = before ++ found :: after ∧
        SharesExactly path found count ∧ max least 1 ≤ count ∧
        (∀ other ∈ paths, ∀ n, SharesExactly path other n → n ≤ count) ∧
        ∀ other ∈ before, ∀ n, SharesExactly path other n → n < count) ∧
    ((ofList paths).matchWith? least path = none ↔ path ∉ paths ∧
      ∀ other ∈ paths, ∀ n : Nat, SharesExactly path other n → n < max least 1) ∧
    ∀ further : Nat,
      (ofList paths).matchWith? (least + further) path = (ofList paths).matchWith? least path ∨
        (ofList paths).matchWith? (least + further) path = none := by
  refine ⟨fun found => ?_, ?_, fun further => matchWith?_of_le (by omega)⟩
  · have hbest : IsFirstBest least path (ofList paths).paths found ↔ _ := isFirstBest_distinct_iff
    rw [matchWith?_eq_some_iff, hbest, mem_paths_ofList]
    simp only [sharesExactly_iff, forall_eq]
    refine or_congr_right (and_congr_right fun _ => ⟨fun h => ?_, ?_⟩)
    · obtain ⟨before, after, hpaths, hleast, hpos, hbefore, -⟩ := id h
      exact ⟨before, after, _, hpaths, rfl, by omega, fun other => h.shared_le, hbefore⟩
    · rintro ⟨before, after, _, rfl, rfl, hleast, hle, hbefore⟩
      refine ⟨before, after, rfl, by omega, by omega, hbefore, fun other ho => ?_⟩
      exact hle other (by simp [ho])
  · rw [matchWith?_eq_none_iff]
    simp only [sharesExactly_iff, forall_eq, mem_paths_ofList]

/-- Of two open copies that share as much, the one that was opened first. -/
example : (ofList ["/x/s/u", "/y/l/s/u", "/z/l\\s/u", "/x/s/u"]).matchWith? 2 "/c/l/s/u" =
    some "/y/l/s/u" := by decide

end OpenPaths

end EditorTabs
