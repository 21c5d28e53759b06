import EditorTabs.Fault
import EditorTabs.Tab

/-!
# Sorting by a comparison that can fail

Tabs are sorted stably by a comparison. When two tabs that the sort compares have no order, there is
none for the list.
-/
namespace EditorTabs.Order

abbrev Comparison := Tab → Tab → Except Fault Ordering

/-- Tabs without a path come last; the answer for two tabs of which one has no path. -/
def compareMissing (a b : Tab) : Option Ordering :=
  match a.file?, b.file? with
  | none, none => some .eq
  | none, some _ => some .gt
  | some _, none => some .lt
  | some _, some _ => none

/-- A comparison of paths as one of tabs, with those without a path last. -/
def Comparison.ofPaths (compare : Text → Text → Except Fault Ordering) : Comparison :=
  fun a b =>
    match a.file?, b.file? with
    | some p, some q => compare p q
    | _, _ => .ok ((compareMissing a b).getD .eq)

def comesFirst (compare : Comparison) (a b : Tab) : Except Fault Bool :=
  (compare a b).map (· = .lt)

/-- The tabs that go on with a run whose last tab is given, and those after them. In a falling run
each tab comes before the one ahead of it, in a rising run none does. -/
def extendRun (compare : Comparison) (falling : Bool) (last : Tab) :
    List Tab → Except Fault (List Tab × List Tab)
  | [] => .ok ([], [])
  | tab :: rest =>
    match comesFirst compare tab last with
    | .error fault => .error fault
    | .ok first =>
      if first = falling then
        (extendRun compare falling tab rest).map fun (run, others) => (tab :: run, others)
      else .ok ([], tab :: rest)

/-- The run at the start of a list, turned around if it falls, and the tabs after it. -/
def firstRun (compare : Comparison) : List Tab → Except Fault (List Tab × List Tab)
  | first :: second :: rest =>
    match comesFirst compare second first with
    | .error fault => .error fault
    | .ok falling =>
      (extendRun compare falling second rest).map fun (run, others) =>
        let run := first :: second :: run
        (if falling then run.reverse else run, others)
  | tabs => .ok (tabs, [])

/-- A sorted list with one more tab. Its place is found by halving: it is before the middle tab, if
the new one comes before that, and else after it. -/
def place (compare : Comparison) (tab : Tab) (sorted : List Tab) : Except Fault (List Tab) :=
  match _ : sorted.drop (sorted.length / 2) with
  | [] => .ok [tab]
  | middle :: after =>
    match comesFirst compare tab middle with
    | .error fault => .error fault
    | .ok true => (place compare tab (sorted.take (sorted.length / 2))).map (· ++ middle :: after)
    | .ok false =>
      (place compare tab after).map (sorted.take (sorted.length / 2) ++ middle :: ·)
termination_by sorted.length
decreasing_by
  all_goals
    have hlength := congrArg List.length ‹sorted.drop _ = middle :: after›
    simp only [List.length_drop, List.length_cons, List.length_take] at hlength ⊢
    omega

/-- The tabs in the order of a comparison; tabs that compare equal keep their order. Each tab after
the first run is put into the sorted ones. Lists of fewer than 64 tabs are sorted in these very
steps. Longer ones are sorted in several runs that are merged, so of this sort only what holds of
every stable sort by comparisons holds of theirs. -/
def sortTabs (compare : Comparison) (tabs : List Tab) : Except Fault (List Tab) :=
  match firstRun compare tabs with
  | .error fault => .error fault
  | .ok (run, rest) => rest.foldlM (fun sorted tab => place compare tab sorted) run

end EditorTabs.Order
