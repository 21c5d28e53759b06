import EditorTabs.Files.Tree
import EditorTabs.Proofs.Assoc
import EditorTabs.Proofs.Path.Rooted
import Mathlib.Data.List.Infix

/-!
# Where walks lead

Steps lead from a place to a place, whatever stands there: a name adds itself, and a step up takes
back the name before it. A walk that is not blocked ends where its steps lead and has found a
directory before every step. So the directories that are made for a path stand on its way, where
nothing stood before, and all else is as it was.
-/
namespace EditorTabs

namespace Path.Route

variable {segment : Segment} {steps : List Segment}

theorem path_of_isName (hne : steps ≠ []) (h : ∀ step ∈ steps, IsName step) :
    (mk 0 steps).path = unsplit steps := by
  have hunsplit : unsplit steps ≠ [] := by
    intro heq
    have hnames := names_unsplit h
    rw [heq] at hnames
    exact hne hnames.symm
  rw [path.eq_def, List.replicate_zero, List.nil_append]
  split
  · next heq => exact absurd heq hunsplit
  · rfl

/-- The steps of a route are names, and none is for the directory itself. -/
theorem isName_of_mem_ofPath {path : Text} (h : segment ∈ (ofPath path).steps) :
    IsName segment ∧ segment ≠ here := by
  rw [ofPath, List.mem_filter] at h
  obtain ⟨hsplit, hkept⟩ := h
  simp only [ne_eq, decide_not, Bool.and_eq_true, Bool.not_eq_true', decide_eq_false_iff_not]
    at hkept
  exact ⟨⟨hkept.1, slash_notMem_of_mem_split hsplit⟩, hkept.2⟩

end Path.Route

namespace Files

open EditorTabs.Path (Segment Route IsName)

section Way

variable {place q : Place} {segment : Segment} {start steps : List Segment}

def stepFrom (place : Place) (segment : Segment) : Place :=
  if segment = [] ∨ segment = Path.here then place
  else if segment = Path.up then place.dropLast
  else place ++ [segment]

def resolve (place : Place) (steps : List Segment) : Place :=
  steps.foldl stepFrom place

/-- The places that steps lead to one after another, and the one that they start from. -/
def way (place : Place) (steps : List Segment) : List Place :=
  steps.inits.map (resolve place)

@[simp] theorem resolve_nil (place : Place) : resolve place [] = place := rfl

@[simp] theorem resolve_cons (place : Place) (segment : Segment) (rest : List Segment) :
    resolve place (segment :: rest) = resolve (stepFrom place segment) rest := rfl

@[simp] theorem way_nil (place : Place) : way place [] = [place] := rfl

@[simp] theorem way_cons (place : Place) (segment : Segment) (rest : List Segment) :
    way place (segment :: rest) = place :: way (stepFrom place segment) rest := by
  simp [way, Function.comp_def]

theorem mem_way : q ∈ way place steps ↔ ∃ start, start <+: steps ∧ resolve place start = q := by
  simp [way]

theorem start_mem_way (place : Place) (steps : List Segment) : place ∈ way place steps :=
  mem_way.mpr ⟨[], List.nil_prefix, rfl⟩

theorem way_subset_way (h : start <+: steps) : way place start ⊆ way place steps := by
  intro q hq
  obtain ⟨before, hbefore, hresolve⟩ := mem_way.mp hq
  exact mem_way.mpr ⟨before, hbefore.trans h, hresolve⟩

/-- The last place of a way is where its steps lead. -/
theorem mem_way_iff_dropLast :
    q ∈ way place steps ↔ q ∈ way place steps.dropLast ∨ q = resolve place steps := by
  obtain rfl | ⟨before, last, rfl⟩ := List.eq_nil_or_concat' steps
  · simp
  · simp only [mem_way, List.dropLast_concat, List.prefix_concat_iff, or_and_right, exists_or,
      exists_eq_left]
    rw [or_comm, eq_comm (a := q)]

theorem stepFrom_of_isName (h : IsName segment) (hhere : segment ≠ Path.here)
    (hup : segment ≠ Path.up) (place : Place) : stepFrom place segment = place ++ [segment] := by
  rw [stepFrom, if_neg (not_or.mpr ⟨h.1, hhere⟩), if_neg hup]

theorem stepFrom_up (place : Place) : stepFrom place Path.up = place.dropLast := by
  rw [stepFrom, if_neg (by decide), if_pos rfl]

end Way

namespace Tree

variable {tree before mid after : Tree} {cwd : Text} {place : Place} {start steps : List Segment}

/-! ## Walks -/

theorem node?_put (hplace : place ≠ []) (tree : Tree) (node : Node) (q : Place) :
    (tree.put place node).node? q = if q = place then some node else tree.node? q := by
  rw [node?, node?, put]
  by_cases hq : q = place
  · simp [hq, hplace, Assoc.get?_put_self]
  · simp [hq, Assoc.get?_put_of_ne (Ne.symm hq)]

/-- The root is a directory in every tree. -/
theorem ne_nil_of_node? (h : tree.node? place ≠ some .directory) : place ≠ [] := by
  rintro rfl
  exact h rfl

theorem walkFrom_cons_cases (tree : Tree) (place : Place) (segment : Segment)
    (rest : List Segment) :
    (∃ number, tree.walkFrom place (segment :: rest) = .blocked number) ∨
      tree.node? place = some .directory ∧
        tree.walkFrom place (segment :: rest) = tree.walkFrom (stepFrom place segment) rest := by
  rw [walkFrom, stepFrom]
  cases hplace : tree.node? place with
  | none => exact .inl ⟨2, rfl⟩
  | some node =>
    cases node with
    | file bytes => exact .inl ⟨20, rfl⟩
    | directory =>
      dsimp only
      split_ifs
      · exact .inr ⟨rfl, rfl⟩
      · exact .inr ⟨rfl, rfl⟩
      · exact .inl ⟨tooLong, rfl⟩
      · exact .inr ⟨rfl, rfl⟩
      · exact .inl ⟨2, rfl⟩

/-- A walk with a last step is blocked, or it has found directories before that step and ends where
its steps lead. -/
theorem walkFrom_cases (tree : Tree) (place : Place) (segments : List Segment) (last : Segment) :
    (∃ number, tree.walkFrom place (segments ++ [last]) = .blocked number) ∨
      (∀ q ∈ way place segments, tree.node? q = some .directory) ∧
        tree.walkFrom place (segments ++ [last]) =
          tree.walkFrom (resolve place (segments ++ [last])) [] := by
  induction segments generalizing place with
  | nil => simpa using walkFrom_cons_cases tree place last []
  | cons segment rest ih =>
    rcases walkFrom_cons_cases tree place segment (rest ++ [last]) with hblocked | ⟨hplace, hwalk⟩
    · exact .inl hblocked
    · rw [List.cons_append, hwalk, way_cons, resolve_cons]
      rcases ih (stepFrom place segment) with hblocked | ⟨hrest, hend⟩
      · exact .inl hblocked
      · exact .inr ⟨List.forall_mem_cons.mpr ⟨hplace, hrest⟩, hend⟩

/-- The walk along the path of a route from the working directory. -/
theorem walk_route_cases (tree : Tree) (cwd : Text) (hsteps : ∀ step ∈ steps, IsName step) :
    (∃ number, tree.walk cwd (Route.mk 0 steps).path = .blocked number) ∨
      (∀ q ∈ way (placeOf cwd) steps.dropLast, tree.node? q = some .directory) ∧
        tree.walk cwd (Route.mk 0 steps).path =
          tree.walkFrom (resolve (placeOf cwd) steps) [] := by
  rw [walk]
  split
  · exact .inl ⟨_, rfl⟩
  split
  · exact .inl ⟨_, rfl⟩
  obtain rfl | ⟨before, last, rfl⟩ := List.eq_nil_or_concat' steps
  · exact walkFrom_cases tree (placeOf cwd) [] Path.here
  · have hpath := Route.path_of_isName (List.concat_ne_nil last before) hsteps
    have hrelative : Path.isAbsolute (Path.unsplit (before ++ [last])) = false := by
      simpa [Path.isAbsolute] using fun heq => Path.head?_unsplit_ne hsteps _ heq rfl
    rw [hpath, hrelative, Path.split_unsplit (by simp) fun step hstep => (hsteps step hstep).2,
      List.dropLast_concat]
    exact walkFrom_cases tree (placeOf cwd) before last

/-! ## Directories -/

/-- A tree with a directory at every place of a way. Where something stood before it still stands,
and off the way all is as it was. -/
structure Laid (before after : Tree) (place : Place) (steps : List Segment) : Prop where
  start : before.node? place = some .directory
  directory : ∀ q ∈ way place steps, after.node? q = some .directory
  kept : ∀ q node, before.node? q = some node → after.node? q = some node
  others : ∀ q, q ∉ way place steps → after.node? q = before.node? q

theorem Laid.trans (h : Laid before mid place start) (h' : Laid mid after place steps)
    (hstart : start <+: steps) : Laid before after place steps where
  start := h.start
  directory := h'.directory
  kept q node hnode := h'.kept q node (h.kept q node hnode)
  others q hq := by
    rw [h'.others q hq, h.others q fun hmem => hq (way_subset_way hstart hmem)]

theorem Laid.refl (h : ∀ q ∈ way place steps, tree.node? q = some .directory) :
    Laid tree tree place steps where
  start := h place (start_mem_way place steps)
  directory := h
  kept _ _ hnode := hnode
  others _ _ := rfl

/-- A new directory at the end of a way on which all others are there. -/
theorem Laid.put (h : ∀ q ∈ way place steps.dropLast, tree.node? q = some .directory)
    (hfree : tree.node? (resolve place steps) = none) :
    Laid tree (tree.put (resolve place steps) .directory) place steps := by
  have hnone : tree.node? (resolve place steps) ≠ some .directory := by simp [hfree]
  have hplace : resolve place steps ≠ [] := ne_nil_of_node? hnone
  constructor
  case start => exact h place (start_mem_way place _)
  case directory =>
    intro q hq
    rw [node?_put hplace]
    split
    · rfl
    · next hne => exact h q ((mem_way_iff_dropLast.mp hq).resolve_right hne)
  case kept =>
    intro q node hnode
    have hne : q ≠ resolve place steps := by
      rintro rfl
      simp [hfree] at hnode
    rw [node?_put hplace, if_neg hne, hnode]
  case others =>
    intro q hq
    rw [node?_put hplace, if_neg fun heq => hq (mem_way_iff_dropLast.mpr (.inr heq))]

theorem laid_of_ensureDirectory (hsteps : ∀ step ∈ steps, IsName step)
    (h : tree.ensureDirectory cwd (Route.mk 0 steps).path = .ok after) :
    Laid tree after (placeOf cwd) steps := by
  rw [ensureDirectory, makeDirectory, isDirectory] at h
  rcases walk_route_cases tree cwd hsteps with ⟨number, hwalk⟩ | ⟨hway, hwalk⟩
  · simp [hwalk] at h
  · cases hnode : tree.node? (resolve (placeOf cwd) steps) with
    | none =>
      simp only [hwalk, walkFrom, hnode] at h
      cases h
      exact .put hway hnode
    | some node =>
      cases node with
      | file bytes => simp [hwalk, walkFrom, hnode] at h
      | directory =>
        simp only [hwalk, walkFrom, hnode] at h
        split at h
        · cases h
          refine .refl fun q hq => ?_
          rcases mem_way_iff_dropLast.mp hq with hq | rfl
          · exact hway q hq
          · exact hnode
        · cases h

theorem laid_of_makeWay (hsteps : ∀ step ∈ steps, IsName step)
    (h : tree.makeWay cwd 0 steps = (after, none)) :
    Laid tree after (placeOf cwd) steps.reverse := by
  induction steps generalizing tree after with
  | nil =>
    rw [makeWay] at h
    split at h <;> cases h
    next hensure => exact laid_of_ensureDirectory (by simp) hensure
  | cons step before ih =>
    have hreverse : ∀ other ∈ (step :: before).reverse, IsName other :=
      fun other hother => hsteps other (List.mem_reverse.mp hother)
    rw [makeWay] at h
    split at h
    · next hensure =>
      cases h
      exact laid_of_ensureDirectory hreverse hensure
    · split at h
      · split at h
        · cases h
        · next mid hmade =>
          split at h <;> cases h
          next hensure =>
          have hbefore := ih (List.forall_mem_cons.mp hsteps).2 hmade
          refine hbefore.trans (laid_of_ensureDirectory hreverse hensure) ?_
          rw [List.reverse_cons]
          exact List.prefix_append _ _
      · cases h

/-- The directories that are made for a route from the working directory. -/
theorem laid_of_makeDirectories {route : Route} (hroute : route.slashes = 0)
    (hsteps : ∀ step ∈ route.steps, IsName step)
    (h : tree.makeDirectories cwd route = (after, none)) :
    Laid tree after (placeOf cwd) route.steps := by
  rw [makeDirectories, hroute] at h
  simpa using laid_of_makeWay (by simpa using hsteps) h

/-! ## Files -/

/-- A file is written where the steps lead, unless a directory stands there. -/
theorem eq_put_of_write {bytes : List UInt8} (hsteps : ∀ step ∈ steps, IsName step)
    (h : tree.write cwd (Route.mk 0 steps).path bytes = .ok after) :
    tree.node? (resolve (placeOf cwd) steps) ≠ some .directory ∧
      after = tree.put (resolve (placeOf cwd) steps) (.file bytes) := by
  rw [write] at h
  rcases walk_route_cases tree cwd hsteps with ⟨number, hwalk⟩ | ⟨-, hwalk⟩
  · simp [hwalk] at h
  · cases hnode : tree.node? (resolve (placeOf cwd) steps) with
    | none =>
      simp only [hwalk, walkFrom, hnode] at h
      cases h
      simp
    | some node =>
      cases node with
      | directory => simp [hwalk, walkFrom, hnode] at h
      | file old =>
        simp only [hwalk, walkFrom, hnode] at h
        cases h
        simp

end Tree

end Files

end EditorTabs
