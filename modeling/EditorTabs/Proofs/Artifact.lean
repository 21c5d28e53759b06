import EditorTabs.Artifact
import EditorTabs.Proofs.Files.Walk
import EditorTabs.Proofs.Path.Way

/-!
# Where artifacts are written

An artifact with a relative name is written where the steps of the name lead from the directory of
artifacts, and the directories on that way are made. The steps are taken as they are given. So an
artifact stays in its directory, with all that is made for it, if no step up leads out of that; a
name that climbs may lead anywhere.
-/
namespace EditorTabs.Artifact

open EditorTabs.Files (Place Tree resolve way)
open EditorTabs.Path (Segment Route IsName)

def placeOf (cwd : Text) : Place :=
  Files.placeOf cwd ++ directory.steps

/-- The steps of a name from the directory of artifacts. -/
def stepsOf (name : Text) : List Segment :=
  (Route.ofPath name).steps

/-- A tree after bytes were written where steps lead from a place: directories on the way before the
last step, the file at its end, and all else as it was. -/
structure Placed (before after : Tree) (base : Place) (steps : List Segment) (bytes : List UInt8) :
    Prop where
  file : after.node? (resolve base steps) = some (.file bytes)
  replaced : before.node? (resolve base steps) ≠ some .directory
  directory : ∀ place ∈ way base steps.dropLast, after.node? place = some .directory
  kept : ∀ place node, place ≠ resolve base steps → before.node? place = some node →
    after.node? place = some node
  others : ∀ place, place ≠ resolve base steps → place ∉ way base steps.dropLast →
    after.node? place = before.node? place

/-- The file stands below a base, and so does every new directory. -/
structure StaysInside (before after : Tree) (base file : Place) : Prop where
  file : base <+: file
  directories : ∀ place, before.node? place = none → after.node? place = some .directory →
    base <+: place

/-- Steps that nowhere lead above their start, when they are taken some names below it. -/
def NeverClimbs : Nat → List Segment → Prop
  | _, [] => True
  | depth, step :: rest =>
    if step = Path.up then 0 < depth ∧ NeverClimbs (depth - 1) rest
    else NeverClimbs (depth + 1) rest

instance decidableNeverClimbs :
    (depth : Nat) → (steps : List Segment) → Decidable (NeverClimbs depth steps)
  | _, [] => inferInstanceAs (Decidable True)
  | depth, step :: rest =>
    have := decidableNeverClimbs (depth - 1) rest
    have := decidableNeverClimbs (depth + 1) rest
    inferInstanceAs (Decidable (if step = Path.up then 0 < depth ∧ NeverClimbs (depth - 1) rest
      else NeverClimbs (depth + 1) rest))

variable {tree before mid after : Tree} {cwd name path : Text} {value : Json} {base : Place}
  {below steps : List Segment} {bytes : List UInt8}

/-! ## Staying inside -/

theorem Placed.staysInside_iff (h : Placed before after base steps bytes) :
    StaysInside before after base (resolve base steps) ↔
      base <+: resolve base steps ∧ ∀ place ∈ way base steps.dropLast,
        base <+: place ∨ before.node? place = some .directory := by
  have hne {place : Place} (hplace : after.node? place = some .directory) :
      place ≠ resolve base steps := by
    rintro rfl
    simp [h.file] at hplace
  constructor
  · rintro ⟨hfile, hdirectories⟩
    refine ⟨hfile, fun place hplace => ?_⟩
    have hafter := h.directory place hplace
    cases hbefore : before.node? place with
    | none => exact .inl (hdirectories place hbefore hafter)
    | some node =>
      have hkept := h.kept place node (hne hafter) hbefore
      exact .inr (hkept.symm.trans hafter)
  · rintro ⟨hfile, hway⟩
    refine ⟨hfile, fun place hbefore hafter => ?_⟩
    by_cases hplace : place ∈ way base steps.dropLast
    · exact (hway place hplace).resolve_right (by simp [hbefore])
    · rw [h.others place (hne hafter) hplace, hbefore] at hafter
      cases hafter

/-- The places on a way are all below its start exactly if it never climbs. -/
theorem isPrefix_iff_neverClimbs (hbase : base ≠ [])
    (hsteps : ∀ step ∈ steps, IsName step ∧ step ≠ Path.here) :
    (∀ place ∈ way (base ++ below) steps, base <+: place) ↔ NeverClimbs below.length steps := by
  induction steps generalizing below with
  | nil => simp [NeverClimbs]
  | cons step rest ih =>
    obtain ⟨hstep, hrest⟩ := List.forall_mem_cons.mp hsteps
    rw [Files.way_cons, List.forall_mem_cons, NeverClimbs,
      and_iff_right (List.prefix_append base below)]
    split
    · next hup =>
      rw [hup, Files.stepFrom_up]
      by_cases hbelow : below = []
      · -- A step up from the start leads out of it.
        refine iff_of_false (fun hway => ?_) (by simp [hbelow])
        have hprefix := (hway _ (Files.start_mem_way _ rest)).length_le
        have hpos := List.length_pos_iff.mpr hbase
        rw [hbelow, List.append_nil, List.length_dropLast] at hprefix
        omega
      · rw [List.dropLast_append_of_ne_nil hbelow, ih hrest, List.length_dropLast,
          and_iff_right (List.length_pos_iff.mpr hbelow)]
    · next hup =>
      rw [Files.stepFrom_of_isName hstep.1 hstep.2 hup, List.append_assoc, ih hrest,
        List.length_append, List.length_singleton]

/-- What is written along a way that never climbs stays inside. -/
theorem Placed.staysInside_of_neverClimbs (h : Placed before after base steps bytes)
    (hbase : base ≠ []) (hsteps : ∀ step ∈ steps, IsName step ∧ step ≠ Path.here)
    (hclimbs : NeverClimbs 0 steps) : StaysInside before after base (resolve base steps) := by
  have hway : ∀ place ∈ way (base ++ []) steps, base <+: place :=
    (isPrefix_iff_neverClimbs hbase hsteps).mpr hclimbs
  rw [List.append_nil] at hway
  refine h.staysInside_iff.mpr ⟨?_, fun place hplace => .inl ?_⟩
  · exact hway _ (Files.mem_way_iff_dropLast.mpr (.inr rfl))
  · exact hway place (Files.mem_way_iff_dropLast.mpr (.inl hplace))

/-! ## Writing -/

theorem directory_eq : directory = ⟨0, ["workspace"]⟩ := by decide

theorem resolve_directory (cwd : Text) (steps : List Segment) :
    resolve (Files.placeOf cwd) (directory.steps ++ steps) = resolve (placeOf cwd) steps := by
  rw [placeOf, directory_eq, List.singleton_append, Files.resolve_cons,
    Files.stepFrom_of_isName (by decide) (by decide) (by decide)]

theorem mem_way_directory {place : Place} :
    place ∈ way (Files.placeOf cwd) (directory.steps ++ steps) ↔
      place = Files.placeOf cwd ∨ place ∈ way (placeOf cwd) steps := by
  rw [placeOf, directory_eq, List.singleton_append, Files.way_cons,
    Files.stepFrom_of_isName (by decide) (by decide) (by decide), List.mem_cons]

section Relative

variable (hrelative : Path.isAbsolute name = false)

include hrelative

theorem slashes_ofPath : (Route.ofPath name).slashes = 0 := by
  by_contra hne
  exact absurd (Path.isAbsolute_of_leadingSlashes_ne hne) (by simp [hrelative])

theorem routeOf_of_relative : routeOf name = ⟨0, directory.steps ++ stepsOf name⟩ := by
  rw [routeOf, Route.append, Route.isAbsolute, slashes_ofPath hrelative]
  rfl

theorem directoriesOf_of_relative :
    directoriesOf name = [directory, ⟨0, (directory.steps ++ stepsOf name).dropLast⟩] := by
  rw [directoriesOf, routeOf_of_relative hrelative, Route.isAbsolute, slashes_ofPath hrelative]
  rfl

end Relative

theorem isName_of_mem_steps (name : Text) :
    ∀ step ∈ directory.steps ++ stepsOf name, IsName step := by
  refine List.forall_mem_append.mpr ⟨by decide, fun step hstep => ?_⟩
  exact (Route.isName_of_mem_ofPath hstep).1

/-- The directory of artifacts is made, and then the directories on the way of the name, unless the
name has no steps and leads to the directory of artifacts itself. -/
theorem laid_of_makeAll (hrelative : Path.isAbsolute name = false)
    (h : makeAll tree cwd (directoriesOf name) = (after, none))
    (hfree : after.node? (resolve (placeOf cwd) (stepsOf name)) ≠ some .directory) :
    Tree.Laid tree after (Files.placeOf cwd) (directory.steps ++ (stepsOf name).dropLast) := by
  rw [directoriesOf_of_relative hrelative, makeAll] at h
  split at h
  · cases h
  · next mid hdirectory =>
    rw [makeAll] at h
    split at h
    · cases h
    · next last hparent =>
      cases h
      have hfirst := Tree.laid_of_makeDirectories rfl (by decide) hdirectory
      have hsecond := Tree.laid_of_makeDirectories rfl
        (fun step hstep => isName_of_mem_steps name step (List.dropLast_subset _ hstep)) hparent
      have hsteps : stepsOf name ≠ [] := by
        intro hnil
        have hplace : placeOf cwd ∈ way (Files.placeOf cwd) directory.steps := by
          simpa using mem_way_directory.mpr (.inr (Files.start_mem_way (placeOf cwd) []))
        rw [hnil, Files.resolve_nil] at hfree
        exact hfree (hsecond.kept _ _ (hfirst.directory _ hplace))
      rw [List.dropLast_append_of_ne_nil hsteps] at hsecond
      exact hfirst.trans hsecond (List.prefix_append _ _)

/-- A file at the end of a way for which the directories were made. -/
theorem placed_of_laid
    (h : Tree.Laid before mid (Files.placeOf cwd) (directory.steps ++ steps.dropLast))
    (hfree : mid.node? (resolve (placeOf cwd) steps) ≠ some .directory) :
    Placed before (mid.put (resolve (placeOf cwd) steps) (.file bytes)) (placeOf cwd) steps
      bytes := by
  have hput := Tree.node?_put (Tree.ne_nil_of_node? hfree) mid (.file bytes)
  constructor
  case file => rw [hput, if_pos rfl]
  case replaced => exact fun hnode => hfree (h.kept _ _ hnode)
  case directory =>
    intro place hplace
    have hmade := h.directory place (mem_way_directory.mpr (.inr hplace))
    have hne : place ≠ resolve (placeOf cwd) steps := by
      rintro rfl
      exact hfree hmade
    rw [hput, if_neg hne, hmade]
  case kept =>
    intro place node hne hnode
    rw [hput, if_neg hne, h.kept place node hnode]
  case others =>
    intro place hne hplace
    rw [hput, if_neg hne]
    -- The working directory is on the way too, but it was there before.
    by_cases hstart : place = Files.placeOf cwd
    · rw [hstart, h.start, h.kept _ _ h.start]
    · exact h.others place fun hmem => (mem_way_directory.mp hmem).elim hstart hplace

/-- A relative name leads from the directory of artifacts to the file that is written for it. -/
theorem placed_of_write (hrelative : Path.isAbsolute name = false)
    (h : write tree cwd name value = (.ok path, after)) :
    Placed tree after (placeOf cwd) (stepsOf name) (Text.Utf8.encode value.writeLines) := by
  rw [write] at h
  split at h
  · cases h
  · next mid hmade =>
    simp only [routeOf_of_relative hrelative] at h
    split at h
    · cases h
    · next written hwrite =>
      cases h
      obtain ⟨hfree, rfl⟩ := Tree.eq_put_of_write (isName_of_mem_steps name) hwrite
      rw [resolve_directory] at hfree ⊢
      exact placed_of_laid (laid_of_makeAll hrelative hmade hfree) hfree

/-- An artifact with a relative name is written where the name leads. It stays in the directory of
artifacts if that is in there, and on the way to it only directories are out of there that were
there before; so it does whenever the name never climbs. -/
theorem stays_inside_unless_climbs (hrelative : Path.isAbsolute name = false)
    (h : write tree cwd name value = (.ok path, after)) :
    let base := placeOf cwd
    let file := resolve base (stepsOf name)
    Placed tree after base (stepsOf name) (Text.Utf8.encode value.writeLines) ∧
      (StaysInside tree after base file ↔
        base <+: file ∧ ∀ place ∈ way base (stepsOf name).dropLast,
          base <+: place ∨ tree.node? place = some .directory) ∧
      (NeverClimbs 0 (stepsOf name) → StaysInside tree after base file) := by
  intro base file
  have hplaced := placed_of_write hrelative h
  refine ⟨hplaced, hplaced.staysInside_iff, fun hclimbs => ?_⟩
  have hbase : placeOf cwd ≠ [] := by simp [placeOf, directory_eq]
  exact hplaced.staysInside_of_neverClimbs hbase (fun _ => Route.isName_of_mem_ofPath) hclimbs

def unwritten : Tree := ⟨[(["w"], .directory)]⟩

theorem stays_inside_of_turning_name :
    let name : Text := "a//./../b/o.json"
    let after := (write unwritten "/w" name .null).2
    let base := placeOf "/w"
    let file := resolve base (stepsOf name)
    Path.isAbsolute name = false ∧
      write unwritten "/w" name .null = (.ok "workspace/a/../b/o.json", after) ∧
      file = ["w", "workspace", "b", "o.json"] ∧ StaysInside unwritten after base file ∧
      after.node? file = some (.file (Text.Utf8.encode "null")) ∧
      after.node? ["w", "workspace", "a"] = some .directory := by
  intro name after base file
  have hwrite : write unwritten "/w" name .null =
      (.ok "workspace/a/../b/o.json", after) := by decide +kernel
  have hrelative : Path.isAbsolute name = false := by decide
  obtain ⟨hplaced, -, hstays⟩ := stays_inside_unless_climbs hrelative hwrite
  have hclimbs : NeverClimbs 0 (stepsOf name) := by decide +kernel
  refine ⟨hrelative, hwrite, by decide +kernel, hstays hclimbs, hplaced.file,
    hplaced.directory _ ?_⟩
  decide +kernel

/-- A name with a step up at its start leads out of the directory of artifacts. -/
theorem leaves_by_step_up :
    let name : Text := "../d/o.json"
    let after := (write unwritten "/w" name .null).2
    let file := resolve (placeOf "/w") (stepsOf name)
    Path.isAbsolute name = false ∧
      write unwritten "/w" name .null = (.ok "workspace/../d/o.json", after) ∧
      file = ["w", "d", "o.json"] ∧ after.node? file = some (.file (Text.Utf8.encode "null")) ∧
      unwritten.node? ["w", "d"] = none ∧ after.node? ["w", "d"] = some .directory ∧
      ¬ StaysInside unwritten after (placeOf "/w") file := by
  intro name after file
  refine ⟨by decide, by decide +kernel, by decide +kernel, by decide +kernel, by decide,
    by decide +kernel, fun h => ?_⟩
  exact absurd h.file (by decide +kernel)

end EditorTabs.Artifact
