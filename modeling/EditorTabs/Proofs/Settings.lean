import EditorTabs.Proofs.Files.Document
import EditorTabs.Settings

/-!
# Looking for settings

The settings come from the first settings file that is there. A file that is malformed gives no
settings but one warning, and one whose text is refused ends the run. So does a path that is too
long to be looked at.
-/
namespace EditorTabs

variable {tree : Files.Tree} {cwd root name : Text} {limit : Nat} {fault : Fault}

namespace Settings

/-- Whether the settings are looked for in a file: it is there, or its path is too long to tell. -/
def looksIn (tree : Files.Tree) (cwd root name : Text) : Bool :=
  tree.isTooLong cwd (pathAt root name) || tree.isThere cwd (pathAt root name)

def fileName? (tree : Files.Tree) (cwd root : Text) : Option Text :=
  fileNames.find? (looksIn tree cwd root)

def warning? (tree : Files.Tree) (cwd root : Text) (limit : Nat) : Option Warning :=
  (fileName? tree cwd root).bind fun name =>
    if tree.isTooLong cwd (pathAt root name) then none
    else
      match Files.readValue tree cwd (pathAt root name) true limit with
      | .ok (.object _) => none
      | .ok _ => some (.configurationShape name)
      | .error (.unreadable cause) => some (.configuration name cause)
      | .error _ => none

theorem findIn_eq (names : List Text) :
    findIn tree cwd root limit names =
      match names.find? (looksIn tree cwd root) with
      | some name => findIn tree cwd root limit [name]
      | none => .ok {} := by
  induction names with
  | nil => rfl
  | cons name rest ih =>
    cases hlooks : looksIn tree cwd root name with
    | false =>
      obtain ⟨hlong, hthere⟩ := Bool.or_eq_false_iff.mp hlooks
      rw [List.find?_cons_of_neg (by simp [hlooks]), ← ih, findIn, if_neg (by simp [hlong]),
        if_neg (by simp [hthere])]
    | true =>
      rw [List.find?_cons_of_pos hlooks]
      cases hlong : tree.isTooLong cwd (pathAt root name) with
      | true => simp only [findIn, hlong, if_true]
      | false =>
        have hthere : tree.isThere cwd (pathAt root name) = true := by
          simpa [looksIn, hlong] using hlooks
        simp only [findIn, hlong, hthere, Bool.false_eq_true, if_false, if_true]

theorem find_of_fileName?_eq_none (h : fileName? tree cwd root = none) :
    find tree cwd root limit = .ok {} := by
  rw [find, findIn_eq, ← fileName?, h]

theorem find_eq_findIn (h : fileName? tree cwd root = some name) :
    find tree cwd root limit = findIn tree cwd root limit [name] := by
  rw [find, findIn_eq, ← fileName?, h]

theorem find_of_isTooLong (h : fileName? tree cwd root = some name)
    (hlong : tree.isTooLong cwd (pathAt root name) = true) :
    find tree cwd root limit = .error (.unreadable (.file ⟨Files.tooLong, pathAt root name⟩)) := by
  rw [find_eq_findIn h, findIn, if_pos hlong]

theorem find_of_fileName? (h : fileName? tree cwd root = some name)
    (hlong : tree.isTooLong cwd (pathAt root name) = false) :
    find tree cwd root limit =
      match Files.readValue tree cwd (pathAt root name) true limit with
      | .ok (.object members) =>
        .ok
          { settings := (ofMembers name members).1, source := some name
            warnings := (ofMembers name members).2 }
      | .ok _ => .ok { source := some name, warnings := [.configurationShape name] }
      | .error (.unreadable cause) =>
        .ok { source := some name, warnings := [.configuration name cause] }
      | .error fault => .error fault := by
  have hlooks : looksIn tree cwd root name = true := List.find?_some h
  have hthere : tree.isThere cwd (pathAt root name) = true := by
    simpa [looksIn, hlong] using hlooks
  have hshort : ¬ tree.isTooLong cwd (pathAt root name) = true := by simp [hlong]
  rw [find_eq_findIn h, findIn]
  exact (if_neg hshort).trans (if_pos hthere)

theorem pathFault?_of_fileName? (h : fileName? tree cwd root = some name)
    (hlong : tree.isTooLong cwd (pathAt root name) = false) :
    Files.pathFault? (pathAt root name) = none := by
  have hlooks : looksIn tree cwd root name = true := List.find?_some h
  have hthere : tree.isThere cwd (pathAt root name) = true := by
    simpa [looksIn, hlong] using hlooks
  exact Files.pathFault?_eq_none_of_isThere hthere

/-- A malformed settings file gives a warning and nothing else. -/
theorem find_of_warning? {warning : Warning} (h : warning? tree cwd root limit = some warning) :
    ∃ source, find tree cwd root limit = .ok { source, warnings := [warning] } := by
  obtain ⟨name, hname, hread⟩ := Option.bind_eq_some_iff.mp h
  cases hlong : tree.isTooLong cwd (pathAt root name) with
  | true => simp [hlong] at hread
  | false =>
    rw [if_neg (by simp [hlong])] at hread
    refine ⟨some name, ?_⟩
    rw [find_of_fileName? hname hlong]
    split at hread
    · cases hread
    · next value hne _ =>
      cases hread
      cases value with
      | object members => exact absurd rfl (hne members)
      | _ => rfl
    · cases hread
      rfl
    · cases hread

/-- Looking for settings ends in a fault at a path that is too long, or at a text that is
refused. -/
theorem find_eq_error_iff :
    find tree cwd root limit = .error fault ↔
      ∃ name, fileName? tree cwd root = some name ∧
        if tree.isTooLong cwd (pathAt root name) then
          fault = .unreadable (.file ⟨Files.tooLong, pathAt root name⟩)
        else Files.readValue tree cwd (pathAt root name) true limit = .error fault ∧
          fault.IsRefusal := by
  cases hname : fileName? tree cwd root with
  | none => simp [find_of_fileName?_eq_none hname]
  | some name =>
    simp only [Option.some.injEq, exists_eq_left']
    cases hlong : tree.isTooLong cwd (pathAt root name) with
    | true =>
      rw [find_of_isTooLong hname hlong, if_pos rfl]
      constructor
      · rintro ⟨⟩
        rfl
      · rintro rfl
        rfl
    | false =>
      rw [if_neg Bool.false_ne_true, find_of_fileName? hname hlong]
      cases hread : Files.readValue tree cwd (pathAt root name) true limit with
      | ok value =>
        refine ⟨fun h => ?_, fun h => by cases h.1⟩
        cases value <;> cases h
      | error other =>
        rcases Files.cases_of_readValue hread with ⟨cause, rfl⟩ | hrefusal | ⟨cause, hpath, -⟩
        · constructor
          · rintro ⟨⟩
          · rintro ⟨hfault, hrefusal⟩
            cases hfault
            cases hrefusal
        · have hgoes : (Except.error other : Except Fault Found) = .error fault ↔
              (Except.error other : Except Fault Json) = .error fault ∧ fault.IsRefusal := by
            constructor
            · rintro ⟨⟩
              exact ⟨rfl, hrefusal⟩
            · rintro ⟨⟨⟩, -⟩
              rfl
          cases hrefusal <;> exact hgoes
        · exact absurd ((pathFault?_of_fileName? hname hlong).symm.trans hpath) (by simp)

end Settings

end EditorTabs
