import EditorTabs.Alias.Loading

/-!
# What loading an alias table comes to

A loading leaves the table as it was marked or fills it, and in either case the table is not loaded
again. The journal is only written to: the fault and the table of a loading do not depend on it.
-/
namespace EditorTabs.Alias

variable {host : Host} {failures : Failures} {names : Option (List Text)} {table marked : Table}

/-- How loading a marked table ends: with the table left as it was marked, with or without a fault,
or with the table filled. -/
inductive Ends (marked : Table) : Loaded → Prop
  | left (fault : Option Fault) (journal : Journal) :
      Ends marked { fault, table := marked, journal }
  | filled {root : Text} (hroot : root ≠ []) {configuration : Configuration}
      (haliases : configuration.aliases ≠ []) (name : Text) (journal : Journal) :
      Ends marked { table := marked.fill configuration root name, journal }

theorem ends_fillFrom {root : Text} (hroot : root ≠ []) (endsUnnamed : Bool) (marked : Table)
    (names : List Text) (journal : Journal) :
    Ends marked (fillFrom host failures root endsUnnamed marked names journal) := by
  induction names generalizing journal with
  | nil => exact .left _ journal
  | cons name rest ih =>
    simp only [fillFrom]
    split
    · exact .left _ _
    split
    case isFalse => exact ih _
    cases (failures _).elim (readCandidate host (Path.join root name)) .error with
    | error fault =>
      cases fault with
      | unreadable cause => exact ih _
      | _ => exact .left _ _
    | ok value =>
      cases value with
      | object members =>
        dsimp only
        split
        · exact ih _
        · next hne => exact .filled hroot (by simpa using hne) name _
      | _ => exact ih _

theorem ends_loadInPlace (hloaded : table.isLoaded = false) (journal : Journal) :
    Ends { table with state := .empty } (loadInPlace host failures names table journal) := by
  rw [loadInPlace, if_neg (by simp [hloaded])]
  dsimp only
  split
  · exact .left _ _
  · split
    · exact .left _ _
    · next root hroot =>
      have hne : root ≠ [] := by simpa using (Option.filter_eq_some_iff.mp hroot).2
      cases names with
      | some names => exact ends_fillFrom hne ..
      | none =>
        dsimp only
        split
        · exact .left _ _
        · exact ends_fillFrom hne ..

theorem loadInPlace_of_isLoaded (h : table.isLoaded = true) (journal : Journal) :
    loadInPlace host failures names table journal = { table, journal } := by
  rw [loadInPlace, if_pos h]

theorem Ends.isLoaded {loaded : Loaded} (h : Ends marked loaded)
    (hmarked : marked.isLoaded = true) : loaded.table.isLoaded = true := by
  cases h with
  | left => exact hmarked
  | filled => rfl

theorem Ends.table_eq_of_fault {loaded : Loaded} (h : Ends marked loaded)
    (hfault : loaded.fault ≠ none) : loaded.table = marked := by
  cases h with
  | left => rfl
  | filled => exact absurd rfl hfault

theorem isLoaded_loadInPlace (host : Host) (failures : Failures) (names : Option (List Text))
    (table : Table) (journal : Journal) :
    (loadInPlace host failures names table journal).table.isLoaded = true := by
  cases h : table.isLoaded with
  | true => rwa [loadInPlace_of_isLoaded h]
  | false => exact (ends_loadInPlace h journal).isLoaded rfl

/-! ## Hosts that answer -/

theorem load_of_isLoaded (h : table.isLoaded = true) (journal : Journal) :
    load host names table journal = { table, journal } :=
  loadInPlace_of_isLoaded h journal

theorem isLoaded_load (host : Host) (names : Option (List Text)) (table : Table)
    (journal : Journal) : (load host names table journal).table.isLoaded = true :=
  isLoaded_loadInPlace ..

/-- One candidate, tried on a host that answers. -/
theorem fillFrom_cons (host : Host) (root : Text) (endsUnnamed : Bool) (table : Table)
    (name : Text) (rest : List Text) (journal : Journal) :
    fillFrom host answering root endsUnnamed table (name :: rest) journal =
      let path := Path.join root name
      let asked := journal.ask (.isFile path)
      if host.isFile path then
        let read := asked.ask (.read path)
        match readCandidate host path with
        | .ok (.object members) =>
          let configuration := Configuration.ofJson (.object members)
          if configuration.aliases.isEmpty then
            fillFrom host answering root endsUnnamed table rest read
          else { table := table.fill configuration root name, journal := read }
        | .ok _ =>
          fillFrom host answering root endsUnnamed table rest
            (read.warn (.configurationShape name))
        | .error (.unreadable cause) =>
          fillFrom host answering root endsUnnamed table rest
            (read.warn (.configuration name cause))
        | .error fault => { fault := some fault, table, journal := read }
      else fillFrom host answering root endsUnnamed table rest asked := rfl

/-- Loading a table that is not loaded, on a host that answers. -/
theorem load_of_not_isLoaded (h : table.isLoaded = false) (journal : Journal) :
    load host names table journal =
      let marked := { table with state := .empty }
      let asked := journal.ask .root
      match host.root.filter (· ≠ []) with
      | none => { table := marked, journal := asked }
      | some root =>
        match names with
        | some names => fillFrom host answering root false marked names asked
        | none =>
          fillFrom host answering root host.endsUnnamed marked host.candidates
            (asked.ask .candidates) := by
  rw [load, loadInPlace, if_neg (by simp [h])]
  rfl

theorem fillFrom_journal (host : Host) (root : Text) (endsUnnamed : Bool) (table : Table)
    (names : List Text) (journal journal' : Journal) :
    (fillFrom host answering root endsUnnamed table names journal).fault =
        (fillFrom host answering root endsUnnamed table names journal').fault ∧
      (fillFrom host answering root endsUnnamed table names journal).table =
        (fillFrom host answering root endsUnnamed table names journal').table := by
  induction names generalizing journal journal' with
  | nil => exact ⟨rfl, rfl⟩
  | cons name rest ih =>
    simp only [fillFrom_cons]
    split
    · cases readCandidate host (Path.join root name) with
      | error fault =>
        cases fault with
        | unreadable cause => exact ih _ _
        | _ => exact ⟨rfl, rfl⟩
      | ok value =>
        cases value with
        | object members =>
          dsimp only
          split
          · exact ih _ _
          · exact ⟨rfl, rfl⟩
        | _ => exact ih _ _
    · exact ih _ _

theorem load_journal (host : Host) (names : Option (List Text)) (table : Table)
    (journal journal' : Journal) :
    (load host names table journal).fault = (load host names table journal').fault ∧
      (load host names table journal).table = (load host names table journal').table := by
  cases h : table.isLoaded with
  | true => rw [load_of_isLoaded h, load_of_isLoaded h]; exact ⟨rfl, rfl⟩
  | false =>
    rw [load_of_not_isLoaded h, load_of_not_isLoaded h]
    cases host.root.filter (· ≠ []) with
    | none => exact ⟨rfl, rfl⟩
    | some root => cases names <;> exact fillFrom_journal ..

end EditorTabs.Alias
