import EditorTabs.Module
import EditorTabs.Proofs.Alias.Loading

/-!
# The candidates that a loading tries

A loading tries its candidates up to the first that fills the table or ends it by a fault. What it
adds to the journal is what each tried candidate adds by itself: the question whether it is a file,
the reading of it, and at most one warning.
-/
namespace EditorTabs

def Journal.followedBy (journal later : Journal) : Journal where
  warnings := journal.warnings ++ later.warnings
  requests := journal.requests ++ later.requests

theorem Journal.followedBy_assoc (a b c : Journal) :
    (a.followedBy b).followedBy c = a.followedBy (b.followedBy c) := by
  simp [followedBy]

theorem Journal.followedBy_empty (journal : Journal) : journal.followedBy {} = journal := by
  simp [followedBy]

theorem Journal.empty_followedBy (journal : Journal) : Journal.followedBy {} journal = journal := by
  simp [followedBy]

theorem Journal.reads_followedBy (journal later : Journal) :
    (journal.followedBy later).reads = journal.reads ++ later.reads := by
  simp [followedBy, reads]

/-- The faults of a text that is refused although it is not malformed. -/
inductive Fault.IsRefusal : Fault → Prop
  | tooDeep (container : Json.Container) : IsRefusal (.tooDeep container)
  | tooManyDigits (count : Nat) : IsRefusal (.tooManyDigits count)

theorem Fault.isRefusal_of_mapError {read : Except Json.Fault Json} {fault : Fault}
    (h : read.mapError Fault.ofJson = .error fault) :
    (∃ place, fault = .unreadable (.malformed place)) ∨ fault.IsRefusal := by
  cases read with
  | ok value => cases h
  | error problem =>
    cases h
    cases problem with
    | malformed place => exact .inl ⟨place, rfl⟩
    | tooDeep container => exact .inr (.tooDeep container)
    | tooManyDigits count => exact .inr (.tooManyDigits count)

namespace Alias

variable (host : Host) (root : Text)

/-- Whether no candidate is tried after this one. -/
def endsSearch (name : Text) : Bool :=
  host.isFile (Path.join root name) &&
    match readCandidate host (Path.join root name) with
    | .ok (.object members) => !(Configuration.ofJson (.object members)).aliases.isEmpty
    | .ok _ => false
    | .error (.unreadable _) => false
    | .error _ => true

def tried (names : List Text) : List Text :=
  Module.upTo (endsSearch host root) names

def requestsOf (name : Text) : List Request :=
  .isFile (Path.join root name) ::
    if host.isFile (Path.join root name) then [.read (Path.join root name)] else []

def warningOf? (name : Text) : Option Warning :=
  if host.isFile (Path.join root name) then
    match readCandidate host (Path.join root name) with
    | .ok (.object _) => none
    | .ok _ => some (.configurationShape name)
    | .error (.unreadable cause) => some (.configuration name cause)
    | .error _ => none
  else none

def trace (name : Text) : Journal where
  warnings := (warningOf? host root name).toList
  requests := requestsOf host root name

def traces (names : List Text) : Journal where
  warnings := (tried host root names).filterMap (warningOf? host root)
  requests := (tried host root names).flatMap (requestsOf host root)

variable {host root} {table : Table}

theorem traces_of_endsSearch {name : Text} (h : endsSearch host root name = true)
    (rest : List Text) : traces host root (name :: rest) = trace host root name := by
  simp only [traces, tried, Module.upTo, h, if_true, trace, List.filterMap_cons,
    List.filterMap_nil, List.flatMap_cons, List.flatMap_nil, List.append_nil]
  cases warningOf? host root name <;> rfl

theorem traces_of_not_endsSearch {name : Text} (h : endsSearch host root name = false)
    (rest : List Text) :
    traces host root (name :: rest) =
      (trace host root name).followedBy (traces host root rest) := by
  simp only [traces, tried, Module.upTo, h, Bool.false_eq_true, if_false, trace,
    Journal.followedBy, List.filterMap_cons, List.flatMap_cons]
  cases warningOf? host root name <;> rfl

theorem fillFrom_of_not_endsSearch {name : Text} (h : endsSearch host root name = false)
    (endsUnnamed : Bool) (rest : List Text) (journal : Journal) :
    fillFrom host answering root endsUnnamed table (name :: rest) journal =
      fillFrom host answering root endsUnnamed table rest
        (journal.followedBy (trace host root name)) := by
  have hgoes (left : Journal) (hleft : left = journal.followedBy (trace host root name)) :
      fillFrom host answering root endsUnnamed table rest left =
        fillFrom host answering root endsUnnamed table rest
          (journal.followedBy (trace host root name)) := by
    rw [hleft]
  cases hfile : host.isFile (Path.join root name) with
  | false =>
    simp only [fillFrom_cons, hfile, Bool.false_eq_true, if_false]
    apply hgoes
    simp [Journal.followedBy, Journal.ask, trace, warningOf?, requestsOf, hfile]
  | true =>
    simp only [fillFrom_cons, hfile, if_true]
    cases hread : readCandidate host (Path.join root name) with
    | error fault =>
      cases fault with
      | unreadable cause =>
        apply hgoes
        simp [Journal.followedBy, Journal.ask, Journal.warn, trace, warningOf?, requestsOf, hfile,
          hread]
      | _ => simp [endsSearch, hfile, hread] at h
    | ok value =>
      cases value with
      | object members =>
        have hnone : (Configuration.ofJson (.object members)).aliases.isEmpty = true := by
          simpa [endsSearch, hfile, hread] using h
        simp only [hnone, if_true]
        apply hgoes
        simp [Journal.followedBy, Journal.ask, trace, warningOf?, requestsOf, hfile, hread]
      | _ =>
        apply hgoes
        simp [Journal.followedBy, Journal.ask, Journal.warn, trace, warningOf?, requestsOf, hfile,
          hread]

/-- The fault of a candidate that ends the search, if it is one. -/
def faultOf? (host : Host) (root name : Text) : Option Fault :=
  match readCandidate host (Path.join root name) with
  | .error fault => some fault
  | .ok _ => none

theorem fillFrom_of_endsSearch {name : Text} (h : endsSearch host root name = true)
    (endsUnnamed : Bool) (rest : List Text) (journal : Journal) :
    (fillFrom host answering root endsUnnamed table (name :: rest) journal).journal =
        journal.followedBy (trace host root name) ∧
      (fillFrom host answering root endsUnnamed table (name :: rest) journal).fault =
        faultOf? host root name := by
  have hfile : host.isFile (Path.join root name) = true := (Bool.and_eq_true_iff.mp h).1
  simp only [fillFrom_cons, hfile, if_true]
  cases hread : readCandidate host (Path.join root name) with
  | error fault =>
    cases fault with
    | unreadable cause => simp [endsSearch, hread] at h
    | _ =>
      constructor
      · simp [Journal.followedBy, Journal.ask, trace, warningOf?, requestsOf, hfile, hread]
      · simp [faultOf?, hread]
  | ok value =>
    cases value with
    | object members =>
      have hnone : (Configuration.ofJson (.object members)).aliases.isEmpty = false := by
        simpa [endsSearch, hfile, hread] using h
      simp only [hnone, Bool.false_eq_true, if_false]
      constructor
      · simp [Journal.followedBy, Journal.ask, trace, warningOf?, requestsOf, hfile, hread]
      · simp [faultOf?, hread]
    | _ => simp [endsSearch, hread] at h

/-- What the candidates leave in the journal does not depend on what was there before. -/
theorem journal_fillFrom (endsUnnamed : Bool) (names : List Text) (journal : Journal) :
    (fillFrom host answering root endsUnnamed table names journal).journal =
      journal.followedBy (traces host root names) := by
  induction names generalizing journal with
  | nil => exact (Journal.followedBy_empty journal).symm
  | cons name rest ih =>
    cases h : endsSearch host root name with
    | true => rw [(fillFrom_of_endsSearch h ..).1, traces_of_endsSearch h]
    | false =>
      rw [fillFrom_of_not_endsSearch h, ih, traces_of_not_endsSearch h,
        Journal.followedBy_assoc]

/-- The fault of a loading is that of the first candidate that ends the search, or of the one
without a name after all. -/
theorem fault_fillFrom (endsUnnamed : Bool) (names : List Text) (journal : Journal) :
    (fillFrom host answering root endsUnnamed table names journal).fault =
      match names.find? (endsSearch host root) with
      | some name => faultOf? host root name
      | none => if endsUnnamed then some .missingName else none := by
  induction names generalizing journal with
  | nil => rfl
  | cons name rest ih =>
    cases h : endsSearch host root name with
    | true => rw [(fillFrom_of_endsSearch h ..).2, List.find?_cons_of_pos h]
    | false =>
      rw [fillFrom_of_not_endsSearch h, ih, List.find?_cons_of_neg (by simp [h])]

variable (host)

def loadTrace (names : Option (List Text)) : Journal :=
  match host.root.filter (· ≠ []) with
  | none => { requests := [.root] }
  | some root =>
    match names with
    | some names => Journal.followedBy { requests := [.root] } (traces host root names)
    | none =>
      Journal.followedBy { requests := [.root, .candidates] } (traces host root host.candidates)

variable {host} {names : Option (List Text)}

theorem journal_load (h : table.isLoaded = false) (journal : Journal) :
    (load host names table journal).journal = journal.followedBy (loadTrace host names) := by
  rw [load_of_not_isLoaded h, loadTrace]
  cases host.root.filter (· ≠ []) with
  | none => simp [Journal.ask, Journal.followedBy]
  | some root =>
    cases names with
    | some names =>
      simp only [journal_fillFrom]
      simp [Journal.ask, Journal.followedBy]
    | none =>
      simp only [journal_fillFrom]
      simp [Journal.ask, Journal.followedBy]

/-- The fault of a loading does not depend on what an unloaded table holds. -/
theorem fault_load (h : table.isLoaded = false) (journal : Journal) :
    (load host names table journal).fault = (load host names .unloaded {}).fault := by
  rw [load_of_not_isLoaded h, load_of_not_isLoaded rfl]
  cases host.root.filter (· ≠ []) with
  | none => rfl
  | some root => cases names <;> simp only [fault_fillFrom]

/-- Why the alias table of a host cannot be loaded: the configuration that decides is refused, or
one without a name is to be tried after all others. -/
inductive LoadFault (host : Host) : Fault → Prop
  | refused {root name : Text} {fault : Fault} (hroot : host.root.filter (· ≠ []) = some root)
      (hname : host.candidates.find? (endsSearch host root) = some name)
      (h : readCandidate host (Path.join root name) = .error fault) : LoadFault host fault
  | unnamed {root : Text} (hroot : host.root.filter (· ≠ []) = some root)
      (hname : host.candidates.find? (endsSearch host root) = none)
      (h : host.endsUnnamed = true) : LoadFault host .missingName

theorem LoadFault.isRefusal {fault : Fault} (h : LoadFault host fault) :
    fault = .missingName ∨ fault.IsRefusal := by
  cases h with
  | unnamed => exact .inl rfl
  | @refused root name fault hroot hname h =>
    right
    have hends : endsSearch host root name = true := List.find?_some hname
    unfold readCandidate at h
    cases hread : host.readText (Path.join root name) with
    | error cause =>
      simp [endsSearch, readCandidate, hread] at hends
    | ok text =>
      simp only [hread] at h
      rcases Fault.isRefusal_of_mapError h with ⟨place, rfl⟩ | hrefusal
      · simp [endsSearch, readCandidate, hread, h] at hends
      · exact hrefusal

theorem fault_load_iff {fault : Fault} :
    (load host none .unloaded {}).fault = some fault ↔ LoadFault host fault := by
  rw [load_of_not_isLoaded rfl]
  cases hroot : host.root.filter (· ≠ []) with
  | none =>
    refine ⟨fun h => by simp at h, fun h => ?_⟩
    cases h with
    | refused hroot' => exact absurd (hroot.symm.trans hroot') (by simp)
    | unnamed hroot' => exact absurd (hroot.symm.trans hroot') (by simp)
  | some root =>
    simp only [fault_fillFrom]
    constructor
    · intro h
      split at h
      · next name hname =>
        rw [faultOf?] at h
        split at h
        · next fault' hread =>
          cases h
          exact .refused hroot hname hread
        · cases h
      · next hname =>
        split at h
        · next hends =>
          cases h
          exact .unnamed hroot hname hends
        · cases h
    · intro h
      cases h with
      | refused hroot' hname hread =>
        obtain rfl := Option.some.inj (hroot.symm.trans hroot')
        simp [hname, faultOf?, hread]
      | unnamed hroot' hname hends =>
        obtain rfl := Option.some.inj (hroot.symm.trans hroot')
        simp [hname, hends]

/-- Only configurations are read and warned of. -/
theorem buffer_notMem_requests_loadTrace (host : Host) (names : Option (List Text)) (path : Text) :
    Request.buffer path ∉ (loadTrace host names).requests := by
  unfold loadTrace
  cases host.root.filter (· ≠ []) with
  | none => simp
  | some root =>
    have htraces (names : List Text) :
        Request.buffer path ∉ (traces host root names).requests := by
      intro h
      obtain ⟨name, -, hname⟩ := List.mem_flatMap.mp h
      simp only [requestsOf, List.mem_cons, reduceCtorEq, false_or] at hname
      split at hname <;> simp at hname
    cases names <;> simp [Journal.followedBy, htraces]

theorem source_notMem_warnings_loadTrace (host : Host) (names : Option (List Text)) (path : Text)
    (cause : Unreadable) :
    Warning.source path cause ∉ (loadTrace host names).warnings := by
  unfold loadTrace
  cases host.root.filter (· ≠ []) with
  | none => simp
  | some root =>
    have htraces (names : List Text) :
        Warning.source path cause ∉ (traces host root names).warnings := by
      intro h
      obtain ⟨name, -, hname⟩ := List.mem_filterMap.mp h
      simp only [warningOf?] at hname
      split at hname
      · split at hname <;> simp at hname
      · cases hname
    cases names <;> simp [Journal.followedBy, htraces]

end Alias

end EditorTabs
