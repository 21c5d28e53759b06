import EditorTabs.Alias.Configuration
import EditorTabs.Alias.Table
import EditorTabs.Host.Basic
import EditorTabs.Json.Comments
import EditorTabs.Json.Reader

/-!
# Loading an alias table

A table is loaded once, and in place: it is marked as loaded before anything is asked, and its
fields are filled one after the other. The candidates are tried in order, and the first that
declares an alias fills the table. A candidate that is not there is passed over, one that is
unreadable or no object leaves a warning. Some faults end the loading where it stands, among them
those of a host that fails to answer; the table is then as it was marked, and is not loaded again.
-/
namespace EditorTabs.Alias

/-- The outcome of loading, with the table and the journal after it. -/
structure Loaded where
  fault : Option Fault := none
  table : Table
  journal : Journal

/-- The faults by which a host fails to answer: one for the last of the requests made so far, or
none. -/
abbrev Failures := List Request → Option Fault

def answering : Failures := fun _ => none

def readConfiguration (limit : Nat) (text : Text) : Except Fault Json :=
  (Json.read (Json.stripComments text) limit).mapError Fault.ofJson

def readCandidate (host : Host) (path : Text) : Except Fault Json :=
  match host.readText path with
  | .error cause => .error (.unreadable cause)
  | .ok text => readConfiguration host.nesting text

/-- A table with its fields filled one after the other, the state last. -/
def Table.fill (table : Table) (configuration : Configuration) (root name : Text) : Table :=
  let based := { table with
    baseDirectory := some <|
      match configuration.baseUrl with
      | some base => Path.normalize (Path.join root base)
      | none => root }
  let named := { based with aliases := configuration.aliases }
  let sourced := { named with source := some name }
  { sourced with state := .populated }

/-- The candidates tried for a table that is marked already. When reading fails because the file is
unreadable, that is a warning like any other. When no candidate fills the table, and another one
without a name is to be tried after them, that is a fault. -/
def fillFrom (host : Host) (failures : Failures) (root : Text) (endsUnnamed : Bool)
    (table : Table) : List Text → Journal → Loaded
  | [], journal => { fault := if endsUnnamed then some .missingName else none, table, journal }
  | name :: rest, journal =>
    let path := Path.join root name
    let asked := journal.ask (.isFile path)
    match failures asked.requests with
    | some fault => { fault := some fault, table, journal := asked }
    | none =>
      if host.isFile path then
        let read := asked.ask (.read path)
        match (failures read.requests).elim (readCandidate host path) .error with
        | .ok (.object members) =>
          let configuration := Configuration.ofJson (.object members)
          if configuration.aliases.isEmpty then
            fillFrom host failures root endsUnnamed table rest read
          else { table := table.fill configuration root name, journal := read }
        | .ok _ =>
          fillFrom host failures root endsUnnamed table rest
            (read.warn (.configurationShape name))
        | .error (.unreadable cause) =>
          fillFrom host failures root endsUnnamed table rest
            (read.warn (.configuration name cause))
        | .error fault => { fault := some fault, table, journal := read }
      else fillFrom host failures root endsUnnamed table rest asked

/-- A table loaded in place from a host that may fail. The candidates are the host's unless others
are given. -/
def loadInPlace (host : Host) (failures : Failures) (names : Option (List Text)) (table : Table)
    (journal : Journal) : Loaded :=
  if table.isLoaded then { table, journal }
  else
    let marked := { table with state := .empty }
    let asked := journal.ask .root
    match failures asked.requests with
    | some fault => { fault := some fault, table := marked, journal := asked }
    | none =>
      match host.root.filter (· ≠ []) with
      | none => { table := marked, journal := asked }
      | some root =>
        match names with
        | some names => fillFrom host failures root false marked names asked
        | none =>
          let listed := asked.ask .candidates
          match failures listed.requests with
          | some fault => { fault := some fault, table := marked, journal := listed }
          | none => fillFrom host failures root host.endsUnnamed marked host.candidates listed

def load (host : Host) (names : Option (List Text)) (table : Table) (journal : Journal) : Loaded :=
  loadInPlace host answering names table journal

end EditorTabs.Alias
