import EditorTabs.Host.Memory
import EditorTabs.Proofs.Alias.Candidates
import EditorTabs.Proofs.Alias.Configuration

/-!
# The candidate that fills an alias table

A candidate is usable when it is there, can be read as an object and declares an alias. The first
usable candidate fills the table. Those before it are passed over, with a warning for each that is
there and cannot be read as an object, and none after it is looked at.
-/
namespace EditorTabs.Alias

variable {host : Host} {root name : Text} {names : List Text} {table : Table} {journal : Journal}

/-- What a candidate is read as: its file is there, can be read and decoded, and holds the value but
for comments. -/
def Holds (host : Host) (root name : Text) (value : Json) : Prop :=
  host.isFile (Path.join root name) = true ∧ ∃ bytes text,
    host.read (Path.join root name) = .ok bytes ∧ Text.Utf8.decode bytes = .ok text ∧
      Json.read (Json.stripComments text) host.nesting = .ok value

/-- A candidate that fills a table. -/
def IsUsable (host : Host) (root name : Text) : Prop :=
  ∃ members, Holds host root name (.object members) ∧ declared members ≠ []

/-- What is wrong with a candidate that is there and is no object. -/
inductive Rejected (host : Host) (root name : Text) : Warning → Prop
  | unread {fault : Files.Fault} (hfile : host.isFile (Path.join root name) = true)
      (h : host.read (Path.join root name) = .error fault) :
      Rejected host root name (.configuration name (.file fault))
  | undecoded {bytes : List UInt8} {fault : Text.Utf8.Fault}
      (hfile : host.isFile (Path.join root name) = true)
      (hread : host.read (Path.join root name) = .ok bytes)
      (h : Text.Utf8.decode bytes = .error fault) :
      Rejected host root name (.configuration name (.encoding fault))
  | malformed {bytes : List UInt8} {text : Text} {place : Json.Malformed}
      (hfile : host.isFile (Path.join root name) = true)
      (hread : host.read (Path.join root name) = .ok bytes)
      (hdecode : Text.Utf8.decode bytes = .ok text)
      (h : Json.read (Json.stripComments text) host.nesting = .error (.malformed place)) :
      Rejected host root name (.configuration name (.malformed place))
  | shape {value : Json} (h : Holds host root name value)
      (hne : ∀ members, value ≠ .object members) :
      Rejected host root name (.configurationShape name)

theorem readCandidate_eq_ok_iff {path : Text} {value : Json} :
    readCandidate host path = .ok value ↔ ∃ bytes text, host.read path = .ok bytes ∧
      Text.Utf8.decode bytes = .ok text ∧
      Json.read (Json.stripComments text) host.nesting = .ok value := by
  rw [readCandidate, Host.readText]
  cases host.read path with
  | error fault => simp
  | ok bytes =>
    cases hdecode : Text.Utf8.decode bytes with
    | error fault => simp [hdecode]
    | ok text =>
      cases hread : Json.read (Json.stripComments text) host.nesting <;>
        simp [hdecode, hread, readConfiguration, Except.mapError]

theorem holds_iff {value : Json} :
    Holds host root name value ↔ host.isFile (Path.join root name) = true ∧
      readCandidate host (Path.join root name) = .ok value := by
  rw [Holds, readCandidate_eq_ok_iff]

theorem rejected_of_readCandidate {cause : Unreadable}
    (hfile : host.isFile (Path.join root name) = true)
    (h : readCandidate host (Path.join root name) = .error (.unreadable cause)) :
    Rejected host root name (.configuration name cause) := by
  rw [readCandidate, Host.readText] at h
  cases hread : host.read (Path.join root name) with
  | error fault =>
    rw [hread] at h
    cases h
    exact .unread hfile hread
  | ok bytes =>
    cases hdecode : Text.Utf8.decode bytes with
    | error fault =>
      simp only [hread, hdecode] at h
      cases h
      exact .undecoded hfile hread hdecode
    | ok text =>
      simp only [hread, hdecode, readConfiguration] at h
      cases hvalue : Json.read (Json.stripComments text) host.nesting with
      | ok value =>
        rw [hvalue] at h
        cases h
      | error fault =>
        rw [hvalue] at h
        cases fault with
        | malformed place =>
          cases h
          exact .malformed hfile hread hdecode hvalue
        | _ => cases h

/-- The warning of a candidate says what is wrong with it. -/
theorem warningOf?_eq_some_iff {warning : Warning} :
    warningOf? host root name = some warning ↔ Rejected host root name warning := by
  constructor
  · intro h
    rw [warningOf?] at h
    split at h
    · next hfile =>
      split at h
      · cases h
      · next value hne hread =>
        cases h
        exact .shape (holds_iff.mpr ⟨hfile, hread⟩) hne
      · next cause hread =>
        cases h
        exact rejected_of_readCandidate hfile hread
      · cases h
    · cases h
  · intro h
    cases h with
    | unread hfile h => simp [warningOf?, hfile, readCandidate, Host.readText, h]
    | undecoded hfile hread h => simp [warningOf?, hfile, readCandidate, Host.readText, hread, h]
    | malformed hfile hread hdecode h =>
      simp [warningOf?, hfile, readCandidate, Host.readText, hread, hdecode, readConfiguration, h,
        Except.mapError, Fault.ofJson]
    | @shape value h hne =>
      obtain ⟨hfile, hread⟩ := holds_iff.mp h
      rw [warningOf?, if_pos hfile, hread]
      cases value with
      | object members => exact absurd rfl (hne members)
      | _ => rfl

theorem not_isUsable_of_not_endsSearch (h : endsSearch host root name = false) :
    ¬ IsUsable host root name := by
  rintro ⟨members, hholds, hdeclared⟩
  obtain ⟨hfile, hread⟩ := holds_iff.mp hholds
  simp only [endsSearch, hfile, hread, Bool.true_and, Bool.not_eq_false',
    List.isEmpty_iff, aliases_ofJson_eq_nil_iff] at h
  exact hdeclared h

/-- A table that the members of a candidate fill. -/
structure Table.FilledBy (table : Table) (root name : Text) (members : List (Text × Json)) :
    Prop where
  state_eq : table.state = .populated
  source_eq : table.source = some name
  baseDirectory_eq : ∀ base, HasBase members base →
    table.baseDirectory = some (Path.normalize (Path.join root base))
  baseDirectory_eq_root : (∀ base, ¬ HasBase members base) → table.baseDirectory = some root
  keys_eq : table.aliases.keys = Text.distinct (declared members).keys
  get?_eq : ∀ name, table.aliases.get? name = Assoc.get? name (declared members).reverse

theorem Table.filledBy_fill (table : Table) (root name : Text) (members : List (Text × Json)) :
    (table.fill (.ofJson (.object members)) root name).FilledBy root name members where
  state_eq := rfl
  source_eq := rfl
  baseDirectory_eq base h := by
    rw [Table.fill, baseUrl_ofJson_eq_some_iff.mpr h]
  baseDirectory_eq_root h := by
    have hnone : (Configuration.ofJson (.object members)).baseUrl = none :=
      Option.eq_none_iff_forall_ne_some.mpr fun base heq =>
        h base (baseUrl_ofJson_eq_some_iff.mp heq)
    rw [Table.fill, hnone]
  keys_eq := by rw [Table.fill, aliases_ofJson, Assoc.keys_putAll_nil]
  get?_eq key := by rw [Table.fill, aliases_ofJson, Assoc.get?_putAll_nil]

theorem reads_trace (host : Host) (root name : Text) :
    (trace host root name).reads =
      ([name].filter fun name => host.isFile (Path.join root name)).map (Path.join root) := by
  cases hfile : host.isFile (Path.join root name) <;>
    simp [trace, requestsOf, Journal.reads, hfile]

/-- What trying candidates comes to: those that are passed over come before the first usable one, if
there is one. -/
structure Loaded.IsOfFirst (loaded : Loaded) (host : Host) (root : Text) (journal : Journal)
    (passed rest : List Text) : Prop where
  not_isUsable : ∀ name ∈ passed, ¬ IsUsable host root name
  filledBy : ∀ name ∈ rest.head?, ∃ members, Holds host root name (.object members) ∧
    declared members ≠ [] ∧ loaded.table.FilledBy root name members
  state_eq : rest = [] → loaded.table.state = .empty
  warnings_eq : loaded.journal.warnings =
    journal.warnings ++ passed.filterMap (warningOf? host root)
  warning_iff : ∀ name ∈ passed, ∀ warning,
    warningOf? host root name = some warning ↔ Rejected host root name warning
  reads_eq : loaded.journal.reads = journal.reads ++
    ((passed ++ rest.head?.toList).filter fun name => host.isFile (Path.join root name)).map
      (Path.join root)

theorem isOfFirst_nil (hmarked : table.state = .empty) (host : Host) (root : Text)
    (journal : Journal) (fault : Option Fault) :
    Loaded.IsOfFirst { fault, table, journal } host root journal [] [] where
  not_isUsable := by simp
  filledBy := by simp
  state_eq _ := hmarked
  warnings_eq := by simp
  warning_iff := by simp
  reads_eq := by simp

/-- A candidate that is passed over leaves its trace and no more. -/
theorem Loaded.IsOfFirst.cons {loaded : Loaded} {passed rest : List Text}
    (hends : endsSearch host root name = false)
    (h : loaded.IsOfFirst host root (journal.followedBy (trace host root name)) passed rest) :
    loaded.IsOfFirst host root journal (name :: passed) rest where
  not_isUsable :=
    List.forall_mem_cons.mpr ⟨not_isUsable_of_not_endsSearch hends, h.not_isUsable⟩
  filledBy := h.filledBy
  state_eq := h.state_eq
  warnings_eq := by
    rw [h.warnings_eq, Journal.followedBy, trace, List.filterMap_cons]
    cases warningOf? host root name <;> simp
  warning_iff := fun _ _ _ => warningOf?_eq_some_iff
  reads_eq := by
    rw [h.reads_eq, Journal.reads_followedBy, reads_trace, List.append_assoc, ← List.map_append,
      ← List.filter_append]
    rfl

theorem isOfFirst_of_endsSearch (hends : endsSearch host root name = true) {endsUnnamed : Bool}
    {rest : List Text}
    (h : (fillFrom host answering root endsUnnamed table (name :: rest) journal).fault = none) :
    (fillFrom host answering root endsUnnamed table (name :: rest) journal).IsOfFirst host root
      journal [] (name :: rest) := by
  obtain ⟨hjournal, hfault⟩ := fillFrom_of_endsSearch hends endsUnnamed rest journal
  have hfile : host.isFile (Path.join root name) = true := (Bool.and_eq_true_iff.mp hends).1
  rw [h, faultOf?] at hfault
  cases hread : readCandidate host (Path.join root name) with
  | error fault =>
    rw [hread] at hfault
    cases hfault
  | ok value =>
    cases value with
    | object members =>
      have hne : (Configuration.ofJson (.object members)).aliases.isEmpty = false := by
        simpa [endsSearch, hfile, hread] using hends
      have htable : (fillFrom host answering root endsUnnamed table (name :: rest) journal).table =
          table.fill (.ofJson (.object members)) root name := by
        simp [fillFrom_cons, hfile, hread, hne]
      have hsilent : warningOf? host root name = none := by
        simp [warningOf?, hfile, hread]
      refine ⟨by simp, ?_, by simp, ?_, by simp, ?_⟩
      · rintro other hother
        obtain rfl : name = other := by simpa using hother
        refine ⟨members, holds_iff.mpr ⟨hfile, hread⟩, fun hnil => ?_,
          htable ▸ table.filledBy_fill ..⟩
        rw [aliases_ofJson_eq_nil_iff.mpr hnil] at hne
        cases hne
      · rw [hjournal, Journal.followedBy, trace, hsilent]
        rfl
      · rw [hjournal, Journal.reads_followedBy, reads_trace]
        rfl
    | _ => simp [endsSearch, hread] at hends

theorem exists_isOfFirst (hmarked : table.state = .empty) {endsUnnamed : Bool}
    (h : (fillFrom host answering root endsUnnamed table names journal).fault = none) :
    ∃ passed rest, names = passed ++ rest ∧
      (fillFrom host answering root endsUnnamed table names journal).IsOfFirst host root
        journal passed rest := by
  induction names generalizing journal with
  | nil => exact ⟨[], [], rfl, isOfFirst_nil hmarked ..⟩
  | cons name names ih =>
    cases hends : endsSearch host root name with
    | true => exact ⟨[], name :: names, rfl, isOfFirst_of_endsSearch hends h⟩
    | false =>
      rw [fillFrom_of_not_endsSearch hends] at h ⊢
      obtain ⟨passed, rest, rfl, hfirst⟩ := ih h
      exact ⟨name :: passed, rest, rfl, hfirst.cons hends⟩

theorem Loaded.IsOfFirst.of_journal {loaded : Loaded} {journal' : Journal} {passed rest : List Text}
    (h : loaded.IsOfFirst host root journal' passed rest)
    (hwarnings : journal'.warnings = journal.warnings) (hreads : journal'.reads = journal.reads) :
    loaded.IsOfFirst host root journal passed rest :=
  { h with
    warnings_eq := hwarnings ▸ h.warnings_eq
    reads_eq := hreads ▸ h.reads_eq }

/-- Loading a table that was not loaded comes to what the first usable candidate gives. The table
has its name, its base directory and its aliases, or is empty if there is none. Each candidate
before it that is there and cannot be read as an object is warned of, and those that are there are
read up to it. -/
theorem load_first_usable (hroot : host.root = some root) (hne : root ≠ [])
    (hstate : table.state = .unloaded) {given : Option (List Text)}
    (hfault : (load host given table journal).fault = none) :
    ∃ passed rest, given.getD host.candidates = passed ++ rest ∧
      (load host given table journal).IsOfFirst host root journal passed rest := by
  have hfilter : host.root.filter (· ≠ []) = some root := by simp [hroot, hne]
  have hunloaded : table.isLoaded = false := by simp [Table.isLoaded, hstate]
  rw [load_of_not_isLoaded hunloaded, hfilter] at hfault ⊢
  cases given with
  | some names =>
    obtain ⟨passed, rest, hnames, hfirst⟩ := exists_isOfFirst rfl hfault
    have hreads : (journal.ask .root).reads = journal.reads := by simp [Journal.ask, Journal.reads]
    exact ⟨passed, rest, hnames, hfirst.of_journal rfl hreads⟩
  | none =>
    obtain ⟨passed, rest, hnames, hfirst⟩ := exists_isOfFirst rfl hfault
    have hreads : ((journal.ask .root).ask .candidates).reads = journal.reads := by
      simp [Journal.ask, Journal.reads]
    exact ⟨passed, rest, hnames, hfirst.of_journal rfl hreads⟩

/-- A workspace with candidates of all sorts: one that is not there, one that cannot be read, one in
another encoding, one that is malformed, one that is no object, one without aliases, and two with
aliases. -/
def assorted : Memory where
  root := some "/w"
  candidates := ["absent", "denied", "latin", "cut", "list", "bare", "full", "late"]
  files := [("/w/denied", .failing 13), ("/w/latin", .bytes [0xE9]),
    ("/w/cut", .bytes (Text.Utf8.encode "\x7b")), ("/w/list", .bytes (Text.Utf8.encode "[]")),
    ("/w/bare", .bytes (Text.Utf8.encode "\x7b\x7d")),
    ("/w/full", .bytes (Text.Utf8.encode
      ("\x7b\"compilerOptions\":\x7b\"baseUrl\":\"./src\",\"paths\":\x7b\"@/*\":[\"a/*\"],"
        ++ "/* */\"x\":\"y\",\"@/\":\"b/\"\x7d\x7d\x7d"))),
    ("/w/late", .bytes (Text.Utf8.encode
      "\x7b\"compilerOptions\":\x7b\"paths\":\x7b\"z\":\"z\"\x7d\x7d\x7d"))]

theorem load_first_usable_assorted :
    let loaded := load assorted.host none .unloaded {}
    assorted.host.root = some "/w" ∧ (loaded.fault = none ∧ loaded.table.source = some "full" ∧
        loaded.table.baseDirectory = some "/w/src" ∧
        loaded.table.aliases = ([("@/", "b/"), ("x", "y")] : Assoc Text Text) ∧
        loaded.journal.warnings.length = 4 ∧ loaded.journal.reads =
          ["/w/denied", "/w/latin", "/w/cut", "/w/list", "/w/bare", "/w/full"]) ∧
      ∃ passed rest, assorted.candidates = passed ++ rest ∧
        loaded.IsOfFirst assorted.host "/w" {} passed rest := by
  intro loaded
  have hroot : assorted.host.root = some "/w" := rfl
  have hfault : loaded.fault = none := by decide +kernel
  have hfirst := load_first_usable hroot (by decide) rfl hfault
  exact ⟨hroot, by decide +kernel, hfirst⟩

end EditorTabs.Alias
