import EditorTabs.Proofs.CommandLine.Work
import EditorTabs.Proofs.Settings

/-!
# How the run of a command ends

A command that writes no artifact ends with status zero, or with status two and a message, or it is
ended by a fault. The contents of files can end it in one way: a text that would be read as JSON is
refused because it is nested too deep or has too long a number in it. A text that is malformed never
ends a run; settings and alias configurations that are malformed are warned of.
-/
namespace EditorTabs

namespace TabList

variable {tree : Files.Tree} {cwd root path : Text} {limit : Nat} {fault : Fault}

theorem isReported_of_entries {values : List Json} (h : entries root values = .error fault) :
    fault.isReported = true := by
  induction values with
  | nil => cases h
  | cons value rest ih =>
    rw [entries] at h
    split at h
    · next hentry =>
      cases h
      cases value <;> cases hentry <;> rfl
    · split at h
      · next hrest =>
        cases h
        exact ih hrest
      · cases h

/-- Of all that can be wrong with a tab list, only its nesting is not reported. -/
theorem read_eq_error_iff (hfault : fault.isReported = false) :
    read tree cwd path root limit = .error fault ↔
      Files.readValue tree cwd (Path.tidy path) false limit = .error fault ∧
        ∃ container, fault = .tooDeep container := by
  rw [read]
  cases hread : Files.readValue tree cwd (Path.tidy path) false limit with
  | ok value =>
    constructor
    · intro h
      cases value with
      | array items => exact absurd (isReported_of_entries h) (by simp [hfault])
      | _ =>
        cases h
        cases hfault
    · rintro ⟨⟨⟩, -⟩
  | error other =>
    have hothers (hcause : ∀ container, other ≠ .tooDeep container) :
        ¬ (.error other = (.error fault : Except Fault Json) ∧
          ∃ container, fault = .tooDeep container) := by
      rintro ⟨⟨⟩, container, rfl⟩
      exact hcause container rfl
    rcases Files.cases_of_readValue hread with ⟨cause, rfl⟩ | hrefusal | ⟨cause, -, rfl⟩
    · refine iff_of_false (fun h => ?_) (hothers (by simp))
      cases cause <;> cases h <;> cases hfault
    · cases hrefusal with
      | tooDeep container =>
        constructor
        · rintro ⟨⟩
          exact ⟨rfl, container, rfl⟩
        · rintro ⟨⟨⟩, -⟩
          rfl
      | tooManyDigits count =>
        refine iff_of_false (fun h => ?_) (hothers (by simp))
        cases h
        cases hfault
    · refine iff_of_false (fun h => ?_) (hothers (by simp))
      cases h
      cases hfault

end TabList

namespace CommandLine

variable {tree : Files.Tree} {cwd root : Text} {limit : Nat} {nesting : Nesting} {fault : Fault}
  {command : Command}

theorem collectTabs_eq_error_iff {inputs : Inputs} (hfault : fault.isReported = false) :
    collectTabs tree cwd root inputs limit = .error fault ↔
      ∃ file container, inputs.tabList = some file ∧
        Files.readValue tree cwd (Path.tidy file) false limit = .error fault ∧
          fault = .tooDeep container := by
  rw [collectTabs]
  cases hfile : inputs.tabList with
  | none => simp
  | some file =>
    have hread (paths : List Tab) : (TabList.read tree cwd file root limit).map (· ++ paths) =
        .error fault ↔ TabList.read tree cwd file root limit = .error fault := by
      cases TabList.read tree cwd file root limit <;> simp [Except.map]
    simp only [hread, TabList.read_eq_error_iff hfault, Option.some.injEq, exists_and_left,
      exists_eq_left']

/-- What a command works with: the root, the settings and the tabs, once all are found. -/
structure Prepared (tree : Files.Tree) (cwd : Text) (nesting : Nesting) (invocation : Invocation)
    (command : Command) (root : Text) (found : Settings.Found) (tabs : List Tab) : Prop where
  root_eq : invocation.rootPath? cwd = some root
  find_eq : Settings.find tree cwd root nesting.settings = .ok found
  tabs_eq : collectTabs tree cwd root command.inputs nesting.tabList = .ok tabs

/-- The faults that end the run of a command without a report. -/
inductive Escapes (tree : Files.Tree) (cwd : Text) (nesting : Nesting) (invocation : Invocation)
    (command : Command) : Fault → Prop
  /-- The root was asked for without a value, which only older parsers let through. -/
  | missingRoot (h : invocation.rootPath? cwd = none) :
      Escapes tree cwd nesting invocation command .missingRoot
  | longPath {root name : Text} (hroot : invocation.rootPath? cwd = some root)
      (hname : Settings.fileName? tree cwd root = some name)
      (h : tree.isTooLong cwd (Settings.pathAt root name) = true) :
      Escapes tree cwd nesting invocation command
        (.unreadable (.file ⟨Files.tooLong, Settings.pathAt root name⟩))
  /-- The text of the settings is refused. -/
  | settings {root name : Text} {fault : Fault} (hroot : invocation.rootPath? cwd = some root)
      (hname : Settings.fileName? tree cwd root = some name)
      (hlong : tree.isTooLong cwd (Settings.pathAt root name) = false)
      (h : Files.readValue tree cwd (Settings.pathAt root name) true nesting.settings =
        .error fault)
      (hfault : fault.IsRefusal) : Escapes tree cwd nesting invocation command fault
  /-- The tab list is nested too deep. -/
  | tabList {root file : Text} {found : Settings.Found} {container : Json.Container}
      (hroot : invocation.rootPath? cwd = some root)
      (hfind : Settings.find tree cwd root nesting.settings = .ok found)
      (hfile : command.inputs.tabList = some file)
      (h : Files.readValue tree cwd (Path.tidy file) false nesting.tabList =
        .error (.tooDeep container)) :
      Escapes tree cwd nesting invocation command (.tooDeep container)
  /-- A file wants the alias table, which cannot be loaded, or no file can have the path of a tab;
  and the command does not report that. -/
  | work {root : Text} {found : Settings.Found} {tabs : List Tab} {fault : Fault}
      (h : Prepared tree cwd nesting invocation command root found tabs)
      (hbreaks : Breaks (invocation.hostOn tree cwd root found.settings tabs nesting.aliases)
        (command.files (found.settings.strategyKey invocation.strategy) tabs) fault)
      (hfault : command.reports fault = false) :
      Escapes tree cwd nesting invocation command fault

/-- No more than this can end a run without a report. -/
theorem Escapes.cases {invocation : Invocation}
    (h : Escapes tree cwd nesting invocation command fault) :
    fault = .missingRoot ∨ fault = .missingName ∨ (∃ cause, fault = .impossible cause) ∨
      (∃ path, fault = .unreadable (.file ⟨Files.tooLong, path⟩)) ∨ fault.IsRefusal := by
  cases h with
  | missingRoot => exact .inl rfl
  | longPath => exact .inr (.inr (.inr (.inl ⟨_, rfl⟩)))
  | settings hroot hname hlong h hfault => exact .inr (.inr (.inr (.inr hfault)))
  | tabList => exact .inr (.inr (.inr (.inr (.tooDeep _))))
  | work h hbreaks =>
    cases hbreaks with
    | impossible => exact .inr (.inr (.inl ⟨_, rfl⟩))
    | aliases hwants hload =>
      rcases hload.isRefusal with hname | hrefusal
      · exact .inr (.inl hname)
      · exact .inr (.inr (.inr (.inr hrefusal)))

/-- How the run of a command ends, and what it warns of. -/
structure Run.Ends (run : Run) (tree : Files.Tree) (cwd : Text) (nesting : Nesting)
    (invocation : Invocation) (command : Command) : Prop where
  /-- A run that a fault does not end has status zero or two. -/
  code_eq : ∀ code, run.status = .ok code → code = 0 ∨ code = 2
  error_iff : ∀ fault, run.status = .error fault ↔
    Escapes tree cwd nesting invocation command fault
  /-- Of what files hold, only texts that are refused can end a run, and in a tab list the paths
  that no file can have. -/
  cause : ∀ fault, run.status = .error fault →
    fault = .missingRoot ∨ fault = .missingName ∨ (∃ cause, fault = .impossible cause) ∨
      (∃ path, fault = .unreadable (.file ⟨Files.tooLong, path⟩)) ∨ fault.IsRefusal
  /-- Malformed settings are warned of. -/
  settings_warned : ∀ root found tabs warning,
    Prepared tree cwd nesting invocation command root found tabs →
    Settings.warning? tree cwd root nesting.settings = some warning → warning.line <:+: run.errors
  /-- Malformed alias configurations are warned of, when they are tried and the run succeeds. -/
  aliases_warned : ∀ root found tabs above name warning,
    Prepared tree cwd nesting invocation command root found tabs →
    command.usesImports (found.settings.strategyKey invocation.strategy) →
    let host := invocation.hostOn tree cwd root found.settings tabs nesting.aliases
    host.wantsAny tabs → host.root.filter (· ≠ []) = some above →
    name ∈ Alias.tried host above host.candidates →
    Alias.warningOf? host above name = some warning →
    run.status = .ok 0 → warning.line <:+: run.errors

section

variable {words : List Text} {invocation : Invocation} {found : Settings.Found} {tabs : List Tab}
  (hread : Invocation.read words = .ok invocation) (hcommand : invocation.command = some command)

include hread hcommand

theorem status_of_rootPath? (hroot : invocation.rootPath? cwd = none) :
    (run tree cwd words nesting).status = .error .missingRoot := by
  simp only [run, hread, Invocation.run, hcommand, hroot]

theorem status_of_find (hroot : invocation.rootPath? cwd = some root)
    (hfind : Settings.find tree cwd root nesting.settings = .error fault) :
    (run tree cwd words nesting).status = .error fault := by
  simp only [run, hread, Invocation.run, hcommand, hroot, hfind]

theorem run_of_collectTabs (hroot : invocation.rootPath? cwd = some root)
    (hfind : Settings.find tree cwd root nesting.settings = .ok found)
    (htabs : collectTabs tree cwd root command.inputs nesting.tabList = .error fault) :
    run tree cwd words nesting = Run.ofFault tree fault := by
  simp only [run, hread, Invocation.run, hcommand, hroot, hfind, runIn, htabs]

theorem run_of_prepared
    (h : Prepared tree cwd nesting invocation command root found tabs) :
    run tree cwd words nesting =
      (command.runOn tree cwd
        (invocation.hostOn tree cwd root found.settings tabs nesting.aliases)
        (found.settings.strategyKey invocation.strategy)).afterErrors
          (warningLines (found.warnings.map Warning.message)) := by
  simp only [run, hread, Invocation.run, hcommand, h.root_eq, h.find_eq, runIn, h.tabs_eq]

/-- The four ways of a run: it has no root, no settings, no tabs, or all of them. -/
theorem run_cases (tree : Files.Tree) (cwd : Text) (nesting : Nesting) :
    (invocation.rootPath? cwd = none ∧ (run tree cwd words nesting).status = .error .missingRoot) ∨
    (∃ root fault, invocation.rootPath? cwd = some root ∧
      Settings.find tree cwd root nesting.settings = .error fault ∧
      (run tree cwd words nesting).status = .error fault) ∨
    (∃ root found fault, invocation.rootPath? cwd = some root ∧
      Settings.find tree cwd root nesting.settings = .ok found ∧
      collectTabs tree cwd root command.inputs nesting.tabList = .error fault ∧
      run tree cwd words nesting = Run.ofFault tree fault) ∨
    ∃ root found tabs, Prepared tree cwd nesting invocation command root found tabs ∧
      run tree cwd words nesting =
        (command.runOn tree cwd
          (invocation.hostOn tree cwd root found.settings tabs nesting.aliases)
          (found.settings.strategyKey invocation.strategy)).afterErrors
            (warningLines (found.warnings.map Warning.message)) := by
  cases hroot : invocation.rootPath? cwd with
  | none => exact .inl ⟨rfl, status_of_rootPath? hread hcommand hroot⟩
  | some root =>
    right
    cases hfind : Settings.find tree cwd root nesting.settings with
    | error fault => exact .inl ⟨root, fault, rfl, hfind, status_of_find hread hcommand hroot hfind⟩
    | ok found =>
      right
      cases htabs : collectTabs tree cwd root command.inputs nesting.tabList with
      | error fault =>
        have hrun := run_of_collectTabs hread hcommand hroot hfind htabs
        exact .inl ⟨root, found, fault, rfl, hfind, htabs, hrun⟩
      | ok tabs =>
        have hprepared : Prepared tree cwd nesting invocation command root found tabs :=
          ⟨hroot, hfind, htabs⟩
        exact .inr ⟨root, found, tabs, hprepared, run_of_prepared hread hcommand hprepared⟩

theorem escapes_of_status (hout : command.out? = none)
    (hstatus : (run tree cwd words nesting).status = .error fault) :
    Escapes tree cwd nesting invocation command fault := by
  rcases run_cases hread hcommand tree cwd nesting with ⟨hroot, hrun⟩ |
    ⟨root, other, hroot, hfind, hrun⟩ | ⟨root, found, other, hroot, hfind, htabs, hrun⟩ |
    ⟨root, found, tabs, hprepared, hrun⟩
  · rw [hrun] at hstatus
    cases hstatus
    exact .missingRoot hroot
  · rw [hrun] at hstatus
    cases hstatus
    obtain ⟨name, hname, hfault⟩ := Settings.find_eq_error_iff.mp hfind
    cases hlong : tree.isTooLong cwd (Settings.pathAt root name) with
    | true =>
      rw [if_pos hlong] at hfault
      rw [hfault]
      exact .longPath hroot hname hlong
    | false =>
      rw [if_neg (by simp [hlong])] at hfault
      exact .settings hroot hname hlong hfault.1 hfault.2
  · rw [hrun, status_ofFault_eq_error_iff] at hstatus
    obtain ⟨rfl, hfault⟩ := hstatus
    obtain ⟨file, container, hfile, hvalue, rfl⟩ := (collectTabs_eq_error_iff hfault).mp htabs
    exact .tabList hroot hfind hfile hvalue
  · rw [hrun] at hstatus
    obtain ⟨hbreaks, hfault⟩ := (status_runOn_eq_error_iff hout).mp hstatus
    exact .work hprepared hbreaks hfault

theorem status_of_escapes (hout : command.out? = none)
    (hescapes : Escapes tree cwd nesting invocation command fault) :
    (run tree cwd words nesting).status = .error fault := by
  cases hescapes with
  | missingRoot hroot => exact status_of_rootPath? hread hcommand hroot
  | longPath hroot hname hlong =>
    exact status_of_find hread hcommand hroot (Settings.find_of_isTooLong hname hlong)
  | settings hroot hname hlong h hfault =>
    apply status_of_find hread hcommand hroot
    refine Settings.find_eq_error_iff.mpr ⟨_, hname, ?_⟩
    rw [if_neg (by simp [hlong])]
    exact ⟨h, hfault⟩
  | @tabList root file found container hroot hfind hfile h =>
    have htabs :
        collectTabs tree cwd root command.inputs nesting.tabList = .error (.tooDeep container) :=
      (collectTabs_eq_error_iff rfl).mpr ⟨file, container, hfile, h, rfl⟩
    rw [run_of_collectTabs hread hcommand hroot hfind htabs, status_ofFault_eq_error_iff]
    exact ⟨rfl, rfl⟩
  | work h hbreaks hfault =>
    rw [run_of_prepared hread hcommand h]
    exact (status_runOn_eq_error_iff hout).mpr ⟨hbreaks, hfault⟩

theorem code_of_status (hout : command.out? = none) {code : Nat}
    (hstatus : (run tree cwd words nesting).status = .ok code) : code = 0 ∨ code = 2 := by
  rcases run_cases hread hcommand tree cwd nesting with ⟨-, hrun⟩ | ⟨_, _, -, -, hrun⟩ |
    ⟨_, _, fault, -, -, -, hrun⟩ | ⟨_, _, _, -, hrun⟩
  · rw [hrun] at hstatus
    cases hstatus
  · rw [hrun] at hstatus
    cases hstatus
  · rw [hrun] at hstatus
    exact .inr (eq_two_of_status_ofFault hstatus)
  · rw [hrun] at hstatus
    exact status_runOn_eq_ok hout hstatus

end

/-- The run of a command that writes no artifact, whatever the files hold. -/
theorem ends_run {words : List Text} {invocation : Invocation}
    (hread : Invocation.read words = .ok invocation) (hcommand : invocation.command = some command)
    (hout : command.out? = none) (tree : Files.Tree) (cwd : Text) (nesting : Nesting) :
    (run tree cwd words nesting).Ends tree cwd nesting invocation command := by
  constructor
  case code_eq => exact fun code => code_of_status hread hcommand hout
  case error_iff =>
    intro fault
    exact ⟨escapes_of_status hread hcommand hout, status_of_escapes hread hcommand hout⟩
  case cause => exact fun fault h => (escapes_of_status hread hcommand hout h).cases
  case settings_warned =>
    intro root found tabs warning hprepared hwarning
    obtain ⟨source, hfind⟩ := Settings.find_of_warning? hwarning
    obtain rfl := Except.ok.inj (hprepared.find_eq.symm.trans hfind)
    rw [run_of_prepared hread hcommand hprepared]
    exact (infix_warningLines List.mem_cons_self).trans (List.prefix_append ..).isInfix
  case aliases_warned =>
    intro root found tabs above name warning hprepared huses host hwants habove htried hwarning
      hstatus
    have hmem : warning ∈ (Alias.loadTrace host none).warnings := by
      simp only [Alias.loadTrace, habove, Journal.followedBy, List.nil_append]
      exact List.mem_filterMap.mpr ⟨name, htried, hwarning⟩
    rw [run_of_prepared hread hcommand hprepared] at hstatus ⊢
    exact (warned_runOn hout huses hwants hstatus hmem).trans (List.suffix_append ..).isInfix

/-- A workspace with malformed settings, an alias configuration that is no object, and a file that
wants the alias table. -/
def untidy : Files.Tree :=
  ⟨[([".taborder.json"], .file (Text.Utf8.encode "[1")),
    (["tsconfig.json"], .file (Text.Utf8.encode "[]")),
    (["a.ts"], .file (Text.Utf8.encode "require('@/b')"))]⟩

def graphOfOne : Command :=
  .graph { paths := ["a.ts"], tabList := none, json := false }

theorem ends_run_untidy :
    ∃ invocation, Invocation.read ["graph", "a.ts"] = .ok invocation ∧
      invocation.command = some graphOfOne ∧ graphOfOne.out? = none ∧
      (run untidy "/" ["graph", "a.ts"]).status = .ok 0 ∧
      (run untidy "/" ["graph", "a.ts"]).Ends untidy "/" {} invocation graphOfOne := by
  have hread : Invocation.read ["graph", "a.ts"] =
      .ok { root := some Path.here, strategy := none, aliasFiles := []
            command := some graphOfOne } := by decide +kernel
  have hstatus : (run untidy "/" ["graph", "a.ts"]).status = .ok 0 := by decide +kernel
  exact ⟨_, hread, rfl, rfl, hstatus, ends_run hread rfl rfl untidy "/" {}⟩

example : (run untidy "/" ["graph", "a.ts"]).errors =
    "warning: Failed to parse .taborder.json: Expecting ',' delimiter: line 1 column 3 (char 2)\n"
      ++ "  [....] Building import graph for 1 tabs\n  [done] Building import graph for 1 tabs\n"
      ++ "warning: Invalid tsconfig.json: expected a JSON object\n" := by
  decide +kernel

-- The import graph has to read every file, also one whose path is none.
example : (run ⟨[(["t.json"], .file (Text.Utf8.encode "[\"a\\u0000\"]"))]⟩ "/"
    ["graph", "--tabs", "t.json"]).status = .error (.impossible .null) := by
  decide +kernel

/-- A workspace with nothing but a settings file, which holds a whole number. -/
def numberAsSettings (digits : Nat) : Files.Tree :=
  ⟨[([".taborder.json"], .file (List.replicate digits 49))]⟩

def orderOfNone : Command :=
  .order { paths := [], tabList := none, json := false } false none

theorem read_orderOfNone : Invocation.read ["order"] =
    .ok { root := some Path.here, strategy := none, aliasFiles := []
          command := some orderOfNone } := by
  decide +kernel

theorem status_numberAsSettings {digits : Nat} (h : Json.digitLimit < digits) :
    (run (numberAsSettings digits) "/" ["order"]).status = .error (.tooManyDigits digits) := by
  have hroot : Path.tidy (Path.absolute "/" Path.here) = "/" := by decide +kernel
  have hname : Settings.fileName? (numberAsSettings digits) "/" "/" =
      some (Text.ofString ".taborder.json") := rfl
  have hlong : (numberAsSettings digits).isTooLong "/" "/.taborder.json" = false := rfl
  have hbytes : (numberAsSettings digits).read "/" "/.taborder.json" =
      .ok ((List.replicate digits (CodePoint.char '1')).map fun c => .ofNat c.toNat) := by
    rw [List.map_replicate]
    rfl
  have hwhole : Json.IsWhole (List.replicate digits (CodePoint.char '1')) := by
    refine .inr ⟨⟨?_, fun c hc => ?_⟩, ?_⟩
    · rw [Ne, List.replicate_eq_nil_iff]
      omega
    · rw [List.eq_of_mem_replicate hc]
      decide
    · rw [List.head?_replicate]
      split <;> decide
  have hvalue : Files.readValue (numberAsSettings digits) "/" "/.taborder.json" true =
      .error (.tooManyDigits digits) := by
    rw [Files.readValue_of_isWhole hwhole (by rwa [List.length_replicate]) hbytes,
      List.length_replicate]
  apply status_of_escapes read_orderOfNone rfl rfl
  exact .settings (congrArg some hroot) hname hlong hvalue (.tooManyDigits digits)

/-- A number with one digit more than are read, in the place of the settings, ends every command. -/
theorem not_forall_status_ok :
    ¬ ∀ (tree : Files.Tree) (cwd : Text) (words : List Text) (invocation : Invocation)
      (command : Command), Invocation.read words = .ok invocation →
        invocation.command = some command → command.out? = none →
          (run tree cwd words).status = .ok 0 ∨ (run tree cwd words).status = .ok 2 := by
  intro h
  have hstatus : (run (numberAsSettings 4301) "/" ["order"]).status =
      .error (.tooManyDigits 4301) := status_numberAsSettings (by decide)
  have hends := h (numberAsSettings 4301) "/" ["order"] _ _ read_orderOfNone rfl rfl
  rw [hstatus] at hends
  rcases hends with hends | hends <;> cases hends

end CommandLine

end EditorTabs
