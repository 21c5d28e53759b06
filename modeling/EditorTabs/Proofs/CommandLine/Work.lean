import EditorTabs.CommandLine.Run
import EditorTabs.Proofs.Order.Faults
import EditorTabs.Proofs.Session.Faults

/-!
# Commands at work

Once the settings and the tabs of a command are found, there are three sorts of faults that it can
come to: names without a key, which are reported, an alias table that cannot be loaded, and a file
whose path no file can have. When it succeeds after it came to a reference that wants the alias
table, it shows the warnings of loading it.
-/
namespace EditorTabs

def Warning.line (warning : Warning) : Text :=
  "warning: " ++ warning.message ++ "\n"

theorem infix_unlines {line : Text} {lines : List Text} (h : line ∈ lines) :
    (line ++ "\n" : Text) <:+: unlines lines := by
  obtain ⟨before, later, rfl⟩ := List.append_of_mem h
  exact ⟨unlines before, unlines later, by simp [unlines]⟩

theorem infix_warningLines {warning : Warning} {warnings : List Warning} (h : warning ∈ warnings) :
    warning.line <:+: unlines (warningLines (warnings.map Warning.message)) := by
  apply infix_unlines
  rw [warningLines, List.mem_map]
  exact ⟨warning.message, Text.mem_distinct.mpr (List.mem_map_of_mem h), rfl⟩

namespace CommandLine

open Session (Advances Falters)

variable {tree : Files.Tree} {cwd root key : Text} {host : Host} {fault : Fault} {json : Bool}
  {explain : Bool} {strategy : Strategy} {session after : Session}

theorem status_ofFault_eq_error_iff {other : Fault} :
    (Run.ofFault tree other).status = .error fault ↔ other = fault ∧ fault.isReported = false := by
  rw [Run.ofFault]
  cases hother : other.isReported with
  | true =>
    constructor
    · rintro ⟨⟩
    · rintro ⟨rfl, hfault⟩
      exact absurd (hother.symm.trans hfault) (by simp)
  | false =>
    constructor
    · rintro ⟨⟩
      exact ⟨rfl, hother⟩
    · rintro ⟨rfl, -⟩
      rfl

theorem eq_two_of_status_ofFault {code : Nat} (h : (Run.ofFault tree fault).status = .ok code) :
    code = 2 := by
  rw [Run.ofFault] at h
  split at h <;> cases h
  rfl

theorem status_runGraph :
    (runGraph tree host json).status = (graphReport host .fresh).1.map fun _ => 0 := by
  simp only [runGraph]
  rcases graphReport host .fresh with ⟨_ | _, _⟩ <;> rfl

theorem status_runOrder :
    (runOrder tree cwd host strategy json explain none).status =
      match (orderReport host strategy explain .fresh).1 with
      | .error fault => (Run.ofFault tree fault).status
      | .ok _ => .ok 0 := by
  simp only [runOrder]
  rcases orderReport host strategy explain .fresh with ⟨_ | _, _⟩ <;> rfl

theorem falters_graphReport (host : Host) :
    Falters host (host.wantsAny host.tabs) (graphReport host) := by
  refine Falters.congr ?_ (or_self_iff (a := host.wantsAny host.tabs))
  apply (Session.falters_edges host host.tabs).bind
    fun _ => Session.falters_depths host host.tabs
  · intro session fault after h
    rw [graphReport, h]
  · intro session edges mid fault after h h'
    simp only [graphReport, h, h']
  · intro session edges mid depths after h h'
    exact ⟨{ edges, depths }, by simp only [graphReport, h, h']⟩

theorem falters_orderReport (host : Host) (explain : Bool) :
    Falters host (host.wantsAny host.tabs) (orderReport host .imports explain) := by
  have harrange := Session.falters_arrange host host.tabs
  cases explain with
  | false =>
    apply harrange.map
    · intro session fault after h
      rw [orderReport, h]
    · intro session groups after h
      refine ⟨{ strategy := .imports, groups, depths := [] }, after, ?_, rfl, rfl⟩
      simp [orderReport, h]
  | true =>
    refine Falters.congr ?_ (or_self_iff (a := host.wantsAny host.tabs))
    apply harrange.bind fun _ => Session.falters_groupDepths host host.tabs
    · intro session fault after h
      rw [orderReport, h]
    · intro session groups mid fault after h h'
      simp [orderReport, h, h']
    · intro session groups mid depths after h h'
      exact ⟨{ strategy := .imports, groups, depths }, by simp [orderReport, h, h']⟩

theorem isKeyFault_of_orderReport (hne : strategy ≠ .imports)
    (h : orderReport host strategy explain session = (.error fault, after)) :
    Order.IsKeyFault fault := by
  simp only [orderReport] at h
  split at h
  · next harrange =>
    cases h
    exact isKeyFault_of_arrangeGroups hne harrange
  · simp [hne] at h

/-- A session that comes to a file which wants the alias table has the warnings of its loading. -/
theorem warned_of_knows (hadvances : Advances host .fresh after) {tabs : List Tab}
    (hknows : after.Knows (Tab.files tabs)) (hwants : host.wantsAny tabs) :
    (Alias.loadTrace host none).warnings ⊆ after.warnings := by
  obtain ⟨asked, loads, h⟩ := hadvances
  obtain ⟨path, hpath, hwants⟩ := hwants
  obtain ⟨found, hfound⟩ := Option.isSome_iff_exists.mp (hknows path hpath)
  have hloaded : after.table.isLoaded = true := by
    rcases h.loaded_of_wants path found hwants hfound with hbefore | hloaded
    · cases hbefore
    · exact hloaded
  rcases h.warned_of_loaded hloaded with hbefore | hwarned
  · cases hbefore
  · exact hwarned

theorem warned_graphReport {report : GraphReport}
    (h : graphReport host .fresh = (.ok report, after)) (hwants : host.wantsAny host.tabs) :
    (Alias.loadTrace host none).warnings ⊆ after.warnings := by
  rw [graphReport] at h
  have hadvances := Session.advances_edges host host.tabs .fresh
  rcases hedges : Session.edges host host.tabs .fresh with ⟨_ | edges, mid⟩
  · simp [hedges] at h
  · rw [hedges] at h hadvances
    have hrest := Session.advances_depths host host.tabs mid
    rcases hdepths : Session.depths host host.tabs mid with ⟨_ | depths, last⟩
    · simp [hdepths] at h
    · simp only [hdepths] at h hrest
      cases h
      obtain ⟨-, hknows, -⟩ := Session.edges_ok hedges
      have hext : after.Extends mid := hrest.elim fun _ ⟨_, hrest⟩ => hrest.cache_extends
      exact warned_of_knows (hadvances.trans hrest) (hknows.extends hext) hwants

theorem warned_orderReport {report : OrderReport}
    (h : orderReport host .imports explain .fresh = (.ok report, after))
    (hwants : host.wantsAny host.tabs) :
    (Alias.loadTrace host none).warnings ⊆ after.warnings := by
  obtain ⟨members, hmembers, hwants⟩ := Host.exists_wantsAny_groupTabs.mpr hwants
  have hadvances := Session.advances_arrangeGroups host (groupTabs host.tabs) .fresh
  rcases harrange : arrangeGroups .imports host (groupTabs host.tabs) .fresh with ⟨_ | groups, mid⟩
  · simp [orderReport, arrange, harrange] at h
  · rw [harrange] at hadvances
    obtain ⟨-, hknows, -⟩ := Session.arrangeGroups_ok harrange
    cases explain with
    | false =>
      simp only [orderReport, arrange, harrange, Bool.false_eq_true, false_and, if_false] at h
      cases h
      exact warned_of_knows hadvances (hknows members hmembers) hwants
    | true =>
      have hrest := Session.advances_depthsOfGroups host (groupTabs host.tabs) [] mid
      simp only [orderReport, arrange, harrange, and_self, if_true, Session.groupDepths] at h
      rcases hdepths : Session.depthsOfGroups host (groupTabs host.tabs) [] mid
        with ⟨_ | depths, last⟩
      · simp [hdepths] at h
      · simp only [hdepths] at h hrest
        cases h
        have hext : after.Extends mid := hrest.elim fun _ ⟨_, hrest⟩ => hrest.cache_extends
        have hknows' := (hknows members hmembers).extends hext
        exact warned_of_knows (hadvances.trans hrest) hknows' hwants

/-! ## Files come to one after the other -/

def Command.files (key : Text) (tabs : List Tab) : Command → List Text
  | .graph _ => Tab.files tabs
  | .order _ _ _ =>
    match Strategy.ofKey key with
    | .error _ => []
    | .ok strategy => filesRead strategy tabs

/-- The files that are read of those that a command comes to: all up to the first one whose path no
file can have. -/
def reached (files : List Text) : List Text :=
  match untilImpossible? files with
  | some (before, _) => before
  | none => files

/-- What goes wrong with files that are come to one after the other: one of them wants the alias
table, which cannot be loaded, or no file can have the path of one. -/
inductive Breaks (host : Host) (files : List Text) : Fault → Prop
  | aliases {fault : Fault} (hwants : ∃ path ∈ reached files, host.wants path)
      (hload : Alias.LoadFault host fault) : Breaks host files fault
  | impossible {before : List Text} {cause : Files.PathFault}
      (h : untilImpossible? files = some (before, cause))
      (hbefore : ∀ fault, Alias.LoadFault host fault → ∀ path ∈ before, ¬ host.wants path) :
      Breaks host files (.impossible cause)

variable {files before : List Text} {cause : Files.PathFault}

theorem breaks_iff_of_possible (h : untilImpossible? files = none) :
    Breaks host files fault ↔
      (∃ path ∈ files, host.wants path) ∧ Alias.LoadFault host fault := by
  have hreached : reached files = files := by rw [reached, h]
  constructor
  · intro hbreaks
    cases hbreaks with
    | aliases hwants hload => exact ⟨hreached ▸ hwants, hload⟩
    | impossible h' => exact absurd (h.symm.trans h') (by simp)
  · rintro ⟨hwants, hload⟩
    exact .aliases (hreached.symm ▸ hwants) hload

theorem breaks_iff_breakAt (h : untilImpossible? files = some (before, cause)) :
    Breaks host files fault ↔ (breakAt host before cause).1 = fault := by
  have hreached : reached files = before := by rw [reached, h]
  have hfaults : ∀ other, (Session.referencesAll host before .fresh).1 = .error other ↔
      (∃ path ∈ before, host.wants path) ∧ Alias.LoadFault host other :=
    fun other => (Session.falters_referencesAll host before).fst_eq_error_iff
  rw [breakAt]
  rcases hread : Session.referencesAll host before .fresh with ⟨other | graph, after⟩
  · -- A file before the path wants the table, so the path is not come to.
    obtain ⟨⟨path, hpath, hwants⟩, hload⟩ := (hfaults other).mp (congrArg Prod.fst hread)
    constructor
    · intro hbreaks
      cases hbreaks with
      | aliases hwants' hload' =>
        have hfault := (hfaults fault).mpr ⟨hreached ▸ hwants', hload'⟩
        rw [hread] at hfault
        exact Except.error.inj hfault
      | impossible h' hbefore =>
        cases h.symm.trans h'
        exact absurd hwants (hbefore other hload path hpath)
    · rintro rfl
      exact .aliases ⟨path, hreached.symm ▸ hpath, hwants⟩ hload
  · have hnever : ∀ other, ¬ ((∃ path ∈ before, host.wants path) ∧ Alias.LoadFault host other) := by
      intro other hother
      have hfault := (hfaults other).mpr hother
      rw [hread] at hfault
      cases hfault
    constructor
    · intro hbreaks
      cases hbreaks with
      | aliases hwants hload => exact absurd ⟨hreached ▸ hwants, hload⟩ (hnever fault)
      | impossible h' hbefore =>
        cases h.symm.trans h'
        rfl
    · rintro rfl
      exact .impossible h fun other hload path hpath hwants =>
        hnever other ⟨⟨path, hpath, hwants⟩, hload⟩

theorem exists_wants_filesRead {tabs : List Tab} :
    (∃ path ∈ filesRead .imports tabs, host.wants path) ↔ host.wantsAny tabs := by
  rw [← Host.exists_wantsAny_groupTabs]
  constructor
  · rintro ⟨path, hpath, hwants⟩
    obtain ⟨members, hmembers, hmem⟩ := List.mem_flatMap.mp hpath
    exact ⟨members, hmembers, path, hmem, hwants⟩
  · rintro ⟨members, hmembers, path, hmem, hwants⟩
    exact ⟨path, List.mem_flatMap.mpr ⟨members, hmembers, hmem⟩, hwants⟩

theorem filesRead_of_ne (h : strategy ≠ .imports) (tabs : List Tab) :
    filesRead strategy tabs = [] := by
  cases strategy with
  | imports => exact absurd rfl h
  | _ => rfl

/-! ## How the work ends -/

def Command.usesImports (key : Text) : Command → Prop
  | .graph _ => True
  | .order _ _ _ => Strategy.ofKey key = .ok .imports

def Command.reports (fault : Fault) : Command → Bool
  | .graph _ => false
  | .order _ _ _ => fault.isReported

variable {command : Command}

theorem isReported_of_ofKey (h : Strategy.ofKey key = .error fault) : fault.isReported = true := by
  rw [Strategy.ofKey] at h
  split at h
  · cases h
  · cases h
    rfl

theorem status_runOn_eq_ok (hout : command.out? = none) {code : Nat}
    (h : (command.runOn tree cwd host key).status = .ok code) : code = 0 ∨ code = 2 := by
  cases command with
  | graph inputs =>
    left
    rw [Command.runOn] at h
    split at h
    · cases h
    · rw [status_runGraph] at h
      cases hreport : (graphReport host .fresh).1 with
      | error fault => simp [hreport, Except.map] at h
      | ok report => simpa [hreport, Except.map, eq_comm] using h
  | order inputs explain out =>
    obtain rfl : out = none := hout
    rw [Command.runOn] at h
    split at h
    · exact .inr (eq_two_of_status_ofFault h)
    split at h
    · exact .inr (eq_two_of_status_ofFault h)
    · rw [status_runOrder] at h
      split at h
      · exact .inr (eq_two_of_status_ofFault h)
      · exact .inl (Except.ok.inj h).symm

theorem status_runOrder_eq_error_iff
    (hpossible : untilImpossible? (filesRead strategy host.tabs) = none) :
    (runOrder tree cwd host strategy json explain none).status = .error fault ↔
      Breaks host (filesRead strategy host.tabs) fault ∧ fault.isReported = false := by
  rw [status_runOrder, breaks_iff_of_possible hpossible]
  by_cases himports : strategy = .imports
  · subst himports
    have hreport : (orderReport host .imports explain .fresh).1 = .error fault ↔ _ :=
      (falters_orderReport host explain).fst_eq_error_iff
    rw [exists_wants_filesRead, ← hreport]
    cases (orderReport host .imports explain .fresh).1 with
    | ok report => simp
    | error other => simp [status_ofFault_eq_error_iff]
  · -- The other orders have no faults but those of names without a key.
    simp only [filesRead_of_ne himports, List.not_mem_nil, false_and, exists_false, iff_false]
    rcases horder : orderReport host strategy explain .fresh with ⟨other | report, session⟩
    · have hother := (isKeyFault_of_orderReport himports horder).isReported
      rw [status_ofFault_eq_error_iff]
      rintro ⟨rfl, hfault⟩
      exact absurd (hother.symm.trans hfault) (by simp)
    · simp

theorem status_runOn_eq_error_iff (hout : command.out? = none) :
    (command.runOn tree cwd host key).status = .error fault ↔
      Breaks host (command.files key host.tabs) fault ∧ command.reports fault = false := by
  cases command with
  | graph inputs =>
    simp only [Command.files, Command.reports, and_true]
    rw [Command.runOn]
    split
    · next before cause hfile =>
      rw [breaks_iff_breakAt hfile]
      exact ⟨Except.error.inj, congrArg Except.error⟩
    · next hfile =>
      have hreport : (graphReport host .fresh).1 = .error fault ↔ _ :=
        (falters_graphReport host).fst_eq_error_iff
      rw [status_runGraph, breaks_iff_of_possible hfile, ← Host.wantsAny, ← hreport]
      cases (graphReport host .fresh).1 <;> simp [Except.map]
  | order inputs explain out =>
    obtain rfl : out = none := hout
    rw [Command.runOn]
    simp only [Command.files, Command.reports]
    cases hkey : Strategy.ofKey key with
    | error other =>
      rw [status_ofFault_eq_error_iff, breaks_iff_of_possible rfl]
      constructor
      · rintro ⟨rfl, hfault⟩
        exact absurd ((isReported_of_ofKey hkey).symm.trans hfault) (by simp)
      · rintro ⟨⟨⟨path, hpath, -⟩, -⟩, -⟩
        cases hpath
    | ok strategy =>
      dsimp only
      split
      · next before cause hfile =>
        rw [breaks_iff_breakAt hfile]
        exact status_ofFault_eq_error_iff
      · next hfile => exact status_runOrder_eq_error_iff hfile

/-- A command that looks at imports and succeeds has read all the files of its tabs. -/
theorem runOn_of_status (hout : command.out? = none)
    (hstatus : (command.runOn tree cwd host key).status = .ok 0) :
    untilImpossible? (command.files key host.tabs) = none := by
  rw [Option.eq_none_iff_forall_ne_some]
  rintro ⟨before, cause⟩ hfile
  cases command with
  | graph inputs =>
    rw [Command.runOn] at hstatus
    rw [Command.files] at hfile
    simp only [hfile] at hstatus
    cases hstatus
  | order inputs explain out =>
    rw [Command.files] at hfile
    rw [Command.runOn] at hstatus
    split at hfile
    · cases hfile
    · next hkey =>
      simp only [hkey, hfile] at hstatus
      cases eq_two_of_status_ofFault hstatus

theorem warned_runOn (hout : command.out? = none) (huses : command.usesImports key)
    (hwants : host.wantsAny host.tabs)
    (hstatus : (command.runOn tree cwd host key).status = .ok 0) {warning : Warning}
    (hwarning : warning ∈ (Alias.loadTrace host none).warnings) :
    warning.line <:+: (command.runOn tree cwd host key).errors := by
  have hline {session : Session} (hwarned : warning ∈ session.warnings) (lines : List Text) :
      warning.line <:+: unlines (lines ++ sessionWarnings session) := by
    have hinfix : warning.line <:+: unlines (sessionWarnings session) := infix_warningLines hwarned
    rw [unlines, List.flatMap_append]
    exact hinfix.trans (List.suffix_append ..).isInfix
  have hfile := runOn_of_status hout hstatus
  cases command with
  | graph inputs =>
    rw [Command.files] at hfile
    simp only [Command.runOn, hfile, runGraph] at hstatus ⊢
    rcases hreport : graphReport host .fresh with ⟨fault | report, session⟩
    · rw [hreport] at hstatus
      cases hstatus
    · exact hline (warned_graphReport hreport hwants hwarning) _
  | order inputs explain out =>
    obtain rfl : out = none := hout
    simp only [Command.usesImports] at huses
    simp only [Command.files, huses] at hfile
    simp only [Command.runOn, huses, hfile] at hstatus ⊢
    simp only [runOrder] at hstatus ⊢
    rcases hreport : orderReport host .imports explain .fresh with ⟨fault | report, session⟩
    · rw [hreport] at hstatus
      cases eq_two_of_status_ofFault hstatus
    · have hwarned := warned_orderReport hreport hwants hwarning
      exact (hline hwarned []).trans (List.suffix_append ..).isInfix

end CommandLine

end EditorTabs
