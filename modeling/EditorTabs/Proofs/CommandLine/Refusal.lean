import EditorTabs.Proofs.CommandLine.Status

/-!
# Runs that are refused

A run with status two has a message and nothing else to show. Whatever is reported so comes up
before the first line of a report is written, in whichever group of tabs it does, and a fault in
writing an artifact is not reported. So such a run has written nothing and leaves every file and
directory as it was.
-/
namespace EditorTabs.CommandLine

/-- The ways of a run to status two, with the message of each. -/
inductive Refuses (tree : Files.Tree) (cwd : Text) (nesting : Nesting) (words : List Text) :
    Text → Prop
  | misuse {grammar : Grammar} {cause : Misuse}
      (h : Invocation.read words = .error (.misuse grammar cause)) :
      Refuses tree cwd nesting words cause.message
  | tabs {invocation : Invocation} {command : Command} {root : Text} {found : Settings.Found}
      {fault : Fault} (hread : Invocation.read words = .ok invocation)
      (hcommand : invocation.command = some command)
      (hroot : invocation.rootPath? cwd = some root)
      (hfind : Settings.find tree cwd root nesting.settings = .ok found)
      (h : collectTabs tree cwd root command.inputs nesting.tabList = .error fault)
      (hfault : fault.isReported = true) : Refuses tree cwd nesting words fault.message
  | strategy {invocation : Invocation} {inputs : Inputs} {explain : Bool} {out : Option Text}
      {root : Text} {found : Settings.Found} {tabs : List Tab} {fault : Fault}
      (hread : Invocation.read words = .ok invocation)
      (hcommand : invocation.command = some (.order inputs explain out))
      (hprepared :
        Prepared tree cwd nesting invocation (.order inputs explain out) root found tabs)
      (h : Strategy.ofKey (found.settings.strategyKey invocation.strategy) = .error fault) :
      Refuses tree cwd nesting words fault.message
  /-- A group cannot be put in order, or its depths cannot be found. -/
  | order {invocation : Invocation} {inputs : Inputs} {explain : Bool} {out : Option Text}
      {root : Text} {found : Settings.Found} {tabs : List Tab} {strategy : Strategy}
      {fault : Fault} (hread : Invocation.read words = .ok invocation)
      (hcommand : invocation.command = some (.order inputs explain out))
      (hprepared :
        Prepared tree cwd nesting invocation (.order inputs explain out) root found tabs)
      (hstrategy :
        Strategy.ofKey (found.settings.strategyKey invocation.strategy) = .ok strategy)
      (hpossible : untilImpossible? (filesRead strategy tabs) = none)
      (h : (orderReport (invocation.hostOn tree cwd root found.settings tabs nesting.aliases)
        strategy explain .fresh).1 = .error fault)
      (hfault : fault.isReported = true) : Refuses tree cwd nesting words fault.message
  /-- No file can have the path of a tab, and what ends the ordering there or before is told. -/
  | path {invocation : Invocation} {inputs : Inputs} {explain : Bool} {out : Option Text}
      {root : Text} {found : Settings.Found} {tabs : List Tab} {strategy : Strategy}
      {before : List Text} {cause : Files.PathFault} {fault : Fault}
      (hread : Invocation.read words = .ok invocation)
      (hcommand : invocation.command = some (.order inputs explain out))
      (hprepared :
        Prepared tree cwd nesting invocation (.order inputs explain out) root found tabs)
      (hstrategy :
        Strategy.ofKey (found.settings.strategyKey invocation.strategy) = .ok strategy)
      (hfile : untilImpossible? (filesRead strategy tabs) = some (before, cause))
      (h : (breakAt (invocation.hostOn tree cwd root found.settings tabs nesting.aliases) before
        cause).1 = fault)
      (hfault : fault.isReported = true) : Refuses tree cwd nesting words fault.message

/-- A run that ends with status two and a message, and nothing else. -/
structure Run.Refused (run : Run) (tree : Files.Tree) (message : Text) : Prop where
  status_eq : run.status = .ok 2
  output_eq : run.output = []
  tree_eq : run.tree = tree
  told : ("error: " ++ message ++ "\n" : Text) <:+ run.errors

variable {tree : Files.Tree} {cwd root message : Text} {nesting : Nesting} {words : List Text}
  {host : Host} {strategy : Strategy} {fault : Fault} {json explain : Bool} {out : Option Text}

theorem Run.Refused.afterErrors {run : Run} (h : run.Refused tree message) (lines : List Text) :
    (run.afterErrors lines).Refused tree message :=
  ⟨h.status_eq, h.output_eq, h.tree_eq, h.told.trans (List.suffix_append ..)⟩

theorem Run.Refused.of_requests {run : Run} (h : run.Refused tree message)
    (requests : List Request) : Run.Refused { run with requests } tree message :=
  ⟨h.status_eq, h.output_eq, h.tree_eq, h.told⟩

theorem refused_ofFault (h : fault.isReported = true) :
    (Run.ofFault tree fault).Refused tree fault.message := by
  rw [Run.ofFault, if_pos h]
  refine ⟨rfl, rfl, rfl, ?_⟩
  simp [unlines]

theorem refused_misuse (grammar : Grammar) (cause : Misuse) :
    ((Stop.misuse grammar cause).run tree).Refused tree cause.message := by
  refine ⟨rfl, rfl, rfl, ?_⟩
  have hline : (grammar.program ++ ": error: " ++ cause.message : Text) =
      grammar.program ++ ": " ++ ("error: " ++ cause.message) := by
    simp only [List.append_assoc]
    rfl
  refine ⟨unlines grammar.usage ++ (grammar.program ++ ": "), ?_⟩
  simp only [Stop.run, hline, unlines, List.flatMap_append, List.flatMap_singleton,
    List.append_assoc]

/-- Only a fault that is not reported keeps an artifact from being written. -/
theorem isReported_of_write {name : Text} {value : Json} {after : Files.Tree}
    (h : Artifact.write tree cwd name value = (.error fault, after)) :
    fault.isReported = false := by
  rw [Artifact.write] at h
  split at h
  · cases h
    rfl
  · simp only at h
    split at h <;> cases h
    rfl

theorem isReported_of_writeReport {value : Json} {after : Files.Tree}
    (h : writeReport tree cwd out value = (.error fault, after)) : fault.isReported = false := by
  unfold writeReport at h
  split at h
  · cases h
  · split at h
    · next hwrite =>
      cases h
      exact isReported_of_write hwrite
    · cases h

theorem isReported_of_status_ofFault {code : Nat}
    (h : (Run.ofFault tree fault).status = .ok code) : fault.isReported = true := by
  cases hfault : fault.isReported with
  | true => rfl
  | false => simp [Run.ofFault, hfault] at h

/-- Once a report is there, nothing that comes after it is reported. -/
theorem exists_fault_of_status_runOrder
    (h : (runOrder tree cwd host strategy json explain out).status = .ok 2) :
    ∃ fault, (orderReport host strategy explain .fresh).1 = .error fault ∧
      fault.isReported = true := by
  simp only [runOrder] at h
  split at h
  · next hreport => exact ⟨_, congrArg Prod.fst hreport, isReported_of_status_ofFault h⟩
  · simp only [Run.afterErrors] at h
    split at h
    · next hwrite =>
      have hfault := isReported_of_writeReport hwrite
      exact absurd (hfault.symm.trans (isReported_of_status_ofFault h)) (by simp)
    · cases h

theorem refused_brokenOrder {tabs : List Tab} {session : Session}
    (hfault : fault.isReported = true) :
    (brokenOrder tree tabs strategy fault session).Refused tree fault.message :=
  ((refused_ofFault hfault).of_requests _).afterErrors _

theorem refused_runOrder (h : (orderReport host strategy explain .fresh).1 = .error fault)
    (hfault : fault.isReported = true) :
    (runOrder tree cwd host strategy json explain out).Refused tree fault.message := by
  simp only [runOrder]
  split
  · next hreport =>
    cases (congrArg Prod.fst hreport).symm.trans h
    exact refused_brokenOrder hfault
  · next hreport => cases (congrArg Prod.fst hreport).symm.trans h

theorem refused_of_refuses (h : Refuses tree cwd nesting words message) :
    (run tree cwd words nesting).Refused tree message := by
  cases h with
  | misuse h =>
    simp only [run, h]
    exact refused_misuse _ _
  | tabs hread hcommand hroot hfind h hfault =>
    rw [run_of_collectTabs hread hcommand hroot hfind h]
    exact refused_ofFault hfault
  | strategy hread hcommand hprepared h =>
    rw [run_of_prepared hread hcommand hprepared]
    simp only [Command.runOn, h]
    exact (refused_ofFault (isReported_of_ofKey h)).afterErrors _
  | order hread hcommand hprepared hstrategy hpossible h hfault =>
    rw [run_of_prepared hread hcommand hprepared]
    simp only [Command.runOn, hstrategy]
    split
    · next hfile => exact absurd (hpossible.symm.trans hfile) (by simp)
    · exact (refused_runOrder h hfault).afterErrors _
  | path hread hcommand hprepared hstrategy hfile h hfault =>
    rw [run_of_prepared hread hcommand hprepared]
    simp only [Command.runOn, hstrategy]
    split
    · next hfile' =>
      cases hfile.symm.trans hfile'
      subst h
      exact (refused_brokenOrder hfault).afterErrors _
    · next hpossible => exact absurd (hpossible.symm.trans hfile) (by simp)

theorem status_runOn_graph_ne_two {key : Text} {inputs : Inputs} :
    ((Command.graph inputs).runOn tree cwd host key).status ≠ .ok 2 := by
  rw [Command.runOn]
  split
  · simp [brokenGraph]
  · rw [status_runGraph]
    cases (graphReport host .fresh).1 <;> simp [Except.map]

section

variable {invocation : Invocation} {command : Command} {found : Settings.Found}
  (hread : Invocation.read words = .ok invocation) (hcommand : invocation.command = some command)

include hread hcommand

theorem exists_refuses_of_runIn (hroot : invocation.rootPath? cwd = some root)
    (hfind : Settings.find tree cwd root nesting.settings = .ok found)
    (h : (runIn tree cwd root nesting found invocation command).status = .ok 2) :
    ∃ message, Refuses tree cwd nesting words message := by
  simp only [runIn] at h
  split at h
  · next htabs =>
    exact ⟨_, .tabs hread hcommand hroot hfind htabs (isReported_of_status_ofFault h)⟩
  · next tabs htabs =>
    have hprepared : Prepared tree cwd nesting invocation command root found tabs :=
      ⟨hroot, hfind, htabs⟩
    cases command with
    | graph inputs => exact absurd h status_runOn_graph_ne_two
    | order inputs explain out =>
      simp only [Run.afterErrors, Command.runOn] at h
      split at h
      · next hkey => exact ⟨_, .strategy hread hcommand hprepared hkey⟩
      · next hkey =>
        split at h
        · next hfile =>
          exact ⟨_, .path hread hcommand hprepared hkey hfile rfl (isReported_of_status_ofFault h)⟩
        · next hpossible =>
          obtain ⟨fault, hreport, hfault⟩ := exists_fault_of_status_runOrder h
          exact ⟨_, .order hread hcommand hprepared hkey hpossible hreport hfault⟩

end

theorem exists_refuses (h : (run tree cwd words nesting).status = .ok 2) :
    ∃ message, Refuses tree cwd nesting words message := by
  rw [run] at h
  cases hread : Invocation.read words with
  | error stop =>
    cases stop with
    | help grammar => simp [hread, Stop.run] at h
    | misuse grammar cause => exact ⟨_, .misuse hread⟩
  | ok invocation =>
    simp only [hread, Invocation.run] at h
    split at h
    · cases h
    · next hcommand =>
      split at h
      · cases h
      · next hroot =>
        split at h
        · cases h
        · next hfind => exact exists_refuses_of_runIn hread hcommand hroot hfind h

/-- A run with status two was refused for a reason that it tells: it has shown nothing, and it
leaves all files and directories as they were. -/
theorem leaves_nothing_behind (h : (run tree cwd words nesting).status = .ok 2) :
    (run tree cwd words nesting).output = [] ∧ (run tree cwd words nesting).tree = tree ∧
      ∃ message, Refuses tree cwd nesting words message ∧
        ("error: " ++ message ++ "\n" : Text) <:+ (run tree cwd words nesting).errors := by
  obtain ⟨message, hrefuses⟩ := exists_refuses h
  have hrefused := refused_of_refuses hrefuses
  exact ⟨hrefused.output_eq, hrefused.tree_eq, message, hrefuses, hrefused.told⟩

/-- A workspace with a list of tabs in two groups, of which the second holds a name without a
key. -/
def keylessInSecondGroup : Files.Tree :=
  let tabs : Text := "[\x7b\"path\": \"a\", \"group\": 1\x7d, "
    ++ "\x7b\"path\": \"b\", \"group\": 2\x7d, \x7b\"path\": \"1²\", \"group\": 2\x7d]"
  ⟨[(["tabs.json"], .file (Text.Utf8.encode tabs))]⟩

def orderToFile : List Text :=
  ["--strategy", "alphabetical", "order", "--out", "o.json", "--tabs", "tabs.json"]

theorem leaves_nothing_behind_keyless :
    (run keylessInSecondGroup "/" orderToFile).status = .ok 2 ∧
      (run keylessInSecondGroup "/" orderToFile).output = [] ∧
      (run keylessInSecondGroup "/" orderToFile).tree = keylessInSecondGroup ∧
      ∃ message, Refuses keylessInSecondGroup "/" {} orderToFile message ∧
        ("error: " ++ message ++ "\n" : Text) <:+
          (run keylessInSecondGroup "/" orderToFile).errors := by
  have hstatus : (run keylessInSecondGroup "/" orderToFile).status = .ok 2 := by decide +kernel
  exact ⟨hstatus, leaves_nothing_behind hstatus⟩

end EditorTabs.CommandLine
