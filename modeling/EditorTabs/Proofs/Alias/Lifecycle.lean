import EditorTabs.Host.Memory
import EditorTabs.Proofs.Alias.Loading
import EditorTabs.Proofs.Path.Normal

/-!
# The life of an alias table

A table changes in place, and the host may fail at any request, which breaks a loading off where it
stands. Whatever loads, resets and changes of the host a table goes through, it is filled or it has
nothing in it, and it is loaded once until it is reset.
-/
namespace EditorTabs

namespace Alias

variable {host : Host} {failures : Failures} {names : Option (List Text)} {table marked : Table}
  {journal : Journal}

/-- A table is filled, with a base directory and a source, or has nothing in it. -/
structure Table.IsWhole (table : Table) : Prop where
  populated_iff : table.state = .populated ↔ table.aliases ≠ []
  of_populated : table.state = .populated →
    (∃ base, table.baseDirectory = some base ∧ base ≠ []) ∧ ∃ name, table.source = some name
  of_not_populated : table.state ≠ .populated →
    table.aliases = [] ∧ table.baseDirectory = none ∧ table.source = none

namespace Table.IsWhole

theorem unloaded : IsWhole .unloaded :=
  ⟨by decide, fun h => absurd h (by decide), fun _ => ⟨rfl, rfl, rfl⟩⟩

theorem eq_of_isLoaded_eq_false (h : table.IsWhole) (hloaded : table.isLoaded = false) :
    table = .unloaded := by
  have hstate : table.state = .unloaded := by simpa [isLoaded] using hloaded
  obtain ⟨haliases, hbase, hsource⟩ := h.of_not_populated (by simp [hstate])
  cases table
  cases hstate
  cases haliases
  cases hbase
  cases hsource
  rfl

theorem blank : IsWhole .blank :=
  ⟨by decide, fun h => absurd h (by decide), fun _ => ⟨rfl, rfl, rfl⟩⟩

theorem fill {root : Text} (hroot : root ≠ []) {configuration : Configuration}
    (haliases : configuration.aliases ≠ []) (table : Table) (name : Text) :
    IsWhole (table.fill configuration root name) := by
  refine ⟨⟨fun _ => haliases, fun _ => rfl⟩, fun _ => ⟨?_, name, rfl⟩, fun h => absurd rfl h⟩
  refine ⟨_, rfl, ?_⟩
  cases configuration.baseUrl with
  | none => exact hroot
  | some base => exact Path.normalize_ne_nil _

theorem of_ends (hmarked : IsWhole marked) {loaded : Loaded} (h : Ends marked loaded) :
    IsWhole loaded.table := by
  cases h with
  | left => exact hmarked
  | filled hroot haliases name => exact fill hroot haliases _ name

theorem loadInPlace (h : table.IsWhole) (host : Host) (failures : Failures)
    (names : Option (List Text)) (journal : Journal) :
    IsWhole (loadInPlace host failures names table journal).table := by
  cases hloaded : table.isLoaded with
  | true => rwa [loadInPlace_of_isLoaded hloaded]
  | false =>
    obtain rfl := h.eq_of_isLoaded_eq_false hloaded
    exact blank.of_ends (ends_loadInPlace hloaded journal)

theorem target?_eq_none (h : table.IsWhole) (hstate : table.state ≠ .populated) (module : Text) :
    table.target? module = none := by
  rw [target?, (h.of_not_populated hstate).2.1]
  rfl

end Table.IsWhole

theorem state_of_fault (h : (loadInPlace host failures names table journal).fault ≠ none) :
    (loadInPlace host failures names table journal).table.state = .empty := by
  cases hloaded : table.isLoaded with
  | true =>
    rw [loadInPlace_of_isLoaded hloaded] at h
    exact absurd rfl h
  | false => rw [(ends_loadInPlace hloaded journal).table_eq_of_fault h]

/-- A table, the host that it is loaded from, and what was asked and warned of so far. -/
structure Keeper where
  host : Host
  failures : Failures
  table : Table
  journal : Journal

/-- What happens to a table: its host becomes another one, it is loaded, from given names or from
those of the host, it is reset, or it is asked for the target of a module. -/
inductive Step where
  | change (host : Host) (failures : Failures)
  | load (names : Option (List Text))
  | reset
  | target (module : Text)

namespace Keeper

def load (keeper : Keeper) (names : Option (List Text)) : Loaded :=
  loadInPlace keeper.host keeper.failures names keeper.table keeper.journal

/-- The keeper after a step. A fault is passed on and leaves what was done until then. -/
def next (keeper : Keeper) : Step → Keeper
  | .change host failures => { keeper with host, failures }
  | .load names =>
    { keeper with table := (keeper.load names).table, journal := (keeper.load names).journal }
  | .reset => { keeper with table := .unloaded }
  | .target _ => keeper

def after (keeper : Keeper) (steps : List Step) : Keeper :=
  steps.foldl next keeper

/-- What a table comes to that was not loaded at first. -/
inductive Reachable : Keeper → Prop
  | start (host : Host) (failures : Failures) (journal : Journal) :
      Reachable { host, failures, table := .unloaded, journal }
  | step {keeper : Keeper} (h : Reachable keeper) (step : Step) : Reachable (keeper.next step)

variable {keeper : Keeper}

theorem Reachable.isWhole (h : keeper.Reachable) : keeper.table.IsWhole := by
  induction h with
  | start => exact .unloaded
  | step _ step ih =>
    cases step with
    | change => exact ih
    | load names => exact ih.loadInPlace ..
    | reset => exact .unloaded
    | target => exact ih

/-- Until it is reset, a loaded table stays as it is, and nothing is asked or warned of. -/
theorem after_of_isLoaded (hloaded : keeper.table.isLoaded = true) {steps : List Step}
    (hsteps : .reset ∉ steps) :
    (keeper.after steps).table = keeper.table ∧ (keeper.after steps).journal = keeper.journal := by
  induction steps generalizing keeper with
  | nil => exact ⟨rfl, rfl⟩
  | cons step rest ih =>
    obtain ⟨hstep, hrest⟩ := not_or.mp (mt List.mem_cons.mpr hsteps)
    have hnext : (keeper.next step).table = keeper.table ∧
        (keeper.next step).journal = keeper.journal := by
      cases step with
      | change => exact ⟨rfl, rfl⟩
      | load names => simp only [next, load, loadInPlace_of_isLoaded hloaded, and_self]
      | reset => exact absurd rfl hstep
      | target => exact ⟨rfl, rfl⟩
    have hloaded' : (keeper.next step).table.isLoaded = true := hnext.1 ▸ hloaded
    obtain ⟨htable, hjournal⟩ := ih hloaded' hrest
    exact ⟨htable.trans hnext.1, hjournal.trans hnext.2⟩

theorem journal_next (keeper : Keeper) (step : Step) :
    (keeper.next step).journal = keeper.journal ∨
      ∃ names, step = .load names ∧ keeper.table.state = .unloaded := by
  cases step with
  | load names =>
    cases hloaded : keeper.table.isLoaded with
    | true => exact .inl (by simp only [next, load, loadInPlace_of_isLoaded hloaded])
    | false => exact .inr ⟨names, rfl, by simpa [Table.isLoaded] using hloaded⟩
  | _ => exact .inl rfl

/-- What a loading, ended by a fault or not, means for all that follows until a reset. -/
structure LoadedOnce (loaded : Loaded) (last : Keeper) : Prop where
  table_eq : last.table = loaded.table
  journal_eq : last.journal = loaded.journal
  load_eq : ∀ names, last.load names = { table := last.table, journal := last.journal }
  of_fault : loaded.fault ≠ none →
    last.table.state = .empty ∧ ∀ module, last.table.target? module = none

/-- In every state that a table comes to it is whole, only loading a table that is not loaded asks
or warns of anything, and that is `load` if the host answers. Once a loading has ended in whatever
way, the table is not loaded again until it is reset. -/
theorem Reachable.loaded_once (h : keeper.Reachable) :
    keeper.table.IsWhole ∧
    (∀ step, (keeper.next step).journal = keeper.journal ∨
      ∃ names, step = .load names ∧ keeper.table.state = .unloaded) ∧
    (∀ names, (∀ requests, keeper.failures requests = none) →
      keeper.load names = Alias.load keeper.host names keeper.table keeper.journal) ∧
    ∀ names steps, .reset ∉ steps →
      LoadedOnce (keeper.load names) ((keeper.next (.load names)).after steps) := by
  refine ⟨h.isWhole, journal_next keeper, fun names hanswers => ?_, fun names steps hsteps => ?_⟩
  · rw [load, funext hanswers]
    rfl
  have hloaded : (keeper.next (.load names)).table.isLoaded = true := isLoaded_loadInPlace ..
  obtain ⟨htable, hjournal⟩ := after_of_isLoaded hloaded hsteps
  refine ⟨htable, hjournal, fun names' => ?_, fun hfault => ?_⟩
  · exact loadInPlace_of_isLoaded (htable ▸ hloaded) _
  · have hstate : (keeper.load names).table.state = .empty := state_of_fault hfault
    rw [htable]
    exact ⟨hstate, (h.step (.load names)).isWhole.target?_eq_none (by simp [next, hstate])⟩

def configured : Memory where
  root := some "/w"
  candidates := ["c"]
  files := [("/w/c", .bytes (Text.Utf8.encode
    "\x7b\"compilerOptions\":\x7b\"paths\":\x7b\"@\":\"s\"\x7d\x7d\x7d"))]

/-- No table is loaded yet, and the host fails to say whether the configuration is there. -/
def unanswered : Keeper where
  host := configured.host
  failures requests :=
    if requests.contains (.isFile "/w/c") then some (.unreadable (.file ⟨5, "/w/c"⟩)) else none
  table := .unloaded
  journal := {}

/-- A loading that ends in a fault leaves the table empty also when the host answers again. After a
reset it is filled. -/
theorem loaded_once_unanswered :
    let recovered := [Step.change configured.host fun _ => none]
    unanswered.Reachable ∧ (unanswered.load none).fault ≠ none ∧ .reset ∉ recovered ∧
      LoadedOnce (unanswered.load none) ((unanswered.next (.load none)).after recovered) ∧
      ((unanswered.next (.load none)).after (recovered ++ [.reset, .load none])).table.aliases =
        ([("@", "s")] : Assoc Text Text) := by
  have hreachable : unanswered.Reachable := .start ..
  exact ⟨hreachable, by decide +kernel, by simp,
    hreachable.loaded_once.2.2.2 none _ (by simp), by decide +kernel⟩

end Keeper

end Alias

end EditorTabs
