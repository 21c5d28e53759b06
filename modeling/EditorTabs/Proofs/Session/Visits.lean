import EditorTabs.Host.Memory
import EditorTabs.Proofs.Alias.FirstUsable
import EditorTabs.Proofs.Session.Advance

/-!
# The order of visits

The references of a text are a set, and they are resolved one after the other. The first of them
that wants the alias table has it loaded, which may leave warnings, fill the table or end in a
fault. What comes of all of them is what the loading comes to, if one of them wants it, and then the
files that they lead to. So it does not depend on the order in which they are visited.
-/
namespace EditorTabs.Session

/-- Sessions that remember the same, with the same warnings, after reading the same files in the
same order. They may have probed for different files. -/
structure Resembles (a b : Session) : Prop where
  cache_eq : a.cache = b.cache
  table_eq : a.table = b.table
  graph_eq : a.graph = b.graph
  warnings_eq : a.journal.warnings = b.journal.warnings
  reads_eq : a.journal.reads = b.journal.reads

/-- The same answer or the same fault, and sessions that resemble each other. -/
def SameOutcome {α : Type} (a b : Outcome α) : Prop :=
  a.1 = b.1 ∧ a.2.Resembles b.2

/-- The alias table as far as one of some references wants it. -/
def tableForAny (host : Host) (modules : List Text) (session : Session) : Outcome Alias.Table :=
  if modules.any Resolution.needsAliases then session.loadAliases host
  else (.ok session.table, session)

def filesBy (host : Host) (importer : Text) (modules : List Text) (table : Alias.Table) :
    List Text :=
  modules.filterMap fun module =>
    Resolution.resolve host.isFile (some table) module importer

/-- The references of a file that is not in the cache, with those of its text visited in some
order. -/
def visit (host : Host) (path : Text) (order : List Text) (session : Session) :
    Outcome (List Text) :=
  resolveInto host path order (session.readText host path).2

variable {host : Host} {a b c session after : Session} {importer module path : Text}
  {first second : List Text} {α : Type}

theorem Resembles.refl (session : Session) : session.Resembles session :=
  ⟨rfl, rfl, rfl, rfl, rfl⟩

theorem Resembles.symm (h : a.Resembles b) : b.Resembles a :=
  ⟨h.cache_eq.symm, h.table_eq.symm, h.graph_eq.symm, h.warnings_eq.symm, h.reads_eq.symm⟩

theorem Resembles.trans (h : a.Resembles b) (h' : b.Resembles c) : a.Resembles c :=
  ⟨h.cache_eq.trans h'.cache_eq, h.table_eq.trans h'.table_eq, h.graph_eq.trans h'.graph_eq,
    h.warnings_eq.trans h'.warnings_eq, h.reads_eq.trans h'.reads_eq⟩

theorem resembles_probes (session : Session) (probes : List Text) :
    Resembles { session with journal := session.journal.askAll (probes.map .isFile) } session :=
  ⟨rfl, rfl, rfl, rfl, by simp [Journal.askAll, Journal.reads, List.filterMap_map]⟩

theorem loadAliases_of_isLoaded (h : session.table.isLoaded = true) (host : Host) :
    session.loadAliases host = (.ok session.table, session) := by
  rw [loadAliases, Alias.load_of_isLoaded h]

/-- What a loading finds and adds to the journal depends on the host, and on whether the table was
loaded before. -/
theorem loadAliases_of_resembles (h : a.Resembles b) :
    SameOutcome (a.loadAliases host) (b.loadAliases host) := by
  cases hloaded : b.table.isLoaded with
  | true =>
    rw [loadAliases_of_isLoaded (h.table_eq ▸ hloaded), loadAliases_of_isLoaded hloaded, h.table_eq]
    exact ⟨rfl, h⟩
  | false =>
    have hunloaded : a.table.isLoaded = false := h.table_eq ▸ hloaded
    obtain ⟨hfault, htable⟩ : (Alias.load host none a.table a.journal).fault =
        (Alias.load host none b.table b.journal).fault ∧
          (Alias.load host none a.table a.journal).table =
            (Alias.load host none b.table b.journal).table := by
      rw [h.table_eq]
      exact Alias.load_journal ..
    refine ⟨?_, ?_⟩
    · rw [loadAliases, loadAliases, hfault, htable]
      cases (Alias.load host none b.table b.journal).fault <;> rfl
    · rw [loadAliases_snd, loadAliases_snd, Alias.journal_load hunloaded,
        Alias.journal_load hloaded]
      refine ⟨h.cache_eq, htable, h.graph_eq, ?_, ?_⟩
      · simp only [Journal.followedBy, h.warnings_eq]
      · simp only [Journal.reads_followedBy, h.reads_eq]

theorem tableForAny_of_resembles (h : a.Resembles b) (host : Host) (modules : List Text) :
    SameOutcome (a.tableForAny host modules) (b.tableForAny host modules) := by
  rw [tableForAny, tableForAny]
  split
  · exact loadAliases_of_resembles h
  · exact ⟨congrArg Except.ok h.table_eq, h⟩

theorem tableForAny_of_isLoaded (h : session.table.isLoaded = true) (modules : List Text) :
    session.tableForAny host modules = (.ok session.table, session) := by
  rw [tableForAny, loadAliases_of_isLoaded h]
  exact ite_self _

theorem tableForAny_perm (h : first.Perm second) :
    session.tableForAny host first = session.tableForAny host second := by
  have hany : first.any Resolution.needsAliases = second.any Resolution.needsAliases := by
    rw [Bool.eq_iff_iff, List.any_eq_true, List.any_eq_true]
    simp only [h.mem_iff]
  rw [tableForAny, tableForAny, hany]

theorem loadAliases_ok {table : Alias.Table} (h : session.loadAliases host = (.ok table, after)) :
    after.table = table ∧ after.table.isLoaded = true := by
  have hsnd := loadAliases_snd host session
  rw [h] at hsnd
  rw [loadAliases] at h
  split at h
  · cases h
  · cases h
    exact ⟨rfl, Alias.isLoaded_load ..⟩

theorem filesBy_cons (host : Host) (importer module : Text) (rest : List Text)
    (table : Alias.Table) :
    filesBy host importer (module :: rest) table =
      (Resolution.resolve host.isFile (some table) module importer).toList ++
        filesBy host importer rest table := by
  rw [filesBy, List.filterMap_cons]
  cases Resolution.resolve host.isFile (some table) module importer <;> rfl

theorem SameOutcome.trans {first second third : Outcome α} (h : SameOutcome first second)
    (h' : SameOutcome second third) : SameOutcome first third :=
  ⟨h.1.trans h'.1, h.2.trans h'.2⟩

/-- A reference that is resolved by the table that the others are resolved by. -/
theorem sameOutcome_resolveAll_cons {file : Option Text} {next : Session} {rest : List Text}
    {tabled : Outcome Alias.Table}
    (h : session.resolve host importer module = (.ok file, next))
    (hfile : ∀ table, tabled.1 = .ok table →
      file = Resolution.resolve host.isFile (some table) module importer)
    (hrest : SameOutcome (next.resolveAll host importer rest)
      (tabled.1.map (filesBy host importer rest), tabled.2)) :
    SameOutcome (session.resolveAll host importer (module :: rest))
      (tabled.1.map (filesBy host importer (module :: rest)), tabled.2) := by
  obtain ⟨hanswer, hsession⟩ := hrest
  rcases hnext : next.resolveAll host importer rest with ⟨answer, last⟩
  rw [hnext] at hanswer hsession
  rcases htabled : tabled.1 with fault | table
  · rw [htabled] at hanswer
    cases hanswer
    simp only [resolveAll, h, hnext]
    exact ⟨rfl, hsession⟩
  · rw [htabled] at hanswer
    cases hanswer
    simp only [resolveAll, h, hnext]
    refine ⟨?_, hsession⟩
    rw [hfile table htabled, ← filesBy_cons]
    rfl

/-- What comes of references that are resolved one after the other is what comes of the loading of
the table, if one of them wants it, and then the files that they lead to by that table. -/
theorem sameOutcome_resolveAll (host : Host) (importer : Text) (modules : List Text)
    (session : Session) :
    SameOutcome (session.resolveAll host importer modules)
      ((session.tableForAny host modules).1.map (filesBy host importer modules),
        (session.tableForAny host modules).2) := by
  induction modules generalizing session with
  | nil => exact ⟨rfl, .refl session⟩
  | cons module rest ih =>
    cases hneeds : Resolution.needsAliases module with
    | false =>
      -- The reference is only probed for, and leads to the same file by every table.
      have htable : session.tableFor host module = (.ok session.table, session) := by
        rw [tableFor, if_neg (by simp [hneeds])]
      have hany : session.tableForAny host (module :: rest) = session.tableForAny host rest := by
        simp [tableForAny, hneeds]
      have hprobes := tableForAny_of_resembles (resembles_probes session
        (Resolution.probed host.isFile (some session.table) module importer)) host rest
      rw [hany]
      refine sameOutcome_resolveAll_cons (resolve_of_tableFor htable importer)
        (fun table _ => Resolution.resolve_of_not_needsAliases hneeds _ _) ((ih _).trans ?_)
      exact ⟨congrArg (Except.map (filesBy host importer rest)) hprobes.1, hprobes.2⟩
    | true =>
      have htable : session.tableFor host module = session.loadAliases host := by
        rw [tableFor, if_pos hneeds]
      have hany : session.tableForAny host (module :: rest) = session.loadAliases host := by
        simp [tableForAny, hneeds]
      rw [hany]
      rcases hload : session.loadAliases host with ⟨fault | table, after⟩
      · have hfault :
            session.resolveAll host importer (module :: rest) = (.error fault, after) := by
          simp only [resolveAll, resolve, htable, hload]
        rw [hfault]
        exact ⟨rfl, .refl after⟩
      · -- The table is loaded now, so that the others find it.
        obtain ⟨rfl, hloaded⟩ := loadAliases_ok hload
        refine sameOutcome_resolveAll_cons
          (resolve_of_tableFor (htable.trans hload) importer) (by rintro table ⟨⟩; rfl) ?_
        refine (ih _).trans ?_
        rw [tableForAny_of_isLoaded (by exact hloaded)]
        exact ⟨rfl, resembles_probes ..⟩

theorem Resembles.put (h : a.Resembles b) (path : Text) (found : List Text) :
    Resembles { a with cache := a.cache.put path found }
      { b with cache := b.cache.put path found } :=
  { h with cache_eq := congrArg (Assoc.put path found) h.cache_eq }

theorem sameOutcome_resolveInto (h : first.Perm second) (host : Host) (path : Text)
    (session : Session) :
    SameOutcome (resolveInto host path first session) (resolveInto host path second session) := by
  obtain ⟨hfirst, hafter⟩ := sameOutcome_resolveAll host path first session
  obtain ⟨hsecond, hafter'⟩ := sameOutcome_resolveAll host path second session
  rw [← tableForAny_perm h] at hsecond hafter'
  have hsessions := hafter.trans hafter'.symm
  rw [resolveInto, resolveInto]
  generalize session.resolveAll host path first = outcome at hfirst hsessions ⊢
  generalize session.resolveAll host path second = outcome' at hsecond hsessions ⊢
  generalize (session.tableForAny host first).1 = table at hfirst hsecond
  obtain ⟨answer, after⟩ := outcome
  obtain ⟨answer', after'⟩ := outcome'
  cases table with
  | error fault =>
    cases hfirst
    cases hsecond
    exact ⟨rfl, hsessions⟩
  | ok table =>
    cases hfirst
    cases hsecond
    have hset : Text.sortedSet (filesBy host path first table) =
        Text.sortedSet (filesBy host path second table) :=
      Text.sortedSet_congr fun file => (h.filterMap _).mem_iff
    dsimp only
    rw [hset]
    exact ⟨rfl, hsessions.put path _⟩

theorem references_eq_visit (h : session.cache.get? path = none) :
    session.references host path = session.visit host path (modules (host.text? path)) := by
  simp only [references, h, visit, readText_fst]

/-- The references of a file that is not in the cache come out the same in whatever order those of
its text are visited: the set of files or the fault, what the session remembers, its warnings and
the files that were read. -/
theorem visit_any_order (h : session.cache.get? path = none)
    (hfirst : first.Perm (modules (host.text? path)))
    (hsecond : second.Perm (modules (host.text? path))) :
    SameOutcome (session.visit host path first) (session.visit host path second) ∧
      SameOutcome (session.references host path) (session.visit host path first) := by
  rw [references_eq_visit h]
  exact ⟨sameOutcome_resolveInto (hfirst.trans hsecond.symm) ..,
    sameOutcome_resolveInto hfirst.symm ..⟩

/-- A workspace with a malformed configuration before the one that fills the alias table, and a file
with references of all sorts: to a package, and to one other file by place and through an alias. -/
def mixed : Memory where
  root := some "/w"
  candidates := ["cut", "full"]
  files := [("/w/cut", .bytes (Text.Utf8.encode "\x7b")),
    ("/w/full", .bytes (Text.Utf8.encode
      "\x7b\"compilerOptions\":\x7b\"paths\":\x7b\"@/*\":\"s/*\"\x7d\x7d\x7d")),
    ("/w/a", .bytes (Text.Utf8.encode "require('p')require('@/b')require('./s/b')")),
    ("/w/s/b", .bytes [])]

theorem visit_any_order_mixed :
    let visited := fresh.visit mixed.host "/w/a" ["p", "./s/b", "@/b"]
    (visited.1 = .ok ["/w/s/b"] ∧ visited.2.journal.warnings.length = 1 ∧
        visited.2.journal.reads = ["/w/a", "/w/cut", "/w/full"]) ∧
      SameOutcome visited (fresh.visit mixed.host "/w/a" ["./s/b", "@/b", "p"]) ∧
      SameOutcome (fresh.references mixed.host "/w/a") visited := by
  intro visited
  have hlist : (mixed.host.text? "/w/a").map Reference.list =
      some (["p", "@/b", "./s/b"] : List Text) := by
    decide +kernel
  obtain ⟨text, htext, hreferences⟩ := Option.map_eq_some_iff.mp hlist
  have hmodules (order : List Text) (horder : order.Perm ["p", "@/b", "./s/b"]) :
      order.Perm (modules (mixed.host.text? "/w/a")) := by
    rw [htext, modules, Reference.set, hreferences, Text.sortedSet]
    exact horder.trans ((List.mergeSort_perm _ _).trans (by decide)).symm
  exact ⟨by decide +kernel,
    visit_any_order rfl (hmodules _ (by decide)) (hmodules _ (by decide))⟩

end EditorTabs.Session
