import EditorTabs.Host.Memory
import EditorTabs.Proofs.Session.Cache

/-!
# Files that import themselves

An importer is an open file like any other. So a reference to a file that is not open may stand for
the importer itself, when the two paths end alike, as they do where all packages of a workspace have
one layout. The importer then gets an edge to itself and lies on a cycle.
-/
namespace EditorTabs.Session

variable {host : Host} {session after : Session} {tabs : List Tab} {edges : ImportGraph}

theorem behindCycle_of_mem_out {references : Text → List Text} {path : Text}
    (h : path ∈ (Tab.edges references tabs).out path) :
    (Tab.edges references tabs).BehindCycle (Tab.edges references tabs).keys path :=
  ImportGraph.behindCycle_of_transGen (.single (Tab.imports_iff.mpr h))

/-- An open file has an edge to itself if it refers to itself, and also if it refers to a file that
is not open and is itself the first open path that is closest to that file. With such an edge it
lies on a cycle. -/
theorem self_import_iff (h : session.edges host tabs = (.ok edges, after)) (path : Text) :
    (path ∈ edges.out path ↔ path ∈ Tab.files tabs ∧
      ∃ found, after.references host path = (.ok found, after) ∧
        (path ∈ found ∨ ∃ reference ∈ found, reference ∉ Tab.files tabs ∧
          OpenPaths.IsFirstBest leastShared reference (Text.distinct (Tab.files tabs)) path)) ∧
    (path ∈ edges.out path → edges.BehindCycle edges.keys path) := by
  obtain ⟨rfl, hknows, -⟩ := edges_ok h
  refine ⟨?_, behindCycle_of_mem_out⟩
  rw [Tab.mem_out_edges]
  apply and_congr_right
  intro hpath
  have hfound : after.references host path = (.ok (after.known path), after) :=
    references_of_knows hknows hpath
  simp only [hfound, Prod.mk.injEq, Except.ok.injEq, and_true, exists_eq_left']
  have hmatch : ∀ reference : Text,
      (OpenPaths.ofList (Tab.files tabs)).match? reference = some path ↔
        reference ∈ Tab.files tabs ∧ path = reference ∨ reference ∉ Tab.files tabs ∧
          OpenPaths.IsFirstBest leastShared reference (Text.distinct (Tab.files tabs)) path := by
    intro reference
    rw [OpenPaths.match?, OpenPaths.matchWith?_eq_some_iff, OpenPaths.mem_paths_ofList]
    rfl
  simp only [hmatch]
  constructor
  · rintro ⟨reference, hr, ⟨-, rfl⟩ | hclosed⟩
    · exact .inl hr
    · exact .inr ⟨reference, hr, hclosed⟩
  · rintro (hself | ⟨reference, hr, hclosed⟩)
    · exact ⟨path, hself, .inl ⟨hpath, rfl⟩⟩
    · exact ⟨reference, hr, .inr hclosed⟩

/-- Two packages of one layout; the first imports the second. -/
def packages : Memory where
  files := [("/r/b/s/i", .bytes [])]
  buffers := [("/r/a/s/i", "require('../../b/s/i')")]

def importer : Text := "/r/a/s/i"

theorem edges_packages :
    fresh.edges packages.host [{ path := some importer }] =
      (.ok [(importer, [importer])],
        (fresh.edges packages.host [{ path := some importer }]).2) :=
  Prod.ext (by decide +kernel) rfl

theorem self_import_packages :
    ∃ edges after, fresh.edges packages.host [{ path := some importer }] = (.ok edges, after) ∧
      edges.BehindCycle edges.keys importer ∧
      ∃ found, after.references packages.host importer = (.ok found, after) ∧
        (importer ∈ found ∨ ∃ reference ∈ found,
          reference ∉ Tab.files [{ path := some importer }] ∧
            OpenPaths.IsFirstBest leastShared reference
              (Text.distinct (Tab.files [{ path := some importer }])) importer) := by
  obtain ⟨hself, hcycle⟩ := self_import_iff edges_packages importer
  have hmem : importer ∈ ImportGraph.out [(importer, [importer])] importer := by decide
  exact ⟨_, _, edges_packages, hcycle hmem, (hself.mp hmem).2⟩

/-- A file that refers only to another one, which is not open, has an edge to itself. -/
theorem self_import_of_closed_reference :
    ¬ ∀ (host : Host) (session after : Session) (tabs : List Tab) (edges : ImportGraph),
      session.edges host tabs = (.ok edges, after) → ∀ path found,
        after.references host path = (.ok found, after) → path ∉ found → path ∉ edges.out path := by
  intro h
  let after := (fresh.edges packages.host [{ path := some importer }]).2
  have hfound : after.references packages.host importer = (.ok ["/r/b/s/i"], after) := by
    decide +kernel
  exact h _ _ _ _ _ edges_packages _ _ hfound (by decide) (by decide)

end EditorTabs.Session
