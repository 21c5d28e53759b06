import EditorTabs.ImportGraph.Depth
import Mathlib.Data.Fintype.Card
import Mathlib.Data.Set.Finite.Basic
import Mathlib.Logic.Relation
import Mathlib.Order.Bounds.Basic

/-!
# Chains and cycles of imports

The graph that depths are about has the files of a list and the imports among them. A chain of
imports ends at a file. Behind a cycle there are chains of any length, and away from the cycles
every file can be reached by going from importers to the files they import.
-/
namespace EditorTabs.ImportGraph

open Relation

variable {edges : ImportGraph} {paths : List Text}

/-- One file imports another, and both are files of the list. -/
def Imports (edges : ImportGraph) (paths : List Text) (a b : Text) : Prop :=
  a ∈ paths ∧ b ∈ paths ∧ b ∈ edges.out a

instance (a b : Text) : Decidable (edges.Imports paths a b) :=
  inferInstanceAs (Decidable (_ ∧ _ ∧ _))

/-- A file on a cycle of imports, or reached from one. -/
def BehindCycle (edges : ImportGraph) (paths : List Text) (path : Text) : Prop :=
  ∃ c, TransGen (edges.Imports paths) c c ∧ ReflTransGen (edges.Imports paths) c path

/-- A chain of imports that ends at a file, by its length. -/
inductive Chain (edges : ImportGraph) (paths : List Text) : Nat → Text → Prop
  | single {a : Text} (ha : a ∈ paths) : Chain edges paths 0 a
  | snoc {n : Nat} {a b : Text} (chain : Chain edges paths n a) (hab : edges.Imports paths a b) :
      Chain edges paths (n + 1) b

/-- The length of the longest chain that ends at a file. -/
def LongestChain (edges : ImportGraph) (paths : List Text) (path : Text) (n : Nat) : Prop :=
  IsGreatest {k | Chain edges paths k path} n

theorem Chain.mem {n : Nat} {path : Text} (h : Chain edges paths n path) : path ∈ paths := by
  cases h with
  | single ha => exact ha
  | snoc _ hab => exact hab.2.1

theorem chain_succ_iff {n : Nat} {b : Text} :
    Chain edges paths (n + 1) b ↔ ∃ a, edges.Imports paths a b ∧ Chain edges paths n a := by
  constructor
  · rintro (_ | ⟨chain, hab⟩)
    exact ⟨_, hab, chain⟩
  · rintro ⟨a, hab, chain⟩
    exact .snoc chain hab

theorem Chain.along {n : Nat} {a b : Text} (chain : Chain edges paths n a)
    (h : ReflTransGen (edges.Imports paths) a b) : ∃ m, n ≤ m ∧ Chain edges paths m b := by
  induction h with
  | refl => exact ⟨n, Nat.le_refl n, chain⟩
  | tail _ hbc ih =>
    obtain ⟨m, hm, hchain⟩ := ih
    exact ⟨m + 1, Nat.le_succ_of_le hm, hchain.snoc hbc⟩

theorem Chain.around {n : Nat} {a b : Text} (chain : Chain edges paths n a)
    (h : TransGen (edges.Imports paths) a b) : ∃ m, n < m ∧ Chain edges paths m b := by
  obtain ⟨c, hac, hcb⟩ := TransGen.head'_iff.mp h
  obtain ⟨m, hm, hchain⟩ := (chain.snoc hac).along hcb
  exact ⟨m, hm, hchain⟩

theorem mem_of_transGen {a b : Text} (h : TransGen (edges.Imports paths) a b) : a ∈ paths := by
  obtain ⟨c, hac, _⟩ := TransGen.head'_iff.mp h
  exact hac.1

theorem BehindCycle.of_imports {a b : Text} (h : edges.BehindCycle paths a)
    (hab : edges.Imports paths a b) : edges.BehindCycle paths b := by
  obtain ⟨c, hc, hca⟩ := h
  exact ⟨c, hc, hca.tail hab⟩

theorem behindCycle_of_transGen {c : Text} (h : TransGen (edges.Imports paths) c c) :
    edges.BehindCycle paths c :=
  ⟨c, h, .refl⟩

/-- Going round the cycle before leaving it makes a chain as long as one likes. -/
theorem BehindCycle.exists_chain {path : Text} (h : edges.BehindCycle paths path) (n : Nat) :
    ∃ m, n ≤ m ∧ Chain edges paths m path := by
  obtain ⟨c, hc, hpath⟩ := h
  have round : ∃ m, n ≤ m ∧ Chain edges paths m c := by
    induction n with
    | zero => exact ⟨0, Nat.le_refl 0, .single (mem_of_transGen hc)⟩
    | succ n ih =>
      obtain ⟨m, hm, hchain⟩ := ih
      obtain ⟨k, hk, hround⟩ := hchain.around hc
      exact ⟨k, by omega, hround⟩
  obtain ⟨m, hm, hchain⟩ := round
  obtain ⟨k, hk, hend⟩ := hchain.along hpath
  exact ⟨k, Nat.le_trans hm hk, hend⟩

theorem LongestChain.not_behindCycle {path : Text} {n : Nat}
    (h : edges.LongestChain paths path n) : ¬ edges.BehindCycle paths path := by
  intro hb
  obtain ⟨m, hm, hchain⟩ := hb.exists_chain (n + 1)
  have := h.2 hchain
  omega

/-- The files of the list that are not behind a cycle. -/
abbrev OffCycle (edges : ImportGraph) (paths : List Text) : Type :=
  {path : Text // path ∈ paths ∧ ¬ edges.BehindCycle paths path}

/-- Among the files that are not behind a cycle, one cannot go from a file to an importer for
ever. -/
theorem wellFounded_imports_offCycle :
    WellFounded fun a b : OffCycle edges paths => edges.Imports paths a b := by
  let importer (a b : OffCycle edges paths) : Prop := edges.Imports paths a b
  have finite : Finite (OffCycle edges paths) := paths.finite_toSet.subset fun _ h => h.1
  have acyclic : Std.Irrefl (TransGen importer) :=
    ⟨fun a h => a.2.2 (behindCycle_of_transGen (h.lift Subtype.val fun _ _ hab => hab))⟩
  have wf : WellFounded (TransGen importer) := Finite.wellFounded_of_trans_of_irrefl _
  have sub : Subrelation importer (TransGen importer) := fun hab => TransGen.single hab
  exact sub.wf wf

/-- Induction from importers to the files they import, away from the cycles. -/
theorem offCycle_induction {P : Text → Prop}
    (step : ∀ b ∈ paths, ¬ edges.BehindCycle paths b →
      (∀ a, edges.Imports paths a b → P a) → P b)
    {path : Text} (hpath : path ∈ paths) (hoff : ¬ edges.BehindCycle paths path) : P path := by
  suffices h : ∀ b : OffCycle edges paths, P b from h ⟨path, hpath, hoff⟩
  intro b
  induction b using wellFounded_imports_offCycle.induction with
  | _ b ih =>
    apply step b b.2.1 b.2.2
    intro a hab
    have ha : ¬ edges.BehindCycle paths a := fun h => b.2.2 (h.of_imports hab)
    exact ih ⟨a, hab.1, ha⟩ hab

section Congr

variable {edges' : ImportGraph} {paths' : List Text}

theorem chain_congr (h : ∀ a b, edges.Imports paths a b ↔ edges'.Imports paths' a b)
    (hp : ∀ path, path ∈ paths ↔ path ∈ paths') {n : Nat} {path : Text} :
    Chain edges paths n path ↔ Chain edges' paths' n path := by
  induction n generalizing path with
  | zero =>
    have single : ∀ {e : ImportGraph} {ps : List Text}, Chain e ps 0 path ↔ path ∈ ps :=
      ⟨Chain.mem, .single⟩
    rw [single, single, hp]
  | succ n ih => simp only [chain_succ_iff, h, ih]

theorem longestChain_congr (h : ∀ a b, edges.Imports paths a b ↔ edges'.Imports paths' a b)
    (hp : ∀ path, path ∈ paths ↔ path ∈ paths') {path : Text} {n : Nat} :
    edges.LongestChain paths path n ↔ edges'.LongestChain paths' path n := by
  simp only [LongestChain, chain_congr h hp]

theorem behindCycle_congr (h : ∀ a b, edges.Imports paths a b ↔ edges'.Imports paths' a b)
    {path : Text} : edges.BehindCycle paths path ↔ edges'.BehindCycle paths' path := by
  have he : edges.Imports paths = edges'.Imports paths' := by
    funext a b
    exact propext (h a b)
  simp only [BehindCycle, he]

end Congr

end EditorTabs.ImportGraph
