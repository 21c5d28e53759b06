import EditorTabs.Proofs.ImportGraph.Depth
import EditorTabs.Proofs.ImportGraph.Edges
import EditorTabs.Proofs.Order.StableSort
import EditorTabs.Strategy

/-!
# Order by known references

When the references of every file are known, the edges, the depths and the order of a list of tabs
are functions of them. Sessions compute no others. The order is a stable sort: importers come before
what they import as far as cycles allow it, then paths decide, and tabs without a path come last.
-/
namespace EditorTabs

open Relation

namespace Tab

def graph (references : Text → List Text) (tabs : List Tab) : ImportGraph :=
  (Text.distinct (files tabs)).map fun path => (path, references path)

def edges (references : Text → List Text) (tabs : List Tab) : ImportGraph :=
  (graph references tabs).edges (.ofList (files tabs))

def depths (references : Text → List Text) (tabs : List Tab) : Assoc Text Nat :=
  (edges references tabs).depths (edges references tabs).keys

def byImports (references : Text → List Text) (tabs : List Tab) : List Tab :=
  tabs.mergeSort (Session.mayPrecede (depths references tabs))

variable {references : Text → List Text} {tabs tabs' : List Tab}

theorem graphFiles_map_path (tabs : List Tab) :
    graphFiles (tabs.map Tab.path) = Text.distinct (files tabs) := by
  rw [graphFiles, List.filterMap_map]
  rfl

@[simp] theorem mem_keys_edges {path : Text} :
    path ∈ (edges references tabs).keys ↔ path ∈ files tabs := by
  rw [edges, ImportGraph.keys_edges, OpenPaths.mem_paths_ofList]

theorem get?_graph {path : Text} (h : path ∈ files tabs) :
    (graph references tabs).get? path = some (references path) :=
  Assoc.get?_map_pair_of_mem references (Text.mem_distinct.mpr h)

theorem isLayered_depths (references : Text → List Text) (tabs : List Tab) :
    ImportGraph.IsLayered (edges references tabs) (edges references tabs).keys
      (depths references tabs) :=
  ImportGraph.isLayered_depths _ _

@[simp] theorem mem_keys_depths {path : Text} :
    path ∈ (depths references tabs).keys ↔ path ∈ files tabs := by
  rw [(isLayered_depths references tabs).mem_keys, mem_keys_edges]

theorem mem_out_edges {a b : Text} :
    b ∈ (edges references tabs).out a ↔ a ∈ files tabs ∧
      ∃ reference ∈ references a, (OpenPaths.ofList (files tabs)).match? reference = some b := by
  rw [edges, ImportGraph.mem_out_edges, OpenPaths.mem_paths_ofList]
  apply and_congr_right
  intro ha
  rw [get?_graph ha, Option.getD_some]

/-- Without ties it does not matter for the edges how the files stand. -/
theorem get?_edges_of_tieFree (hf : ∀ path, path ∈ files tabs ↔ path ∈ files tabs')
    (htie : ∀ path ∈ files tabs, ∀ reference ∈ references path,
      OpenPaths.TieFree leastShared (Text.distinct (files tabs)) reference) (path : Text) :
    (edges references tabs).get? path = (edges references tabs').get? path := by
  simp only [edges, ImportGraph.edges_eq_map, Assoc.get?_map_pair, OpenPaths.mem_paths_ofList, ← hf]
  split
  · next hpath =>
    have hmatch : ∀ reference ∈ references path,
        (OpenPaths.ofList (files tabs)).match? reference =
          (OpenPaths.ofList (files tabs')).match? reference :=
      fun reference hr =>
        OpenPaths.matchWith?_congr (by simpa using hf) (htie path hpath reference hr)
    rw [get?_graph hpath, get?_graph ((hf path).mp hpath), Option.getD_some,
      ImportGraph.targets_congr hmatch]
  · rfl

theorem imports_iff {a b : Text} :
    (edges references tabs).Imports (edges references tabs).keys a b ↔
      b ∈ (edges references tabs).out a :=
  ImportGraph.imports_edges_iff

/-- The depths of the same files with the same edges are the same. -/
theorem get?_depths_congr {references' : Text → List Text}
    (hf : ∀ path, path ∈ files tabs ↔ path ∈ files tabs')
    (he : ∀ a b, b ∈ (edges references tabs).out a ↔ b ∈ (edges references' tabs').out a)
    (path : Text) :
    (depths references tabs).get? path = (depths references' tabs').get? path := by
  refine (isLayered_depths references tabs).get?_eq (by simpa using hf) ?_
    (isLayered_depths references' tabs') path
  intro a b
  rw [imports_iff, imports_iff, he]

end Tab

def Members.byImports (references : Text → List Text) (members : Members) : Arranged :=
  let tabs := Tab.byImports references members.2
  { group := members.1, tabs, changed := !Tab.sameList tabs members.2 }

namespace Session

variable {depths depths' : Assoc Text Nat}

theorem mayPrecede_congr (h : ∀ path, depths.get? path = depths'.get? path) :
    mayPrecede depths = mayPrecede depths' := by
  funext a b
  simp only [mayPrecede, h]

theorem mayPrecede_trans (a b c : Tab) (hab : mayPrecede depths a b = true)
    (hbc : mayPrecede depths b c = true) : mayPrecede depths a c = true := by
  unfold mayPrecede at *
  cases ha : a.file? <;> cases hb : b.file? <;> cases hc : c.file? <;>
    simp_all only [Bool.false_eq_true, Bool.or_eq_true, Bool.and_eq_true, decide_eq_true_eq]
  exact Text.ranked_trans hab hbc

theorem mayPrecede_total (a b : Tab) : (mayPrecede depths a b || mayPrecede depths b a) = true := by
  unfold mayPrecede
  cases ha : a.file? with
  | none => cases hb : b.file? <;> simp
  | some p =>
    cases hb : b.file? with
    | none => simp
    | some q =>
      simp only [Bool.or_eq_true, Bool.and_eq_true, decide_eq_true_eq]
      exact Text.ranked_total _ _ p q

/-- Sorting by merging is sorting by insertion, also where tabs rank equally. -/
theorem mergeSort_mayPrecede (tabs : List Tab) : tabs.mergeSort (mayPrecede depths) =
    tabs.insertionSort fun a b => mayPrecede depths a b = true := by
  induction tabs with
  | nil => exact List.mergeSort_nil
  | cons tab rest ih =>
    have htrans := @mayPrecede_trans depths
    have htotal := @mayPrecede_total depths
    obtain ⟨before, after, hsorted, hrest, hbefore⟩ := List.mergeSort_cons htrans htotal tab rest
    have hpairwise := List.pairwise_mergeSort htrans htotal (tab :: rest)
    rw [hsorted] at hpairwise ⊢
    have hafter : ∀ later ∈ after, mayPrecede depths tab later = true :=
      (List.pairwise_cons.mp (List.pairwise_append.mp hpairwise).2.1).1
    rw [List.insertionSort_cons, ← ih, hrest, List.orderedInsert_eq_take_drop]
    have hskip : ∀ b ∈ before, decide (¬mayPrecede depths tab b = true) = true := by
      simpa using hbefore
    rw [List.takeWhile_append_of_pos hskip, List.dropWhile_append_of_pos hskip]
    cases after with
    | nil => simp
    | cons later rest => simp [hafter later (by simp)]

def FileOrder (depths : Assoc Text Nat) : Option Text → Option Text → Prop
  | _, none => True
  | none, some _ => False
  | some p, some q =>
    (depths.get? p).getD 0 < (depths.get? q).getD 0 ∨
      (depths.get? p).getD 0 = (depths.get? q).getD 0 ∧ p ≤ q

theorem mayPrecede_iff {a b : Tab} :
    mayPrecede depths a b = true ↔ FileOrder depths a.file? b.file? := by
  cases ha : a.file? <;> cases hb : b.file? <;> simp [mayPrecede, FileOrder, ha, hb]

theorem pairwise_mayPrecede_iff {tabs : List Tab} :
    tabs.Pairwise (fun a b => mayPrecede depths a b = true) ↔
      (tabs.map Tab.file?).Pairwise (FileOrder depths) := by
  rw [List.pairwise_map]
  simp only [mayPrecede_iff]

/-- Only one file comes both before and after another. -/
theorem FileOrder.antisymm {a b : Option Text} (h : FileOrder depths a b)
    (h' : FileOrder depths b a) : a = b := by
  cases a with
  | none =>
    cases b with
    | none => rfl
    | some q => exact h.elim
  | some p =>
    cases b with
    | none => exact h'.elim
    | some q =>
      rcases h with hlt | ⟨heq, hle⟩ <;> rcases h' with hlt' | ⟨heq', hle'⟩
      · omega
      · omega
      · omega
      · rw [Text.le_antisymm hle hle']

end Session

/-- What the order of a list of tabs by the edges and depths of their files says: which tabs come
before which, and which keep their order. -/
structure ImportsFirst (edges : ImportGraph) (depths : Assoc Text Nat) (tabs sorted : List Tab) :
    Prop where
  perm : sorted.Perm tabs
  /-- Tabs without a path come last. -/
  pathless_last : ∀ (i j : Nat) (hi : i < sorted.length) (hj : j < sorted.length),
    sorted[i].file? ≠ none → sorted[j].file? = none → i < j
  pathless_stable : sorted.filter (·.file? = none) = tabs.filter (·.file? = none)
  /-- An edge does not lead upwards, and leads down unless it starts on or behind a cycle. -/
  depth_le : ∀ a b, b ∈ edges.out a → ∃ m n, depths.get? a = some m ∧ depths.get? b = some n ∧
    m ≤ n ∧ (¬ edges.BehindCycle edges.keys a → m < n)
  /-- Every tab of an importer off the cycles comes before every tab of what it imports. -/
  importer_first : ∀ (i j : Nat) (hi : i < sorted.length) (hj : j < sorted.length) (a b : Text),
    sorted[i].file? = some a → sorted[j].file? = some b → b ∈ edges.out a →
      ¬ edges.BehindCycle edges.keys a → i < j
  /-- So without cycles every importer comes before what it imports. -/
  acyclic : (∀ c, ¬ TransGen (edges.Imports edges.keys) c c) →
    ∀ (i j : Nat) (hi : i < sorted.length) (hj : j < sorted.length) (a b : Text),
      sorted[i].file? = some a → sorted[j].file? = some b → b ∈ edges.out a → i < j
  /-- At equal depth paths come in the order of their code points. -/
  path_le : ∀ (i j : Nat) (hij : i < j) (hj : j < sorted.length) (a b : Text),
    sorted[i].file? = some a → sorted[j].file? = some b → depths.get? a = depths.get? b → a ≤ b
  stable : ∀ path, sorted.filter (·.file? = some path) = tabs.filter (·.file? = some path)

namespace Tab

variable {references : Text → List Text} {tabs tabs' : List Tab}

theorem byImports_perm : (byImports references tabs).Perm tabs :=
  List.mergeSort_perm _ _

theorem pairwise_byImports (references : Text → List Text) (tabs : List Tab) :
    (byImports references tabs).Pairwise
      fun a b => Session.mayPrecede (depths references tabs) a b = true :=
  List.pairwise_mergeSort Session.mayPrecede_trans Session.mayPrecede_total tabs

theorem byImports_congr {references' : Text → List Text}
    (h : ∀ path ∈ files tabs, references path = references' path) :
    byImports references tabs = byImports references' tabs := by
  have hgraph : graph references tabs = graph references' tabs :=
    List.map_congr_left fun path hp => by rw [h path (Text.mem_distinct.mp hp)]
  simp only [byImports, depths, edges, hgraph]

theorem byImports_eq_self
    (h : (tabs.map file?).Pairwise (Session.FileOrder (depths references tabs))) :
    byImports references tabs = tabs :=
  List.mergeSort_of_pairwise (Session.pairwise_mayPrecede_iff.mpr h)

/-- Down the ordered tabs the depths of their files never decrease. -/
theorem pairwise_depths_byImports (references : Text → List Text) (tabs : List Tab) :
    ((byImports references tabs).filterMap fun tab =>
      tab.file?.bind (depths references tabs).get?).Pairwise (· ≤ ·) := by
  rw [List.pairwise_filterMap]
  refine (pairwise_byImports references tabs).imp fun {a b} hab m hm n hn => ?_
  obtain ⟨p, hp, hm⟩ := Option.bind_eq_some_iff.mp hm
  obtain ⟨q, hq, hn⟩ := Option.bind_eq_some_iff.mp hn
  have horder := Session.mayPrecede_iff.mp hab
  rw [hp, hq] at horder
  rcases horder with hlt | ⟨heq, -⟩
  · rw [hm, hn, Option.getD_some, Option.getD_some] at hlt
    exact hlt.le
  · rw [hm, hn, Option.getD_some, Option.getD_some] at heq
    exact heq.le

/-- The files of the same tabs come in one order if their depths are the same. -/
theorem map_file?_byImports_congr (hp : tabs'.Perm tabs)
    (hdepths : ∀ path, (depths references tabs').get? path = (depths references tabs).get? path) :
    (byImports references tabs').map file? = (byImports references tabs).map file? := by
  have hsorted := Session.pairwise_mayPrecede_iff.mp (pairwise_byImports references tabs)
  have hsorted' := Session.pairwise_mayPrecede_iff.mp (pairwise_byImports references tabs')
  have hsame : Session.FileOrder (depths references tabs') =
      Session.FileOrder (depths references tabs) := by
    funext a b
    cases a <;> cases b <;> simp only [Session.FileOrder, hdepths]
  have hperm : (byImports references tabs').Perm (byImports references tabs) :=
    (byImports_perm.trans hp).trans byImports_perm.symm
  rw [hsame] at hsorted'
  exact (hperm.map file?).eq_of_pairwise (fun _ _ _ _ => Session.FileOrder.antisymm) hsorted'
    hsorted

theorem filter_byImports {p : Tab → Bool}
    (h : ∀ a b, p a = true → p b = true → Session.mayPrecede (depths references tabs) a b = true) :
    (byImports references tabs).filter p = tabs.filter p :=
  Order.filter_mergeSort Session.mayPrecede_trans Session.mayPrecede_total h tabs

/-- A tab whose file is less deep does not come later. -/
theorem lt_of_depth_lt {i j : Nat} {hi : i < (byImports references tabs).length}
    {hj : j < (byImports references tabs).length} {a b : Text} {m n : Nat}
    (ha : (byImports references tabs)[i].file? = some a)
    (hb : (byImports references tabs)[j].file? = some b)
    (hm : (depths references tabs).get? a = some m)
    (hn : (depths references tabs).get? b = some n) (hmn : m < n) : i < j := by
  rcases Nat.lt_trichotomy i j with h | rfl | h
  · exact h
  · rw [ha, Option.some_inj] at hb
    subst hb
    rw [hm, Option.some_inj] at hn
    omega
  · have hp := List.pairwise_iff_getElem.mp (pairwise_byImports references tabs) j i hj hi h
    simp [Session.mayPrecede, ha, hb, hm, hn] at hp
    omega

theorem importsFirst_byImports (references : Text → List Text) (tabs : List Tab) :
    ImportsFirst (edges references tabs) (depths references tabs) tabs
      (byImports references tabs) := by
  have hlayered := isLayered_depths references tabs
  have hsorted := List.pairwise_iff_getElem.mp (pairwise_byImports references tabs)
  have hfirst : ∀ (i j : Nat) (hi : i < (byImports references tabs).length)
      (hj : j < (byImports references tabs).length) (a b : Text),
      (byImports references tabs)[i].file? = some a →
        (byImports references tabs)[j].file? = some b → b ∈ (edges references tabs).out a →
          ¬ (edges references tabs).BehindCycle (edges references tabs).keys a → i < j := by
    intro i j hi hj a b ha hb hab hoff
    obtain ⟨m, n, hm, hn, hlt⟩ := hlayered.lt_of_imports (imports_iff.mpr hab) hoff
    exact lt_of_depth_lt ha hb hm hn hlt
  constructor
  case perm => exact byImports_perm
  case pathless_last =>
    intro i j hi hj hfile hnone
    rcases Nat.lt_trichotomy i j with h | rfl | h
    · exact h
    · exact absurd hnone hfile
    · have hp := hsorted j i hj hi h
      obtain ⟨a, ha⟩ := Option.ne_none_iff_exists'.mp hfile
      simp [Session.mayPrecede, ha, hnone] at hp
  case pathless_stable =>
    apply filter_byImports
    intro a b ha hb
    simp_all [Session.mayPrecede]
  case depth_le =>
    intro a b hab
    have hi := imports_iff.mpr hab
    by_cases hb : (edges references tabs).BehindCycle (edges references tabs).keys a
    · obtain ⟨n, hm, hn⟩ := hlayered.eq_of_imports hi hb
      exact ⟨n, n, hm, hn, le_rfl, fun hoff => absurd hb hoff⟩
    · obtain ⟨m, n, hm, hn, hlt⟩ := hlayered.lt_of_imports hi hb
      exact ⟨m, n, hm, hn, hlt.le, fun _ => hlt⟩
  case importer_first => exact hfirst
  case acyclic =>
    intro hacyclic i j hi hj a b ha hb hab
    refine hfirst i j hi hj a b ha hb hab ?_
    rintro ⟨c, hc, _⟩
    exact hacyclic c hc
  case path_le =>
    intro i j hij hj a b ha hb hdepth
    have hp := hsorted i j (hij.trans hj) hj hij
    simpa [Session.mayPrecede, ha, hb, hdepth] using hp
  case stable =>
    intro path
    apply filter_byImports
    intro a b ha hb
    simp_all [Session.mayPrecede]

end Tab

end EditorTabs
