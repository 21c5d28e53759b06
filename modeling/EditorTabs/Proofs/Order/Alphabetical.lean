import EditorTabs.Host.Memory
import EditorTabs.Proofs.Order.Neighbours
import EditorTabs.Proofs.Order.Runs
import EditorTabs.Strategy

/-!
# The alphabetical order

Names that have keys are in a total preorder, in which decimal digits between other characters count
as the number that they denote. So are tabs by their paths, and there is one way to sort them
stably.
-/
namespace EditorTabs.Order

variable {names : List Text} {tabs : List Tab}

theorem decides_alphabetical (h : ∀ path ∈ Tab.files tabs, HasKey path) :
    Decides alphabetical tabs :=
  decides_ofPaths (decides_naturalCompare h)

theorem isTransitive_alphabetical (h : ∀ path ∈ Tab.files tabs, HasKey path) :
    IsTransitive alphabetical tabs :=
  isTransitive_ofPaths_iff.mpr (isTransitive_naturalCompare h)

/-- The comparison of names with keys is the same from both sides, transitive, and numeric on
decimal digits between other characters. The alphabetical comparison of tabs is so, too, with tabs
without a path last; the order is the only stable sort by it, and ordering once more changes
nothing. -/
theorem alphabetical_unique_stable_sort (hnames : ∀ name ∈ names, HasKey name)
    (hpaths : ∀ path ∈ Tab.files tabs, HasKey path) :
    (Decides naturalCompare names ∧ IsTransitive naturalCompare names) ∧
    (∀ (front ds es s t : Text) (m n : Nat), front ++ ds ++ s ∈ names → front ++ es ++ t ∈ names →
      (∀ c ∈ front.getLast?, Text.isDecimal c = false) →
      (∀ c ∈ s.head?, Text.isDecimal c = false) → (∀ c ∈ t.head?, Text.isDecimal c = false) →
      Denotes ds m → Denotes es n → m < n →
        naturalCompare (front ++ ds ++ s) (front ++ es ++ t) = .ok .lt) ∧
    (Decides alphabetical tabs ∧ IsTransitive alphabetical tabs) ∧
    ∃ sorted, sorted = sorted.filter (·.file? ≠ none) ++ tabs.filter (·.file? = none) ∧
      (∀ other, IsStableSort alphabetical tabs other ↔ other = sorted) ∧
      ∀ (host : Host) (session : Session),
        Strategy.alphabetical.order host tabs session = (.ok sorted, session) ∧
        Strategy.alphabetical.order host sorted session = (.ok sorted, session) := by
  have hdecides := decides_alphabetical hpaths
  have htrans := isTransitive_alphabetical hpaths
  refine ⟨⟨decides_naturalCompare hnames, isTransitive_naturalCompare hnames⟩, ?_,
    ⟨hdecides, htrans⟩, ?_⟩
  · intro front ds es s t m n hmemS hmemT hfront hs ht hds hes hlt
    exact naturalCompare_of_denotes hds hes hlt hfront hs ht (hnames _ hmemS) (hnames _ hmemT)
  · obtain ⟨sorted, hsort, hsorted⟩ := isStableSort_sortTabs hdecides htrans
    refine ⟨sorted, sortTabs_eq_append hsort, fun other => ?_, fun host session => ?_⟩
    · exact ⟨fun hother => hother.unique hdecides htrans hsorted, fun heq => heq ▸ hsorted⟩
    · simp only [Strategy.order, hsort, hsorted.sortTabs_eq hdecides htrans, and_self]

/-- Zeros of another script ahead of a digit, and a name that is the beginning of another. -/
theorem alphabetical_unique_stable_sort_of_scripts :
    let names : List Text := ["v٠٠9-b", "v10", "v"]
    let tabs : List Tab := [{ path := some "v10" }, { path := none }, { path := some "v٠٠9-b" },
      { path := some "V9-B" }, { path := some "v" }]
    let sorted : List Tab := [{ path := some "v" }, { path := some "v٠٠9-b" },
      { path := some "V9-B" }, { path := some "v10" }, { path := none }]
    (∀ name ∈ names, HasKey name) ∧ (∀ path ∈ Tab.files tabs, HasKey path) ∧
      (Denotes "٠٠9" 9 ∧ Denotes "10" 10 ∧ naturalCompare "v٠٠9-b" "v10" = .ok .lt) ∧
      (∀ other, IsStableSort alphabetical tabs other ↔ other = sorted) := by
  intro names tabs sorted
  have hnames : ∀ name ∈ names, HasKey name := by decide +kernel
  have hpaths : ∀ path ∈ Tab.files tabs, HasKey path := by decide +kernel
  have hnine : Denotes "٠٠9" 9 := ⟨by decide, [0, 0, 9], by decide +kernel, by decide⟩
  have hten : Denotes "10" 10 := ⟨by decide, [1, 0], by decide +kernel, by decide⟩
  have hsort : (Strategy.alphabetical.order (Memory.host {}) tabs .fresh).1 = .ok sorted := by
    decide +kernel
  obtain ⟨-, hnumeric, -, sorted', -, hunique, horder⟩ :=
    alphabetical_unique_stable_sort hnames hpaths
  rw [(horder _ _).1] at hsort
  obtain rfl := Except.ok.inj hsort
  exact ⟨hnames, hpaths, ⟨hnine, hten, hnumeric "v" "٠٠9" "10" "-b" "" 9 10 (by decide +kernel)
    (by decide +kernel) (by decide +kernel) (by decide +kernel) (by decide +kernel) hnine hten
    (by decide)⟩, hunique⟩

end EditorTabs.Order
