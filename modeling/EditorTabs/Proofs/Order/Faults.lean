import EditorTabs.Proofs.Order.Sorting
import EditorTabs.Strategy

/-!
# Faults of comparisons

Sorting by name or by directory fails at a name without a key: one with too long a run of decimal
digits, or with a run of digits that are not decimal. All these faults lie in what was given.
-/
namespace EditorTabs

namespace Order

/-- A fault of a name without a key. -/
inductive IsKeyFault : Fault → Prop
  | tooManyDigits (count : Nat) : IsKeyFault (.tooManyDigits count)
  | notDecimal (digits : Text) : IsKeyFault (.notDecimal digits)

variable {fault : Fault}

theorem IsKeyFault.isReported (h : IsKeyFault fault) : fault.isReported = true := by
  cases h <;> rfl

theorem isKeyFault_of_part {decimal : Bool} {run : Text} (h : part decimal run = .error fault) :
    IsKeyFault fault := by
  rw [part] at h
  split at h
  · split at h
    · cases h
      exact .tooManyDigits run.length
    · cases h
  · split at h
    · cases h
      exact .notDecimal run
    · cases h

theorem isKeyFault_of_parts {runs : List (Bool × Text)} (h : parts runs = .error fault) :
    IsKeyFault fault := by
  induction runs with
  | nil => cases h
  | cons run rest ih =>
    rw [parts] at h
    split at h
    · next hpart =>
      cases h
      exact isKeyFault_of_part hpart
    · split at h
      · next hrest =>
        cases h
        exact ih hrest
      · cases h

theorem isKeyFault_of_naturalCompare {a b : Text} (h : naturalCompare a b = .error fault) :
    IsKeyFault fault := by
  rw [naturalCompare] at h
  split at h
  · next hkey =>
    cases h
    exact isKeyFault_of_parts hkey
  · split at h
    · next hkey =>
      cases h
      exact isKeyFault_of_parts hkey
    · cases h

theorem isKeyFault_of_compareSeen {a b : Text} (h : compareSeen a b = .error fault) :
    IsKeyFault fault := by
  simp only [compareSeen] at h
  split at h
  · cases h
  · split at h
    · cases h
    · split at h
      · cases h
      · exact isKeyFault_of_naturalCompare h

/-- All faults of a comparison come from names without a key. -/
def Comparison.HasKeyFaults (compare : Comparison) : Prop :=
  ∀ a b fault, compare a b = .error fault → IsKeyFault fault

theorem hasKeyFaults_ofPaths {compare : Text → Text → Except Fault Ordering}
    (h : ∀ p q fault, compare p q = .error fault → IsKeyFault fault) :
    (Comparison.ofPaths compare).HasKeyFaults := by
  intro a b fault hfault
  rw [Comparison.ofPaths] at hfault
  split at hfault
  · exact h _ _ fault hfault
  · cases hfault

theorem isKeyFault_of_sortTabs {compare : Comparison} (hcompare : compare.HasKeyFaults)
    {tabs : List Tab} (h : sortTabs compare tabs = .error fault) : IsKeyFault fault := by
  obtain ⟨a, -, b, -, hfault⟩ := exists_of_sortTabs_error h
  exact hcompare a b fault hfault

end Order

variable {strategy : Strategy} {host : Host} {session after : Session} {fault : Fault}

theorem Strategy.isKeyFault_of_order (hne : strategy ≠ .imports) {tabs : List Tab}
    (h : strategy.order host tabs session = (.error fault, after)) : Order.IsKeyFault fault := by
  cases strategy with
  | imports => exact absurd rfl hne
  | alphabetical =>
    have hfaults : Order.alphabetical.HasKeyFaults :=
      Order.hasKeyFaults_ofPaths fun _ _ _ => Order.isKeyFault_of_naturalCompare
    exact Order.isKeyFault_of_sortTabs hfaults (congrArg Prod.fst h)
  | fileSystem =>
    have hfaults : (Order.hierarchy host.workingDirectory host.root).HasKeyFaults :=
      Order.hasKeyFaults_ofPaths fun _ _ _ => Order.isKeyFault_of_compareSeen
    exact Order.isKeyFault_of_sortTabs hfaults (congrArg Prod.fst h)

theorem isKeyFault_of_arrangeGroups (hne : strategy ≠ .imports) {groups : List Members}
    (h : arrangeGroups strategy host groups session = (.error fault, after)) :
    Order.IsKeyFault fault := by
  induction groups generalizing session with
  | nil => cases h
  | cons members rest ih =>
    rw [arrangeGroups] at h
    split at h
    · next horder =>
      cases h
      exact Strategy.isKeyFault_of_order hne horder
    · split at h
      · next hrest =>
        cases h
        exact ih hrest
      · cases h

end EditorTabs
