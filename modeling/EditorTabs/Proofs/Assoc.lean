import EditorTabs.Assoc
import Mathlib.Data.List.Nodup

/-!
# Looking up in association lists

A list of pairs is seen through `get?`: what a put, several puts and a map over keys do to it. The
keys of a list that is built by puts stay distinct.
-/
namespace EditorTabs.Assoc

variable {α β : Type} [DecidableEq α]

theorem get?_put (key other : α) (value : β) (pairs : Assoc α β) :
    (pairs.put key value).get? other = if key = other then some value else pairs.get? other := by
  split
  · next h => rw [← h, get?_put_self]
  · next h => exact get?_put_of_ne h value pairs

omit [DecidableEq α] in
@[simp] theorem keys_cons (pair : α × β) (rest : Assoc α β) :
    keys (pair :: rest) = pair.1 :: keys rest := rfl

theorem isSome_get?_iff (key : α) (pairs : Assoc α β) :
    (pairs.get? key).isSome = true ↔ key ∈ pairs.keys := by
  have h := get?_eq_none_iff key pairs
  cases hg : pairs.get? key with
  | none => simp [h.mp hg]
  | some value =>
    rw [hg] at h
    simpa using h

theorem exists_get?_of_mem_keys {key : α} {pairs : Assoc α β} (h : key ∈ pairs.keys) :
    ∃ value, pairs.get? key = some value :=
  Option.isSome_iff_exists.mp ((isSome_get?_iff key pairs).mpr h)

theorem mem_keys_of_get? {key : α} {value : β} {pairs : Assoc α β}
    (h : pairs.get? key = some value) : key ∈ pairs.keys :=
  (isSome_get?_iff key pairs).mp (by simp [h])

theorem mem_of_get? {key : α} {value : β} {pairs : Assoc α β}
    (h : pairs.get? key = some value) : (key, value) ∈ pairs := by
  induction pairs with
  | nil => simp [get?] at h
  | cons pair rest ih =>
    by_cases hk : pair.1 = key
    · simp only [get?, hk, if_true, Option.some.injEq] at h
      exact List.mem_cons.mpr (.inl (Prod.ext hk.symm h.symm))
    · simp only [get?, hk, if_false] at h
      exact List.mem_cons_of_mem _ (ih h)

theorem get?_eq_some_of_mem {key : α} {value : β} {pairs : Assoc α β} (hn : pairs.keys.Nodup)
    (h : (key, value) ∈ pairs) : pairs.get? key = some value := by
  induction pairs with
  | nil => simp at h
  | cons pair rest ih =>
    rw [keys_cons, List.nodup_cons] at hn
    rcases List.mem_cons.mp h with rfl | h
    · simp [get?]
    · have hk : pair.1 ≠ key := fun e => hn.1 (e ▸ List.mem_map_of_mem (f := Prod.fst) h)
      simpa [get?, hk] using ih hn.2 h

theorem mem_keys_put (key other : α) (value : β) (pairs : Assoc α β) :
    other ∈ (pairs.put key value).keys ↔ other = key ∨ other ∈ pairs.keys := by
  rw [keys_put]
  split
  · next h => exact ⟨.inr, fun h' => h'.elim (fun e => e ▸ h) id⟩
  · simp [or_comm]

theorem nodup_keys_put (key : α) (value : β) {pairs : Assoc α β} (h : pairs.keys.Nodup) :
    (pairs.put key value).keys.Nodup := by
  rw [keys_put]
  split
  · exact h
  · next hk =>
    refine List.nodup_append.mpr ⟨h, List.nodup_singleton key, ?_⟩
    rintro other ho k hk' rfl
    exact hk (List.mem_singleton.mp hk' ▸ ho)

omit [DecidableEq α] in
@[simp] theorem keys_map_pair (f : α → β) (keys : List α) :
    Assoc.keys (keys.map fun key => (key, f key)) = keys := by
  simp [Assoc.keys, Function.comp_def]

theorem get?_map_pair_of_mem (f : α → β) {keys : List α} {key : α} (h : key ∈ keys) :
    Assoc.get? key (keys.map fun key => (key, f key)) = some (f key) := by
  induction keys with
  | nil => simp at h
  | cons k rest ih =>
    by_cases hk : k = key
    · simp [get?, hk]
    · have hr : key ∈ rest := (List.mem_cons.mp h).resolve_left (Ne.symm hk)
      simp [get?, hk, ih hr]

theorem get?_map_pair (f : α → β) (keys : List α) (key : α) [Decidable (key ∈ keys)] :
    Assoc.get? key (keys.map fun key => (key, f key)) =
      if key ∈ keys then some (f key) else none := by
  split
  · next h => exact get?_map_pair_of_mem f h
  · next h => rwa [get?_eq_none_iff, keys_map_pair]

/-- Several puts of distinct keys: the new pairs hide the old ones. -/
theorem get?_putAll (pairs : Assoc α β) {news : Assoc α β} (hn : news.keys.Nodup) (key : α) :
    (pairs.putAll news).get? key = (news.get? key).or (pairs.get? key) := by
  induction news generalizing pairs with
  | nil => simp [putAll, get?]
  | cons pair rest ih =>
    rw [keys_cons, List.nodup_cons] at hn
    have hrest : (pairs.putAll (pair :: rest)).get? key =
        (Assoc.get? key rest).or ((pairs.put pair.1 pair.2).get? key) := ih _ hn.2
    rw [hrest, get?_put]
    by_cases h : pair.1 = key
    · have hnone : Assoc.get? key rest = none := (get?_eq_none_iff _ _).mpr (h ▸ hn.1)
      simp [get?, h, hnone]
    · simp [get?, h]

section Layers

variable {γ : Type} (layer : γ → Assoc α β)

/-- Several lists put on top of one another: a key that is in none of them keeps its value. -/
theorem get?_foldl_putAll_of_notMem (hn : ∀ c, (layer c).keys.Nodup) {key : α} (cs : List γ)
    (pairs : Assoc α β) (h : ∀ c ∈ cs, key ∉ (layer c).keys) :
    (cs.foldl (fun pairs c => pairs.putAll (layer c)) pairs).get? key = pairs.get? key := by
  induction cs generalizing pairs with
  | nil => rfl
  | cons c rest ih =>
    obtain ⟨hc, hrest⟩ := List.forall_mem_cons.mp h
    rw [List.foldl_cons, ih _ hrest, get?_putAll pairs (hn c), (get?_eq_none_iff _ _).mpr hc,
      Option.none_or]

/-- A key that is in some of them takes its value from the last of those. -/
theorem get?_foldl_putAll_of_last (hn : ∀ c, (layer c).keys.Nodup) {key : α} {c : γ}
    {later : List γ} (hc : key ∈ (layer c).keys) (hlater : ∀ d ∈ later, key ∉ (layer d).keys)
    (before : List γ) (pairs : Assoc α β) :
    ((before ++ c :: later).foldl (fun pairs c => pairs.putAll (layer c)) pairs).get? key =
      (layer c).get? key := by
  obtain ⟨value, hvalue⟩ := exists_get?_of_mem_keys hc
  rw [List.foldl_append, List.foldl_cons, get?_foldl_putAll_of_notMem layer hn later _ hlater,
    get?_putAll _ (hn c), hvalue, Option.some_or]

end Layers

theorem mem_keys_putAll (pairs news : Assoc α β) (key : α) :
    key ∈ (pairs.putAll news).keys ↔ key ∈ news.keys ∨ key ∈ pairs.keys := by
  induction news generalizing pairs with
  | nil => simp [putAll, keys]
  | cons pair rest ih =>
    have hrest : key ∈ (pairs.putAll (pair :: rest)).keys ↔
        key ∈ Assoc.keys rest ∨ key ∈ (pairs.put pair.1 pair.2).keys := ih _
    rw [hrest, mem_keys_put, keys_cons, List.mem_cons]
    tauto

theorem nodup_keys_putAll {pairs : Assoc α β} (h : pairs.keys.Nodup) (news : Assoc α β) :
    (pairs.putAll news).keys.Nodup := by
  induction news generalizing pairs with
  | nil => exact h
  | cons pair rest ih => exact ih (nodup_keys_put pair.1 pair.2 h)

end EditorTabs.Assoc
