import EditorTabs.Proofs.Assoc
import EditorTabs.Proofs.Json.Writer
import EditorTabs.Proofs.Text.Sorted

/-!
# Equal values

Two values are the same if they agree in everything but the order of the members of objects. Sorting
these gives equal values one form, so that they are written alike.
-/
namespace EditorTabs.Json

/-- Values that are the same: arrays item by item, objects key by key. Whole numbers are never the
same as numbers with a fraction or an exponent. -/
inductive Same : Json → Json → Prop
  | null : Same .null .null
  | bool (value : Bool) : Same (.bool value) (.bool value)
  | int (value : Int) : Same (.int value) (.int value)
  | real (value : Decimal.Binary64) : Same (.real value) (.real value)
  | text (value : Text) : Same (.text value) (.text value)
  | array {items items' : List Json} (hlength : items.length = items'.length)
      (hitems : ∀ (i : Nat) item item', items[i]? = some item → items'[i]? = some item' →
        Same item item') :
      Same (.array items) (.array items')
  | object {members members' : List (Text × Json)}
      (hkeys : ∀ key, key ∈ Assoc.keys members ↔ key ∈ Assoc.keys members')
      (hvalues : ∀ key value value', memberOf? key members = some value →
        memberOf? key members' = some value' → Same value value') :
      Same (.object members) (.object members')

variable {a b : Json} {members members' : List (Text × Json)} {key : Text}

/-! ## Sorting members -/

theorem sortItems_eq_map (items : List Json) : sortItems items = items.map sortMembers := by
  induction items with
  | nil => rfl
  | cons item rest ih => rw [sortItems, ih, List.map_cons]

theorem sortValues_eq_map (members : List (Text × Json)) :
    sortValues members = members.map fun member => (member.1, sortMembers member.2) := by
  induction members with
  | nil => rfl
  | cons member rest ih => rw [sortValues, ih, List.map_cons]

def sorted (members : List (Text × Json)) : List (Text × Json) :=
  (sortValues members).mergeSort fun a b => decide (a.1 ≤ b.1)

theorem sortMembers_object (members : List (Text × Json)) :
    sortMembers (.object members) = .object (sorted members) := by
  rw [sortMembers, sorted]

theorem keys_sorted_perm (members : List (Text × Json)) :
    (Assoc.keys (sorted members)).Perm (Assoc.keys members) := by
  have hkeys : Assoc.keys (sortValues members) = Assoc.keys members := by
    rw [sortValues_eq_map, Assoc.keys, Assoc.keys, List.map_map]
    rfl
  rw [← hkeys]
  exact (List.mergeSort_perm _ _).map _

theorem mem_sorted (hnodup : (Assoc.keys members).Nodup) {value : Json} :
    (key, value) ∈ sorted members ↔
      ∃ origin, memberOf? key members = some origin ∧ sortMembers origin = value := by
  rw [sorted, List.mem_mergeSort, sortValues_eq_map, List.mem_map]
  constructor
  · rintro ⟨⟨k, origin⟩, hmem, heq⟩
    cases heq
    exact ⟨origin, Assoc.get?_eq_some_of_mem hnodup hmem, rfl⟩
  · rintro ⟨origin, horigin, rfl⟩
    exact ⟨(key, origin), Assoc.mem_of_get? horigin, rfl⟩

theorem pairwise_sorted (members : List (Text × Json)) :
    (sorted members).Pairwise fun a b => a.1 ≤ b.1 := by
  have htrans : ∀ a b c : Text × Json, decide (a.1 ≤ b.1) = true → decide (b.1 ≤ c.1) = true →
      decide (a.1 ≤ c.1) = true := by
    simpa using fun (a : Text) (_ : Json) (b : Text) (_ : Json) (c : Text) (_ : Json) =>
      Text.le_trans (a := a) (b := b) (c := c)
  have htotal : ∀ a b : Text × Json, (decide (a.1 ≤ b.1) || decide (b.1 ≤ a.1)) = true := by
    simpa using fun (a : Text) (_ : Json) (b : Text) (_ : Json) => Text.le_total a b
  simpa only [sorted, decide_eq_true_eq] using
    List.pairwise_mergeSort htrans htotal (sortValues members)

/-- The sorted members are determined by what is found under the keys. -/
theorem sorted_eq_iff (hnodup : (Assoc.keys members).Nodup)
    (hnodup' : (Assoc.keys members').Nodup) :
    sorted members = sorted members' ↔
      ∀ key, (memberOf? key members).map sortMembers =
        (memberOf? key members').map sortMembers := by
  have hmem (value : Json) (members : List (Text × Json)) (hnodup : (Assoc.keys members).Nodup)
      (key : Text) : (memberOf? key members).map sortMembers = some value ↔
        (key, value) ∈ sorted members := by
    rw [mem_sorted hnodup, Option.map_eq_some_iff]
  constructor
  · intro heq key
    ext value
    rw [hmem value members hnodup, heq, hmem value members' hnodup']
  · intro heq
    have hnodups : (Assoc.keys (sorted members)).Nodup :=
      (keys_sorted_perm members).nodup_iff.mpr hnodup
    have hnodups' : (Assoc.keys (sorted members')).Nodup :=
      (keys_sorted_perm members').nodup_iff.mpr hnodup'
    have hperm : (sorted members).Perm (sorted members') := by
      refine (List.perm_ext_iff_of_nodup hnodups.of_map hnodups'.of_map).mpr ?_
      rintro ⟨key, value⟩
      rw [← hmem value members hnodup, heq, hmem value members' hnodup']
    refine hperm.eq_of_pairwise ?_ (pairwise_sorted members) (pairwise_sorted members')
    intro x y hx hy hxy hyx
    exact List.inj_on_of_nodup_map hnodups hx (hperm.mem_iff.mpr hy) (Text.le_antisymm hxy hyx)

/-- Sorting the members leaves a value proper. -/
theorem IsProper.sortMembers (ha : IsProper a) : IsProper (sortMembers a) := by
  induction ha with
  | null => exact .null
  | bool value => exact .bool value
  | int value => exact .int value
  | real h => exact .real h
  | text h => exact .text h
  | array h ih =>
    rw [Json.sortMembers, sortItems_eq_map]
    exact .array (List.forall_mem_map.mpr ih)
  | object hnodup hkeys hvalues ih =>
    rw [sortMembers_object]
    refine .object ((keys_sorted_perm _).nodup_iff.mpr hnodup) ?_ ?_
    · rintro ⟨key, value⟩ hmem
      obtain ⟨origin, horigin, rfl⟩ := (mem_sorted hnodup).mp hmem
      exact hkeys (key, origin) (Assoc.mem_of_get? horigin)
    · rintro ⟨key, value⟩ hmem
      obtain ⟨origin, horigin, rfl⟩ := (mem_sorted hnodup).mp hmem
      exact ih (key, origin) (Assoc.mem_of_get? horigin)

/-! ## Equal values -/

theorem same_of_sortMembers_eq (ha : IsProper a) (hb : IsProper b)
    (h : sortMembers a = sortMembers b) : Same a b := by
  induction ha generalizing b with
  | null | bool | int | real | text =>
    cases hb <;> cases h
    constructor
  | @array items hproper ih =>
    cases hb with
    | @array items' hproper' =>
      rw [sortMembers, sortMembers, sortItems_eq_map, sortItems_eq_map, Json.array.injEq] at h
      have hlength := congrArg List.length h
      rw [List.length_map, List.length_map] at hlength
      refine .array hlength fun i item item' hitem hitem' => ?_
      refine ih item (List.mem_of_getElem? hitem) (hproper' item' (List.mem_of_getElem? hitem')) ?_
      have hget := congrArg (fun values => values[i]?) h
      simpa [hitem, hitem'] using hget
    | _ => cases h
  | @object members hnodup hkeys hvalues ih =>
    cases hb with
    | @object members' hnodup' hkeys' hvalues' =>
      rw [sortMembers_object, sortMembers_object, Json.object.injEq,
        sorted_eq_iff hnodup hnodup'] at h
      refine .object (fun key => ?_) fun key value value' hvalue hvalue' => ?_
      · have hsome := congrArg Option.isSome (h key)
        rw [Option.isSome_map, Option.isSome_map] at hsome
        rw [← Assoc.isSome_get?_iff, ← Assoc.isSome_get?_iff]
        exact iff_of_eq (congrArg (· = true) hsome)
      · have heq := h key
        rw [hvalue, hvalue', Option.map_some, Option.map_some, Option.some.injEq] at heq
        exact ih (key, value) (Assoc.mem_of_get? hvalue)
          (hvalues' (key, value') (Assoc.mem_of_get? hvalue')) heq
    | _ => cases h

theorem sortMembers_eq_of_same (ha : IsProper a) (hb : IsProper b) (h : Same a b) :
    sortMembers a = sortMembers b := by
  induction h with
  | null | bool | int | real | text => rfl
  | @array items items' hlength hitems ih =>
    cases ha with
    | array hproper =>
    cases hb with
    | array hproper' =>
    rw [sortMembers, sortMembers, sortItems_eq_map, sortItems_eq_map]
    congr 1
    refine List.ext_getElem (by simpa using hlength) fun i hi hi' => ?_
    rw [List.length_map] at hi hi'
    rw [List.getElem_map, List.getElem_map]
    exact ih i _ _ (List.getElem?_eq_getElem hi) (List.getElem?_eq_getElem hi')
      (hproper _ (List.getElem_mem hi)) (hproper' _ (List.getElem_mem hi'))
  | @object members members' hkeys hvalues ih =>
    cases ha with
    | object hnodup _ hproper =>
    cases hb with
    | object hnodup' _ hproper' =>
    rw [sortMembers_object, sortMembers_object, Json.object.injEq, sorted_eq_iff hnodup hnodup']
    intro key
    have hsome := hkeys key
    rw [← Assoc.isSome_get?_iff, ← Assoc.isSome_get?_iff] at hsome
    cases hvalue : memberOf? key members with
    | none =>
      cases hvalue' : memberOf? key members' with
      | none => rfl
      | some value' => simp_all [memberOf?]
    | some value =>
      cases hvalue' : memberOf? key members' with
      | none => simp_all [memberOf?]
      | some value' =>
        rw [Option.map_some, Option.map_some, ih key value value' hvalue hvalue'
          (hproper _ (Assoc.mem_of_get? hvalue)) (hproper' _ (Assoc.mem_of_get? hvalue'))]

/-- Values are written alike after sorting their members exactly if they are the same. -/
theorem write_sortMembers_eq_iff (ha : IsProper a) (hb : IsProper b) :
    write (sortMembers a) = write (sortMembers b) ↔ Same a b := by
  rw [write_inj ha.sortMembers hb.sortMembers]
  exact ⟨same_of_sortMembers_eq ha hb, sortMembers_eq_of_same ha hb⟩

end EditorTabs.Json
