import EditorTabs.Proofs.Groups
import EditorTabs.Proofs.Json.Proper
import EditorTabs.Proofs.Json.Same
import EditorTabs.Proofs.Order.Sorting
import EditorTabs.Strategy
import EditorTabs.TabList

/-!
# The groups of a tab list

Tabs are put into one group if the values that their entries give for it are the same. But a value
that is no text, number or flag is taken for the text that is written for it, and a flag for its
number, so that such tabs end up in one group too.
-/
namespace EditorTabs

/-! ## Arranging keeps the groups -/

section Arrange

variable {strategy : Strategy} {host : Host} {session after : Session} {tabs sorted : List Tab}
  {groups : List Members} {results : List Arranged}

theorem Strategy.perm_of_order (h : strategy.order host tabs session = (.ok sorted, after)) :
    sorted.Perm tabs := by
  cases strategy with
  | fileSystem => exact Order.perm_of_sortTabs (congrArg Prod.fst h)
  | alphabetical => exact Order.perm_of_sortTabs (congrArg Prod.fst h)
  | imports =>
    simp only [order, Session.order] at h
    split at h
    · cases h
    · cases h
      exact List.mergeSort_perm _ _

/-- Whatever the strategy, each group is arranged by itself. -/
theorem forall₂_of_arrangeGroups
    (h : arrangeGroups strategy host groups session = (.ok results, after)) :
    List.Forall₂ (fun members result => result.tabs.Perm members.2) groups results := by
  induction groups generalizing session results with
  | nil =>
    cases h
    exact .nil
  | cons members rest ih =>
    obtain ⟨group, members⟩ := members
    rw [arrangeGroups] at h
    split at h
    · cases h
    · next sorted mid horder =>
      split at h
      · cases h
      · next others last hothers =>
        cases h
        exact .cons (Strategy.perm_of_order horder) (ih hothers)

/-- Two tabs are in one group after arranging exactly if their groups have the same key. -/
theorem mem_arrange_together_iff (h : arrange strategy host tabs session = (.ok results, after))
    {tab tab' : Tab} (htab : tab ∈ tabs) (htab' : tab' ∈ tabs) :
    (∃ result ∈ results, tab ∈ result.tabs ∧ tab' ∈ result.tabs) ↔
      tab.group.key = tab'.group.key := by
  rw [← mem_groupTabs_together_iff htab htab']
  have hresults := forall₂_of_arrangeGroups h
  clear h
  generalize groupTabs tabs = groups at hresults
  induction hresults with
  | nil => simp
  | cons hperm _ ih => simp only [List.exists_mem_cons_iff, hperm.mem_iff, ih]

end Arrange

namespace TabList

open Json (Same IsProper)

variable {a b : Json} {tree : Files.Tree} {cwd path root : Text} {tabs : List Tab}
  {items : List Json}

/-! ## What names a group -/

/-- The value that an entry gives for its group; without one it is zero. -/
def groupValue : Json → Json
  | .object members => (Json.memberOf? "group" members).getD (.int 0)
  | _ => .int 0

/-- A value that names a group by what is written for it. -/
def IsWrittenOut : Json → Prop
  | .null | .real _ | .array _ | .object _ => True
  | .bool _ | .int _ | .text _ => False

/-- A value that is taken for another one: a flag for its number, and a value that is written out
for the text that is written for it. -/
inductive TakenFor : Json → Json → Prop
  | flag (value : Bool) : TakenFor (.bool value) (.int (if value then 1 else 0))
  | written {value : Json} (h : IsWrittenOut value) :
      TakenFor value (.text (Json.write (Json.sortMembers value)))

/-- Values that name the same group. -/
def NamesSame (a b : Json) : Prop :=
  Same a b ∨ TakenFor a b ∨ TakenFor b a

theorem key_of_isWrittenOut (h : IsWrittenOut a) :
    (groupOf a).key = .text (Json.write (Json.sortMembers a)) := by
  cases a with
  | null | real | array | object => rfl
  | bool | int | text => exact h.elim

theorem takenFor_text_iff {s : Text} :
    TakenFor a (.text s) ↔ IsWrittenOut a ∧ Json.write (Json.sortMembers a) = s := by
  constructor
  · rintro (_ | h)
    exact ⟨h, rfl⟩
  · rintro ⟨h, rfl⟩
    exact .written h

theorem takenFor_int_iff {n : Int} :
    TakenFor a (.int n) ↔ ∃ value, a = .bool value ∧ (if value then 1 else 0) = n := by
  constructor
  · rintro (value | _)
    exact ⟨value, rfl, rfl⟩
  · rintro ⟨value, rfl, rfl⟩
    exact .flag value

theorem key_eq_of_takenFor (h : TakenFor a b) : (groupOf a).key = (groupOf b).key := by
  cases h with
  | flag value => cases value <;> rfl
  | written h => exact key_of_isWrittenOut h

/-- A key tells which values it can come of. -/
theorem key_groupOf_cases (a : Json) :
    (∃ s, (groupOf a).key = .text s ∧ (a = .text s ∨ TakenFor a (.text s))) ∨
      ∃ n, (groupOf a).key = .number n ∧ (a = .int n ∨ TakenFor a (.int n)) := by
  cases a with
  | null | real | array | object =>
    exact .inl ⟨_, key_of_isWrittenOut trivial, .inr (.written trivial)⟩
  | bool value => exact .inr ⟨_, key_eq_of_takenFor (.flag value), .inr (.flag value)⟩
  | int n => exact .inr ⟨n, rfl, .inl rfl⟩
  | text s => exact .inl ⟨s, rfl, .inl rfl⟩

theorem key_eq_of_same (ha : IsProper a) (hb : IsProper b) (h : Same a b) :
    (groupOf a).key = (groupOf b).key := by
  have hwritten := (Json.write_sortMembers_eq_iff ha hb).mpr h
  cases h with
  | null | bool | int | real | text => rfl
  | array | object =>
    refine (key_of_isWrittenOut ?_).trans
      ((congrArg Group.text hwritten).trans (key_of_isWrittenOut ?_).symm) <;> trivial

/-- Two values that are taken for one are the same. -/
theorem same_of_takenFor {c : Json} (ha : IsProper a) (hb : IsProper b) (h : TakenFor a c)
    (h' : TakenFor b c) : Same a b := by
  cases h with
  | flag value =>
    obtain ⟨value', rfl, hvalue⟩ := takenFor_int_iff.mp h'
    obtain rfl : value' = value := by cases value <;> cases value' <;> simp_all
    exact .bool value'
  | written h =>
    obtain ⟨-, hwritten⟩ := takenFor_text_iff.mp h'
    exact (Json.write_sortMembers_eq_iff ha hb).mp hwritten.symm

/-- Two values name the same group exactly if they are the same or one is taken for the other. -/
theorem key_groupOf_eq_iff (ha : IsProper a) (hb : IsProper b) :
    (groupOf a).key = (groupOf b).key ↔ NamesSame a b := by
  constructor
  · intro h
    -- What each value is or is taken for is told by the key that they share.
    obtain ⟨c, hac, hbc⟩ : ∃ c, (a = c ∨ TakenFor a c) ∧ (b = c ∨ TakenFor b c) := by
      rcases key_groupOf_cases a with ⟨s, hkey, hs⟩ | ⟨n, hkey, hn⟩ <;>
        rcases key_groupOf_cases b with ⟨s', hkey', hs'⟩ | ⟨n', hkey', hn'⟩ <;>
        rw [hkey, hkey'] at h <;> cases h
      · exact ⟨_, hs, hs'⟩
      · exact ⟨_, hn, hn'⟩
    rcases hac with rfl | hac <;> rcases hbc with rfl | hbc
    · exact .inl ((Json.write_sortMembers_eq_iff ha ha).mp rfl)
    · exact .inr (.inr hbc)
    · exact .inr (.inl hac)
    · exact .inl (same_of_takenFor ha hb hac hbc)
  · rintro (hsame | htaken | htaken)
    · exact key_eq_of_same ha hb hsame
    · exact key_eq_of_takenFor htaken
    · exact (key_eq_of_takenFor htaken).symm

theorem group_of_entry {value : Json} {tab : Tab} (h : entry root value = .ok tab) :
    tab.group = groupOf (groupValue value) := by
  unfold entry at h
  split at h
  · cases h
    rfl
  · next members =>
    cases h
    simp only [tabOf, groupValue]
    cases Json.memberOf? "group" members <;> rfl
  · cases h

/-- Accepted entries have a tab each, in their order. -/
theorem forall₂_entry_of_entries (h : entries root items = .ok tabs) :
    List.Forall₂ (fun item tab => entry root item = .ok tab) items tabs := by
  induction items generalizing tabs with
  | nil =>
    cases h
    exact .nil
  | cons item rest ih =>
    rw [entries] at h
    split at h
    · cases h
    · next tab hentry =>
      split at h
      · cases h
      · next others hothers =>
        cases h
        exact .cons hentry (ih hothers)

theorem forall₂_of_entries (h : entries root items = .ok tabs) :
    List.Forall₂ (fun item tab => tab.group = groupOf (groupValue item)) items tabs :=
  (forall₂_entry_of_entries h).imp fun _ _ => group_of_entry

theorem isProper_groupValue (ha : IsProper a) : IsProper (groupValue a) := by
  unfold groupValue
  split
  · next members =>
    cases ha with
    | object _ _ hvalues =>
      cases hgroup : Json.memberOf? "group" members with
      | none => exact .int 0
      | some value => exact hvalues ("group", value) (Assoc.mem_of_get? hgroup)
  · exact .int 0

theorem isChar_of_readDocument {s : Text} (h : Files.readDocument tree cwd path = .ok s) :
    ∀ c ∈ s, c.IsChar := by
  rw [Files.readDocument] at h
  split at h
  · cases h
  · cases h
  · split at h
    · cases h
    · next decoded hdecode =>
      cases h
      exact Text.isChar_unifyLineEnds (Text.Utf8.isChar_of_decode hdecode)

/-- What a document holds is proper. -/
theorem isProper_of_readValue {value : Json}
    (h : Files.readValue tree cwd path false limit = .ok value) : IsProper value := by
  rw [Files.readValue] at h
  split at h
  · cases h
  · next s hdocument =>
    cases hread : Json.read s limit with
    | error fault =>
      simp only [Bool.false_eq_true, if_false, hread] at h
      cases h
    | ok found =>
      simp only [Bool.false_eq_true, if_false, hread] at h
      cases h
      exact Json.isProper_of_read (isChar_of_readDocument hdocument) hread

/-- An accepted tab list is an array of proper values with a tab for each. -/
theorem exists_items_of_read (h : read tree cwd path root limit = .ok tabs) :
    ∃ items, Files.readValue tree cwd (Path.tidy path) false limit = .ok (.array items) ∧
      (∀ item ∈ items, IsProper item) ∧ entries root items = .ok tabs := by
  simp only [read] at h
  split at h
  · cases h
  · cases h
  · cases h
  · next items hread =>
    cases isProper_of_readValue hread with
    | array hitems => exact ⟨items, hread, hitems, h⟩
  · cases h

/-! ## Which tabs are grouped -/

/-- Two tabs that stand in one of several lists. -/
def Together (lists : List (List Tab)) (tab tab' : Tab) : Prop :=
  ∃ list ∈ lists, tab ∈ list ∧ tab' ∈ list

/-- The tabs of entries are grouped by the values that the entries give for their groups: two tabs
are put into one group, and stand in one group after they were arranged, exactly if the values are
alike. Other tabs may come after them. -/
structure GroupedBy (alike : Json → Json → Prop) (items : List Json) (tabs : List Tab) :
    Prop where
  length_eq : tabs.length = items.length
  grouped : ∀ (i j : Nat) (tab tab' : Tab) (item item' : Json),
    tabs[i]? = some tab → items[i]? = some item →
    tabs[j]? = some tab' → items[j]? = some item' → ∀ more : List Tab,
      (Together ((groupTabs (tabs ++ more)).map Prod.snd) tab tab' ↔
        alike (groupValue item) (groupValue item'))
  arranged : ∀ (i j : Nat) (tab tab' : Tab) (item item' : Json),
    tabs[i]? = some tab → items[i]? = some item →
    tabs[j]? = some tab' → items[j]? = some item' →
    ∀ (more : List Tab) (strategy : Strategy) (host : Host) (session after : Session)
      (results : List Arranged),
      arrange strategy host (tabs ++ more) session = (.ok results, after) →
      (Together (results.map Arranged.tabs) tab tab' ↔
        alike (groupValue item) (groupValue item'))

theorem key_eq_iff_of_entries (hproper : ∀ item ∈ items, IsProper item)
    (h : entries root items = .ok tabs) {i j : Nat} {tab tab' : Tab} {item item' : Json}
    (htab : tabs[i]? = some tab) (hitem : items[i]? = some item) (htab' : tabs[j]? = some tab')
    (hitem' : items[j]? = some item') :
    tab.group.key = tab'.group.key ↔ NamesSame (groupValue item) (groupValue item') := by
  have hgroup {i : Nat} {tab : Tab} {item : Json} (htab : tabs[i]? = some tab)
      (hitem : items[i]? = some item) : tab.group = groupOf (groupValue item) := by
    obtain ⟨hi, rfl⟩ := List.getElem?_eq_some_iff.mp htab
    obtain ⟨hi', rfl⟩ := List.getElem?_eq_some_iff.mp hitem
    exact (forall₂_of_entries h).get hi' hi
  have hvalue {i : Nat} {item : Json} (hitem : items[i]? = some item) :
      IsProper (groupValue item) :=
    isProper_groupValue (hproper item (List.mem_of_getElem? hitem))
  rw [hgroup htab hitem, hgroup htab' hitem', key_groupOf_eq_iff (hvalue hitem) (hvalue hitem')]

/-- Every tab list that is accepted is grouped by the names that its entries give. -/
theorem grouped_by_name (h : read tree cwd path root limit = .ok tabs) :
    ∃ items, Files.readValue tree cwd (Path.tidy path) false limit = .ok (.array items) ∧
      GroupedBy NamesSame items tabs := by
  obtain ⟨items, hread, hproper, hentries⟩ := exists_items_of_read h
  have hmem {i : Nat} {tab : Tab} (htab : tabs[i]? = some tab) (more : List Tab) :
      tab ∈ tabs ++ more := List.mem_append_left more (List.mem_of_getElem? htab)
  refine ⟨items, hread, (forall₂_of_entries hentries).length_eq.symm, ?_, ?_⟩
  · intro i j tab tab' item item' htab hitem htab' hitem' more
    rw [← key_eq_iff_of_entries hproper hentries htab hitem htab' hitem',
      ← mem_groupTabs_together_iff (hmem htab more) (hmem htab' more)]
    simp only [Together, List.mem_map, exists_exists_and_eq_and]
  · intro i j tab tab' item item' htab hitem htab' hitem' more strategy host session after results
      harrange
    rw [← key_eq_iff_of_entries hproper hentries htab hitem htab' hitem',
      ← mem_arrange_together_iff harrange (hmem htab more) (hmem htab' more)]
    simp only [Together, List.mem_map, exists_exists_and_eq_and]

/-- A workspace with a tab list whose groups are null, the text of that, an object twice, a flag,
its number and no value. -/
def mixedGroups : Files.Tree :=
  let tabs : Text := "[\x7b\"path\": \"a\", \"group\": null\x7d, "
    ++ "\x7b\"path\": \"b\", \"group\": \"null\"\x7d, "
    ++ "\x7b\"path\": \"c\", \"group\": \x7b\"x\": [1, true]\x7d\x7d, "
    ++ "\x7b\"path\": \"d\", \"group\": \x7b\"x\":[1,true]\x7d\x7d, "
    ++ "\x7b\"path\": \"e\", \"group\": false\x7d, "
    ++ "\x7b\"path\": \"f\", \"group\": 0\x7d, \"g\"]"
  ⟨[(["tabs.json"], .file (Text.Utf8.encode tabs))]⟩

theorem grouped_by_name_mixed :
    let object : Text := "\x7b\"x\": [1, true]\x7d"
    let tabs : List Tab :=
      [{ path := some "/a", group := .text "null" }, { path := some "/b", group := .text "null" },
        { path := some "/c", group := .text object }, { path := some "/d", group := .text object },
        { path := some "/e", group := .flag false }, { path := some "/f" }, { path := some "/g" }]
    read mixedGroups "/" "tabs.json" "/" = .ok tabs ∧
      ∃ items, Files.readValue mixedGroups "/" (Path.tidy "tabs.json") false =
          .ok (.array items) ∧
        GroupedBy NamesSame items tabs := by
  intro object tabs
  have hread : read mixedGroups "/" "tabs.json" "/" = .ok tabs := by decide +kernel
  exact ⟨hread, grouped_by_name hread⟩

def nullAndText : Files.Tree :=
  let tabs : Text := "[\x7b\"path\": \"a\", \"group\": null\x7d, "
    ++ "\x7b\"path\": \"b\", \"group\": \"null\"\x7d]"
  ⟨[(["tabs.json"], .file (Text.Utf8.encode tabs))]⟩

def writtenGroups : Json → List Text
  | .array items => items.map fun item => (groupValue item).write
  | _ => []

/-- Null and its text make one group, though they are not the same. -/
theorem not_grouped_by_value :
    ∃ items tabs, Files.readValue nullAndText "/" (Path.tidy "tabs.json") false =
        .ok (.array items) ∧
      read nullAndText "/" "tabs.json" "/" = .ok tabs ∧ ¬ GroupedBy Same items tabs := by
  let a : Tab := { path := some "/a", group := .text "null" }
  let b : Tab := { path := some "/b", group := .text "null" }
  have hread : read nullAndText "/" "tabs.json" "/" = .ok [a, b] := by decide +kernel
  have hwritten : (Files.readValue nullAndText "/" (Path.tidy "tabs.json") false).map
      writtenGroups = .ok ["null", "\"null\""] := by decide +kernel
  obtain ⟨items, hitems, hproper, -⟩ := exists_items_of_read hread
  refine ⟨items, [a, b], hitems, hread, fun hgrouped => ?_⟩
  rw [hitems] at hwritten
  obtain ⟨first, second, rfl⟩ := List.length_eq_two.mp hgrouped.length_eq.symm
  have hvalues : (groupValue first).write = "null" ∧ (groupValue second).write = "\"null\"" := by
    simpa [Except.map, writtenGroups] using hwritten
  have hjoined : Json.IsJoined "null" := by
    unfold Json.IsJoined
    decide
  have hfirst : groupValue first = .null :=
    (Json.write_inj (isProper_groupValue (hproper first (by simp))) .null).mp hvalues.1
  have hsecond : groupValue second = .text "null" :=
    (Json.write_inj (isProper_groupValue (hproper second (by simp))) (.text hjoined)).mp
      (hvalues.2.trans (by decide))
  have htogether : Together ((groupTabs [a, b]).map Prod.snd) a b := by
    unfold Together
    decide
  have hsame := (hgrouped.grouped 0 1 a b first second rfl rfl rfl rfl []).mp htogether
  rw [hfirst, hsecond] at hsame
  cases hsame

end TabList

end EditorTabs
