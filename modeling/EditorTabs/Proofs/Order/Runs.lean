import EditorTabs.Proofs.Order.Natural
import Mathlib.Data.List.TakeWhile
import Mathlib.Data.Nat.Digits.Defs

/-!
# Runs of digits in a name

A name falls into longest runs of decimal digits and of other characters. It has a key when no run
of decimal digits is too long and no other run is one of digits alone. Decimal digits between other
characters are compared as the number they denote.
-/
namespace EditorTabs.Order

open Text (isDecimal isOtherDigit decimalValue?)

/-- A part of a name that is as long as it can be, of decimal digits or of other characters. -/
structure IsRun (decimal : Bool) (front run back : Text) : Prop where
  ne_nil : run ≠ []
  isDecimal_eq : ∀ c ∈ run, isDecimal c = decimal
  front_ne : ∀ c ∈ front.getLast?, isDecimal c ≠ decimal
  back_ne : ∀ c ∈ back.head?, isDecimal c ≠ decimal

theorem runs_ne_nil {name : Text} (h : name ≠ []) : runs name ≠ [] := by
  obtain ⟨c, rest, rfl⟩ := List.exists_cons_of_ne_nil h
  rw [runs]
  split
  · simp
  · split <;> simp

theorem head?_runs (name : Text) : (runs name).head?.map Prod.fst = name.head?.map isDecimal := by
  cases name with
  | nil => rfl
  | cons c rest =>
    rw [runs]
    split
    · rfl
    · split
      · next h => simp [h]
      · rfl

/-- Texts one after the other have the runs of each, where the sort of characters changes between
them. -/
theorem runs_append {front back : Text}
    (h : ∀ c ∈ front.getLast?, ∀ d ∈ back.head?, isDecimal c ≠ isDecimal d) :
    runs (front ++ back) = runs front ++ runs back := by
  induction front with
  | nil => rfl
  | cons c front ih =>
    cases front with
    | nil =>
      rw [List.singleton_append, runs]
      cases hruns : runs back with
      | nil => rfl
      | cons run others =>
        obtain ⟨decimal, run⟩ := run
        have hhead := head?_runs back
        rw [hruns] at hhead
        cases back with
        | nil => simp at hhead
        | cons d back =>
          have hne : isDecimal c ≠ isDecimal d := h c (by simp) d (by simp)
          have hdecimal : decimal = isDecimal d := by simpa using hhead
          simp only [runs]
          rw [if_neg (by rw [hdecimal]; exact hne.symm)]
          rfl
    | cons d front =>
      have ih' := ih fun c hc => h c (by simpa [List.getLast?_cons_cons] using hc)
      rw [List.cons_append, runs.eq_2 c, ih', runs.eq_2 c]
      cases hruns : runs (d :: front) with
      | nil => exact absurd hruns (runs_ne_nil (by simp))
      | cons run others =>
        simp only [List.cons_append]
        split <;> rfl

theorem runs_of_isDecimal_eq {decimal : Bool} {run : Text} (hne : run ≠ [])
    (h : ∀ c ∈ run, isDecimal c = decimal) : runs run = [(decimal, run)] := by
  induction run with
  | nil => exact absurd rfl hne
  | cons c run ih =>
    have hc : isDecimal c = decimal := h c (by simp)
    rw [runs]
    cases run with
    | nil => simp [runs, hc]
    | cons d run => simp [ih (by simp) fun d hd => h d (by simp [hd]), hc]

theorem IsRun.runs_eq {decimal : Bool} {front run back : Text} (h : IsRun decimal front run back) :
    runs (front ++ run ++ back) = runs front ++ (decimal, run) :: runs back := by
  have hback : ∀ c ∈ (front ++ run).getLast?, ∀ d ∈ back.head?, isDecimal c ≠ isDecimal d := by
    intro c hc d hd
    rw [List.getLast?_append_of_ne_nil _ h.ne_nil] at hc
    rw [h.isDecimal_eq c (List.mem_of_mem_getLast? hc)]
    exact (h.back_ne d hd).symm
  have hfront : ∀ c ∈ front.getLast?, ∀ d ∈ run.head?, isDecimal c ≠ isDecimal d := by
    intro c hc d hd
    rw [h.isDecimal_eq d (List.mem_of_mem_head? hd)]
    exact h.front_ne c hc
  rw [runs_append hback, runs_append hfront, runs_of_isDecimal_eq h.ne_nil h.isDecimal_eq,
    List.append_assoc, List.singleton_append]

theorem exists_run_append {name : Text} (hne : name ≠ []) :
    ∃ decimal run back, name = run ++ back ∧ IsRun decimal [] run back := by
  obtain ⟨c, rest, rfl⟩ := List.exists_cons_of_ne_nil hne
  refine ⟨isDecimal c, c :: rest.takeWhile (isDecimal · = isDecimal c),
    rest.dropWhile (isDecimal · = isDecimal c), by simp, by simp, fun d hd => ?_, by simp,
    fun d hd => ?_⟩
  · rcases List.mem_cons.mp hd with rfl | hd
    · rfl
    · simpa using List.mem_takeWhile_imp hd
  · simpa [Option.mem_def.mp hd] using List.head?_dropWhile_not (isDecimal · = isDecimal c) rest

theorem exists_isRun_of_mem_runs {name run : Text} {decimal : Bool}
    (h : (decimal, run) ∈ runs name) :
    ∃ front back, name = front ++ run ++ back ∧ IsRun decimal front run back := by
  induction hlength : name.length using Nat.strong_induction_on generalizing name with
  | _ length ih =>
    have hne : name ≠ [] := by
      rintro rfl
      simp [runs] at h
    obtain ⟨decimal', first, rest, rfl, hfirst⟩ := exists_run_append hne
    have hruns := hfirst.runs_eq
    rw [List.nil_append] at hruns
    rw [hruns, runs, List.nil_append, List.mem_cons] at h
    rcases h with heq | h
    · cases heq
      exact ⟨[], rest, by simp, hfirst⟩
    have hshorter : rest.length < length := by
      have := List.length_pos_of_ne_nil hfirst.ne_nil
      rw [← hlength, List.length_append]
      omega
    obtain ⟨front, back, rfl, hrun⟩ := ih _ hshorter h rfl
    refine ⟨first ++ front, back, by simp, hrun.ne_nil, hrun.isDecimal_eq, fun c hc => ?_,
      hrun.back_ne⟩
    cases front with
    | cons d front =>
      rw [List.getLast?_append_of_ne_nil _ (by simp)] at hc
      exact hrun.front_ne c hc
    | nil =>
      -- The run follows the first one, whose characters are of the other sort.
      rw [List.append_nil] at hc
      obtain ⟨d, run, rfl⟩ := List.exists_cons_of_ne_nil hrun.ne_nil
      rw [hfirst.isDecimal_eq c (List.mem_of_mem_getLast? hc)]
      rw [← hrun.isDecimal_eq d (by simp)]
      exact (hfirst.back_ne d (by simp)).symm

theorem mem_runs_iff {name run : Text} {decimal : Bool} :
    (decimal, run) ∈ runs name ↔
      ∃ front back, name = front ++ run ++ back ∧ IsRun decimal front run back := by
  refine ⟨exists_isRun_of_mem_runs, ?_⟩
  rintro ⟨front, back, rfl, h⟩
  rw [h.runs_eq]
  simp

theorem parts_cons_eq_ok_iff {run : Bool × Text} {rest : List (Bool × Text)} {key : List Part} :
    parts (run :: rest) = .ok key ↔
      ∃ first others, part run.1 run.2 = .ok first ∧ parts rest = .ok others ∧
        first :: others = key := by
  rw [parts]
  cases part run.1 run.2 with
  | error fault => simp
  | ok first => cases parts rest <;> simp

theorem parts_append_eq_ok_iff {front back : List (Bool × Text)} {key : List Part} :
    parts (front ++ back) = .ok key ↔
      ∃ keyF keyB, parts front = .ok keyF ∧ parts back = .ok keyB ∧ keyF ++ keyB = key := by
  induction front generalizing key with
  | nil => simp [parts]
  | cons run rest ih =>
    simp only [List.cons_append, parts_cons_eq_ok_iff, ih]
    constructor
    · rintro ⟨first, _, hfirst, ⟨keyF, keyB, hfront, hback, rfl⟩, rfl⟩
      exact ⟨first :: keyF, keyB, ⟨first, keyF, hfirst, hfront, rfl⟩, hback, rfl⟩
    · rintro ⟨_, keyB, ⟨first, keyF, hfirst, hfront, rfl⟩, hback, rfl⟩
      exact ⟨first, keyF ++ keyB, hfirst, ⟨keyF, keyB, hfront, hback, rfl⟩, rfl⟩

theorem exists_parts_iff {runs : List (Bool × Text)} :
    (∃ key, parts runs = .ok key) ↔ ∀ run ∈ runs, ∃ first, part run.1 run.2 = .ok first := by
  induction runs with
  | nil => simp [parts]
  | cons run rest ih =>
    rw [List.forall_mem_cons, ← ih]
    constructor
    · rintro ⟨key, hkey⟩
      obtain ⟨first, others, hfirst, hothers, -⟩ := parts_cons_eq_ok_iff.mp hkey
      exact ⟨⟨first, hfirst⟩, others, hothers⟩
    · rintro ⟨⟨first, hfirst⟩, others, hothers⟩
      exact ⟨first :: others, parts_cons_eq_ok_iff.mpr ⟨first, others, hfirst, hothers, rfl⟩⟩

theorem exists_part_true_iff {run : Text} :
    (∃ first, part true run = .ok first) ↔ run.length ≤ Json.digitLimit := by
  by_cases h : Json.digitLimit < run.length
  · simp [part, h]
  · simp [part, h, Nat.le_of_not_lt h]

theorem exists_part_false_iff {run : Text} :
    (∃ first, part false run = .ok first) ↔ ∃ c ∈ run, isOtherDigit c = false := by
  by_cases h : run.all isOtherDigit = true
  · have hall : ∀ c ∈ run, isOtherDigit c = true := List.all_eq_true.mp h
    simp +contextual [part, hall]
  · have hsome : ∃ c ∈ run, isOtherDigit c = false := by simpa using h
    simp [part, h, hsome]

/-- Which names have a key. -/
theorem hasKey_iff {name : Text} :
    HasKey name ↔ ∀ front run back, name = front ++ run ++ back →
      (IsRun true front run back → run.length ≤ Json.digitLimit) ∧
        (IsRun false front run back → ∃ c ∈ run, isOtherDigit c = false) := by
  rw [HasKey, naturalKey, exists_parts_iff]
  constructor
  · intro h front run back hname
    exact ⟨fun hrun => exists_part_true_iff.mp
        (h (true, run) (mem_runs_iff.mpr ⟨front, back, hname, hrun⟩)),
      fun hrun => exists_part_false_iff.mp
        (h (false, run) (mem_runs_iff.mpr ⟨front, back, hname, hrun⟩))⟩
  · rintro h ⟨decimal, run⟩ hmem
    obtain ⟨front, back, hname, hrun⟩ := mem_runs_iff.mp hmem
    cases decimal with
    | true => exact exists_part_true_iff.mpr ((h front run back hname).1 hrun)
    | false => exact exists_part_false_iff.mpr ((h front run back hname).2 hrun)

/-- A name with digits that are not decimal alone between decimal digits, or at an end. -/
def HoldsLoneDigits (name : Text) : Prop :=
  ∃ front run back, name = front ++ run ++ back ∧ IsRun false front run back ∧
    ∀ c ∈ run, isOtherDigit c = true

theorem hasKey_iff_of_length_le {name : Text} (h : name.length ≤ Json.digitLimit) :
    HasKey name ↔ ¬ HoldsLoneDigits name := by
  rw [hasKey_iff]
  constructor
  · rintro hkey ⟨front, run, back, hname, hrun, hdigits⟩
    obtain ⟨c, hc, hother⟩ := (hkey front run back hname).2 hrun
    rw [hdigits c hc] at hother
    cases hother
  · intro hlone front run back hname
    refine ⟨fun _ => ?_, fun hrun => ?_⟩
    · refine Nat.le_trans ?_ h
      rw [hname, List.length_append, List.length_append]
      omega
    · by_contra hnone
      refine hlone ⟨front, run, back, hname, hrun, fun c hc => ?_⟩
      by_contra hother
      exact hnone ⟨c, hc, by simpa using hother⟩

/-- Decimal digits, of whatever scripts and with whatever zeros ahead, that denote a number. -/
def Denotes (ds : Text) (n : Nat) : Prop :=
  ds ≠ [] ∧ ∃ values : List Nat, ds.map decimalValue? = values.map some ∧
    n = Nat.ofDigits 10 values.reverse

theorem decimalNumber_eq_foldl {ds : Text} {values : List Nat}
    (h : ds.map decimalValue? = values.map some) :
    decimalNumber ds = values.foldl (fun n v => n * 10 + v) 0 := by
  have hvalues : values = (ds.map decimalValue?).map (·.getD 0) := by simp [h]
  rw [decimalNumber, hvalues, List.map_map, List.foldl_map]
  rfl

theorem Denotes.decimalNumber_eq {ds : Text} {n : Nat} (h : Denotes ds n) :
    decimalNumber ds = n := by
  obtain ⟨-, values, hvalues, rfl⟩ := h
  rw [decimalNumber_eq_foldl hvalues, Nat.ofDigits_eq_foldr, List.foldr_reverse]
  congr 1
  funext n v
  simp only [Nat.cast_id]
  omega

theorem Denotes.isDecimal_eq {ds : Text} {n : Nat} (h : Denotes ds n) :
    ∀ d ∈ ds, isDecimal d = true := by
  obtain ⟨-, values, hvalues, -⟩ := h
  intro d hd
  have hmem : decimalValue? d ∈ values.map some := hvalues ▸ List.mem_map_of_mem hd
  obtain ⟨value, -, hvalue⟩ := List.mem_map.mp hmem
  rw [isDecimal, ← hvalue, Option.isSome_some]

theorem Denotes.exists_naturalKey {front ds back : Text} {n : Nat} (h : Denotes ds n)
    (hfront : ∀ c ∈ front.getLast?, isDecimal c = false)
    (hback : ∀ c ∈ back.head?, isDecimal c = false) (hkey : HasKey (front ++ ds ++ back)) :
    ∃ keyF keyB, naturalKey front = .ok keyF ∧
      naturalKey (front ++ ds ++ back) = .ok (keyF ++ .number n :: keyB) := by
  have hrun : IsRun true front ds back :=
    ⟨h.1, h.isDecimal_eq, fun c hc => by simp [hfront c hc], fun c hc => by simp [hback c hc]⟩
  obtain ⟨key, hkey⟩ := hkey
  rw [naturalKey, hrun.runs_eq] at hkey
  obtain ⟨keyF, rest, hfront, hrest, rfl⟩ := parts_append_eq_ok_iff.mp hkey
  obtain ⟨first, keyB, hfirst, -, rfl⟩ := parts_cons_eq_ok_iff.mp hrest
  refine ⟨keyF, keyB, hfront, ?_⟩
  rw [naturalKey, hrun.runs_eq, hkey]
  simp only [part, if_true] at hfirst
  split at hfirst
  · cases hfirst
  · cases hfirst
    rw [h.decimalNumber_eq]

theorem compareKeys_append_left (front a b : List Part) :
    compareKeys (front ++ a) (front ++ b) = compareKeys a b := by
  induction front with
  | nil => rfl
  | cons first front ih =>
    have hself : Part.compare first first = .eq := Std.ReflCmp.compare_self
    rw [compareKeys, List.cons_append, List.cons_append, List.compareLex_cons_cons, hself]
    exact ih

/-- Decimal digits between other characters are compared as the numbers they denote. -/
theorem naturalCompare_of_denotes {front ds es s t : Text} {m n : Nat} (hds : Denotes ds m)
    (hes : Denotes es n) (hlt : m < n) (hfront : ∀ c ∈ front.getLast?, isDecimal c = false)
    (hs : ∀ c ∈ s.head?, isDecimal c = false) (ht : ∀ c ∈ t.head?, isDecimal c = false)
    (hkeyS : HasKey (front ++ ds ++ s)) (hkeyT : HasKey (front ++ es ++ t)) :
    naturalCompare (front ++ ds ++ s) (front ++ es ++ t) = .ok .lt := by
  obtain ⟨keyF, keyS, hkeyF, hkeyS⟩ := hds.exists_naturalKey hfront hs hkeyS
  obtain ⟨keyF', keyT, hkeyF', hkeyT⟩ := hes.exists_naturalKey hfront ht hkeyT
  cases hkeyF.symm.trans hkeyF'
  rw [naturalCompare_of_naturalKey hkeyS hkeyT, compareKeys_append_left, compareKeys,
    List.compareLex_cons_cons, Part.compare, Nat.compare_eq_lt.mpr hlt]
  rfl

end EditorTabs.Order
