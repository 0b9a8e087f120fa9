import Mathlib.Data.List.Chain
import Mathlib.Data.List.TakeWhile
import Eligibility.Rule.Basic
import Eligibility.Proofs.Token.Case

/-!
# Rule codes

The code of a name is made of the runs of ASCII letters and digits in the name. They can be told
from the code up to letter case, and nothing else of the name can.

* `runs`, `AreRuns`: the maximal runs of characters with a property;
* `runs_append`, **`runs_intercalate`**: runs that another character sets off are found again;
* `Parted`, `parted_intercalate`: that character stands between runs alone;
* `codeChars_eq`, `ruleCode_eq`, `codeRuns_ruleCode`: a code is its runs, joined;
* **`ruleCode_canonical`**.
-/

namespace Eligibility

open Text

/-! ## Runs -/

section Runs

variable {p : Char → Bool} {sep : Char} {r cs : List Char} {rs : List (List Char)}

/-- The maximal runs of characters with a property. -/
def runs (p : Char → Bool) : List Char → List (List Char)
  | [] => []
  | c :: cs => if p c then (c :: cs.takeWhile p) :: runs p (cs.dropWhile p) else runs p cs
termination_by cs => cs.length
decreasing_by
  · exact Nat.lt_succ_of_le (List.dropWhile_sublist p).length_le
  · exact Nat.lt_succ_self _

@[simp]
theorem runs_nil : runs p [] = [] := by
  rw [runs]

theorem runs_cons_of_not {c : Char} (h : p c = false) (cs : List Char) :
    runs p (c :: cs) = runs p cs := by
  rw [runs, h]
  rfl

theorem runs_append (hne : r ≠ []) (hr : ∀ c ∈ r, p c = true) (hcs : cs.head?.any p = false) :
    runs p (r ++ cs) = r :: runs p cs := by
  obtain ⟨c, r, rfl⟩ := List.exists_cons_of_ne_nil hne
  obtain ⟨hc, hr⟩ := List.forall_mem_cons.1 hr
  have hstop : cs.takeWhile p = [] ∧ cs.dropWhile p = cs := by
    cases cs with
    | nil => exact ⟨rfl, rfl⟩
    | cons d ds =>
      have hd : p d = false := hcs
      simp [hd]
  rw [List.cons_append, runs, if_pos hc, List.takeWhile_append_of_pos hr,
    List.dropWhile_append_of_pos hr, hstop.1, hstop.2, List.append_nil]

theorem head?_dropWhile (cs : List Char) : (cs.dropWhile p).head?.any p = false := by
  have h := List.head?_dropWhile_not p cs
  cases hd : (cs.dropWhile p).head? with
  | none => rfl
  | some d => simpa [hd] using h

/-- Non-empty lists of characters with a property. -/
def AreRuns (p : Char → Bool) (rs : List (List Char)) : Prop :=
  ∀ r ∈ rs, r ≠ [] ∧ ∀ c ∈ r, p c = true

theorem areRuns_runs (p : Char → Bool) (cs : List Char) : AreRuns p (runs p cs) := by
  fun_induction runs p cs with
  | case1 => exact List.forall_mem_nil _
  | case2 c cs hc ih =>
    exact List.forall_mem_cons.2
      ⟨⟨nofun, List.forall_mem_cons.2 ⟨hc, fun _ => List.mem_takeWhile_imp⟩⟩, ih⟩
  | case3 c cs hc ih => exact ih

theorem AreRuns.map {f : Char → Char} (h : AreRuns p rs) (hf : ∀ c, p (f c) = p c) :
    AreRuns p (rs.map (List.map f)) := by
  refine List.forall_mem_map.2 fun r hr => ⟨?_, List.forall_mem_map.2 fun c hc => ?_⟩
  · simpa using (h r hr).1
  · rw [hf]
    exact (h r hr).2 c hc

/-! ## Runs that a character sets off -/

theorem intercalate_cons (sep : Char) (r : List Char) (rs : List (List Char)) :
    List.intercalate [sep] (r :: rs) = r ++ rs.flatMap (sep :: ·) := by
  induction rs generalizing r with
  | nil => simp
  | cons q qs ih =>
    rw [List.intercalate_cons_cons, ih, List.flatMap_cons, List.append_assoc]
    rfl

/-- **Runs that another character sets off are found again.** -/
theorem runs_intercalate (h : AreRuns p rs) (hsep : p sep = false) :
    runs p (List.intercalate [sep] rs) = rs := by
  induction rs with
  | nil => exact runs_nil
  | cons r rs ih =>
    obtain ⟨⟨hne, hr⟩, hrs⟩ := List.forall_mem_cons.1 h
    cases rs with
    | nil =>
      have hnil : ([] : List Char).head?.any p = false := rfl
      simpa using runs_append hne hr hnil
    | cons q qs =>
      have hstop : (sep :: List.intercalate [sep] (q :: qs)).head?.any p = false := hsep
      rw [List.intercalate_cons_cons, List.append_assoc, List.singleton_append,
        runs_append hne hr hstop, runs_cons_of_not hsep, ih hrs]

/-- A character stands at neither end of a text, and nowhere twice in a row. -/
structure Parted (sep : Char) (cs : List Char) : Prop where
  start : cs.head? ≠ some sep
  finish : cs.getLast? ≠ some sep
  single : ¬ [sep, sep] <:+: cs

theorem parted_intercalate (h : AreRuns p rs) (hsep : p sep = false) :
    Parted sep (List.intercalate [sep] rs) := by
  have hne {c : Char} (hc : p c = true) : c ≠ sep := by
    rintro rfl
    exact absurd (hsep.symm.trans hc) nofun
  -- That no neighbours are both the separator passes on to the parts of the text.
  suffices hparted : (List.intercalate [sep] rs).head? ≠ some sep ∧
      (List.intercalate [sep] rs).getLast? ≠ some sep ∧
      (List.intercalate [sep] rs).IsChain fun a b => a = sep → b ≠ sep by
    obtain ⟨hstart, hfinish, hchain⟩ := hparted
    exact ⟨hstart, hfinish, fun hinfix => by simpa using hchain.infix hinfix⟩
  induction rs with
  | nil => simp
  | cons r rs ih =>
    obtain ⟨⟨hnil, hr⟩, hrs⟩ := List.forall_mem_cons.1 h
    have hhead : r.head? ≠ some sep := fun he => hne (hr _ (List.mem_of_mem_head? he)) rfl
    have hlast : r.getLast? ≠ some sep := fun he => hne (hr _ (List.mem_of_getLast? he)) rfl
    have hchain : r.IsChain fun a b => a = sep → b ≠ sep :=
      (List.pairwise_of_forall_mem_list fun a ha b _ e => absurd e (hne (hr a ha))).isChain
    cases rs with
    | nil => simpa using ⟨hhead, hlast, hchain⟩
    | cons q qs =>
      obtain ⟨ihhead, ihlast, ihchain⟩ := ih hrs
      have hrest : List.intercalate [sep] (q :: qs) ≠ [] := by
        rw [intercalate_cons]
        exact List.append_ne_nil_of_left_ne_nil (hrs q List.mem_cons_self).1 _
      rw [List.intercalate_cons_cons, List.append_assoc, List.singleton_append]
      refine ⟨by rwa [List.head?_append_of_ne_nil _ hnil], ?_, ?_⟩
      · rwa [List.getLast?_append_cons, List.getLast?_cons_of_ne_nil hrest]
      · have hgap : (sep :: List.intercalate [sep] (q :: qs)).IsChain
            fun a b => a = sep → b ≠ sep :=
          List.isChain_cons.2 ⟨fun _ hy _ he => ihhead (he ▸ hy), ihchain⟩
        exact List.isChain_append.2 ⟨hchain, hgap, fun _ hx _ _ he => absurd (he ▸ hx) hlast⟩

end Runs

/-! ## The runs of a code -/

theorem caseless_isCodeChar : Caseless isCodeChar := caseless_of_ascii (by decide +kernel)

/-- The runs of ASCII letters and digits in a name. -/
def codeRuns (name : String) : List String :=
  (runs isCodeChar name.toList).map String.ofList

/-- Within a run nothing is written but the run. -/
theorem codeChars_append {r : List Char} (hr : ∀ c ∈ r, isCodeChar c = true) (cs : List Char) :
    codeChars true false (r ++ cs) = r.map Char.toUpper ++ codeChars true false cs := by
  induction r with
  | nil => rfl
  | cons c r ih =>
    obtain ⟨hc, hr⟩ := List.forall_mem_cons.1 hr
    simp [codeChars, hc, ih hr]

/-- Behind a run an underscore is due as soon as something else follows it. -/
theorem codeChars_stop {cs : List Char} (h : cs.head?.any isCodeChar = false) :
    codeChars true false cs = codeChars true true cs := by
  cases cs with
  | nil => rfl
  | cons c cs =>
    have hc : isCodeChar c = false := h
    simp [codeChars, hc]

theorem codeChars_run (c : Char) (cs : List Char) :
    c.toUpper :: codeChars true false cs =
      (c :: cs.takeWhile isCodeChar).map Char.toUpper ++
        codeChars true true (cs.dropWhile isCodeChar) := by
  conv => lhs; rw [← List.takeWhile_append_dropWhile (p := isCodeChar) (l := cs)]
  rw [codeChars_append fun _ => List.mem_takeWhile_imp, codeChars_stop (head?_dropWhile cs)]
  rfl

/-- A code that has been begun goes on with an underscore before every run. -/
theorem codeChars_begun (cs : List Char) :
    codeChars true true cs =
      (runs isCodeChar cs).flatMap fun r => '_' :: r.map Char.toUpper := by
  fun_induction runs isCodeChar cs with
  | case1 => rfl
  | case2 c cs hc ih =>
    rw [codeChars, if_pos hc, codeChars_run, ih]
    rfl
  | case3 c cs hc ih =>
    rw [codeChars, if_neg hc, ih]

theorem codeChars_eq (pending : Bool) (cs : List Char) :
    codeChars false pending cs =
      List.intercalate ['_'] ((runs isCodeChar cs).map (List.map Char.toUpper)) := by
  induction cs generalizing pending with
  | nil => simp [codeChars]
  | cons c cs ih =>
    by_cases hc : isCodeChar c = true
    · rw [codeChars, if_pos hc, codeChars_run, codeChars_begun, runs, if_pos hc]
      show _ = List.intercalate ['_'] (List.map _ _ :: List.map _ _)
      rw [intercalate_cons, List.flatMap_map]
      rfl
    · rw [codeChars, if_neg hc, ih, runs, if_neg hc]

theorem ruleCode_eq (name : String) :
    ruleCode name = "_".intercalate ((codeRuns name).map upper) := by
  rw [← String.toList_inj, String.toList_intercalate, ruleCode, String.toList_ofList, codeChars_eq,
    codeRuns, List.map_map, List.map_map]
  congr 1
  refine List.map_congr_left fun r _ => ?_
  simp [upper]

/-- **The runs of a code are those of the name,** in upper case. -/
theorem codeRuns_ruleCode (name : String) :
    codeRuns (ruleCode name) = (codeRuns name).map upper := by
  have hruns := (areRuns_runs isCodeChar name.toList).map caseless_isCodeChar
  rw [codeRuns, ruleCode, String.toList_ofList, codeChars_eq, runs_intercalate hruns (by decide),
    codeRuns, List.map_map, List.map_map]
  exact List.map_congr_left fun r _ => (upper_ofList r).symm

/-! ## Codes -/

/-- **Rule codes are canonical.** A code is its own code, and two names have one code exactly when
they have the same runs up to letter case. -/
theorem ruleCode_canonical (name : String) :
    ruleCode name = "_".intercalate ((codeRuns name).map upper) ∧
    Parted '_' (ruleCode name).toList ∧
    ruleCode (ruleCode name) = ruleCode name ∧
    ∀ other, ruleCode name = ruleCode other ↔
      (codeRuns name).map upper = (codeRuns other).map upper := by
  refine ⟨ruleCode_eq name, ?_, ?_, fun other => ⟨fun h => ?_, fun h => ?_⟩⟩
  · rw [ruleCode, String.toList_ofList, codeChars_eq]
    exact parted_intercalate ((areRuns_runs _ _).map caseless_isCodeChar) (by decide)
  · have hupper : upper ∘ upper = upper := funext upper_upper
    rw [ruleCode_eq, codeRuns_ruleCode, List.map_map, hupper, ← ruleCode_eq]
  · rw [← codeRuns_ruleCode, h, codeRuns_ruleCode]
  · rw [ruleCode_eq, h, ← ruleCode_eq]

end Eligibility
