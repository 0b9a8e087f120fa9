import Eligibility.Proofs.Ruleset.Clauses
import Eligibility.Proofs.Ruleset.Counts
import Eligibility.Proofs.Script.Lines

/-!
# Whole numbers from scripts to SQL

A score, an order or a weight is read through a binary64 number. A 64-bit integer survives this if
53 significant bits hold it; from there on nothing is lost.

* `IntegerClause`, `IntegerClause.line`: the clauses that write a 64-bit integer;
* `Sign.reads`, `Sign.Keeps`, **`Sign.reads_eq_iff`**: what is read, and which integers survive;
* `compile_scores`: the score of a compiled bonus rule;
* **`blockText_integer`**: from the text of a block to the SQL of its score;
* `score_rounded`: a score that does not survive.
-/

namespace Eligibility

/-! ## Signs -/

theorem toInt_negateSaturated {n : Int64} :
    (negateSaturated n).toInt = min (-n.toInt) (2 ^ 63 - 1) := by
  have hlow := n.le_toInt
  have hhigh := n.toInt_lt
  by_cases h : n = .minValue
  · subst h
    decide
  · have hne : n.toInt ≠ -2 ^ 63 := fun he => h (Int64.toInt_inj.1 he)
    rw [negateSaturated, if_neg h, Int64.toInt_neg, Int.bmod_eq_of_le (by omega) (by omega)]
    omega

namespace Sign

/-- The whole number that stands after the sign. -/
def written : Sign → Int64 → Int
  | none, n | plus, n => n.toInt
  | minus, n => -n.toInt

/-- What is read for a 64-bit integer. -/
def reads (sign : Sign) (n : Int64) : Int64 := sign.apply (kept (sign.written n))

/-- A 64-bit integer survives behind the sign: 53 significant bits hold it, or it is so close to an
end of the range that rounding and holding give it back. The least integer does not survive a
separate minus, for its opposite is none. -/
def Keeps : Sign → Int64 → Prop
  | none, n | plus, n => 2 ^ excess n.toInt.natAbs ∣ n.toInt.natAbs ∨ n = .maxValue
  | minus, n =>
    2 ^ excess n.toInt.natAbs ∣ n.toInt.natAbs ∧ n ≠ .minValue ∨ n.toInt.natAbs = 2 ^ 63 - 1

instance (sign : Sign) (n : Int64) : Decidable (sign.Keeps n) :=
  match sign with
  | none | plus => inferInstanceAs (Decidable (_ ∨ _))
  | minus => inferInstanceAs (Decidable (_ ∧ _ ∨ _))

/-- A separate minus gives the number back unless the opposite number is rounded or held. -/
theorem reads_minus_eq_iff (n : Int64) : minus.reads n = n ↔ minus.Keeps n := by
  have hlow := n.le_toInt
  have hhigh := n.toInt_lt
  have hmin : n = .minValue ↔ n.toInt = -2 ^ 63 := by
    rw [← Int64.toInt_inj, Int64.toInt_minValue]
  have hlimit := significant_limit (n := n.toInt.natAbs)
  rw [Keeps, Ne, hmin, ← significant_eq_iff, ← Int64.toInt_inj, reads, apply, toInt_negateSaturated,
    written, kept, toInt_held, Int.natAbs_neg]
  by_cases h : -n.toInt < 0
  · rw [decide_eq_true h, if_pos rfl]
    omega
  · rw [decide_eq_false h, if_neg Bool.false_ne_true]
    omega

/-- **Which 64-bit integers survive.** -/
theorem reads_eq_iff (sign : Sign) (n : Int64) : sign.reads n = n ↔ sign.Keeps n := by
  cases sign with
  | minus => exact reads_minus_eq_iff n
  | _ => exact kept_eq_iff n

end Sign

/-! ## Clauses -/

/-- The clauses that write a 64-bit integer, a score with the sign that stands by itself. -/
inductive IntegerClause where
  | score (sign : Sign)
  | order
  | weight
  deriving DecidableEq

namespace IntegerClause

def sign : IntegerClause → Sign
  | score sign => sign
  | order | weight => .none

def line (n : Int64) : IntegerClause → Line
  | score sign => .score sign (sign.written n)
  | order => .order n.toInt
  | weight => .weight n.toInt

/-- The part of a rule that the clause sets. -/
def part : IntegerClause → Rule → Option Int64
  | score _ => Rule.score
  | order => Rule.order
  | weight => Rule.weight

variable (c : IntegerClause) {n : Int64}

theorem setBy_part : SetBy (c.line n).clause c.part := by
  intro r s hs
  -- a setting with another keyword sets another part
  cases c with
  | _ =>
    cases s with
    | _ => first | rfl | exact absurd rfl hs

theorem part_apply {s : Setting} (h : (c.line n).Sets s) (r : Rule) :
    c.part (s.apply r) = some (c.sign.reads n) := by
  cases c with
  | _ =>
    obtain rfl := h
    rfl

end IntegerClause

/-! ## Scores -/

section Compile

variable {m : Mapping} (rules : List Rule) (code scope : String)

theorem selectExpression_plan {r : Rule} (hr : r.ruleType = .bonus) {n : Int64}
    (hn : r.score = some n) :
    (r.plan m).compiled.selectExpression =
      "CASE WHEN " ++ (r.plan m).compiled.whereClause ++ " THEN " ++ toString n.toInt ++
        " ELSE 0 END" := by
  have hyields : (r.plan m).yields = n := by
    rw [RulePlan.yields, Rule.rule_plan, if_pos hr, hn]
    rfl
  rw [RulePlan.compiled, RulePlan.case, Sql.Case.text, hyields]

theorem compile_scores (h : m.check = .ok ()) (n : Int64) :
    ∃ rs, compile rules code scope m = .ok rs ∧
      List.Forall₂ (fun (r : Rule) (q : CompiledRule) =>
        r.ruleType = .bonus → r.score = some n →
          q.selectExpression =
            "CASE WHEN " ++ q.whereClause ++ " THEN " ++ toString n.toInt ++ " ELSE 0 END")
        rules rs.rules := by
  refine ⟨_, compile_of_check rules code scope h, ?_⟩
  have hrules : (assemble code scope m (rules.map (Rule.plan m))).rules =
      rules.map fun r => (r.plan m).compiled := List.map_map
  rw [hrules, List.forall₂_map_right_iff, List.forall₂_same]
  exact fun r _ hr hn => selectExpression_plan hr hn

end Compile

/-- **Whole numbers from scripts to SQL.** What is read is what the sign and 53 significant bits
leave of the number that is written; the SQL of a bonus rule has its score in full. -/
theorem blockText_integer (c : IntegerClause) (n : Int64) {name : String}
    (hname : IsQuotable name.toList) {before after : List Line}
    (hlines : ∀ l ∈ before ++ c.line n :: after, l.IsWritable)
    (hlast : ∀ l ∈ after, l.clause ≠ (c.line n).clause) :
    (∃ r, (Report.ofText (blockText name (before ++ c.line n :: after))).outcome = .ok [r] ∧
      c.part r = some (c.sign.reads n)) ∧
    (c.sign.reads n = n ↔ c.sign.Keeps n) ∧
    ∀ (rules : List Rule) (code scope : String) {m : Mapping}, m.check = .ok () →
      ∃ rs, compile rules code scope m = .ok rs ∧
        List.Forall₂ (fun (r : Rule) (q : CompiledRule) =>
          r.ruleType = .bonus → r.score = some n →
            q.selectExpression =
              "CASE WHEN " ++ q.whereClause ++ " THEN " ++ toString n.toInt ++ " ELSE 0 END")
          rules rs.rules := by
  refine ⟨?_, c.sign.reads_eq_iff n, fun rules code scope _ hm =>
    compile_scores rules code scope hm n⟩
  obtain ⟨ss, first, last, hsets, hreport⟩ := ofText_blockText hname hlines
  obtain ⟨s, r, hs, hpart⟩ := c.setBy_part.applyAll_last hsets hlast (Rule.named name)
  refine ⟨_, hreport, ?_⟩
  have hplaced : c.part { (Rule.named name).applyAll ss with startLine := first, endLine := last } =
      c.part ((Rule.named name).applyAll ss) := by
    cases c <;> rfl
  rw [hplaced, hpart, c.part_apply hs]

theorem herd_blockText_integer :
    (∃ r, (Report.ofText "RULE \"Herd\"\nTYPE: BONUS\nSCORE: - 40").outcome = .ok [r] ∧
      r.score = some (-40)) ∧
    ∃ rs, compile [{ Rule.named "Herd" with ruleType := .bonus, score := some (-40) }] "HERD"
        "HERDERS" herdMapping = .ok rs ∧
      ∀ q ∈ rs.rules, q.selectExpression =
        "CASE WHEN " ++ q.whereClause ++ " THEN " ++ "-40" ++ " ELSE 0 END" := by
  have hname : IsQuotable "Herd".toList := by decide
  have hlines : ∀ l ∈ [.ruleType .bonus] ++ (IntegerClause.score .minus).line (-40) :: [],
      l.IsWritable := by decide
  obtain ⟨⟨r, hr, hscore⟩, hkeeps, hsql⟩ :=
    blockText_integer (.score .minus) (-40) hname hlines nofun
  refine ⟨⟨r, hr, hscore.trans (congrArg some (hkeeps.2 (by decide +kernel)))⟩, ?_⟩
  obtain ⟨rs, hrs, hall⟩ := hsql
    [{ Rule.named "Herd" with ruleType := .bonus, score := some (-40) }] "HERD" "HERDERS"
    herdMapping_usable.check
  obtain ⟨q, qs, hq, hqs, hrules⟩ := List.forall₂_cons_left_iff.1 hall
  obtain rfl := List.forall₂_nil_left_iff.1 hqs
  have hnumber : toString (-40 : Int64).toInt = "-40" := by decide +kernel
  rw [hnumber] at hq
  refine ⟨rs, hrs, ?_⟩
  rw [hrules]
  exact List.forall_mem_singleton.2 (hq rfl rfl)

/-- 2⁵³ + 1 is read as its neighbour. -/
theorem score_rounded :
    (Report.ofText "RULE \"R\"\nSCORE: 9007199254740993").outcome.map (·.map (·.score)) =
      .ok [some 9007199254740992] := by
  decide +kernel

end Eligibility
