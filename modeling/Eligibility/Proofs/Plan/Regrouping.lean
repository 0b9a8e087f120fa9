import Eligibility.Proofs.Plan.Agreement

/-!
# Regrouped conditions

The groups of a condition decide where its predicate has parentheses, and nothing else.

* `Text.withoutParens`: a text without its parentheses;
* `Condition.groupless`: a condition without its groups;
* `Condition.withoutParens_groupless`: groups add parentheses;
* **`Condition.predicate_regrouped`**: conditions that differ in their groups have predicates that
  differ in their parentheses.
-/

namespace Eligibility

open Sql (Predicate)

/-! ## Parentheses -/

namespace Text

def isParen (c : Char) : Bool := c == '(' || c == ')'

def withoutParens (s : String) : String := .ofList (s.toList.filter (!isParen ·))

@[simp]
theorem withoutParens_append (s t : String) :
    withoutParens (s ++ t) = withoutParens s ++ withoutParens t := by
  rw [withoutParens, String.toList_append, List.filter_append, String.ofList_append]
  rfl

end Text

open Text (withoutParens withoutParens_append)

namespace Sql.Predicate

theorem text_and (p q : Predicate) : (and p q).text = p.text ++ " AND " ++ q.text := rfl

theorem text_or (p q : Predicate) : (or p q).text = p.text ++ " OR " ++ q.text := rfl

theorem text_not (p : Predicate) : (not p).text = "NOT " ++ p.text := rfl

theorem withoutParens_paren (p : Predicate) :
    withoutParens (paren p).text = withoutParens p.text := by
  have hopen : withoutParens "(" = "" := by decide
  have hclose : withoutParens ")" = "" := by decide
  change withoutParens ("(" ++ p.text ++ ")") = withoutParens p.text
  rw [withoutParens_append, withoutParens_append, hopen, hclose, String.empty_append,
    String.append_empty]

end Sql.Predicate

/-! ## Groups -/

namespace Condition

/-- The condition without its groups. -/
def groupless : Condition → Condition
  | leaf l => leaf l
  | and a b => and a.groupless b.groupless
  | or a b => or a.groupless b.groupless
  | not c => not c.groupless
  | group c => c.groupless

/-- A list comparison is found behind any groups. -/
theorem list?_groupless (c : Condition) : c.groupless.list? = c.list? := by
  induction c with
  | group c ih => exact ih
  | _ => rfl

theorem leaves_groupless (c : Condition) : c.groupless.leaves = c.leaves := by
  induction c with
  | leaf l => rfl
  | and a b iha ihb | or a b iha ihb => rw [groupless, leaves, iha, ihb, leaves]
  | not c ih | group c ih => exact ih

theorem withoutParens_parenIf (b : Bool) (p : Predicate) :
    withoutParens (parenIf b p).text = withoutParens p.text := by
  cases b
  · rfl
  · exact p.withoutParens_paren

/-- **Groups add parentheses** to a predicate, and nothing else. -/
theorem withoutParens_groupless (m : Mapping) (c : Condition) :
    withoutParens (c.groupless.predicate m).text = withoutParens (c.predicate m).text := by
  induction c with
  | leaf l => rfl
  | and a b iha ihb =>
    rw [groupless, predicate, predicate, Predicate.text_and, Predicate.text_and]
    simp only [withoutParens_append, withoutParens_parenIf, iha, ihb]
  | or a b iha ihb =>
    rw [groupless, predicate, predicate, Predicate.text_or, Predicate.text_or]
    simp only [withoutParens_append, iha, ihb]
  | not c ih =>
    rw [groupless, predicate, predicate, list?_groupless]
    cases c.list? with
    | some l => rfl
    | none =>
      dsimp only
      rw [Predicate.text_not, Predicate.text_not]
      simp only [withoutParens_append, withoutParens_parenIf, ih]
  | group c ih => rw [groupless, ih, predicate, Predicate.withoutParens_paren]

end Condition

/-- The compiled rule without the parentheses of its SQL. -/
def CompiledRule.withoutParens (r : CompiledRule) : CompiledRule :=
  { r with
    whereClause := Text.withoutParens r.whereClause
    selectExpression := Text.withoutParens r.selectExpression }

/-- **Grouping moves parentheses and nothing else.** Conditions that are the same without their
groups compile to the same without parentheses, with the same warnings. -/
theorem Condition.predicate_regrouped (m : Mapping) {c d : Condition}
    (h : c.groupless = d.groupless) :
    withoutParens (c.predicate m).text = withoutParens (d.predicate m).text ∧
      ∀ r : Rule,
        ((r.withCondition c).plan m).compiled.withoutParens =
          ((r.withCondition d).plan m).compiled.withoutParens ∧
        ((r.withCondition c).plan m).warnings = ((r.withCondition d).plan m).warnings := by
  have htext : withoutParens (c.predicate m).text = withoutParens (d.predicate m).text := by
    rw [← withoutParens_groupless, h, withoutParens_groupless]
  have hleaves : c.leaves = d.leaves := by
    rw [← leaves_groupless, h, leaves_groupless]
  refine ⟨htext, fun r => ⟨?_, ?_⟩⟩
  · have hids : c.ids m = d.ids m := by rw [ids, ids, hleaves]
    have hcase (n : Int64) : withoutParens (Sql.Case.mk (c.predicate m) n).text =
        withoutParens (Sql.Case.mk (d.predicate m) n).text := by
      rw [Sql.Case.text, Sql.Case.text]
      simp only [withoutParens_append, htext]
    change CompiledRule.mk _ _ _ _ _ (withoutParens (c.predicate m).text)
      (withoutParens (Sql.Case.mk (c.predicate m) _).text) (distinct (c.ids m)) = _
    rw [htext, hids, hcase]
    rfl
  · change c.warnings m ++ _ = d.warnings m ++ _
    rw [warnings, warnings, hleaves]
    rfl

/-- A negated list comparison in groups, beside a check for all of two kinds. -/
theorem goats_regrouped :
    let goats : Condition := .leaf (.comparison ⟨"herd.kind", .isIn, .list [.string "goat"], {}⟩)
    let both : Condition :=
      .leaf (.call ⟨.hasAll, "herd.kind", [.string "cow", .string "(dog)"], none, {}⟩)
    let c : Condition := .not (.or (.not (.group (.group goats))) (.group both))
    let d : Condition := .group (.not (.group (.or (.group (.not goats)) both)))
    c.groupless = d.groupless ∧ c.predicate herdMapping ≠ d.predicate herdMapping ∧
      withoutParens (c.predicate herdMapping).text =
        withoutParens (d.predicate herdMapping).text := by
  intro goats both c d
  have h : c.groupless = d.groupless := rfl
  exact ⟨h, by decide +kernel, (Condition.predicate_regrouped herdMapping h).1⟩

end Eligibility
