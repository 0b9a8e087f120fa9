import Eligibility.Ruleset.Basic
import Eligibility.Script.Report

/-!
# Compiling rules

* `RulePlan.compiled`: the SQL of one plan;
* `eligibility`, `exclusion`, `selection`, `scoreCases`: what joins the plans of a ruleset;
* `scopeWarnings`, `planWarnings`: the warnings of a ruleset, in order;
* **`compile`**, **`compileScript`**.
-/

namespace Eligibility

open Sql (Predicate)

/-! ## Rules -/

def RulePlan.compiled (p : RulePlan) : CompiledRule where
  name := p.rule.name
  code := p.rule.code
  ruleType := p.rule.ruleType
  mandatory := p.rule.mandatory
  score := p.rule.score
  whereClause := p.predicate.text
  selectExpression := p.case.text
  usedFields := p.ids

/-! ## Clauses -/

/-- Every gating rule holds. -/
def eligibility (ps : List RulePlan) : Predicate :=
  .all ((ps.filter (·.gates)).map (.paren ·.predicate))

/-- Some exclusion rule holds. -/
def exclusion (ps : List RulePlan) : Predicate :=
  .any ((ps.filter (·.excludes)).map (.paren ·.predicate))

/-- Every gating rule holds and no exclusion rule does. -/
def selection (ps : List RulePlan) : Predicate :=
  .and (.paren (eligibility ps)) (.not (.paren (exclusion ps)))

/-- The scores of the bonus rules. -/
def scoreCases (ps : List RulePlan) : List Sql.Case := (ps.filter (·.scores)).map (·.case)

/-! ## Warnings -/

/-- A mapping for another scope than the one asked for. -/
def scopeWarnings (m : Mapping) (scope : String) : List PlanWarning :=
  if scope = "" ∨ m.scope = scope then [] else [.scopeMismatch m.scope scope]

/-- A warning about the ruleset as a whole. -/
def CompilationWarning.general (w : PlanWarning) : CompilationWarning := ⟨none, {}, w.message⟩

/-- The warnings of the plans in order; a rule whose code is taken is warned of before its own
warnings. -/
def planWarnings (taken : List String) : List RulePlan → List CompilationWarning
  | [] => []
  | p :: ps =>
    (if p.rule.code ∈ taken then [.general (.duplicateCode p.rule.code p.rule.name)] else []) ++
      p.warnings.map (fun w => ⟨some p.rule.code, w.1, w.2.message⟩) ++
      planWarnings (p.rule.code :: taken) ps

/-! ## Rulesets -/

/-- The ruleset of plans. -/
def assemble (code scope : String) (m : Mapping) (ps : List RulePlan) : Ruleset :=
  let count (t : RuleType) := ps.countP (·.rule.ruleType = t)
  let key := m.schema.keyExpression
  let source := s!"FROM {m.schema.baseTable} {m.schema.baseAlias}"
  let score := Sql.scoreText (scoreCases ps)
  let scoring := s!"SELECT {key}, {score} AS total_score {source}"
  { code
    scope
    totalRules := ps.length
    inclusionRules := count .inclusion
    exclusionRules := count .exclusion
    priorityRules := count .priority
    bonusRules := count .bonus
    eligibilityClause := (eligibility ps).text
    exclusionClause := (exclusion ps).text
    scoreExpression := score
    eligibilityQuery := s!"SELECT {key} {source} WHERE {(eligibility ps).text}"
    scoringQuery := scoring
    fullQuery := s!"{scoring} WHERE {(selection ps).text} ORDER BY total_score DESC"
    rules := ps.map (·.compiled)
    warnings := (scopeWarnings m scope).map .general ++ planWarnings [] ps }

/-- Compile rules against a mapping, which has to pass its check. -/
def compile (rules : List Rule) (code scope : String) (m : Mapping) :
    Except MappingError Ruleset := do
  m.check
  return assemble code scope m (rules.map (Rule.plan m))

/-- Why a script does not compile. -/
inductive CompileError where
  | script (e : Located Expected)
  | mapping (e : MappingError)
  deriving DecidableEq, Repr

def CompileError.message : CompileError → String
  | script e => e.failureLine
  | mapping e => e.message

/-- Read a script and compile its rules. -/
def compileScript (text code scope : String) (m : Mapping) : Except CompileError Ruleset :=
  match (Report.ofText text).outcome with
  | .error e => .error (.script e)
  | .ok rules => (compile rules code scope m).mapError .mapping

end Eligibility
