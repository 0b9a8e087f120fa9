import Eligibility.Digest.Blake3
import Eligibility.Ruleset.Basic
import Eligibility.Wire.Sequence

/-!
# Payloads

What a stored ruleset consists of: the ruleset, two counts to check it by, and the digest of the
script that it was compiled from.

* `Payload`, **`Payload.codec`**, with `codec_lawful`;
* `Inconsistency`, **`Payload.check`**: whether the stored counts are those of the stored lists.
-/

namespace Eligibility

/-- A ruleset with what is stored beside it. -/
structure Payload where
  ruleCount : Nat
  warningCount : Nat
  sourceDigest : Option Digest
  ruleset : Ruleset
  deriving DecidableEq, Repr

/-- The digest of a script. -/
def sourceDigest (script : String) : Digest := Blake3.hash (utf8 script)

/-- The payload of a ruleset, and of the script if it is given. -/
def Payload.of (r : Ruleset) (source : Option String) : Payload where
  ruleCount := r.rules.length
  warningCount := r.warnings.length
  sourceDigest := source.map Eligibility.sourceDigest
  ruleset := r

/-! ## Codecs -/

namespace Codec

def digest : Codec Digest :=
  (block 32).via (·.bytes) (fun bs => if h : bs.length = 32 then some ⟨bs, h⟩ else none)

theorem digest_lawful : digest.Lawful :=
  (block_lawful 32).via (fun ⟨bs, h⟩ => by simp [h]) (by grind)

def ruleType : Codec RuleType := choice RuleType.all

theorem ruleType_lawful : ruleType.Lawful :=
  choice_lawful (by rintro (_ | _ | _ | _) <;> decide) (by decide)

def compiledRule : Codec CompiledRule :=
  (text.pair <| text.pair <| ruleType.pair <| flag.pair <| integer.option.pair <| text.pair <|
    text.pair text.list).via
    (fun r => (r.name, r.code, r.ruleType, r.mandatory, r.score, r.whereClause, r.selectExpression,
      r.usedFields))
    (fun (name, code, ruleType, mandatory, score, whereClause, selectExpression, usedFields) =>
      some { name, code, ruleType, mandatory, score, whereClause, selectExpression, usedFields })

theorem compiledRule_lawful : compiledRule.Lawful :=
  (text_lawful.pair <| text_lawful.pair <| ruleType_lawful.pair <| flag_lawful.pair <|
    integer_lawful.option.pair <| text_lawful.pair <| text_lawful.pair text_lawful.list).via
    (fun _ => rfl) (by rintro _ _ - ⟨⟩; rfl)

def warning : Codec CompilationWarning :=
  (text.option.pair <| natural.pair <| natural.pair text).via
    (fun w => (w.rule, w.position.line, w.position.column, w.message))
    (fun (rule, line, column, message) => some ⟨rule, ⟨line, column⟩, message⟩)

theorem warning_lawful : warning.Lawful :=
  (text_lawful.option.pair <| natural_lawful.pair <| natural_lawful.pair text_lawful).via
    (fun _ => rfl) (by rintro _ _ - ⟨⟩; rfl)

def ruleset : Codec Ruleset :=
  (text.pair <| text.pair <| natural.pair <| natural.pair <| natural.pair <| natural.pair <|
    natural.pair <| text.pair <| text.pair <| text.pair <| text.pair <| text.pair <| text.pair <|
    compiledRule.list.pair warning.list).via
    (fun r => (r.code, r.scope, r.totalRules, r.inclusionRules, r.exclusionRules, r.priorityRules,
      r.bonusRules, r.eligibilityClause, r.exclusionClause, r.scoreExpression, r.eligibilityQuery,
      r.scoringQuery, r.fullQuery, r.rules, r.warnings))
    (fun (code, scope, totalRules, inclusionRules, exclusionRules, priorityRules, bonusRules,
        eligibilityClause, exclusionClause, scoreExpression, eligibilityQuery, scoringQuery,
        fullQuery, rules, warnings) =>
      some { code, scope, totalRules, inclusionRules, exclusionRules, priorityRules, bonusRules,
             eligibilityClause, exclusionClause, scoreExpression, eligibilityQuery, scoringQuery,
             fullQuery, rules, warnings })

theorem ruleset_lawful : ruleset.Lawful :=
  (text_lawful.pair <| text_lawful.pair <| natural_lawful.pair <| natural_lawful.pair <|
    natural_lawful.pair <| natural_lawful.pair <| natural_lawful.pair <| text_lawful.pair <|
    text_lawful.pair <| text_lawful.pair <| text_lawful.pair <| text_lawful.pair <|
    text_lawful.pair <| compiledRule_lawful.list.pair warning_lawful.list).via
    (fun _ => rfl) (by rintro _ _ - ⟨⟩; rfl)

end Codec

/-- The form of a payload in bytes. -/
def Payload.codec : Codec Payload :=
  (Codec.natural.pair <| Codec.natural.pair <| Codec.digest.option.pair Codec.ruleset).via
    (fun p => (p.ruleCount, p.warningCount, p.sourceDigest, p.ruleset))
    (fun (ruleCount, warningCount, sourceDigest, ruleset) =>
      some { ruleCount, warningCount, sourceDigest, ruleset })

theorem Payload.codec_lawful : Payload.codec.Lawful :=
  (Codec.natural_lawful.pair <| Codec.natural_lawful.pair <|
    Codec.digest_lawful.option.pair Codec.ruleset_lawful).via
    (fun _ => rfl) (by rintro _ _ - ⟨⟩; rfl)

/-! ## Consistency -/

/-- A stored count that is not the count of what is stored. -/
inductive Inconsistency where
  /-- The count of rules beside the ruleset. -/
  | rules (stored actual : Nat)
  /-- The count of warnings beside the ruleset. -/
  | warnings (stored actual : Nat)
  /-- The count of rules in the ruleset. -/
  | total (stored actual : Nat)
  | ofType (ruleType : RuleType) (stored actual : Nat)
  deriving DecidableEq, Repr

def Inconsistency.message : Inconsistency → String
  | rules n k => s!"metadata says {n} rules but payload has {k}"
  | warnings n k => s!"metadata says {n} warnings but payload has {k}"
  | total n k => s!"total_rules is {n} but {k} compiled rules exist"
  | ofType t n k => s!"{t.name} count is {n} but {k} {t.name} rules exist"

namespace Payload

/-- The stored counts that are not those of the lists, in the order they are checked. -/
def inconsistencies (p : Payload) : List Inconsistency :=
  let rules := p.ruleset.rules.length
  let warnings := p.ruleset.warnings.length
  (if p.ruleCount = rules then [] else [.rules p.ruleCount rules]) ++
    (if p.warningCount = warnings then [] else [.warnings p.warningCount warnings]) ++
    (if p.ruleset.totalRules = rules then [] else [.total p.ruleset.totalRules rules]) ++
    RuleType.all.flatMap fun t =>
      let actual := p.ruleset.rules.countP (·.ruleType = t)
      if p.ruleset.countOf t = actual then [] else [.ofType t (p.ruleset.countOf t) actual]

/-- The first count that is wrong. -/
def check (p : Payload) : Except Inconsistency Unit :=
  match p.inconsistencies with
  | [] => .ok ()
  | i :: _ => .error i

end Payload

end Eligibility
