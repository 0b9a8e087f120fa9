import Eligibility.Condition.Operator
import Eligibility.Rule.RuleType

/-!
# Token kinds

* `Clause`: the keywords that open a clause of a rule;
* `TokenKind`: what a token is, with its `name` and the classes of kinds (`isComparison`, …);
* `TokenKind.keywords`, **`TokenKind.keyword?`**: the words that are keywords, in any letter case;
* `TokenKind.phrases`: the keywords of several words.
-/

namespace Eligibility

/-- The keywords that open a clause of a rule. -/
inductive Clause where
  | type | category | mandatory | order | when | score | weight | passMessage | failMessage
  deriving DecidableEq, Repr

/-- What a token is. -/
inductive TokenKind where
  | rule
  | clause (c : Clause)
  | ruleType (t : RuleType)
  /-- `YES` and `Y`, or `NO` and `N`. -/
  | answer (value : Bool)
  /-- `TRUE` or `FALSE`. -/
  | truth (value : Bool)
  | and | or | not
  | comparison (op : Operator)
  | notIn
  | function (f : GridFunction)
  | string | number | identifier
  | leftParen | rightParen | comma | colon | dot | plus | minus
  | newline | eof
  /-- A character that starts no token. -/
  | unknown
  deriving DecidableEq, Repr

namespace TokenKind

def name : TokenKind → String
  | rule => "Rule"
  | clause .type => "Type"
  | clause .category => "Category"
  | clause .mandatory => "Mandatory"
  | clause .order => "Order"
  | clause .when => "When"
  | clause .score => "Score"
  | clause .weight => "Weight"
  | clause .passMessage => "PassMessage"
  | clause .failMessage => "FailMessage"
  | ruleType .inclusion => "Inclusion"
  | ruleType .exclusion => "Exclusion"
  | ruleType .priority => "Priority"
  | ruleType .bonus => "Bonus"
  | answer true => "Yes"
  | answer false => "No"
  | truth true => "True"
  | truth false => "False"
  | and => "And"
  | or => "Or"
  | not => "Not"
  | comparison .eq => "Eq"
  | comparison .neq => "Neq"
  | comparison .gt => "Gt"
  | comparison .gte => "Gte"
  | comparison .lt => "Lt"
  | comparison .lte => "Lte"
  | comparison .contains => "Contains"
  | comparison .startsWith => "StartsWith"
  | comparison .endsWith => "EndsWith"
  | comparison .between => "Between"
  | comparison .isIn => "In"
  | comparison .isEmpty => "IsEmpty"
  | comparison .isNotEmpty => "IsNotEmpty"
  | notIn => "NotIn"
  | function .count => "Count"
  | function .sum => "Sum"
  | function .avg => "Avg"
  | function .min => "Min"
  | function .max => "Max"
  | function .hasAny => "HasAny"
  | function .hasAll => "HasAll"
  | function .hasNone => "HasNone"
  | string => "String"
  | number => "Number"
  | identifier => "Identifier"
  | leftParen => "LParen"
  | rightParen => "RParen"
  | comma => "Comma"
  | colon => "Colon"
  | dot => "Dot"
  | plus => "Plus"
  | minus => "Minus"
  | newline => "Newline"
  | eof => "Eof"
  | unknown => "Unknown"

/-! ## Classes -/

def isRuleType : TokenKind → Bool
  | ruleType _ => true
  | _ => false

/-- Operators that may follow a field. -/
def isComparison : TokenKind → Bool
  | comparison _ | notIn => true
  | _ => false

/-- The operator of the form `field operator value` that a kind stands for. -/
def binary? : TokenKind → Option Operator
  | comparison op => if op.isBinary then some op else none
  | _ => none

def isLogical : TokenKind → Bool
  | and | or | not => true
  | _ => false

def isAggregation : TokenKind → Bool
  | function f => f.isAggregation
  | _ => false

def isGridCheck : TokenKind → Bool
  | function f => f.isGridCheck
  | _ => false

def isBoolean : TokenKind → Bool
  | answer _ | truth _ => true
  | _ => false

/-! ## Keywords -/

/-- The keywords of one word, in upper case. -/
def keywords : List (String × TokenKind) :=
  [("RULE", rule), ("TYPE", clause .type), ("CATEGORY", clause .category),
    ("MANDATORY", clause .mandatory), ("ORDER", clause .order), ("WHEN", clause .when),
    ("SCORE", clause .score), ("WEIGHT", clause .weight),
    ("INCLUSION", ruleType .inclusion), ("EXCLUSION", ruleType .exclusion),
    ("PRIORITY", ruleType .priority), ("BONUS", ruleType .bonus),
    ("YES", answer true), ("Y", answer true), ("NO", answer false), ("N", answer false),
    ("TRUE", truth true), ("FALSE", truth false),
    ("AND", and), ("OR", or), ("NOT", not),
    ("BETWEEN", comparison .between), ("IN", comparison .isIn),
    ("CONTAINS", comparison .contains),
    ("COUNT", function .count), ("SUM", function .sum), ("AVG", function .avg),
    ("MIN", function .min), ("MAX", function .max), ("HAS_ANY", function .hasAny),
    ("HAS_ALL", function .hasAll), ("HAS_NONE", function .hasNone)]

/-- The kind of a keyword of one word, in any letter case. -/
def keyword? (word : String) : Option TokenKind := keywords.lookup (Text.upper word)

/-- The keywords of several words: the first word, the words that follow, and the kind. -/
def phrases : List (String × List String × TokenKind) :=
  [("IS", ["EMPTY"], comparison .isEmpty), ("IS", ["NOT", "EMPTY"], comparison .isNotEmpty),
    ("NOT", ["IN"], notIn), ("STARTS", ["WITH"], comparison .startsWith),
    ("ENDS", ["WITH"], comparison .endsWith), ("PASS", ["MESSAGE"], clause .passMessage),
    ("FAIL", ["MESSAGE"], clause .failMessage)]

end TokenKind

end Eligibility
