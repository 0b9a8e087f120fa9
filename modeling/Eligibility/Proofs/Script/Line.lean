import Eligibility.Proofs.Script.Grammar
import Eligibility.Script.Block

/-!
# Lines of rule blocks

A rule block is written with one clause on each line, in any order and number.

* `Sign`, `Line`: the clauses that a script can write, with their texts; `blockText`;
* `Line.pieces`, `bodyPieces`: the pieces of clauses;
* `Line.IsWritable`: what can be read back from its text;
* `Line.scan_text`, **`scan_blockText`**: the text of a block has its pieces.
-/

namespace Eligibility

open Text TokenKind

/-- The sign that stands by itself in front of a score, if any. -/
inductive Sign where
  | none | plus | minus
  deriving DecidableEq

def Sign.text : Sign → String
  | none => ""
  | plus => "+ "
  | minus => "- "

def Sign.pieces : Sign → List Piece
  | none => []
  | plus => [(.plus, "+")]
  | minus => [(.minus, "-")]

/-- A clause of a rule. -/
inductive Line where
  | ruleType (t : RuleType)
  | category (s : String)
  | mandatory (b : Bool)
  | order (i : Int)
  | condition (c : Condition)
  | score (sign : Sign) (i : Int)
  | weight (i : Int)
  | passMessage (s : String)
  | failMessage (s : String)
  deriving DecidableEq

/-- What stands between the keyword of a clause and its value. -/
def Clause.mark : Clause → String
  | when => " "
  | _ => ": "

def Clause.markPieces : Clause → List Piece
  | when => []
  | _ => [(.colon, ":")]

namespace Line

/-- The keyword of the line. -/
def clause : Line → Clause
  | ruleType _ => .type
  | category _ => .category
  | mandatory _ => .mandatory
  | order _ => .order
  | condition _ => .when
  | score _ _ => .score
  | weight _ => .weight
  | passMessage _ => .passMessage
  | failMessage _ => .failMessage

def value : Line → String
  | ruleType t => t.name
  | category s | passMessage s | failMessage s => (Value.string s).text
  | mandatory b => (Value.bool b).text
  | order i | weight i => toString i
  | condition c => c.text
  | score sign i => sign.text ++ toString i

def text (l : Line) : String := l.clause.keyword ++ l.clause.mark ++ l.value

def valuePieces : Line → List Piece
  | ruleType t => [(.ruleType t, t.name)]
  | category s | passMessage s | failMessage s => [(Value.string s).piece]
  | mandatory b => [(Value.bool b).piece]
  | order i | weight i => [(.number, toString i)]
  | condition c => c.pieces
  | score sign i => sign.pieces ++ [(.number, toString i)]

def pieces (l : Line) : List Piece :=
  (.clause l.clause, l.clause.keyword) :: (l.clause.markPieces ++ l.valuePieces)

/-- The clause can be read back from its text. -/
def IsWritable : Line → Prop
  | category s | passMessage s | failMessage s => IsQuotable s.toList
  | condition c => c.Grammatical ∧ c.IsWritable
  | _ => True

instance (l : Line) : Decidable l.IsWritable :=
  match l with
  | category s | passMessage s | failMessage s => inferInstanceAs (Decidable (IsQuotable s.toList))
  | condition c => inferInstanceAs (Decidable (c.Grammatical ∧ c.IsWritable))
  | ruleType _ | mandatory _ | order _ | score _ _ | weight _ => inferInstanceAs (Decidable True)

end Line

/-- The clauses of a block, each on a line of its own. -/
def bodyText : List Line → String
  | [] => ""
  | l :: ls => "\n" ++ l.text ++ bodyText ls

/-- A rule with a name and clauses. -/
def blockText (name : String) (ls : List Line) : String :=
  "RULE " ++ (Value.string name).text ++ bodyText ls

def bodyPieces (ls : List Line) : List Piece := ls.flatMap fun l => (.newline, "\n") :: l.pieces

/-! ## Pieces -/

section Scan

variable {ds : List Char}

theorem scan_clause (c : Clause) (hd : Breaks ds) :
    scan (c.keyword.toList ++ ds) = (.clause c, c.keyword) :: scan ds := by
  have hpre {ps : List (String × List String × TokenKind)} {head : String} {cs : List Char}
      (h : ∀ p ∈ ps, p.1 ≠ head) : ∀ p ∈ ps, p.1 = head → followWidth? p.2.1 cs = none :=
    fun p hp e => absurd e (h p hp)
  cases c with
  | passMessage => exact scan_phrase (i := 5) rfl (by decide) (hpre (by decide)) hd
  | failMessage => exact scan_phrase (i := 6) rfl (by decide) (hpre (by decide)) hd
  | _ => exact scan_keyword (by decide +kernel) hd

theorem Sign.scan_text (sign : Sign) (ds : List Char) :
    scan (sign.text.toList ++ ds) = sign.pieces ++ scan ds := by
  have hsign {c : Char} {k : TokenKind} (hc : isInk c = true)
      (hl : lexeme (c :: ' ' :: ds) = ⟨k, .singleton c, 1⟩) :
      scan (c :: ' ' :: ds) = (k, .singleton c) :: scan ds := by
    rw [scan_sign hc hl, scan_space]
  cases sign with
  | none => rfl
  | plus => exact hsign (c := '+') rfl rfl
  | minus => exact hsign (c := '-') rfl rfl

/-- What stands between a keyword and its value breaks the keyword off. -/
theorem Clause.scan_mark (c : Clause) (ds : List Char) :
    Breaks (c.mark.toList ++ ds) ∧ scan (c.mark.toList ++ ds) = c.markPieces ++ scan ds := by
  have hcolon : scan (':' :: ' ' :: ds) = (.colon, ":") :: scan ds := by
    rw [scan_sign (k := .colon) (s := ":") rfl rfl, scan_space]
  cases c with
  | when => exact ⟨rfl, scan_space ds⟩
  | _ => exact ⟨rfl, hcolon⟩

namespace Line

theorem scan_value {l : Line} (h : l.IsWritable) (hd : Breaks ds) (hc : Calm ds) :
    scan (l.value.toList ++ ds) = l.valuePieces ++ scan ds := by
  cases l with
  | ruleType t => cases t <;> exact scan_keyword (by decide +kernel) hd
  | category s | passMessage s | failMessage s => exact scan_string h ds
  | mandatory b => exact Eligibility.scan_value (v := .bool b) trivial hd hc
  | order i | weight i => exact scan_int i hd
  | condition c => exact Condition.scan_text h.2 hd hc
  | score sign i =>
    rw [value, String.toList_append, List.append_assoc, sign.scan_text, scan_int i hd, valuePieces,
      List.append_assoc]
    rfl

theorem scan_text {l : Line} (h : l.IsWritable) (hd : Breaks ds) (hc : Calm ds) :
    scan (l.text.toList ++ ds) = l.pieces ++ scan ds := by
  obtain ⟨hbreaks, hmark⟩ := l.clause.scan_mark (l.value.toList ++ ds)
  rw [text, String.toList_append, String.toList_append, List.append_assoc, List.append_assoc,
    scan_clause l.clause hbreaks, hmark, scan_value h hd hc, pieces, List.cons_append,
    List.append_assoc]

end Line

theorem ends_bodyText (ls : List Line) :
    Breaks (bodyText ls).toList ∧ Calm (bodyText ls).toList := by
  cases ls with
  | nil => exact ⟨rfl, calm_of_head rfl⟩
  | cons l ls =>
    rw [bodyText, String.toList_append, String.toList_append]
    exact ⟨rfl, calm_of_head rfl⟩

theorem scan_bodyText {ls : List Line} (h : ∀ l ∈ ls, l.IsWritable) :
    scan (bodyText ls).toList = bodyPieces ls := by
  induction ls with
  | nil => exact scan_nil
  | cons l ls ih =>
    obtain ⟨hl, hls⟩ := List.forall_mem_cons.1 h
    obtain ⟨hbreaks, hcalm⟩ := ends_bodyText ls
    have hsplit :
        (bodyText (l :: ls)).toList = '\n' :: (l.text.toList ++ (bodyText ls).toList) := by
      rw [bodyText, String.toList_append, String.toList_append, List.append_assoc]
      rfl
    rw [hsplit, scan_newline, Line.scan_text hl hbreaks hcalm, ih hls]
    rfl

/-- The text of a block has its pieces. -/
theorem scan_blockText {name : String} (hn : IsQuotable name.toList) {ls : List Line}
    (h : ∀ l ∈ ls, l.IsWritable) :
    scan (blockText name ls).toList =
      (.rule, "RULE") :: (.string, (Value.string name).text) :: bodyPieces ls := by
  have hsplit : (blockText name ls).toList =
      "RULE".toList ++ ' ' :: ((Value.string name).text.toList ++ (bodyText ls).toList) := by
    simp [blockText]
  have hrule : IsKeyword "RULE" .rule := by decide +kernel
  rw [hsplit, scan_keyword hrule (breaks_space _), scan_space, scan_string hn, scan_bodyText h]

end Scan

end Eligibility
