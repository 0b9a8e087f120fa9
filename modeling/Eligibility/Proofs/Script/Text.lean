import Eligibility.Condition.Basic
import Eligibility.Proofs.Script.Quoted

/-!
# Scanning the text of conditions

* `IsReference`, `Value.IsWritable`, `Operand.Fits`: what can be read back from its text;
* `Value.piece`, `Operand.pieces`: the pieces of values and operands;
* `scan_value`, `scan_list`, **`Operand.scan_tail`**: they are the pieces of their texts;
* `calm_operator`, `calm_notIn`: no operator makes a keyword out of the field before it.
-/

namespace Eligibility

open Text TokenKind

/-- An identifier whose first segment is not the word `IN`. -/
def IsReference (s : String) : Prop := IsIdentifier s ∧ upper (.ofList (segment s)) ≠ "IN"

instance (s : String) : Decidable (IsReference s) := inferInstanceAs (Decidable (_ ∧ _))

/-! ## Values -/

namespace Value

/-- The value can be read back from its text. -/
def IsWritable : Value → Prop
  | int _ | bool _ => True
  | float _ => False
  | string s => IsQuotable s.toList
  | identifier s => IsReference s

instance (v : Value) : Decidable v.IsWritable :=
  match v with
  | int _ | bool _ => inferInstanceAs (Decidable True)
  | float _ => inferInstanceAs (Decidable False)
  | string s => inferInstanceAs (Decidable (IsQuotable s.toList))
  | identifier s => inferInstanceAs (Decidable (IsReference s))

/-- The kind of the token that the value is written as. -/
def kind : Value → TokenKind
  | int _ | float _ => .number
  | bool b => .answer b
  | string _ => .string
  | identifier _ => .identifier

def piece (v : Value) : Piece := (v.kind, v.text)

/-- Values with commas between them. -/
def listPieces : List Value → List Piece
  | [] => []
  | [v] => [v.piece]
  | v :: w :: vs => v.piece :: (.comma, ",") :: listPieces (w :: vs)

end Value

section Value

variable {ds : List Char}

theorem scan_value {v : Value} (h : v.IsWritable) (hd : Breaks ds) (hc : Calm ds) :
    scan (v.text.toList ++ ds) = v.piece :: scan ds := by
  cases v with
  | int n => exact scan_int n.toInt hd
  | float x => cases h
  | bool b =>
    cases b
    · exact scan_keyword (s := "NO") (by decide +kernel) hd
    · exact scan_keyword (s := "YES") (by decide +kernel) hd
  | string s => exact scan_string h ds
  | identifier s => exact scan_identifier h.1 hd hc

theorem calm_cons {c : Char} (h : isSpacing c = false) (ds : List Char) : Calm (c :: ds) :=
  calm_of_head h

theorem scan_comma (ds : List Char) : scan (',' :: ds) = (.comma, ",") :: scan ds :=
  scan_sign rfl rfl

theorem scan_opening (ds : List Char) : scan ('(' :: ds) = (.leftParen, "(") :: scan ds :=
  scan_sign rfl rfl

theorem scan_closing (ds : List Char) : scan (')' :: ds) = (.rightParen, ")") :: scan ds :=
  scan_sign rfl rfl

theorem toList_listText_cons (v w : Value) (vs : List Value) :
    (Value.listText (v :: w :: vs)).toList =
      v.text.toList ++ ',' :: ' ' :: (Value.listText (w :: vs)).toList := by
  simp [Value.listText, String.append_assoc]

theorem scan_list {vs : List Value} (hn : vs ≠ []) (h : ∀ v ∈ vs, v.IsWritable) (ds : List Char) :
    scan ((Value.listText vs).toList ++ ')' :: ds) =
      Value.listPieces vs ++ (.rightParen, ")") :: scan ds := by
  induction vs with
  | nil => exact absurd rfl hn
  | cons v vs ih =>
    obtain ⟨hv, hvs⟩ := List.forall_mem_cons.1 h
    cases vs with
    | nil =>
      have htext : Value.listText [v] = v.text := by simp [Value.listText]
      rw [htext, scan_value hv (breaks_cons (by decide) _) (calm_cons rfl _), scan_closing]
      rfl
    | cons w vs =>
      rw [toList_listText_cons, List.append_assoc, List.cons_append, List.cons_append,
        scan_value hv (breaks_cons (by decide) _) (calm_cons rfl _), scan_comma, scan_space,
        ih (List.cons_ne_nil _ _) hvs]
      rfl

end Value

/-! ## Operators in their places -/

section Operator

variable {ds : List Char}

theorem calm_word {w : String} (hw : IsWord w)
    (hn : ∀ p ∈ phrases, p.1 ≠ "NOT" → p.2.1.head? ≠ some w) (hd : Breaks ds) :
    Calm (' ' :: (w.toList ++ ds)) := by
  refine calm_space (head_name hw.1 _) fun p hp hne => ?_
  rw [hw.firstWord hd]
  exact hn p hp hne

theorem isWord_and : IsWord "AND" := by decide +kernel

theorem isWord_or : IsWord "OR" := by decide +kernel

theorem calm_sign {c : Char} (hc : isInk c = true) (hw : isWordStart c = false) :
    Calm (' ' :: c :: ds) := by
  have hfirst : firstWord (c :: ds) = "" := by
    rw [firstWord, wordWidth, if_neg (by rw [hw]; exact Bool.false_ne_true)]; rfl
  have hall : ∀ p ∈ phrases, p.2.1.head? ≠ some "" := by decide
  refine calm_space (isSpacing_of_isInk hc) fun p hp _ => ?_
  rw [hfirst]
  exact hall p hp

/-- An operator makes no keyword out of the field before it. -/
theorem calm_operator (op : Operator) (hd : Breaks ds) :
    Calm (' ' :: (op.symbol.toList ++ ds)) := by
  have hspaced (vs : List String) {w : String} (hw : IsWord w)
      (hn : ∀ p ∈ phrases, p.1 ≠ "NOT" → p.2.1.head? ≠ some w) :
      Calm (' ' :: (w.toList ++ (spaced vs ++ ds))) :=
    calm_word hw hn (breaks_spaced vs hd)
  cases op with
  | eq | neq | gt | gte | lt | lte => exact calm_sign rfl rfl
  | contains => exact calm_word (w := "CONTAINS") (by decide +kernel) (by decide) hd
  | between => exact calm_word (w := "BETWEEN") (by decide +kernel) (by decide) hd
  | isIn => exact calm_word (w := "IN") (by decide +kernel) (by decide) hd
  | startsWith => exact hspaced ["WITH"] (w := "STARTS") (by decide +kernel) (by decide)
  | endsWith => exact hspaced ["WITH"] (w := "ENDS") (by decide +kernel) (by decide)
  | isEmpty => exact hspaced ["EMPTY"] (w := "IS") (by decide +kernel) (by decide)
  | isNotEmpty => exact hspaced ["NOT", "EMPTY"] (w := "IS") (by decide +kernel) (by decide)

/-- After `IS` a `NOT` matters only in front of `EMPTY`. -/
theorem calm_notIn (hd : Breaks ds) : Calm (' ' :: ("NOT IN".toList ++ ds)) := by
  have hnot : IsWord "NOT" := by decide +kernel
  have hin : IsWord "IN" := by decide +kernel
  have hb := breaks_spaced ["IN"] hd
  have happend : ' ' :: ("NOT IN".toList ++ ds) = ' ' :: ("NOT".toList ++ (spaced ["IN"] ++ ds)) :=
    rfl
  have hskip : followWidth? ["EMPTY"] (spaced ["IN"] ++ ds) = none := by
    have : followWidth? ["EMPTY"] (' ' :: ("IN".toList ++ ds)) = none :=
      followWidth?_ne hin (by decide) hd
    simpa [spaced] using this
  have hall : ∀ p ∈ phrases, p.1 ≠ "NOT" → p.2.1 = ["NOT", "EMPTY"] ∨
      p.2.1 ≠ [] ∧ p.2.1.head? ≠ some "NOT" := by decide
  intro p hp hne
  rw [happend]
  rcases hall p hp hne with h | ⟨hn, hh⟩
  · rw [h, followWidth?_space (head_name hnot.1 _), if_pos (hnot.firstWord hb),
      hnot.wordWidth hb, List.drop_left, hskip]
    rfl
  · obtain ⟨w, ws, hws⟩ := List.exists_cons_of_ne_nil hn
    rw [hws] at hh ⊢
    exact followWidth?_ne hnot (fun e => hh (congrArg some e.symm)) hb

theorem scan_connective {w : String} {k : TokenKind} (h : IsKeyword w k) (ds : List Char) :
    scan (' ' :: (w.toList ++ ' ' :: ds)) = (k, w) :: scan ds := by
  rw [scan_space, scan_keyword h (breaks_space _), scan_space]

theorem isKeyword_and : IsKeyword "AND" .and := by decide +kernel

theorem isKeyword_or : IsKeyword "OR" .or := by decide +kernel

end Operator

/-! ## Comparisons -/

/-- The operand has the shape that the operator needs, a list is not empty, and the values can be
read back. -/
def Operand.Fits (op : Operator) : Operand → Prop
  | none => op = .isEmpty ∨ op = .isNotEmpty
  | single v => op.isBinary = true ∧ v.IsWritable
  | range low high => op = .between ∧ low.IsWritable ∧ high.IsWritable
  | list vs => op = .isIn ∧ vs ≠ [] ∧ ∀ v ∈ vs, v.IsWritable

instance (op : Operator) (o : Operand) : Decidable (o.Fits op) :=
  match o with
  | .none => inferInstanceAs (Decidable (_ ∨ _))
  | .single _ => inferInstanceAs (Decidable (_ ∧ _))
  | .range _ _ => inferInstanceAs (Decidable (_ ∧ _ ∧ _))
  | .list _ => inferInstanceAs (Decidable (_ ∧ _ ∧ _))

namespace Operand

/-- The operand as it follows the operator. -/
def tail : Operand → String
  | none => ""
  | single v => " " ++ v.text
  | range low high => " " ++ low.text ++ " AND " ++ high.text
  | list vs => " (" ++ Value.listText vs ++ ")"

def pieces : Operand → List Piece
  | none => []
  | single v => [v.piece]
  | range low high => [low.piece, (.and, "AND"), high.piece]
  | list vs => (.leftParen, "(") :: (Value.listPieces vs ++ [(.rightParen, ")")])

variable {o : Operand} {ds : List Char}

theorem breaks_tail (o : Operand) (hd : Breaks ds) : Breaks (o.tail.toList ++ ds) := by
  cases o with
  | none => exact hd
  | single v => rw [tail, String.toList_append]; exact breaks_space _
  | range low high =>
    rw [tail, String.toList_append, String.toList_append, String.toList_append]
    exact breaks_space _
  | list vs =>
    rw [tail, String.toList_append, String.toList_append]; exact breaks_space _

theorem scan_tail {op : Operator} (h : o.Fits op) (hd : Breaks ds) (hc : Calm ds) :
    scan (o.tail.toList ++ ds) = o.pieces ++ scan ds := by
  cases o with
  | none => rfl
  | single v =>
    rw [tail, String.toList_append]
    change scan (' ' :: (v.text.toList ++ ds)) = _
    rw [scan_space, scan_value h.2 hd hc]; rfl
  | range low high =>
    obtain ⟨-, hlow, hhigh⟩ := h
    have htext : (tail (range low high)).toList ++ ds = ' ' :: (low.text.toList ++
        ' ' :: ("AND".toList ++ ' ' :: (high.text.toList ++ ds))) := by
      simp [tail]
    rw [htext, scan_space, scan_value hlow (breaks_space _)
      (calm_word isWord_and (by decide) (breaks_space _)),
      scan_connective isKeyword_and, scan_value hhigh hd hc]
    rfl
  | list vs =>
    obtain ⟨-, hn, hvs⟩ := h
    have htext : (tail (list vs)).toList ++ ds =
        ' ' :: '(' :: ((Value.listText vs).toList ++ ')' :: ds) := by
      simp [tail]
    rw [htext, scan_space, scan_opening, scan_list hn hvs, pieces]
    simp

end Operand

end Eligibility
