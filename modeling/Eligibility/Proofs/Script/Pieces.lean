import Eligibility.Proofs.Script.Text

/-!
# Pieces of the text of conditions

* `Comparison.pieces`, `FunctionCall.pieces`, `Condition.pieces`: the pieces of a condition;
* `Condition.IsWritable`: what can be read back from its text;
* `Condition.opens_text`: no text of a condition starts with the word `IN`;
* **`Condition.scan_text`**: the text of a condition has its pieces.
-/

namespace Eligibility

open Text TokenKind

variable {ds : List Char}

/-! ## Comparisons -/

namespace Comparison

/-- The comparison can be read back from its text. -/
def IsWritable (c : Comparison) : Prop := IsReference c.field ∧ c.operand.Fits c.op

instance (c : Comparison) : Decidable c.IsWritable := inferInstanceAs (Decidable (_ ∧ _))

def pieces (c : Comparison) : List Piece :=
  (.identifier, c.field) :: (.comparison c.op, c.op.symbol) :: c.operand.pieces

theorem toList_text (c : Comparison) :
    c.text.toList = c.field.toList ++ ' ' :: (c.op.symbol.toList ++ c.operand.tail.toList) := by
  unfold text
  cases c.operand <;> simp [Operand.tail]

theorem scan_text {c : Comparison} (h : c.IsWritable) (hd : Breaks ds) (hc : Calm ds) :
    scan (c.text.toList ++ ds) = c.pieces ++ scan ds := by
  have hb := c.operand.breaks_tail hd
  rw [toList_text, List.append_assoc, List.cons_append, List.append_assoc,
    scan_identifier h.1.1 (breaks_space _) (calm_operator c.op hb), scan_space,
    scan_operator c.op hb, Operand.scan_tail h.2 hd hc]
  rfl

theorem scan_excluded {field : String} {vs : List Value} (hf : IsReference field)
    (hv : (Operand.list vs).Fits .isIn) (hd : Breaks ds) (hc : Calm ds) :
    scan ((field ++ " NOT IN (" ++ Value.listText vs ++ ")").toList ++ ds) =
      (.identifier, field) :: (.notIn, "NOT IN") :: ((Operand.list vs).pieces ++ scan ds) := by
  have hb := (Operand.list vs).breaks_tail hd
  have htext : (field ++ " NOT IN (" ++ Value.listText vs ++ ")").toList ++ ds =
      field.toList ++ ' ' :: ("NOT IN".toList ++ ((Operand.list vs).tail.toList ++ ds)) := by
    simp [Operand.tail]
  rw [htext, scan_identifier hf.1 (breaks_space _) (calm_notIn hb), scan_space,
    scan_notIn hb, Operand.scan_tail hv hd hc]

end Comparison

/-! ## Calls -/

namespace FunctionCall

/-- The call can be read back from its text: an aggregation has no values, a grid check has no
comparison. -/
def IsWritable (f : FunctionCall) : Prop :=
  IsReference f.target ∧
    if f.function.isAggregation then
      f.values = [] ∧ ∀ p ∈ f.comparison, p.1.isBinary = true ∧ p.2.IsWritable
    else f.comparison = none ∧ ∀ v ∈ f.values, v.IsWritable

instance (f : FunctionCall) : Decidable f.IsWritable := inferInstanceAs (Decidable (_ ∧ ite _ _ _))

/-- The values as they follow the target. -/
def valueText (f : FunctionCall) : String :=
  if f.values = [] then "" else ", " ++ Value.listText f.values

/-- The comparison as it follows the parentheses. -/
def trailingText (f : FunctionCall) : String :=
  match f.comparison with
  | some (op, v) => " " ++ op.symbol ++ " " ++ v.text
  | none => ""

theorem text_eq (f : FunctionCall) :
    f.text = f.function.name ++ "(" ++ f.target ++ f.valueText ++ ")" ++ f.trailingText := by
  unfold text trailingText
  cases f.comparison <;> rfl

def valuePieces (f : FunctionCall) : List Piece :=
  if f.values = [] then [] else (.comma, ",") :: Value.listPieces f.values

def trailingPieces (f : FunctionCall) : List Piece :=
  match f.comparison with
  | some (op, v) => [(.comparison op, op.symbol), v.piece]
  | none => []

def pieces (f : FunctionCall) : List Piece :=
  (.function f.function, f.function.name) :: (.leftParen, "(") :: (.identifier, f.target) ::
    (f.valuePieces ++ (.rightParen, ")") :: f.trailingPieces)

variable {f : FunctionCall}

theorem isKeyword_name (f : GridFunction) : IsKeyword f.name (.function f) := by
  cases f <;> decide +kernel

theorem IsWritable.values (h : f.IsWritable) : ∀ v ∈ f.values, v.IsWritable := by
  have h := h.2
  split at h
  · intro v hv
    rw [h.1] at hv
    cases hv
  · exact h.2

theorem IsWritable.comparison (h : f.IsWritable) :
    ∀ p ∈ f.comparison, p.1.isBinary = true ∧ p.2.IsWritable := by
  have h := h.2
  split at h
  · exact h.2
  · intro p hp
    rw [h.1] at hp
    cases hp

theorem scan_values (h : f.IsWritable) (ds : List Char) :
    scan (f.valueText.toList ++ ')' :: ds) = f.valuePieces ++ (.rightParen, ")") :: scan ds := by
  rw [valueText, valuePieces]
  by_cases hn : f.values = []
  · rw [if_pos hn, if_pos hn]
    exact scan_closing ds
  · rw [if_neg hn, if_neg hn, String.toList_append, List.append_assoc]
    change scan (',' :: ' ' :: ((Value.listText f.values).toList ++ ')' :: ds)) = _
    rw [scan_comma, scan_space, scan_list hn h.values]
    rfl

theorem scan_trailing (h : f.IsWritable) (hd : Breaks ds) (hc : Calm ds) :
    scan (f.trailingText.toList ++ ds) = f.trailingPieces ++ scan ds := by
  have hp := h.comparison
  rw [trailingText, trailingPieces]
  cases hf : f.comparison with
  | none => rfl
  | some p =>
    obtain ⟨op, v⟩ := p
    have hv := (hp _ hf).2
    have htext : (" " ++ op.symbol ++ " " ++ v.text).toList ++ ds =
        ' ' :: (op.symbol.toList ++ ' ' :: (v.text.toList ++ ds)) := by simp
    dsimp only
    rw [htext, scan_space, scan_operator op (breaks_space _), scan_space,
      scan_value hv hd hc]
    rfl

theorem toList_text (f : FunctionCall) (ds : List Char) :
    f.text.toList ++ ds = f.function.name.toList ++ '(' :: (f.target.toList ++
      (f.valueText.toList ++ ')' :: (f.trailingText.toList ++ ds))) := by
  rw [text_eq]; simp

theorem scan_text (h : f.IsWritable) (hd : Breaks ds) (hc : Calm ds) :
    scan (f.text.toList ++ ds) = f.pieces ++ scan ds := by
  have hends : Breaks (f.valueText.toList ++ ')' :: (f.trailingText.toList ++ ds)) ∧
      Calm (f.valueText.toList ++ ')' :: (f.trailingText.toList ++ ds)) := by
    rw [valueText]
    split
    · exact ⟨breaks_cons (by decide) _, calm_cons rfl _⟩
    · rw [String.toList_append]
      exact ⟨breaks_cons (by decide) _, calm_cons rfl _⟩
  rw [toList_text, scan_keyword (isKeyword_name _) (breaks_cons (by decide) _), scan_opening,
    scan_identifier h.1.1 hends.1 hends.2, scan_values h, scan_trailing h hd hc]
  simp [pieces]

end FunctionCall

/-! ## Conditions -/

namespace Leaf

/-- The leaf can be read back from its text. -/
def IsWritable : Leaf → Prop
  | comparison c => c.IsWritable
  | call f => f.IsWritable

instance (l : Leaf) : Decidable l.IsWritable :=
  match l with
  | comparison c => inferInstanceAs (Decidable c.IsWritable)
  | call f => inferInstanceAs (Decidable f.IsWritable)

def pieces : Leaf → List Piece
  | comparison c => c.pieces
  | call f => f.pieces

theorem scan_text {l : Leaf} (h : l.IsWritable) (hd : Breaks ds) (hc : Calm ds) :
    scan (l.text.toList ++ ds) = l.pieces ++ scan ds := by
  cases l with
  | comparison c => exact Comparison.scan_text h hd hc
  | call f => exact FunctionCall.scan_text h hd hc

end Leaf

namespace Condition

/-- The condition can be read back from its text. -/
def IsWritable (c : Condition) : Prop := ∀ l ∈ c.leaves, l.IsWritable

instance (c : Condition) : Decidable c.IsWritable := inferInstanceAs (Decidable (∀ l ∈ _, _))

def pieces : Condition → List Piece
  | leaf l => l.pieces
  | and a b => a.pieces ++ (.and, "AND") :: b.pieces
  | or a b => a.pieces ++ (.or, "OR") :: b.pieces
  | not c =>
    match c.excludedList? with
    | some (field, vs) => (.identifier, field) :: (.notIn, "NOT IN") :: (Operand.list vs).pieces
    | none => (.not, "NOT") :: c.pieces
  | group c => (.leftParen, "(") :: (c.pieces ++ [(.rightParen, ")")])

/-- A list comparison is written with its field in front. -/
theorem excludedList?_eq_some {c : Condition} {field : String} {vs : List Value}
    (h : c.excludedList? = some (field, vs)) :
    ∃ p, c = leaf (.comparison ⟨field, .isIn, .list vs, p⟩) := by
  unfold excludedList? at h
  split at h
  · cases h; exact ⟨_, rfl⟩
  · cases h

/-- The first word of a text and how it starts. -/
def Opens (cs : List Char) : Prop :=
  firstWord cs ≠ "IN" ∧ cs.head?.any isSpacing = false

theorem opens_reference {s : String} (h : IsReference s) (hd : Breaks ds) :
    Opens (s.toList ++ ds) := by
  refine ⟨?_, head_name h.1.isName ds⟩
  rw [firstWord_name h.1.isName hd]
  exact h.2

theorem opens_word {w : String} (h : IsWord w) (hn : w ≠ "IN") (hd : Breaks ds) :
    Opens (w.toList ++ ds) := by
  refine ⟨?_, head_name h.1 ds⟩
  rw [h.firstWord hd]
  exact hn

theorem toList_text_not (c : Condition) (ds : List Char) :
    ("NOT " ++ c.text).toList ++ ds = "NOT".toList ++ ' ' :: (c.text.toList ++ ds) := by
  simp

theorem toList_text_group (c : Condition) (ds : List Char) :
    (text (group c)).toList ++ ds = '(' :: (c.text.toList ++ ')' :: ds) := by
  simp [text]

/-- No text of a condition starts with the word `IN`. -/
theorem opens_text {c : Condition} (h : c.IsWritable) (ds : List Char) :
    Opens (c.text.toList ++ ds) := by
  induction c generalizing ds with
  | leaf l =>
    have hl := h l List.mem_cons_self
    cases l with
    | comparison c =>
      change Opens (c.text.toList ++ ds)
      rw [Comparison.toList_text, List.append_assoc]
      exact opens_reference hl.1 (breaks_space _)
    | call f =>
      have hw : IsWord f.function.name ∧ f.function.name ≠ "IN" := by
        cases f.function <;> decide +kernel
      change Opens (f.text.toList ++ ds)
      rw [FunctionCall.toList_text]
      exact opens_word hw.1 hw.2 (breaks_cons (by decide) _)
  | and a b iha ihb =>
    rw [text, String.toList_append, String.toList_append, List.append_assoc, List.append_assoc]
    exact iha (fun l hl => h l (List.mem_append_left _ hl)) _
  | or a b iha ihb =>
    rw [text, String.toList_append, String.toList_append, List.append_assoc, List.append_assoc]
    exact iha (fun l hl => h l (List.mem_append_left _ hl)) _
  | not c ih =>
    rw [text]
    split
    · rename_i field vs hx
      obtain ⟨p, rfl⟩ := excludedList?_eq_some hx
      have hl := h _ List.mem_cons_self
      simp only [String.toList_append, List.append_assoc]
      exact opens_reference hl.1 (breaks_space _)
    · have hw : IsWord "NOT" := by decide +kernel
      rw [toList_text_not]
      exact opens_word hw (by decide) (breaks_space _)
  | group c ih =>
    have hfirst : firstWord ('(' :: (c.text.toList ++ ')' :: ds)) = "" := rfl
    rw [toList_text_group]
    refine ⟨?_, rfl⟩
    rw [hfirst]
    decide

/-- The text of a condition has the pieces of the condition. -/
theorem scan_text {c : Condition} (h : c.IsWritable) {ds : List Char} (hd : Breaks ds)
    (hc : Calm ds) : scan (c.text.toList ++ ds) = c.pieces ++ scan ds := by
  induction c generalizing ds with
  | leaf l => exact Leaf.scan_text (h l List.mem_cons_self) hd hc
  | and a b iha ihb =>
    obtain ⟨ha, hb⟩ := List.forall_mem_append.1 h
    have hsplit : (text (and a b)).toList ++ ds =
        a.text.toList ++ ' ' :: ("AND".toList ++ ' ' :: (b.text.toList ++ ds)) := by simp [text]
    rw [hsplit, iha ha (breaks_space _)
      (calm_word isWord_and (by decide) (breaks_space _)),
      scan_connective isKeyword_and, ihb hb hd hc]
    simp [pieces]
  | or a b iha ihb =>
    obtain ⟨ha, hb⟩ := List.forall_mem_append.1 h
    have hsplit : (text (or a b)).toList ++ ds =
        a.text.toList ++ ' ' :: ("OR".toList ++ ' ' :: (b.text.toList ++ ds)) := by simp [text]
    rw [hsplit, iha ha (breaks_space _)
      (calm_word isWord_or (by decide) (breaks_space _)),
      scan_connective isKeyword_or, ihb hb hd hc]
    simp [pieces]
  | not c ih =>
    rw [text, pieces]
    cases hx : c.excludedList? with
    | some p =>
      obtain ⟨p, rfl⟩ := excludedList?_eq_some hx
      have hl := h _ List.mem_cons_self
      exact Comparison.scan_excluded hl.1 hl.2 hd hc
    | none =>
      obtain ⟨hfirst, hhead⟩ := opens_text (c := c) h ds
      have hin : followWidth? ["IN"] (' ' :: (c.text.toList ++ ds)) = none := by
        rw [followWidth?_space hhead, if_neg hfirst]
      dsimp only
      rw [toList_text_not, scan_not (breaks_space _) hin, scan_space, ih h hd hc]
      rfl
  | group c ih =>
    rw [toList_text_group, scan_opening, ih h (breaks_cons (by decide) _) (calm_cons rfl _),
      scan_closing]
    simp [pieces]

end Condition

end Eligibility
