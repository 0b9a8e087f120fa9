import Eligibility.Proofs.Script.Pieces
import Eligibility.Script.Condition

/-!
# Reading pieces

What a reader answers depends on the pieces ahead, and on places only where a value holds one.

* `Gives`: a reader answers with a value of some kind and leaves given pieces;
* `next?_eq_some`, `next?_eq_none`, **`expect_gives`**: one token;
* `readValue_gives`, `readOperand_gives`: the parts of a leaf;
* **`readComparison_gives`**, `readComparison_excluded`, **`readCall_gives`**: leaves after their
  first token, and lists that a field is not in.
-/

namespace Eligibility

open TokenKind

/-- The reader answers with a value that `P` holds of, and leaves the pieces `ps`. -/
def Gives {α : Type} {n : Nat} (r : Reading α n) (P : α → Prop) (ps : List Piece) : Prop :=
  ∃ p, r = .ok p ∧ P p.value ∧ p.rest.map Token.piece = ps

section Gives

variable {α β : Type} {m n : Nat} {P : α → Prop} {Q : β → Prop} {ps qs : List Piece}

theorem Gives.bind {r : Reading α m} {f : Parsed α m → Reading β n} (h : Gives r P ps)
    (hf : ∀ p : Parsed α m, P p.value → p.rest.map Token.piece = ps → Gives (f p) Q qs) :
    Gives (r >>= f) Q qs := by
  obtain ⟨p, rfl, hp, hr⟩ := h
  exact hf p hp hr

theorem Gives.mono {r : Reading α n} (h : Gives r P ps) {P' : α → Prop} (hp : ∀ a, P a → P' a) :
    Gives r P' ps := by
  obtain ⟨p, hr, hv, hs⟩ := h
  exact ⟨p, hr, hp _ hv, hs⟩

theorem gives_ok {p : Parsed α n} (hp : P p.value) (hs : p.rest.map Token.piece = ps) :
    Gives (Except.ok p) P ps := ⟨p, rfl, hp, hs⟩

theorem Gives.widen {r : Reading α m} (h : Gives r P ps) (hle : m ≤ n) :
    Gives (r.widen hle) P ps := by
  obtain ⟨p, rfl, hp, hs⟩ := h
  exact ⟨p.widen hle, rfl, hp, hs⟩

end Gives

/-! ## One token -/

section Token

variable {α : Type} {read : Token → Option α} {nested : Bool} {ts : List Token} {k : TokenKind}
  {s : String} {ps : List Piece} {P : α → Prop}

/-- No line break is ahead. -/
def Started (ps : List Piece) : Prop := ∀ p ∈ ps.head?, p.1 ≠ .newline

theorem dropNewlines_of_started (h : ts.map Token.piece = ps) (hs : Started ps) :
    dropNewlines ts = ts := by
  cases ts with
  | nil => rfl
  | cons t ts =>
    rw [← h] at hs
    have ht : ¬ t.kind = .newline := hs _ rfl
    rw [dropNewlines, List.dropWhile_cons, if_neg (by simpa using ht)]

theorem ahead_of_started (h : ts.map Token.piece = ps) (hs : Started ps) :
    ahead nested ts = ts := by
  cases nested
  · rfl
  · exact dropNewlines_of_started h hs

theorem next?_of_ahead (h : (ahead nested ts).map Token.piece = (k, s) :: ps)
    (hread : ∀ t : Token, t.piece = (k, s) → ∃ a, read t = some a ∧ P a) :
    ∃ p, next? nested read ts = some p ∧ P p.value ∧ p.rest.map Token.piece = ps := by
  unfold next?
  generalize length_ahead_le nested ts = hle
  revert hle h
  generalize ahead nested ts = us
  intro h hle
  cases us with
  | nil => cases h
  | cons t us =>
    obtain ⟨ht, hps⟩ := List.cons.inj h
    obtain ⟨a, ha, hp⟩ := hread t ht
    refine ⟨⟨a, us, hle⟩, ?_, hp, hps⟩
    rw [head?, ha]
    rfl

theorem next?_eq_some (nested : Bool) (h : ts.map Token.piece = (k, s) :: ps) (hk : k ≠ .newline)
    (hread : ∀ t : Token, t.piece = (k, s) → ∃ a, read t = some a ∧ P a) :
    ∃ p, next? nested read ts = some p ∧ P p.value ∧ p.rest.map Token.piece = ps := by
  refine next?_of_ahead ?_ hread
  rw [ahead_of_started h fun p hp => by rw [← Option.some.inj hp]; exact hk, h]

theorem next?_newline {b : String} (h : ts.map Token.piece = (.newline, b) :: (k, s) :: ps)
    (hk : k ≠ .newline) (hread : ∀ t : Token, t.piece = (k, s) → ∃ a, read t = some a ∧ P a) :
    ∃ p, next? true read ts = some p ∧ P p.value ∧ p.rest.map Token.piece = ps := by
  refine next?_of_ahead ?_ hread
  cases ts with
  | nil => cases h
  | cons t ts =>
    obtain ⟨ht, hts⟩ := List.cons.inj h
    have hkind : t.kind = .newline := congrArg Prod.fst ht
    have hdrop : dropNewlines (t :: ts) = dropNewlines ts := by
      rw [dropNewlines, List.dropWhile_cons, if_pos (by simpa using hkind)]
      rfl
    rw [ahead, if_pos rfl, hdrop, dropNewlines_of_started hts, hts]
    exact fun p hp => by rw [← Option.some.inj hp]; exact hk

theorem next?_eq_none (h : ts.map Token.piece = ps) (hs : Started ps)
    (hread : ∀ p ∈ ps.head?, ∀ t : Token, t.piece = p → read t = none) :
    next? nested read ts = none := by
  have hahead : ahead nested ts = ts := ahead_of_started h hs
  unfold next?
  have hwiden {us : List Token} {n : Nat} (hu : us = ts) (hle : us.length ≤ n) :
      (head? read us).map (Parsed.widen hle) = none := by
    subst hu
    cases us with
    | nil => rfl
    | cons t ts =>
      rw [← h] at hread
      rw [head?, hread _ rfl t rfl]
      rfl
  exact hwiden hahead _

/-- A token that reads as a value. -/
theorem expect_gives {e : Expected} (h : ts.map Token.piece = (k, s) :: ps) (hk : k ≠ .newline)
    (hread : ∀ t : Token, t.piece = (k, s) → ∃ a, read t = some a ∧ P a) :
    Gives (expect nested read e ts) P ps := by
  obtain ⟨p, hn, hp, hs⟩ := next?_eq_some nested h hk hread
  rw [expect, hn]
  exact gives_ok hp hs

theorem ofKind?_piece {t : Token} (h : t.piece = (k, s)) : ∃ a, t.ofKind? k = some a ∧ True := by
  have : t.kind = k := congrArg Prod.fst h
  exact ⟨(), by rw [Token.ofKind?, if_pos this], trivial⟩

theorem expect_kind {e : Expected} (h : ts.map Token.piece = (k, s) :: ps) (hk : k ≠ .newline) :
    Gives (expect nested (Token.ofKind? k) e ts) (fun _ => True) ps :=
  expect_gives h hk fun _ => ofKind?_piece

theorem next?_kind (nested : Bool) (h : ts.map Token.piece = (k, s) :: ps) (hk : k ≠ .newline) :
    ∃ p, next? nested (Token.ofKind? k) ts = some p ∧ p.rest.map Token.piece = ps := by
  obtain ⟨p, hp, -, hs⟩ := next?_eq_some nested h hk fun _ => ofKind?_piece
  exact ⟨p, hp, hs⟩

theorem next?_other (h : ts.map Token.piece = ps)
    (hps : ∀ p ∈ ps.head?, p.1 ≠ .newline ∧ p.1 ≠ k) :
    next? nested (Token.ofKind? k) ts = none := by
  refine next?_eq_none h (fun p hp => (hps p hp).1) fun p hp t ht => ?_
  have : t.kind ≠ k := by
    rw [show t.kind = p.1 from congrArg Prod.fst ht]
    exact (hps p hp).2
  rw [Token.ofKind?, if_neg this]

end Token

/-! ## Values -/

section Value

variable {nested : Bool} {ts : List Token} {ps : List Piece}

theorem Value.kind_ne_newline (v : Value) : v.kind ≠ .newline := by cases v <;> exact nofun

theorem value?_piece {v : Value} (h : v.IsWritable) {t : Token} (ht : t.piece = v.piece) :
    t.value? = some v := by
  have hk : t.kind = v.kind := congrArg Prod.fst ht
  have hs : t.text = v.text := congrArg Prod.snd ht
  rw [Token.value?, hk]
  cases v with
  | int n =>
    change Value.ofNumber? t.text = _
    rw [hs]
    change Value.ofNumber? (toString n.toInt) = _
    rw [Value.ofNumber?, if_neg (Decimal.dot_notMem_toString _), Decimal.int64?_toString]
    rfl
  | float x => cases h
  | bool b => rfl
  | string s =>
    change some (Value.string t.content) = _
    rw [content_string hk hs h.2]
  | identifier s => exact congrArg (fun s => some (Value.identifier s)) hs

theorem readValue_gives {v : Value} (h : v.IsWritable) (ht : ts.map Token.piece = v.piece :: ps) :
    Gives (readValue nested ts) (· = v) ps :=
  expect_gives ht v.kind_ne_newline fun _ ht => ⟨v, value?_piece h ht, rfl⟩

theorem readValues_gives {vs : List Value} (hn : vs ≠ []) (h : ∀ v ∈ vs, v.IsWritable)
    {s : String} (ht : ts.map Token.piece = Value.listPieces vs ++ (.rightParen, s) :: ps) :
    Gives (readValues nested ts) (· = vs) ((.rightParen, s) :: ps) := by
  induction vs generalizing ts with
  | nil => exact absurd rfl hn
  | cons v vs ih =>
    obtain ⟨hv, hvs⟩ := List.forall_mem_cons.1 h
    rw [readValues]
    cases vs with
    | nil =>
      refine (readValue_gives hv ht).bind fun p hp hs => ?_
      have hnone : next? nested (Token.ofKind? .comma) p.rest = none :=
        next?_other hs fun q hq => by rw [← Option.some.inj hq]; exact ⟨nofun, nofun⟩
      rw [hnone]
      exact gives_ok (congrArg (fun v => [v]) hp) hs
    | cons w vs =>
      refine (readValue_gives hv ht).bind fun p hp hs => ?_
      obtain ⟨c, hc, hcs⟩ := next?_kind nested hs nofun
      rw [hc]
      refine (ih (List.cons_ne_nil _ _) hvs hcs).bind fun q hq hqs => ?_
      refine gives_ok ?_ hqs
      change p.value :: q.value = _
      rw [hp, hq]

theorem readList_gives {vs : List Value} (hn : vs ≠ []) (h : ∀ v ∈ vs, v.IsWritable)
    (negated : Bool) (ht : ts.map Token.piece = (Operand.list vs).pieces ++ ps) :
    Gives (readList nested negated ts) (· = vs) ps := by
  rw [Operand.pieces, List.cons_append, List.append_assoc] at ht
  refine (expect_kind ht (by decide)).bind fun o _ ho => ?_
  refine (readValues_gives hn h ho).bind fun p hp hs => ?_
  refine (expect_kind hs (by decide)).bind fun c _ hc => ?_
  exact gives_ok hp hc

theorem readRange_gives {low high : Value} (hl : low.IsWritable) (hh : high.IsWritable)
    (ht : ts.map Token.piece = (Operand.range low high).pieces ++ ps) :
    Gives (readRange nested ts) (· = (low, high)) ps := by
  refine (readValue_gives hl ht).bind fun p hp hs => ?_
  refine (expect_kind hs nofun).bind fun m _ hm => ?_
  refine (readValue_gives hh hm).bind fun q hq hqs => ?_
  refine gives_ok ?_ hqs
  change (p.value, q.value) = _
  rw [hp, hq]

theorem readOperand_gives {op : Operator} {o : Operand} (h : o.Fits op) (negated : Bool)
    (ht : ts.map Token.piece = o.pieces ++ ps) :
    Gives (readOperand nested op negated ts) (· = o) ps := by
  have hsingle {v : Value} (hv : v.IsWritable)
      (ht : ts.map Token.piece = (Operand.single v).pieces ++ ps) :
      Gives (readValue nested ts >>= fun v =>
        (return (v.map Operand.single).widen (Nat.le_succ _) : Reading Operand (ts.length + 1)))
        (· = .single v) ps := by
    refine (readValue_gives hv ht).bind fun p hp hs => ?_
    exact gives_ok (congrArg Operand.single hp) hs
  cases o with
  | none => rcases h with rfl | rfl <;> exact gives_ok rfl ht
  | single v =>
    obtain ⟨hop, hv⟩ := h
    cases op with
    | between | isIn | isEmpty | isNotEmpty => cases hop
    | _ => exact hsingle hv ht
  | range low high =>
    obtain ⟨rfl, hlow, hhigh⟩ := h
    refine (readRange_gives hlow hhigh ht).bind fun p hp hs => ?_
    refine gives_ok ?_ hs
    change Operand.range p.value.1 p.value.2 = _
    rw [hp]
  | list vs =>
    obtain ⟨rfl, hn, hvs⟩ := h
    refine (readList_gives hn hvs negated ht).bind fun p hp hs => ?_
    exact gives_ok (congrArg Operand.list hp) hs

end Value

/-! ## Leaves -/

section Leaf

variable {nested : Bool} {ts : List Token} {ps : List Piece}

/-- What may follow a condition. -/
def Closes (ps : List Piece) : Prop :=
  ∀ p ∈ ps.head?, p.1 = .and ∨ p.1 = .or ∨ p.1 = .rightParen

theorem Closes.started (h : Closes ps) : Started ps := by
  intro p hp
  rcases h p hp with e | e | e <;> rw [e] <;> exact nofun

theorem readComparison_operator {field : String} {k : TokenKind} {s : String} {op : Operator}
    {negated : Bool} {o : Operand}
    (hread : ∀ t : Token, t.kind = k → t.operator? = some (op, negated)) (hk : k ≠ .newline)
    (h : o.Fits op) (p : Position) (ht : ts.map Token.piece = (k, s) :: (o.pieces ++ ps)) :
    Gives (readComparison nested field p ts)
      (· = if negated then .not (.leaf (.comparison ⟨field, op, o, p⟩))
        else .leaf (.comparison ⟨field, op, o, p⟩)) ps := by
  have hop (t : Token) (ht : t.piece = (k, s)) : ∃ a, t.operator? = some a ∧ a = (op, negated) :=
    ⟨_, hread t (congrArg Prod.fst ht), rfl⟩
  refine (expect_gives ht hk hop).bind ?_
  rintro ⟨_, rest, hlt⟩ rfl hrest
  refine (readOperand_gives h negated hrest).bind fun q hq hqs => ?_
  refine gives_ok ?_ hqs
  dsimp only
  rw [hq]

theorem readComparison_gives {c : Comparison} (h : c.operand.Fits c.op) (p : Position)
    (ht : ts.map Token.piece = (.comparison c.op, c.op.symbol) :: (c.operand.pieces ++ ps)) :
    Gives (readComparison nested c.field p ts)
      (· = .leaf (.comparison { c with position := p })) ps := by
  have hread (t : Token) (hk : t.kind = .comparison c.op) : t.operator? = some (c.op, false) := by
    rw [Token.operator?, hk]
  exact readComparison_operator hread nofun h p ht

theorem readComparison_excluded {field : String} {vs : List Value}
    (h : (Operand.list vs).Fits .isIn) (p : Position)
    (ht : ts.map Token.piece = (.notIn, "NOT IN") :: ((Operand.list vs).pieces ++ ps)) :
    Gives (readComparison nested field p ts)
      (· = .not (.leaf (.comparison ⟨field, .isIn, .list vs, p⟩))) ps := by
  have hread (t : Token) (hk : t.kind = .notIn) : t.operator? = some (.isIn, true) := by
    rw [Token.operator?, hk]
  exact readComparison_operator hread nofun h p ht

theorem readCheckValues_gives {f : FunctionCall} (h : f.IsWritable) {s : String}
    (ht : ts.map Token.piece = f.valuePieces ++ (.rightParen, s) :: ps) :
    Gives (readCheckValues f.function ts) (· = f.values) ((.rightParen, s) :: ps) := by
  unfold readCheckValues
  rw [FunctionCall.valuePieces] at ht
  by_cases hn : f.values = []
  · rw [if_pos hn] at ht
    have hcomma : next? true (Token.ofKind? .comma) ts = none :=
      next?_other ht fun q hq => by rw [← Option.some.inj hq]; simp
    have hnone : (if f.function.isGridCheck then next? true (Token.ofKind? .comma) ts else none) =
        none := by
      rw [hcomma]; exact ite_self none
    rw [hnone]
    exact gives_ok hn.symm ht
  · have hcheck : f.function.isGridCheck = true := by
      have h := h.2
      split at h
      · exact absurd h.1 hn
      · rename_i ha; rw [GridFunction.isGridCheck, Bool.not_eq_true']; simpa using ha
    rw [if_neg hn] at ht
    obtain ⟨c, hc, hcs⟩ := next?_kind true ht (by decide)
    rw [if_pos hcheck, hc]
    exact (readValues_gives hn h.values hcs).widen _

theorem binary?_piece {op : Operator} (h : op.isBinary = true) {t : Token}
    (ht : t.piece = (.comparison op, op.symbol)) : ∃ a, t.binary? = some a ∧ a = op := by
  have hk : t.kind = .comparison op := congrArg Prod.fst ht
  refine ⟨op, ?_, rfl⟩
  rw [Token.binary?, hk, TokenKind.binary?, if_pos h]

theorem readTrailing_gives {f : FunctionCall} (h : f.IsWritable) (hps : Closes ps)
    (ht : ts.map Token.piece = f.trailingPieces ++ ps) :
    Gives (readTrailing nested f.function ts) (· = f.comparison) ps := by
  unfold readTrailing
  rw [FunctionCall.trailingPieces] at ht
  have hp := h.comparison
  cases hf : f.comparison with
  | none =>
    rw [hf] at ht
    have hnone : next? nested Token.binary? ts = none := by
      refine next?_eq_none ht hps.started fun p hp t ht => ?_
      have hk : t.kind = p.1 := congrArg Prod.fst ht
      rw [Token.binary?, hk]
      rcases hps p hp with e | e | e <;> rw [e] <;> rfl
    have hall : (if f.function.isAggregation then next? nested Token.binary? ts else none) =
        none := by
      rw [hnone]; exact ite_self none
    rw [hall]
    exact gives_ok rfl ht
  | some p =>
    obtain ⟨op, v⟩ := p
    obtain ⟨hop, hv⟩ := hp _ hf
    have hagg : f.function.isAggregation = true := by
      have h := h.2
      split at h
      · assumption
      · rw [hf] at h; cases h.1
    rw [hf] at ht
    obtain ⟨o, ho, hov, hos⟩ := next?_eq_some nested ht (by simp) fun t => binary?_piece hop
    rw [if_pos hagg, ho]
    refine (readValue_gives hv hos).bind fun q hq hqs => ?_
    refine gives_ok ?_ hqs
    change some (o.value, q.value) = _
    rw [hov, hq]

theorem readCall_gives {f : FunctionCall} (h : f.IsWritable) (hps : Closes ps) (p : Position)
    (ht : ts.map Token.piece = (.leftParen, "(") :: (.identifier, f.target) ::
      (f.valuePieces ++ (.rightParen, ")") :: (f.trailingPieces ++ ps))) :
    Gives (readCall nested f.function p ts) (· = .call { f with position := p }) ps := by
  have hfield (t : Token) (ht : t.piece = (.identifier, f.target)) :
      ∃ a, t.field? = some a ∧ a = f.target := by
    have hk : t.kind = .identifier := congrArg Prod.fst ht
    exact ⟨t.text, by rw [Token.field?, if_pos hk], congrArg Prod.snd ht⟩
  refine (expect_kind ht nofun).bind fun o _ hos => ?_
  refine (expect_gives hos nofun hfield).bind fun target htarget hts => ?_
  refine (readCheckValues_gives h hts).bind fun values hvalues hvs => ?_
  refine (expect_kind hvs nofun).bind fun c _ hcs => ?_
  refine (readTrailing_gives h hps hcs).bind fun trailing htrailing hrs => ?_
  refine gives_ok ?_ hrs
  change Leaf.call ⟨f.function, target.value, values.value, trailing.value, p⟩ = _
  rw [htarget, hvalues, htrailing]

end Leaf

end Eligibility
