import Eligibility.Proofs.Cursor.Answer

/-!
# Reading conditions by a cursor

* `passValue`, `restValues_eq`, `of_readOperand`, `readPrimary_dropNewlines`: readers of tokens as a
  cursor goes through them;
* `answers_value`, `answers_valuePass`, `answers_values`: literals and lists of them;
* `answers_functionCall`, `answers_comparison`: leaves, at their first token;
* `answers_primary`, `answers_unary`, `answers_chain`: conditions, given those inside;
* **`answers_condition`**: conditions.
-/

namespace Eligibility

open Reader

/-! ## Readers of tokens -/

theorem Token.self?_eq_some {k : TokenKind} {u v : Token} (h : u.self? k = some v) :
    u.kind = k ∧ u = v := by
  unfold Token.self? at h
  split at h
  · exact ⟨‹_›, Option.some.inj h⟩
  · cases h

/-- A pass of the loop over values, behind the comma if there is one. -/
def passValue (nested : Bool) (vs : List Value) : Option Unit → Reader (Option (List Value))
  | none => pure none
  | some _ => of (readValue nested) >>= fun v => pure (some (vs ++ [v]))

/-- What follows the values that have been read: nothing, or the other values. -/
def restValues (nested : Bool) (vs : List Value) : Option Unit → Reader (List Value)
  | none => pure vs
  | some _ => of (readValues nested) >>= fun ws => pure (vs ++ ws)

theorem restValues_eq (nested : Bool) (vs : List Value) :
    (option nested (Token.ofKind? .comma) >>= restValues nested vs) =
      (option nested (Token.ofKind? .comma) >>= passValue nested vs) >>= fun o =>
        o.elim (pure vs) fun ws =>
          option nested (Token.ofKind? .comma) >>= restValues nested ws := by
  rw [bind_assoc]
  refine congrArg _ (funext fun o => ?_)
  cases o with
  | none => rw [restValues, passValue, pure_bind, Option.elim_none]
  | some x =>
    rw [restValues, passValue, of_readValues]
    simp only [bind_assoc, pure_bind, Option.elim_some]
    refine congrArg _ (funext fun v => congrArg _ (funext fun o => ?_))
    cases o with
    | none => rw [otherValues, restValues, pure_bind]
    | some y => simp only [otherValues, restValues, bind_assoc, pure_bind, List.append_assoc,
        List.singleton_append]

theorem length_valuePass {nested : Bool} {vs ws : List Value} {ts rest : List Token}
    (h : (option nested (Token.ofKind? .comma) >>= passValue nested vs) ts = .ok (some ws, rest)) :
    rest.length < ts.length := by
  obtain ⟨o, mid, ho, h⟩ := bind_ok_iff.1 h
  cases o with
  | none => cases h
  | some x =>
    obtain ⟨v, mid', hv, h⟩ := bind_ok_iff.1 h
    cases h
    exact Nat.lt_trans (length_lt_of hv) (length_option_lt ho)

theorem of_readOperand (nested : Bool) (op : Operator) (negated : Bool) :
    of (readOperand nested op negated) = match op with
      | .isEmpty | .isNotEmpty => pure .none
      | .between => of (readRange nested) >>= fun r => pure (.range r.1 r.2)
      | .isIn => of (readList nested negated) >>= fun vs => pure (.list vs)
      | _ => of (readValue nested) >>= fun v => pure (.single v) := by
  cases op with
  | isEmpty | isNotEmpty => rfl
  | _ => exact of_bind (fun _ => rfl) fun _ _ => rfl

theorem readPrimary_dropNewlines (nested : Bool) (ts : List Token) :
    of (readPrimary nested) (dropNewlines ts) = of (readPrimary nested) ts := by
  rw [of_readPrimary]
  show of (expect true _ _) (dropNewlines ts) >>= _ = of (expect true _ _) ts >>= _
  rw [expect_dropNewlines]

namespace Tape

variable {s : Tape} {t : Track} {d : Nat} {ts rest : List Token} {u : Token}

/-! ## Values -/

theorem answers_value (h : s.Stands t d ts) :
    s.Answers t Walk.value d (of (readValue (inParens d)) ts) :=
  answers_consume h (by rw [Token.value?, s.last_kind])

theorem answers_valuePass (h : s.Stands t d ts) (vs : List Value) :
    s.Answers t (Walk.valuePass vs) d
      ((option (inParens d) (Token.ofKind? .comma) >>= passValue (inParens d) vs) ts) := by
  refine (answers_eat h (ofKind?_last (by decide))).bind fun o rest t h _ => ?_
  cases o with
  | none => exact answers_pure h none
  | some x => exact (answers_value h).bind fun v rest t h _ => answers_pure h _

theorem answers_values (h : s.Stands t d ts) :
    s.Answers t Walk.values d (of (readValues (inParens d)) ts) := by
  have hother (v : Value) : otherValues (inParens d) v = restValues (inParens d) [v] := by
    funext o
    cases o <;> rfl
  rw [of_readValues]
  refine (answers_value h).bind fun v rest t h _ => ?_
  rw [hother]
  exact answers_loop (fun vs _ _ h => answers_valuePass h vs) (restValues_eq (inParens d))
    (fun _ _ _ _ => length_valuePass) h [v]

/-! ## Leaves -/

theorem answers_checkValues (h : s.Stands t (d + 1) ts) (f : GridFunction) :
    s.Answers t (Walk.checkValues f) (d + 1) (of (readCheckValues f) ts) := by
  rw [of_readCheckValues, Walk.checkValues]
  by_cases hf : f.isGridCheck = true
  · rw [if_pos hf, if_pos hf]
    refine (answers_eat h (ofKind?_last (by decide))).bind fun o rest t' h' _ => ?_
    cases o with
    | none => exact answers_pure h' []
    | some x => exact answers_values h'
  · rw [if_neg hf, if_neg hf]
    exact answers_pure h []

theorem answers_trailing (h : s.Stands t d ts) (f : GridFunction) :
    s.Answers t (Walk.trailing f) d (of (readTrailing (inParens d) f) ts) := by
  rw [of_readTrailing, Walk.trailing]
  by_cases hf : f.isAggregation = true
  · rw [if_pos hf, if_pos hf]
    have hend : Token.binary? s.last = none := by rw [Token.binary?, s.last_kind]; rfl
    refine (answers_eat h hend).bind fun o rest t' h' _ => ?_
    cases o with
    | none => exact answers_pure h' none
    | some op => exact (answers_value h').bind fun v rest t'' h'' _ => answers_pure h'' _
  · rw [if_neg hf, if_neg hf]
    exact answers_pure h none

theorem field?_last (s : Tape) : s.last.field? = none := by
  have hk : TokenKind.eof ≠ .identifier := by decide
  rw [Token.field?, s.last_kind, if_neg hk]

theorem answers_functionCall {f : GridFunction} (h : s.Stands t d ts)
    (hu : ahead (inParens d) ts = u :: rest) (hf : u.function? = some f) :
    s.Answers t Walk.functionCall d (of (readCall (inParens d) f u.position) rest) := by
  refine answers_peek h ?_
  rw [next_of_cons hu, hf, of_readCall]
  refine (answers_advance h hu).goOn fun t h => ?_
  refine (answers_openParen h .openFunction).bind fun _ rest t h _ => ?_
  refine (answers_consume h (field?_last s)).bind fun target rest t h _ => ?_
  refine (answers_checkValues h f).bind fun vs rest t h _ => ?_
  refine (answers_closeParen h .closeFunction).bind fun _ rest t h _ => ?_
  exact (answers_trailing h f).bind fun o rest t h _ => answers_pure h _

theorem answers_list (h : s.Stands t d ts) (negated : Bool) :
    s.Answers t (Walk.openParen (Expected.openList negated).halt >>= fun _ => Walk.values >>=
      fun vs => Walk.closeParen (Expected.closeList negated).halt >>= fun _ => pure (.list vs)) d
      ((of (readList (inParens d) negated) >>= fun vs => pure (Operand.list vs)) ts) := by
  simp only [of_readList, bind_assoc, pure_bind]
  refine (answers_openParen h _).bind fun _ rest t h _ => ?_
  refine (answers_values h).bind fun vs rest t h _ => ?_
  exact (answers_closeParen h _).bind fun _ rest t h _ => answers_pure h _

theorem answers_operand (h : s.Stands t d ts) (op : Operator) (negated : Bool) :
    s.Answers t (Walk.operand op negated) d (of (readOperand (inParens d) op negated) ts) := by
  rw [of_readOperand]
  cases op with
  | isEmpty | isNotEmpty => exact answers_pure h Operand.none
  | between =>
    simp only [of_readRange, bind_assoc, pure_bind]
    refine (answers_value h).bind fun low rest t h _ => ?_
    refine (answers_consume h (ofKind?_last (by decide))).bind fun _ rest t h _ => ?_
    exact (answers_value h).bind fun high rest t h _ => answers_pure h _
  | isIn => exact answers_list h negated
  | _ => exact (answers_value h).bind fun v rest t h _ => answers_pure h _

theorem operator?_last (s : Tape) : s.last.operator? = none := by
  rw [Token.operator?, s.last_kind]

theorem self?_last {k : TokenKind} (hk : k ≠ .eof) : Token.self? k s.last = none := by
  rw [Token.self?, s.last_kind, if_neg hk.symm]

theorem answers_comparison (h : s.Stands t d ts) (hu : ahead (inParens d) ts = u :: rest)
    (hk : u.kind = .identifier) :
    s.Answers t Walk.comparison d
      (of (readComparison (inParens d) u.text u.position) rest) := by
  have hself : Token.self? .identifier u = some u := by rw [Token.self?, if_pos hk]
  rw [of_readComparison]
  refine (answers_consume_cons h (self?_last (by decide)) hu hself).goOn fun t h => ?_
  refine (answers_consume h (operator?_last s)).bind fun op rest t h _ => ?_
  exact (answers_operand h op.1 op.2).bind fun o rest t h _ => answers_pure h _

/-! ## Conditions -/

theorem answers_group (h : s.Stands t d ts) (hu : ahead (inParens d) ts = u :: rest)
    (hk : u.kind = .leftParen)
    (hinner : ∀ t', s.Stands t' (d + 1) rest →
      s.Answers t' Level.disjunction.read (d + 1) (of (readOr true none) rest)) :
    s.Answers t (Walk.openParen (.misplaced · "Expected '('") >>= fun _ =>
      Level.disjunction.read >>= fun c => Walk.closeParen Expected.closeGroup.halt >>=
        fun _ => pure (.group c)) d (opened (inParens d) .group rest) := by
  have hread : Token.ofKind? .leftParen u = some () := by rw [Token.ofKind?, if_pos hk]
  have hopen : s.Answers t (Walk.openParen (.misplaced · "Expected '('")) (d + 1)
      (.ok ((), rest)) :=
    (answers_consume_cons h (ofKind?_last (by decide)) hu hread).nest (· + 1)
  refine hopen.goOn fun t h => ?_
  refine (hinner t h).bind fun c rest t h _ => ?_
  exact (answers_closeParen h .closeGroup).bind fun _ rest t h _ => answers_pure h _

theorem answers_primary (h : s.Stands t d ts)
    (hinner : ∀ t' ts', s.Stands t' (d + 1) ts' → ts'.length < ts.length →
      s.Answers t' Level.disjunction.read (d + 1) (of (readOr true none) ts')) :
    s.Answers t Level.primary.read d (of (readPrimary (inParens d)) ts) := by
  have hlines : ahead (inParens d) (dropNewlines ts) = ahead true ts := by
    cases d with
    | zero => rfl
    | succ d => exact dropNewlines_ahead true ts
  rw [Level.read, of_readPrimary]
  refine (answers_skipNewlines h).goOn fun t h => ?_
  refine answers_peek h ?_
  rw [next, hlines]
  rcases ahead_cases true Token.opening? ts with ⟨u, rest, o, hu, ho⟩ | hnone
  · rw [bind_of_ok (expect_of_cons hu ho), hu, List.headD_cons, ho]
    have hahead : ahead (inParens d) (dropNewlines ts) = u :: rest := hlines.trans hu
    have hlt : rest.length < ts.length := by
      have := length_ahead_le true ts
      rw [hu] at this
      exact this
    cases Token.opening?_eq_some.1 ho with
    | group hk => exact answers_group h hahead hk fun t' h' => hinner t' rest h' hlt
    | @call f hk =>
      have hf : u.function? = some f := by rw [Token.function?, hk]
      exact (answers_functionCall h hahead hf).bind fun l rest t h _ => answers_pure h _
    | field hk => exact answers_comparison h hahead hk
  · have hend : s.last.opening? = none := by rw [Token.opening?, s.last_kind]
    rw [read_headD hend hnone, bind_of_error (expect_of_none hnone), ← hlines]
    exact answers_fail h .condition

theorem answers_unary (h : s.Stands t d ts)
    (hprimary : ∀ t' ts', s.Stands t' d ts' → ts'.length ≤ ts.length →
      s.Answers t' Level.primary.read d (of (readPrimary (inParens d)) ts')) :
    s.Answers t Level.unary.read d (of (readUnary (inParens d)) ts) := by
  rw [Level.read, of_readUnary]
  refine (answers_eat h (ofKind?_last (by decide))).bind fun o rest t' h' ho => ?_
  cases o with
  | none =>
    have hle := length_option_le ho
    exact hprimary t' rest h' hle
  | some x =>
    have hlt := length_option_lt ho
    refine (answers_skipNewlines h').goOn fun t h => ?_
    have hle := length_dropNewlines_le rest
    have hnot := hprimary t _ h (by omega)
    rw [readPrimary_dropNewlines] at hnot
    exact hnot.bind fun c rest t h _ => answers_pure h _

theorem answers_chain {k : TokenKind} (hk : k ≠ .eof) {join : Condition → Condition → Condition}
    {operand : Level} {r : Reader Condition} {read : Option Condition → Reader Condition}
    (hread : ∀ left, read left = r >>= fun c => goOn k read (chain join left c))
    (hlt : ∀ ts c rest, r ts = .ok (c, rest) → rest.length < ts.length)
    {t : Track} {ts : List Token} (h : s.Stands t d ts)
    (hoperand : ∀ t' ts', s.Stands t' d ts' → ts'.length ≤ ts.length →
      s.Answers t' operand.read d (r ts')) (c : Condition) :
    s.Answers t (operand.chain k join c) d (goOn k read c ts) := by
  rw [Level.chain]
  refine (answers_eatContinued h (ofKind?_last hk)).bind fun o rest t' h' ho => ?_
  cases o with
  | none => exact answers_pure h' c
  | some x =>
    refine (answers_skipNewlines h').bind fun _ rest' t' h' hskip => ?_
    rw [hread]
    have := length_option_lt ho
    have := length_lines_le hskip
    refine (hoperand t' rest' h' (by omega)).bind fun b rest'' t' h' hb => ?_
    have := hlt _ _ _ hb
    exact answers_chain hk hread hlt h'
      (fun t' ts' h' hle => hoperand t' ts' h' (by omega)) (join c b)
termination_by ts.length

/-- **A cursor reads conditions.** -/
theorem answers_condition {t : Track} {d : Nat} {ts : List Token} (h : s.Stands t d ts) :
    s.Answers t Walk.condition d (of (readOr (inParens d) none) ts) := by
  -- only a parenthesis leads back to a condition, and it takes a token
  have hunary (t' : Track) (ts' : List Token) (h' : s.Stands t' d ts')
      (hle : ts'.length ≤ ts.length) :
      s.Answers t' Level.unary.read d (of (readUnary (inParens d)) ts') := by
    refine answers_unary h' fun t' ts' h' hle' => answers_primary h' fun t' ts'' h' hlt => ?_
    exact answers_condition h'
  have hconjunction (t' : Track) (ts' : List Token) (h' : s.Stands t' d ts')
      (hle : ts'.length ≤ ts.length) :
      s.Answers t' Level.conjunction.read d (of (readAnd (inParens d) none) ts') := by
    rw [Level.read, of_readAnd]
    refine (hunary t' ts' h' hle).bind fun c rest t' h' hc => ?_
    have := length_lt_of hc
    exact answers_chain (by decide) (of_readAnd (inParens d)) (fun _ _ _ => length_lt_of) h'
      (fun t' ts' h' hle => hunary t' ts' h' (by omega)) c
  rw [Walk.condition, Level.read, of_readOr]
  refine (hconjunction t ts h (Nat.le_refl _)).bind fun c rest t' h' hc => ?_
  have := length_lt_of hc
  exact answers_chain (by decide) (of_readOr (inParens d)) (fun _ _ _ => length_lt_of) h'
    (fun t' ts' h' hle => hconjunction t' ts' h' (by omega)) c
termination_by ts.length

end Tape

end Eligibility
