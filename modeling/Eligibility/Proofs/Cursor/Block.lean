import Eligibility.Proofs.Cursor.Condition

/-!
# Reading blocks by a cursor

* `passClause`, `restClauses_eq`, `length_clausePass`: one pass of the loop over clauses, and what
  follows it;
* `answers_integer`, `answers_score`, `answers_settingValue`, `answers_clause`: one clause;
* `answers_clausePass`, **`answers_clauses`**: the pass and the loop by a cursor;
* `answers_header`, `answers_body`, `run_previousLine`, **`answers_block`**: blocks.
-/

namespace Eligibility

open Reader

/-! ## Readers of tokens -/

section Tokens

variable {ts rest : List Token} {u : Token}

/-- A pass of the loop over clauses as a reader of tokens. -/
def passClause (r : Rule) : Option Clause → Reader (Option Rule)
  | none => lines >>= fun _ => pure none
  | some c => of (readSetting c) >>= fun x => pure (some (x.apply r))

/-- The rule with its other clauses. -/
def restClauses (r : Rule) : Reader Rule := of readSettings >>= fun ss => pure (r.applyAll ss)

theorem restClauses_eq (r : Rule) :
    restClauses r =
      (option true Token.clause? >>= passClause r) >>= fun o => o.elim (pure r) restClauses := by
  rw [restClauses, of_readSettings, bind_assoc, bind_assoc]
  refine congrArg _ (funext fun o => ?_)
  cases o with
  | none => simp only [clauses, passClause, bind_assoc, pure_bind]; rfl
  | some c => simp only [clauses, passClause, bind_assoc, pure_bind]; rfl

/-- A pass that finds a clause takes tokens behind the line breaks that it skips. -/
theorem length_clausePass {r r' : Rule}
    (h : (option true Token.clause? >>= passClause r) ts = .ok (some r', rest)) :
    rest.length < (dropNewlines ts).length := by
  obtain ⟨o, mid, ho, h⟩ := bind_ok_iff.1 h
  cases o with
  | none => cases h
  | some c =>
    obtain ⟨x, mid', hx, h⟩ := bind_ok_iff.1 h
    cases h
    exact Nat.lt_trans (length_lt_of hx) (length_option_ahead ho)

theorem applyAll_startLine (r : Rule) (line : Nat) (ss : List Setting) :
    { r with startLine := line }.applyAll ss = { r.applyAll ss with startLine := line } := by
  unfold Rule.applyAll
  induction ss generalizing r with
  | nil => rfl
  | cons x ss ih =>
    rw [List.foldl_cons, List.foldl_cons, ← ih]
    cases x <;> rfl

/-- Tokens before one that is no line break do not count for the last line. -/
theorem lastLine_append (us : List Token) (hu : u.kind ≠ .newline) (ts : List Token) :
    lastLine (us ++ u :: ts) = lastLine (u :: ts) := by
  rw [lastLine, lastLine, List.filter_append, List.filter_cons_of_pos (by simp [hu]),
    List.getLast?_append, List.getLast?_cons, Option.some_or]

end Tokens

namespace Tape

variable {α : Type} {s : Tape} {t : Track} {d : Nat} {ts rest : List Token} {u : Token}

/-! ## Clauses -/

section Clause

/-- A number token that writes no number is taken before the reader halts at it. -/
theorem answers_integer (h : s.Stands t 0 ts) (e : Expected) :
    s.Answers t (Walk.integer e) 0 (of (expect false Token.integer? e) ts) := by
  have hself := self?_last (s := s) (k := .number) (by decide)
  rcases ahead_cases false (Token.self? .number) ts with ⟨u, rest, v, hu, hv⟩ | hnone
  · obtain ⟨hk, rfl⟩ := Token.self?_eq_some hv
    have htake : s.Answers t (Walk.consume (Token.self? .number) e.halt) 0 (.ok (u, rest)) :=
      answers_consume_cons h hself hu hv
    cases hx : u.number? with
    | some x =>
      have hread : u.integer? = some x.truncate := by rw [Token.integer?, hx, Option.map_some]
      rw [expect_of_cons hu hread]
      refine htake.goOn fun t h => ?_
      rw [hx]
      exact answers_pure h _
    | none =>
      have hread : ∀ v ∈ (ahead false ts).head?, v.integer? = none := by
        rw [hu]
        intro v hv
        obtain rfl := Option.some.inj hv
        rw [Token.integer?, hx, Option.map_none]
      rw [expect_of_none hread, hu]
      refine htake.goOn fun t h => ?_
      rw [hx]
      exact ⟨t, rfl, .refl s t⟩
  · have hread : ∀ v ∈ (ahead false ts).head?, v.integer? = none := by
      intro v hv
      have hk : v.kind ≠ .number := fun hk => by
        have := hnone v hv
        rw [Token.self?, if_pos hk] at this
        cases this
      rw [Token.integer?, Token.number?, if_neg hk, Option.map_none]
    have htake := answers_consume (e := e) h hself
    rw [show inParens 0 = false from rfl, expect_of_none hnone] at htake
    rw [expect_of_none hread]
    exact htake.imp fun _ h => ⟨Walk.run_bind_error h.1, h.2⟩

theorem answers_score (h : s.Stands t 0 ts) : s.Answers t Walk.score 0 (of readScore ts) := by
  rw [of_readScore]
  refine (answers_eat h (ofKind?_last (by decide))).bind fun o rest t h _ => ?_
  cases o with
  | some x => exact (answers_integer h _).bind fun n rest t h _ => answers_pure h _
  | none =>
    exact (answers_eat h (ofKind?_last (by decide))).bind fun o rest t h _ =>
      answers_integer h _

theorem answers_one {read : Token → Option α} {e : Expected} {w : Walk α} (v : α → Setting)
    (hw : s.Answers t w 0 (of (expect false read e) ts)) :
    s.Answers t (w >>= fun a => pure (v a)) 0
      (of (fun ts => do return (← expect false read e ts).map v) ts) := by
  rw [of_bind (r := fun a => pure (v a)) (fun _ => rfl) fun _ _ => rfl]
  exact hw.bind fun a rest t h _ => answers_pure h _

theorem answers_settingValue (h : s.Stands t 0 ts) (c : Clause) :
    s.Answers t (Walk.settingValue c) 0 (of (readSettingValue c) ts) := by
  cases c with
  | type => exact answers_one _ (answers_consume h (by rw [Token.ruleType?, s.last_kind]))
  | category =>
    refine answers_one _ (answers_consume h ?_)
    rw [Token.category?, field?_last, Token.string?, s.last_kind]
    rfl
  | mandatory => exact answers_one _ (answers_consume h (by rw [Token.boolean?, s.last_kind]))
  | order | weight => exact answers_one _ (answers_integer h _)
  | passMessage | failMessage =>
    exact answers_one _ (answers_consume h (by rw [Token.string?, s.last_kind]; rfl))
  | score =>
    rw [of_readSettingValue_score]
    exact (answers_score h).bind fun n rest t h _ => answers_pure h _
  | when =>
    rw [of_readSettingValue_when]
    refine (answers_skipNewlines h).bind fun _ rest t h _ => ?_
    exact (answers_condition h).bind fun c rest t h _ => answers_pure h _

theorem answers_clause {c : Clause} (h : s.Stands t 0 (u :: rest)) :
    s.Answers t (Walk.clause c) 0 (of (readSetting c) rest) := by
  refine (answers_advance h rfl).goOn fun t h => ?_
  by_cases hc : c = .when
  · subst hc
    rw [if_pos rfl, readSetting_when]
    exact answers_settingValue h .when
  · rw [if_neg hc, of_readSetting hc]
    exact (answers_consume h (ofKind?_last (by decide))).bind fun _ rest t h _ =>
      answers_settingValue h c

theorem answers_clausePass (h : s.Stands t 0 ts) (r : Rule) :
    s.Answers t (Walk.clausePass r) 0 ((option true Token.clause? >>= passClause r) ts) := by
  refine (answers_skipNewlines h).goOn fun t h => answers_peek h ?_
  have hnext : s.next 0 (dropNewlines ts) = (ahead true ts).headD s.last := rfl
  rw [hnext]
  rcases ahead_cases true Token.clause? ts with ⟨u, rest, c, hu, hc⟩ | hnone
  · rw [bind_of_ok (option_of_cons hu hc), hu, List.headD_cons, hc]
    have hts : dropNewlines ts = u :: rest := hu
    rw [hts] at h
    exact (answers_clause h).bind fun x rest t h _ => answers_pure h _
  · have hend : s.last.clause? = none := by rw [Token.clause?, s.last_kind]
    rw [bind_of_ok (option_of_none hnone), read_headD hend hnone]
    exact answers_pure h none

theorem answers_clauses (h : s.Stands t 0 ts) (r : Rule) :
    s.Answers t (Walk.clauses r) 0 (restClauses r ts) :=
  answers_loop (fun r _ _ h => answers_clausePass h r) restClauses_eq
    (fun _ _ ts _ ho => Nat.lt_of_lt_of_le (length_clausePass ho) (length_dropNewlines_le ts)) h r

end Clause

/-! ## Blocks -/

section Block

theorem answers_header (h : s.Stands t 0 (u :: rest)) (hu : u.kind = .rule) :
    s.Answers t Walk.header 0 ((of (expect false Token.string? .ruleName) >>= fun name =>
      pure { Rule.named name with startLine := u.position.line }) rest) := by
  have hself : Token.self? .rule u = some u := by rw [Token.self?, if_pos hu]
  refine (answers_consume_cons h (self?_last (by decide)) rfl hself).goOn fun t h => ?_
  have hk : TokenKind.eof ≠ .string := by decide
  have hend : s.last.string? = none := by rw [Token.string?, s.last_kind, if_neg hk]
  exact (answers_consume h hend).bind fun name rest t h _ => answers_pure h _

theorem answers_body (h : s.Stands t 0 (u :: rest)) (hu : u.kind = .rule) :
    s.Answers t Walk.body 0 ((readParts >>= fun parts =>
      pure { (Rule.named parts.1).applyAll parts.2 with startLine := u.position.line }) rest) := by
  have hparts : (readParts >>= fun parts => pure
        { (Rule.named parts.1).applyAll parts.2 with startLine := u.position.line }) =
      (of (expect false Token.string? .ruleName) >>= fun name =>
        pure { Rule.named name with startLine := u.position.line }) >>= fun r =>
          restClauses r := by
    simp only [readParts, restClauses, bind_assoc, pure_bind, applyAll_startLine]
  rw [hparts]
  exact (answers_header h hu).bind fun r rest t h _ => answers_clauses h r

theorem run_previousLine (h : s.Stands t d ts) :
    Walk.previousLine.run t =
      some (.ok (lastLine (s.tokens.take (s.tokens.length - ts.length))), t) := by
  have hlen : ts.length = s.tokens.length - t.cursor.current := by
    rw [← h.left, left, List.length_drop]
  have hcur := h.holds.current
  have htake : t.cursor.tokens.take t.cursor.current =
      s.tokens.take (s.tokens.length - ts.length) := by
    rw [h.holds.tokens, toList, List.take_append_of_le_length hcur]
    congr 1
    omega
  have hle : t.cursor.current ≤ t.cursor.tokens.length := by
    rw [h.holds.tokens, length_toList]
    exact Nat.le_succ_of_le hcur
  show Walk.run (if t.cursor.current ≤ t.cursor.tokens.length then
    pure (lastLine (t.cursor.tokens.take t.cursor.current)) else throw _) t = _
  rw [if_pos hle, htake]
  rfl

/-- The line on which a block ends is that of its last token, whatever is in front of the block. -/
theorem blockRule_endLine (h : s.Stands t d (u :: ts)) (hu : u.kind ≠ .newline)
    (hrest : rest.length < ts.length) (parts : String × List Setting) :
    (blockRule u ts parts rest).endLine =
      lastLine (s.tokens.take (s.tokens.length - rest.length)) := by
  obtain ⟨us, hsplit⟩ : ∃ us, s.tokens = us ++ u :: ts :=
    ⟨s.tokens.take t.cursor.current, by rw [← h.left, left, List.take_append_drop]⟩
  obtain ⟨n, hn⟩ : ∃ n, ts.length + 1 - rest.length = n + 1 := ⟨ts.length - rest.length, by omega⟩
  have hcount : (us ++ u :: ts).length - rest.length = us.length + (n + 1) := by
    rw [List.length_append, List.length_cons]
    omega
  rw [hsplit, hcount, List.take_length_add_append, List.take_succ_cons, lastLine_append _ hu]
  show lastLine ((u :: ts).take (ts.length + 1 - rest.length)) = _
  rw [hn, List.take_succ_cons]

theorem answers_block (h : s.Stands t 0 (u :: rest)) (hu : u.kind = .rule) :
    s.Answers t Walk.block 0 (of (readBlock u) rest) := by
  have hbody := answers_body h hu
  cases hparts : readParts rest with
  | error f =>
    rw [bind_of_error hparts] at hbody
    rw [of_readBlock, hparts]
    exact hbody.imp fun _ h => ⟨Walk.run_bind_error h.1, h.2⟩
  | ok q =>
    obtain ⟨parts, rest'⟩ := q
    have hblock : of (readBlock u) rest = .ok (blockRule u rest parts rest', rest') := by
      rw [of_readBlock, hparts]
      rfl
    have hend := blockRule_endLine h (by rw [hu]; decide) (length_lt_of hblock) parts
    rw [bind_of_ok hparts] at hbody
    rw [hblock]
    refine hbody.goOn fun t' h' => ⟨t', ?_, h', .refl s t'⟩
    rw [Walk.run_bind_ok (run_previousLine h'), ← hend]
    rfl

end Block

end Tape

end Eligibility
