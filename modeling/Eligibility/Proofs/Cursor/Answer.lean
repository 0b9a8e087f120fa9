import Eligibility.Proofs.Cursor.Grammar
import Eligibility.Proofs.Script.Answers

/-!
# What a cursor leaves

A cursor on tokens with one end leaves the tokens from its place on. A reader that moves it answers
as a reader of these tokens does, and it stays on the tokens all the way.

* `Tape`: tokens with one end, the last of them; `Tape.Holds`, `Tape.left`: a cursor on the tokens,
  and the tokens that it leaves;
* `getElem?_toList`, `pastLines_spec`, **`index_spec`**: the tokens at and after the cursor;
* `Tape.Stands`, `Tape.Keeps`: where a reader starts, and what it keeps;
* `Walk.run_bind_ok`, `Walk.run_bind_error`, `Walk.of_run_bind`: runs of one reader after the other;
* **`Tape.Answers`**, `Answers.goOn`, `Answers.bind`, `answers_loop`: a reader that answers as
  another one does;
* `answers_advance`, `answers_eat`, `answers_consume`, `answers_openParen`, `answers_closeParen`,
  `answers_lineBreak`, `answers_skipNewlines`, `answers_eatContinued`: readers of single tokens.
-/

namespace Eligibility

open Reader

variable {α β : Type}

/-! ## Tokens with one end -/

/-- Tokens of which the last one stands for the end, and no other one. -/
structure Tape where
  tokens : List Token
  last : Token
  last_kind : last.kind = .eof
  kind_ne : ∀ t ∈ tokens, t.kind ≠ .eof

/-- Line breaks count for nothing where parentheses are open. -/
def inParens : Nat → Bool
  | 0 => false
  | _ + 1 => true

namespace Tape

variable {s : Tape} {c : Cursor} {i : Nat}

/-- The tokens with the last one. -/
def toList (s : Tape) : List Token := s.tokens ++ [s.last]

/-- The cursor stands at one of the tokens. -/
structure Holds (s : Tape) (c : Cursor) : Prop where
  tokens : c.tokens = s.toList
  current : c.current ≤ s.tokens.length

/-- The tokens from the cursor on, without the last one. -/
def left (s : Tape) (c : Cursor) : List Token := s.tokens.drop c.current

theorem length_toList (s : Tape) : s.toList.length = s.tokens.length + 1 := by
  rw [toList, List.length_append, List.length_singleton]

theorem lastIndex_eq (hc : c.tokens = s.toList) : c.lastIndex = s.tokens.length := by
  rw [Cursor.lastIndex, hc, length_toList, Nat.add_sub_cancel]

theorem getElem?_toList (hi : i ≤ s.tokens.length) :
    s.toList[i]? = some ((s.tokens.drop i).headD s.last) := by
  rw [toList, List.headD_eq_head?_getD, List.head?_drop]
  rcases Nat.lt_or_eq_of_le hi with hlt | rfl
  · rw [List.getElem?_append_left hlt, List.getElem?_eq_getElem hlt, Option.getD_some]
  · rw [List.getElem?_concat_length, List.getElem?_eq_none (Nat.le_refl _), Option.getD_none]

theorem drop_succ {u : Token} {rest : List Token} (h : s.tokens.drop i = u :: rest) :
    i + 1 ≤ s.tokens.length ∧ s.tokens.drop (i + 1) = rest := by
  have hlt : i < s.tokens.length := by
    refine Nat.lt_of_not_le fun hge => ?_
    rw [List.drop_eq_nil_of_le hge] at h
    cases h
  rw [List.drop_eq_getElem_cons hlt] at h
  exact ⟨hlt, (List.cons.inj h).2⟩

theorem pastLines_spec (hc : c.tokens = s.toList) (hi : i ≤ s.tokens.length) :
    c.pastLines i ≤ s.tokens.length ∧
      s.tokens.drop (c.pastLines i) = dropNewlines (s.tokens.drop i) := by
  have hlast := lastIndex_eq hc
  induction i using Cursor.pastLines.induct c with
  | case1 i h hlt hk ih =>
    rw [Cursor.pastLines, dif_pos h, if_pos hk]
    have hi : i < s.tokens.length := hlast ▸ h
    obtain ⟨hle, hdrop⟩ := ih hi
    have hk : s.tokens[i].kind = .newline := by
      simpa only [hc, toList, List.getElem_append_left hi] using hk
    rw [List.drop_eq_getElem_cons hi, dropNewlines_cons_of_newline hk]
    exact ⟨hle, hdrop⟩
  | case2 i h hlt hk =>
    rw [Cursor.pastLines, dif_pos h, if_neg hk]
    have hi : i < s.tokens.length := hlast ▸ h
    have hk : s.tokens[i].kind ≠ .newline := by
      simpa only [hc, toList, List.getElem_append_left hi] using hk
    rw [List.drop_eq_getElem_cons hi, dropNewlines_cons hk]
    exact ⟨Nat.le_of_lt hi, rfl⟩
  | case3 i h =>
    rw [Cursor.pastLines, dif_neg h, List.drop_eq_nil_of_le (by omega)]
    exact ⟨hi, rfl⟩

/-! ## Where a reader starts, and what it keeps -/

/-- The cursor is on the tokens, with `d` open parentheses, and it leaves the tokens `ts`. -/
structure Stands (s : Tape) (t : Track) (d : Nat) (ts : List Token) : Prop where
  holds : s.Holds t.cursor
  depth : t.cursor.depth = d
  left : s.left t.cursor = ts

/-- The cursor has stayed on the tokens, and nothing has been written. -/
structure Keeps (s : Tape) (t t' : Track) : Prop where
  visited : ∀ c ∈ t'.visited, c ∈ t.visited ∨ s.Holds c
  draft : t'.draft = t.draft

end Tape

/-- The cursor at another place. -/
def Track.moved (t : Track) (c : Cursor) : Track :=
  { t with cursor := c, visited := c :: t.visited }

namespace Tape

variable {s : Tape} {t t' t'' : Track} {c : Cursor} {d : Nat} {ts rest : List Token} {u : Token}

theorem Keeps.refl (s : Tape) (t : Track) : s.Keeps t t := ⟨fun _ => .inl, rfl⟩

theorem Keeps.trans (h : s.Keeps t t') (h' : s.Keeps t' t'') : s.Keeps t t'' := by
  refine ⟨fun c hc => ?_, h'.draft.trans h.draft⟩
  rcases h'.visited c hc with hc | hc
  · exact h.visited c hc
  · exact .inr hc

theorem keeps_moved (h : s.Holds c) (t : Track) : s.Keeps t (t.moved c) := by
  refine ⟨fun c' hc' => ?_, rfl⟩
  rcases List.mem_cons.1 hc' with rfl | hc'
  · exact .inr h
  · exact .inl hc'

theorem Stands.jump {i : Nat} (h : s.Stands t d ts) (hi : i ≤ s.tokens.length)
    (hrest : s.tokens.drop i = rest) : s.Stands (t.moved (t.cursor.jump i)) d rest :=
  ⟨⟨h.holds.tokens, hi⟩, h.depth, hrest⟩

/-- The next token that counts is the first one ahead, or else the last token of all. -/
theorem index_spec (h : s.Stands t d ts) :
    t.cursor.index ≤ s.tokens.length ∧ s.tokens.drop t.cursor.index = ahead (inParens d) ts := by
  have hpast := pastLines_spec h.holds.tokens h.holds.current
  rw [Cursor.index, lastIndex_eq h.holds.tokens, h.depth, ← h.left]
  cases d with
  | zero =>
    rw [if_neg (Nat.lt_irrefl 0), Nat.min_eq_left h.holds.current]
    exact ⟨h.holds.current, rfl⟩
  | succ d =>
    rw [if_pos (Nat.succ_pos d), Nat.min_eq_left hpast.1]
    exact hpast

end Tape

/-! ## Running readers -/

namespace Walk

variable {w : Walk α} {f : α → Walk β} {t t' : Track} {a : α} {e : Halt}

theorem run_pure (a : α) (t : Track) : run (pure a) t = some (.ok a, t) := rfl

theorem run_cursor (t : Track) : run cursor t = some (.ok t.cursor, t) := rfl

theorem run_moveTo (c : Cursor) (t : Track) : run (moveTo c) t = some (.ok (), t.moved c) := rfl

theorem run_bind_ok (h : run w t = some (.ok a, t')) : run (w >>= f) t = run (f a) t' := by
  show (run w t).bind _ = _
  rw [h]
  rfl

theorem run_bind_error (h : run w t = some (.error e, t')) :
    run (w >>= f) t = some (.error e, t') := by
  show (run w t).bind _ = _
  rw [h]
  rfl

/-- If the second reader has come to an answer, so has the first one. -/
theorem of_run_bind {b : β} (h : run (w >>= f) t = some (.ok b, t')) :
    ∃ a t₁, run w t = some (.ok a, t₁) ∧ run (f a) t₁ = some (.ok b, t') := by
  cases hw : run w t with
  | none =>
    have hnone : run (w >>= f) t = none := by
      show (run w t).bind _ = _
      rw [hw]
      rfl
    cases h.symm.trans hnone
  | some q =>
    obtain ⟨x, t₁⟩ := q
    cases x with
    | error e => cases h.symm.trans (run_bind_error hw)
    | ok a => exact ⟨a, t₁, rfl, (run_bind_ok hw).symm.trans h⟩

end Walk

namespace Tape

open Walk (run_bind_ok run_bind_error run_moveTo)

variable {s : Tape} {t t' : Track} {d d' : Nat} {ts rest : List Token} {u : Token}

/-- The token that is read next. -/
def next (s : Tape) (d : Nat) (ts : List Token) : Token := (ahead (inParens d) ts).headD s.last

theorem run_token {i : Nat} (h : s.Holds t.cursor) (hi : i ≤ s.tokens.length) :
    (Walk.token i).run t = some (.ok ((s.tokens.drop i).headD s.last), t) := by
  have hget := getElem?_toList hi
  rw [← h.tokens] at hget
  rw [Walk.token, run_bind_ok (Walk.run_cursor t), hget]
  rfl

theorem run_peek (h : s.Stands t d ts) : Walk.peek.run t = some (.ok (s.next d ts), t) := by
  obtain ⟨hle, hdrop⟩ := index_spec h
  show (Walk.token t.cursor.index).run t = _
  rw [run_token h.holds hle, hdrop, next]

theorem run_fail (h : s.Stands t d ts) (halt : Position → Halt) :
    (Walk.fail halt : Walk α).run t = some (.error (halt (s.next d ts).position), t) :=
  run_bind_ok (run_peek h)

/-! ## Answers -/

/-- The reader that moves a cursor answers as a reader of tokens does, and it leaves `d` open
parentheses. -/
def Answers (s : Tape) (t : Track) (w : Walk α) (d : Nat) : Except Failure (α × List Token) → Prop
  | .ok (a, rest) => ∃ t', w.run t = some (.ok a, t') ∧ s.Stands t' d rest ∧ s.Keeps t t'
  | .error f => ∃ t', w.run t = some (.error (.lacks (Report.locate s.last.position f)), t') ∧
      s.Keeps t t'

section Answers

variable {w : Walk α} {w' : α → Walk β} {r : Reader α} {next : α → Reader β} {a : α}
  {x : Except Failure (α × List Token)} {y : Except Failure (β × List Token)}

theorem Answers.congr {v : Walk α} (hv : s.Answers t v d x) (hrun : w.run t = v.run t) :
    s.Answers t w d x := by
  cases x with
  | error f => exact hv.imp fun _ h => ⟨hrun.trans h.1, h.2⟩
  | ok q => exact hv.imp fun _ h => ⟨hrun.trans h.1, h.2⟩

theorem Answers.goOn (hw : s.Answers t w d (.ok (a, rest)))
    (hn : ∀ t', s.Stands t' d rest → s.Answers t' (w' a) d' y) : s.Answers t (w >>= w') d' y := by
  obtain ⟨t', hrun, hstands, hkeeps⟩ := hw
  have hnext := hn t' hstands
  cases y with
  | error f => exact hnext.imp fun _ h => ⟨(run_bind_ok hrun).trans h.1, hkeeps.trans h.2⟩
  | ok q =>
    exact hnext.imp fun _ h => ⟨(run_bind_ok hrun).trans h.1, h.2.1, hkeeps.trans h.2.2⟩

theorem Answers.bind (hw : s.Answers t w d (r ts))
    (hn : ∀ a rest t', s.Stands t' d rest → r ts = .ok (a, rest) →
      s.Answers t' (w' a) d' (next a rest)) : s.Answers t (w >>= w') d' ((r >>= next) ts) := by
  show s.Answers t _ d' (r ts >>= fun q => next q.1 q.2)
  cases hr : r ts with
  | error f =>
    rw [hr] at hw
    exact hw.imp fun _ h => ⟨run_bind_error h.1, h.2⟩
  | ok q =>
    obtain ⟨a, rest⟩ := q
    rw [hr] at hw
    exact hw.goOn fun t' hstands => hn a rest t' hstands hr

theorem answers_pure (h : s.Stands t d ts) (a : α) :
    s.Answers t (pure a) d ((pure a : Reader α) ts) :=
  ⟨t, Walk.run_pure a t, h, .refl s t⟩

theorem answers_peek {w : Token → Walk α} (h : s.Stands t d ts)
    (hw : s.Answers t (w (s.next d ts)) d' x) : s.Answers t (Walk.peek >>= w) d' x :=
  hw.congr (run_bind_ok (run_peek h))

theorem answers_fail (h : s.Stands t d ts) (e : Expected) :
    s.Answers t (Walk.fail e.halt : Walk α) d' (.error ⟨e, ahead (inParens d) ts⟩) := by
  refine ⟨t, (run_fail h _).trans ?_, .refl s t⟩
  have hplace : (s.next d ts).position =
      (ahead (inParens d) ts).head?.elim s.last.position (·.position) := by
    rw [Tape.next, List.headD_eq_head?_getD]
    cases (ahead (inParens d) ts).head? <;> rfl
  rw [Expected.halt, hplace, Report.locate]

/-- **A loop answers as its passes do**, if a pass that goes on takes tokens. -/
theorem answers_loop {l : Loop α} {pass : α → Reader (Option α)} {read : α → Reader α}
    (hpass : ∀ a t ts, s.Stands t d ts → s.Answers t (l.pass a) d (pass a ts))
    (hread : ∀ a, read a = pass a >>= fun o => o.elim (pure a) read)
    (hlt : ∀ a b ts rest, pass a ts = .ok (some b, rest) → rest.length < ts.length)
    {t : Track} {ts : List Token} (h : s.Stands t d ts) (a : α) :
    s.Answers t (l.run a) d (read a ts) := by
  rw [Loop.run, hread]
  refine (hpass a t ts h).bind fun o rest t' h' ho => ?_
  cases o with
  | none => exact answers_pure h' a
  | some b =>
    have := hlt a b ts rest ho
    exact answers_loop hpass hread hlt h' b
termination_by ts.length

end Answers

/-! ## Readers of single tokens -/

section Token

variable {read : Token → Option α} {a : α} {e : Expected}

theorem read_headD (hend : read s.last = none) (h : ∀ u ∈ ts.head?, read u = none) :
    read (ts.headD s.last) = none := by
  rw [List.headD_eq_head?_getD]
  cases hu : ts.head? with
  | none => exact hend
  | some u => exact h u hu

theorem next_of_cons (hu : ahead (inParens d) ts = u :: rest) : s.next d ts = u := by
  rw [next, hu, List.headD_cons]

theorem ofKind?_last {k : TokenKind} (hk : k ≠ .eof) : Token.ofKind? k s.last = none := by
  rw [Token.ofKind?, s.last_kind, if_neg hk.symm]

theorem answers_advance (h : s.Stands t d ts) (hu : ahead (inParens d) ts = u :: rest) :
    s.Answers t Walk.advance d (.ok (u, rest)) := by
  obtain ⟨-, hdrop⟩ := index_spec h
  rw [hu] at hdrop
  obtain ⟨hlt, hrest⟩ := drop_succ hdrop
  have hmove : (if t.cursor.index < t.cursor.lastIndex then t.cursor.index + 1
      else t.cursor.index) = t.cursor.index + 1 := by
    rw [lastIndex_eq h.holds.tokens, if_pos (Nat.lt_of_succ_le hlt)]
  have hstands := h.jump hlt hrest
  refine ⟨_, ?_, hstands, keeps_moved hstands.holds t⟩
  show Walk.run (Walk.moveTo (t.cursor.jump _) >>= fun _ => Walk.token t.cursor.index) t = _
  rw [hmove, run_bind_ok (run_moveTo _ t), run_token hstands.holds (Nat.le_of_succ_le hlt), hdrop]
  rfl

theorem answers_eat (h : s.Stands t d ts) (hend : read s.last = none) :
    s.Answers t (Walk.eat read) d (option (inParens d) read ts) := by
  refine answers_peek h ?_
  rcases ahead_cases (inParens d) read ts with ⟨u, rest, a, hu, ha⟩ | hnone
  · rw [next_of_cons hu, option_of_cons hu ha, ha]
    exact (answers_advance h hu).goOn fun t' h' => answers_pure h' (some a)
  · rw [next, read_headD hend hnone, option_of_none hnone]
    exact answers_pure h none

theorem answers_consume_cons {halt : Position → Halt} (h : s.Stands t d ts)
    (hend : read s.last = none) (hu : ahead (inParens d) ts = u :: rest) (ha : read u = some a) :
    s.Answers t (Walk.consume read halt) d (.ok (a, rest)) := by
  have heat := answers_eat h hend
  rw [option_of_cons hu ha] at heat
  exact heat.goOn fun t' h' => answers_pure h' a

theorem answers_consume (h : s.Stands t d ts) (hend : read s.last = none) :
    s.Answers t (Walk.consume read e.halt) d (of (expect (inParens d) read e) ts) := by
  rcases ahead_cases (inParens d) read ts with ⟨u, rest, a, hu, ha⟩ | hnone
  · rw [expect_of_cons hu ha]
    exact answers_consume_cons h hend hu ha
  · have heat := answers_eat h hend
    rw [option_of_none hnone] at heat
    rw [expect_of_none hnone]
    exact heat.goOn fun t' h' => answers_fail h' e

/-! ### Parentheses -/

/-- After a reader, another number of parentheses is open. -/
theorem Answers.nest {w : Walk Unit} {x : Except Failure (Unit × List Token)} (g : Nat → Nat)
    (hw : s.Answers t w d x) :
    s.Answers t (w >>= fun _ => Walk.cursor >>= fun c => Walk.moveTo (c.nest (g c.depth)))
      (g d) x := by
  cases x with
  | error f => exact hw.imp fun _ h => ⟨run_bind_error h.1, h.2⟩
  | ok q =>
    refine hw.goOn fun t' h' => ?_
    have hc : s.Holds (t'.cursor.nest (g t'.cursor.depth)) := ⟨h'.holds.tokens, h'.holds.current⟩
    exact ⟨_, run_moveTo _ t', ⟨hc, congrArg g h'.depth, h'.left⟩, keeps_moved hc t'⟩

theorem answers_openParen (h : s.Stands t d ts) (e : Expected) :
    s.Answers t (Walk.openParen e.halt) (d + 1)
      (of (expect (inParens d) (Token.ofKind? .leftParen) e) ts) :=
  (answers_consume h (ofKind?_last (k := .leftParen) (by decide))).nest (· + 1)

theorem answers_closeParen (h : s.Stands t (d + 1) ts) (e : Expected) :
    s.Answers t (Walk.closeParen e.halt) d
      (of (expect true (Token.ofKind? .rightParen) e) ts) :=
  (answers_consume h (ofKind?_last (k := .rightParen) (by decide))).nest (· - 1)

/-! ### Line breaks -/

theorem answers_lineBreak (h : s.Stands t d ts) :
    s.Answers t Walk.lineBreak d (option false (Token.ofKind? .newline) ts) := by
  have hrun : Walk.lineBreak.run t = Walk.run (if (ts.headD s.last).kind = .newline then
      Walk.moveTo (t.cursor.jump (t.cursor.current + 1)) >>= fun _ => pure (some ())
      else pure none) t := by
    rw [← h.left]
    exact run_bind_ok (run_token h.holds h.holds.current)
  refine Answers.congr ?_ hrun
  rcases ahead_cases false (Token.ofKind? .newline) ts with ⟨u, rest, x, hu, hx⟩ | hnone
  · rw [option_of_cons hu hx]
    obtain rfl : ts = u :: rest := hu
    obtain ⟨hlt, hrest⟩ := drop_succ h.left
    have hstands := h.jump hlt hrest
    rw [List.headD_cons, if_pos (ofKind?_eq_some.1 hx)]
    exact ⟨_, run_bind_ok (run_moveTo _ t), hstands, keeps_moved hstands.holds t⟩
  · have hend : Token.ofKind? .newline s.last = none := ofKind?_last (by decide)
    have hkind : (ts.headD s.last).kind ≠ .newline := ofKind?_eq_none.1 (read_headD hend hnone)
    rw [option_of_none hnone, if_neg hkind]
    exact answers_pure h none

theorem answers_skipNewlines (h : s.Stands t d ts) :
    s.Answers t Walk.skipNewlines d (lines ts) :=
  answers_loop (fun _ _ _ => answers_lineBreak) (fun _ => lines_eq)
    (fun _ _ _ _ => length_option_lt) h ()

theorem answers_eatContinued (h : s.Stands t d ts) (hend : read s.last = none) :
    s.Answers t (Walk.eatContinued read) d (option true read ts) := by
  obtain ⟨hle, hdrop⟩ := index_spec h
  obtain ⟨hpast, hlines⟩ := pastLines_spec h.holds.tokens hle
  have hlines : s.tokens.drop (t.cursor.pastLines t.cursor.index) = ahead true ts := by
    rw [hlines, hdrop, dropNewlines_ahead]
    rfl
  have hrun : (Walk.eatContinued read).run t =
      Walk.run ((read ((ahead true ts).headD s.last)).elim (pure none) fun a =>
        Walk.moveTo (t.cursor.jump (t.cursor.pastLines t.cursor.index + 1)) >>=
          fun _ => pure (some a)) t := by
    rw [← hlines]
    refine (run_bind_ok (run_token h.holds hpast)).trans ?_
    cases read ((s.tokens.drop (t.cursor.pastLines t.cursor.index)).headD s.last) <;> rfl
  refine Answers.congr ?_ hrun
  rcases ahead_cases true read ts with ⟨u, rest, a, hu, ha⟩ | hnone
  · rw [option_of_cons hu ha, hu, List.headD_cons, ha]
    rw [hu] at hlines
    obtain ⟨hlt, hrest⟩ := drop_succ hlines
    have hstands := h.jump hlt hrest
    exact ⟨_, run_bind_ok (run_moveTo _ t), hstands, keeps_moved hstands.holds t⟩
  · rw [option_of_none hnone, read_headD hend hnone]
    exact answers_pure h none

end Token

end Tape

end Eligibility
