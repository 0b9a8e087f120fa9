import Eligibility.Proofs.Cursor.Script

/-!
# The cursor stays on the tokens

* `Head`: where the passes of the two loops start;
* `Answers.of_ok`, `consume_ok`: what a reader has done that has come to an answer;
* `itemPass_ok`, `header_ok`, `clausePass_ok`, **`stands_of_head`**: the cursor at the head of a
  loop;
* `moved_on`: a cursor that leaves fewer tokens has moved on;
* `depth_rule`, `depth_condition`, `depth_functionCall`, `depth_comparison`: the parentheses that a
  reader leaves open;
* `run_within`: a whole run;
* `StaysWithin`, **`script_within`**.
-/

namespace Eligibility

open Reader

/-- The heads of the two loops when a script is read: that over its parts, and that over the clauses
of a block, with the rule as it has been read so far. -/
inductive Head (ts : List Token) : Option Rule → Track → Prop
  | start : Head ts none (.start ts)
  | item {t t' : Track} (h : Head ts none t)
      (hpass : Walk.itemPass.run t = some (.ok (some ()), t')) : Head ts none t'
  | block {t t' t'' : Track} {r : Rule} (h : Head ts none t)
      (hlines : Walk.skipNewlines.run t = some (.ok (), t'))
      (hheader : Walk.header.run t' = some (.ok r, t'')) : Head ts (some r) t''
  | clause {t t' : Track} {r r' : Rule} (h : Head ts (some r) t)
      (hpass : (Walk.clausePass r).run t = some (.ok (some r'), t')) : Head ts (some r') t'

namespace Tape

variable {α : Type} {s : Tape} {t t' : Track} {d : Nat} {ts rest : List Token} {a : α} {r r' : Rule}

theorem holds_iff {c : Cursor} :
    s.Holds c ↔ c.tokens = s.toList ∧ c.current ≤ c.lastIndex := by
  refine ⟨fun h => ⟨h.tokens, ?_⟩, fun h => ⟨h.1, ?_⟩⟩
  · rw [lastIndex_eq h.tokens]
    exact h.current
  · rw [← lastIndex_eq h.1]
    exact h.2

/-! ## Readers that have come to an answer -/

theorem Answers.of_ok {w : Walk α} {x : Except Failure (α × List Token)} (h : s.Answers t w d x)
    (hrun : w.run t = some (.ok a, t')) : ∃ rest, x = .ok (a, rest) ∧ s.Stands t' d rest := by
  cases x with
  | error f =>
    obtain ⟨t'', hrun', -⟩ := h
    cases hrun.symm.trans hrun'
  | ok q =>
    obtain ⟨b, rest⟩ := q
    obtain ⟨t'', hrun', hstands, -⟩ := h
    cases hrun.symm.trans hrun'
    exact ⟨rest, rfl, hstands⟩

/-- A reader that has taken a token has found it ahead of the cursor. -/
theorem consume_ok {read : Token → Option α} {halt : Position → Halt} (h : s.Stands t d ts)
    (hend : read s.last = none) (hrun : (Walk.consume read halt).run t = some (.ok a, t')) :
    ∃ u rest b, ahead (inParens d) ts = u :: rest ∧ read u = some b := by
  rcases ahead_cases (inParens d) read ts with hsome | hnone
  · exact hsome
  · have heat := answers_eat h hend
    rw [option_of_none hnone] at heat
    obtain ⟨t₁, hrun₁, h₁, -⟩ := heat
    have hconsume : (Walk.consume read halt).run t = _ :=
      (Walk.run_bind_ok hrun₁).trans (run_fail h₁ halt)
    cases hrun.symm.trans hconsume

theorem itemPass_ok (h : s.Stands t 0 ts)
    (hrun : Walk.itemPass.run t = some (.ok (some ()), t')) :
    ∃ rest, s.Stands t' 0 rest ∧ rest.length < (dropNewlines ts).length := by
  cases passes h with
  | done _ hrun' => cases hrun.symm.trans hrun'
  | fails _ hrun' => cases hrun.symm.trans hrun'
  | @part i t'' rest hread hrun' hstands =>
    cases hrun.symm.trans hrun'
    exact ⟨rest, hstands, length_readItem hread⟩

/-- A block that has been begun starts with its keyword. -/
theorem exists_rule (h : s.Stands t 0 ts) (hrun : Walk.header.run t = some (.ok r, t')) :
    ∃ u rest, ts = u :: rest ∧ u.kind = .rule := by
  obtain ⟨_, _, hstart, -⟩ := Walk.of_run_bind hrun
  obtain ⟨u, rest, v, hu, hv⟩ := consume_ok h (self?_last (by decide)) hstart
  exact ⟨u, rest, hu, (Token.self?_eq_some hv).1⟩

theorem header_ok (h : s.Stands t 0 ts) (hrun : Walk.header.run t = some (.ok r, t')) :
    ∃ rest, s.Stands t' 0 rest := by
  obtain ⟨u, rest, rfl, hu⟩ := exists_rule h hrun
  obtain ⟨rest', -, hstands⟩ := (answers_header h hu).of_ok hrun
  exact ⟨rest', hstands⟩

theorem clausePass_ok (h : s.Stands t 0 ts)
    (hrun : (Walk.clausePass r).run t = some (.ok (some r'), t')) :
    ∃ rest, s.Stands t' 0 rest ∧ rest.length < (dropNewlines ts).length := by
  obtain ⟨rest, hread, hstands⟩ := (answers_clausePass h r).of_ok hrun
  exact ⟨rest, hstands, length_clausePass hread⟩

theorem stands_start (s : Tape) : s.Stands (.start s.toList) 0 s.tokens :=
  ⟨⟨rfl, Nat.zero_le _⟩, rfl, rfl⟩

/-- **The cursor is on the tokens at the head of a loop, and no parenthesis is open.** -/
theorem stands_of_head {o : Option Rule} (h : Head s.toList o t) : ∃ ts, s.Stands t 0 ts := by
  induction h with
  | start => exact ⟨s.tokens, s.stands_start⟩
  | item h hpass ih =>
    obtain ⟨ts, hstands⟩ := ih
    obtain ⟨rest, hrest, -⟩ := itemPass_ok hstands hpass
    exact ⟨rest, hrest⟩
  | block h hlines hheader ih =>
    obtain ⟨ts, hstands⟩ := ih
    obtain ⟨mid, -, hmid⟩ := (answers_skipNewlines hstands).of_ok hlines
    exact header_ok hmid hheader
  | clause h hpass ih =>
    obtain ⟨ts, hstands⟩ := ih
    obtain ⟨rest, hrest, -⟩ := clausePass_ok hstands hpass
    exact ⟨rest, hrest⟩

theorem length_left (h : s.Stands t d ts) : t.cursor.current + ts.length = s.tokens.length := by
  have hle := h.holds.current
  rw [← h.left, left, List.length_drop]
  omega

/-- A cursor that leaves fewer tokens than are behind the line breaks has moved past these, and past
another token. -/
theorem moved_on (h : s.Stands t 0 ts) (h' : s.Stands t' 0 rest)
    (hlt : rest.length < (dropNewlines ts).length) :
    ∃ t₁, Walk.skipNewlines.run t = some (.ok (), t₁) ∧
      t.cursor.current ≤ t₁.cursor.current ∧ t₁.cursor.current < t'.cursor.current := by
  obtain ⟨t₁, hrun, h₁, -⟩ := answers_skipNewlines h
  have hle := length_dropNewlines_le ts
  have hleft := length_left h
  have hleft₁ := length_left h₁
  have hleft' := length_left h'
  exact ⟨t₁, hrun, by omega, by omega⟩

/-! ## Open parentheses -/

theorem Holds.stands (h : s.Holds t.cursor) : s.Stands t t.cursor.depth (s.left t.cursor) :=
  ⟨h, rfl, rfl⟩

theorem cursor_warn (hrun : (Walk.warn r).run t = some (.ok (), t')) : t'.cursor = t.cursor := by
  unfold Walk.warn at hrun
  split at hrun <;> cases hrun <;> rfl

theorem depth_rule (h : s.Stands t 0 ts) (hrun : Walk.rule.run t = some (.ok r, t')) :
    t'.cursor.depth = 0 := by
  obtain ⟨b, t₁, hblock, hrest⟩ := Walk.of_run_bind hrun
  obtain ⟨_, _, hbody, -⟩ := Walk.of_run_bind hblock
  obtain ⟨_, _, hheader, -⟩ := Walk.of_run_bind hbody
  obtain ⟨u, rest, rfl, hu⟩ := exists_rule h hheader
  obtain ⟨rest', -, hstands⟩ := (answers_block h hu).of_ok hblock
  obtain ⟨_, t₂, hwarn, hpure⟩ := Walk.of_run_bind hrest
  cases hpure
  rw [cursor_warn hwarn, hstands.depth]

theorem depth_condition {c : Condition} (h : s.Holds t.cursor)
    (hrun : Walk.condition.run t = some (.ok c, t')) : t'.cursor.depth = t.cursor.depth := by
  obtain ⟨rest, -, hstands⟩ := (answers_condition h.stands).of_ok hrun
  exact hstands.depth

theorem depth_functionCall {l : Leaf} (h : s.Holds t.cursor)
    (hrun : Walk.functionCall.run t = some (.ok l, t')) : t'.cursor.depth = t.cursor.depth := by
  rcases ahead_cases (inParens t.cursor.depth) Token.function? (s.left t.cursor) with
    ⟨u, rest, f, hu, hf⟩ | hnone
  · obtain ⟨rest', -, hstands⟩ := (answers_functionCall h.stands hu hf).of_ok hrun
    exact hstands.depth
  · have hend : s.last.function? = none := by rw [Token.function?, s.last_kind]
    have hpeek : Walk.functionCall.run t = _ := Walk.run_bind_ok (run_peek h.stands)
    rw [next, read_headD hend hnone, run_fail h.stands] at hpeek
    cases hrun.symm.trans hpeek

theorem depth_comparison {c : Condition} (h : s.Holds t.cursor)
    (hrun : Walk.comparison.run t = some (.ok c, t')) : t'.cursor.depth = t.cursor.depth := by
  obtain ⟨_, _, hfield, -⟩ := Walk.of_run_bind hrun
  obtain ⟨u, rest, v, hu, hv⟩ := consume_ok h.stands (self?_last (by decide)) hfield
  have hk := (Token.self?_eq_some hv).1
  obtain ⟨rest', -, hstands⟩ := (answers_comparison h.stands hu hk).of_ok hrun
  exact hstands.depth

/-! ## Whole runs -/

/-- The reading of a script ends on the tokens, and with the report on them. -/
theorem run_within (s : Tape) :
    ∃ answer t, Walk.script.run (.start s.toList) = some (answer, t) ∧
      (∀ c ∈ t.visited, s.Holds c) ∧
      t.draft.close answer = some (Report.ofTokens ⟨s.tokens, s.last.position⟩).draft := by
  obtain ⟨answer, t, hrun, hvisited, hdraft⟩ := run_script s.stands_start
  refine ⟨answer, t, hrun, fun c hc => ?_, ?_⟩
  · rcases hvisited c hc with hc | hc
    · obtain rfl := List.mem_singleton.1 hc
      exact s.stands_start.holds
    · exact hc
  · rw [hdraft]
    exact congrArg some (Draft.read_tokens ⟨s.tokens, s.last.position⟩)

end Tape

/-- A cursor stays within the tokens `ts` when a script is read, and `report` is written. -/
structure StaysWithin (ts : List Token) (report : Draft) : Prop where
  /-- The reading ends. The cursor is at one of the tokens at every time, and no reader asks for a
  token that is not there. -/
  run : ∃ answer t, Walk.script.run (.start ts) = some (answer, t) ∧
    (∀ c ∈ t.visited, c.tokens = ts ∧ c.current ≤ c.lastIndex) ∧
    (∀ i, answer ≠ .error (.outside i)) ∧ t.draft.close answer = some report
  /-- At the head of a loop the cursor is at one of the tokens, and no parenthesis is open. -/
  head : ∀ o t, Head ts o t → t.cursor.tokens = ts ∧ t.cursor.current ≤ t.cursor.lastIndex ∧
    t.cursor.depth = 0
  /-- No parenthesis is open where a rule starts or ends. -/
  rule : ∀ t t', Head ts none t → Walk.skipNewlines.run t = some (.ok (), t') →
    t'.cursor.depth = 0 ∧
    ∀ r t'', Walk.rule.run t' = some (.ok r, t'') → t''.cursor.depth = 0
  /-- A pass that finds a part of the script takes tokens behind the line breaks that it skips. -/
  itemPass : ∀ t t', Head ts none t → Walk.itemPass.run t = some (.ok (some ()), t') →
    ∃ t₁, Walk.skipNewlines.run t = some (.ok (), t₁) ∧
      t.cursor.current ≤ t₁.cursor.current ∧ t₁.cursor.current < t'.cursor.current
  /-- A pass that finds a clause takes tokens behind the line breaks that it skips. -/
  clausePass : ∀ r r' t t', Head ts (some r) t →
    (Walk.clausePass r).run t = some (.ok (some r'), t') →
    ∃ t₁, Walk.skipNewlines.run t = some (.ok (), t₁) ∧
      t.cursor.current ≤ t₁.cursor.current ∧ t₁.cursor.current < t'.cursor.current
  /-- A condition that is read leaves as many parentheses open as there were. -/
  condition : ∀ t t' c, t.cursor.tokens = ts → t.cursor.current ≤ t.cursor.lastIndex →
    Walk.condition.run t = some (.ok c, t') → t'.cursor.depth = t.cursor.depth
  /-- So does a function call. -/
  functionCall : ∀ t t' l, t.cursor.tokens = ts → t.cursor.current ≤ t.cursor.lastIndex →
    Walk.functionCall.run t = some (.ok l, t') → t'.cursor.depth = t.cursor.depth
  /-- So does a comparison. -/
  comparison : ∀ t t' c, t.cursor.tokens = ts → t.cursor.current ≤ t.cursor.lastIndex →
    Walk.comparison.run t = some (.ok c, t') → t'.cursor.depth = t.cursor.depth

/-- **A cursor never leaves its tokens**, if the last one of them stands for the end, and no other
one does. What it writes is the report on the tokens. -/
theorem script_within (before : List Token) (last : Token) (hlast : last.kind = .eof)
    (honly : ∀ u ∈ before, u.kind ≠ .eof) :
    StaysWithin (before ++ [last]) (Report.ofTokens ⟨before, last.position⟩).draft := by
  let s : Tape := ⟨before, last, hlast, honly⟩
  constructor
  case run =>
    obtain ⟨answer, t, hrun, hvisited, hreport⟩ := s.run_within
    refine ⟨answer, t, hrun, fun c hc => Tape.holds_iff.1 (hvisited c hc), ?_, hreport⟩
    rintro i rfl
    cases hreport
  case head =>
    intro o t h
    obtain ⟨ts, hstands⟩ := Tape.stands_of_head (s := s) h
    obtain ⟨htokens, hle⟩ := Tape.holds_iff.1 hstands.holds
    exact ⟨htokens, hle, hstands.depth⟩
  case rule =>
    intro t t' h hlines
    obtain ⟨ts, hstands⟩ := Tape.stands_of_head (s := s) h
    obtain ⟨mid, -, hmid⟩ := (Tape.answers_skipNewlines hstands).of_ok hlines
    exact ⟨hmid.depth, fun r t'' hrun => Tape.depth_rule hmid hrun⟩
  case itemPass =>
    intro t t' h hrun
    obtain ⟨ts, hstands⟩ := Tape.stands_of_head (s := s) h
    obtain ⟨rest, hrest, hlt⟩ := Tape.itemPass_ok hstands hrun
    exact Tape.moved_on hstands hrest hlt
  case clausePass =>
    intro r r' t t' h hrun
    obtain ⟨ts, hstands⟩ := Tape.stands_of_head (s := s) h
    obtain ⟨rest, hrest, hlt⟩ := Tape.clausePass_ok hstands hrun
    exact Tape.moved_on hstands hrest hlt
  case condition =>
    exact fun t t' c ht hle hrun => Tape.depth_condition (s := s) (Tape.holds_iff.2 ⟨ht, hle⟩) hrun
  case functionCall =>
    exact fun t t' l ht hle hrun =>
      Tape.depth_functionCall (s := s) (Tape.holds_iff.2 ⟨ht, hle⟩) hrun
  case comparison =>
    exact fun t t' c ht hle hrun => Tape.depth_comparison (s := s) (Tape.holds_iff.2 ⟨ht, hle⟩) hrun

/-- A stray word, and parentheses within parentheses with line breaks among them. -/
def nestedScript : String :=
  "goat\nRULE 'A'\nWHEN (NOT (kind IN (1,\n2)) OR\n HAS_ANY(herd,\n 3)) AND age = 1\nORDER: 1\n)"

theorem nestedScript_within :
    (tokenize nestedScript).eof.kind = .eof ∧
      (∀ u ∈ (tokenize nestedScript).tokens, u.kind ≠ .eof) ∧
      (Report.ofTokens (tokenize nestedScript)).draft.ruleCount = 1 ∧
      StaysWithin ((tokenize nestedScript).tokens ++ [(tokenize nestedScript).eof])
        (Report.ofTokens (tokenize nestedScript)).draft := by
  have hlast : (tokenize nestedScript).eof.kind = .eof := rfl
  have honly : ∀ u ∈ (tokenize nestedScript).tokens, u.kind ≠ .eof := by decide +kernel
  have hcount : (Report.ofTokens (tokenize nestedScript)).draft.ruleCount = 1 := by decide +kernel
  exact ⟨hlast, honly, hcount, script_within _ _ hlast honly⟩

end Eligibility
