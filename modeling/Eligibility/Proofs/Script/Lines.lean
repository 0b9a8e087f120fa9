import Eligibility.Proofs.Script.Blocks
import Eligibility.Proofs.Script.Line
import Eligibility.Proofs.Script.RoundTrip
import Eligibility.Proofs.Token.Integer
import Mathlib.Data.List.Forall2

/-!
# Reading the lines of a rule block

* `Line.Sets`: what a line sets;
* `Line.writes`, `endsSetting_body`: the tokens of a line are a clause, and nothing is left out at
  its end;
* **`readSettings_body`**, `readBlock_body`: lines are read as what they set;
* **`ofText_blockText`**: the report on a block;
* `SetBy`, **`SetBy.applyAll_last`**: the last line with a keyword decides on its part of the rule.
-/

namespace Eligibility

open Text TokenKind Reader

/-- The number that a signed number stands for. -/
def Sign.apply : Sign → Int64 → Int64
  | none, n | plus, n => n
  | minus, n => negateSaturated n

/-- What a line sets. Numbers are kept as far as they can be; conditions get places. -/
def Line.Sets : Line → Setting → Prop
  | ruleType t, s => s = .ruleType t
  | category c, s => s = .category c
  | mandatory b, s => s = .mandatory b
  | order i, s => s = .order (kept i)
  | condition c, s => ∃ d, s = .condition d ∧ c.Same d
  | score sign i, s => s = .score (sign.apply (kept i))
  | weight i, s => s = .weight (kept i)
  | passMessage m, s => s = .passMessage m
  | failMessage m, s => s = .failMessage m

/-! ## Lines as clauses -/

section Writes

variable {us : List Token}

theorem exists_token {ts : List Token} {p : Piece} {ps : List Piece}
    (h : ts.map Token.piece = p :: ps) :
    ∃ t us, ts = t :: us ∧ t.piece = p ∧ us.map Token.piece = ps := by
  obtain ⟨t, us, rfl, ht, hus⟩ := List.map_eq_cons_iff.1 h
  exact ⟨t, us, rfl, ht, hus⟩

theorem sees_piece {P : Token → Prop} {p : Piece} (h : us.map Token.piece = [p])
    (hp : ∀ t : Token, t.piece = p → P t) : Sees false P us := by
  obtain ⟨t, ts, rfl, ht, hts⟩ := exists_token h
  rw [List.map_eq_nil_iff.1 hts]
  exact Sees.one (hp t ht)

theorem writesOne {α : Type} {read : Token → Option α} (v : α → Setting) {p : Piece} {a : α}
    (h : us.map Token.piece = [p]) (hread : ∀ t : Token, t.piece = p → read t = some a) :
    WritesOne read v us (v a) :=
  ⟨a, sees_piece h hread, rfl⟩

theorem string?_piece {s : String} (hs : IsQuotable s.toList) {t : Token}
    (ht : t.piece = (Value.string s).piece) : t.string? = some s := by
  have hk : t.kind = .string := congrArg Prod.fst ht
  rw [Token.string?, if_pos hk, content_string hk (congrArg Prod.snd ht) hs.2]

theorem writesScore {sign : Sign} {i : Int}
    (h : us.map Token.piece = sign.pieces ++ [(.number, toString i)]) :
    WritesScore us (sign.apply (kept i)) := by
  have hnumber {ws : List Token} (hws : ws.map Token.piece = [(.number, toString i)]) :
      Sees false (·.integer? = some (kept i)) ws :=
    sees_piece hws fun t ht =>
      Token.integer?_toString (congrArg Prod.fst ht) (congrArg Prod.snd ht)
  cases sign with
  | none => exact .plain (hnumber h)
  | plus =>
    obtain ⟨t, ws, rfl, ht, hws⟩ := exists_token h
    have hsign : Sees false (·.kind = .plus) [t] := Sees.one (congrArg Prod.fst ht)
    exact .plus hsign (hnumber hws)
  | minus =>
    obtain ⟨t, ws, rfl, ht, hws⟩ := exists_token h
    have hsign : Sees false (·.kind = .minus) [t] := Sees.one (congrArg Prod.fst ht)
    exact .minus hsign (hnumber hws)

/-- The pieces of a condition alone are a sentence of its grammar. -/
theorem derives_pieces {c : Condition} (hg : c.Grammatical) (hw : c.IsWritable)
    (h : us.map Token.piece = c.pieces) :
    ∃ d, Derives .disjunction false us d ∧ c.Same d := by
  have hread : Gives (readOr false none us) c.Same [] :=
    (Condition.readBack hg hw).disjunction.gives nofun (by rw [h, List.append_nil])
  obtain ⟨p, hp, hsame, hrest⟩ := hread
  have hok : of (readOr false none) us = .ok (p.value, []) := by
    rw [of, hp]
    exact congrArg (fun ts => Except.ok (p.value, ts)) (List.map_eq_nil_iff.1 hrest)
  obtain ⟨ws, hsplit, hws, -⟩ := ((spec_condition false).judges us).sound _ _ hok
  rw [List.append_nil] at hsplit
  rw [← hsplit] at hws
  exact ⟨p.value, hws, hsame⟩

theorem Line.writesValue {l : Line} (h : l.IsWritable)
    (hus : us.map Token.piece = l.valuePieces) :
    ∃ s, WritesValueOf l.clause us s ∧ l.Sets s := by
  cases l with
  | ruleType t =>
    have hread (u : Token) (hu : u.piece = (.ruleType t, t.name)) : u.ruleType? = some t := by
      have hk : u.kind = .ruleType t := congrArg Prod.fst hu
      rw [Token.ruleType?, hk]
    exact ⟨_, writesOne .ruleType hus hread, rfl⟩
  | category s =>
    have hread (u : Token) (hu : u.piece = (Value.string s).piece) : u.category? = some s := by
      have hk : u.kind ≠ .identifier := by
        rw [show u.kind = .string from congrArg Prod.fst hu]
        decide
      rw [Token.category?, Token.field?, if_neg hk, string?_piece h hu]
      rfl
    exact ⟨_, writesOne .category hus hread, rfl⟩
  | mandatory b =>
    have hread (u : Token) (hu : u.piece = (Value.bool b).piece) : u.boolean? = some b := by
      have hk : u.kind = .answer b := congrArg Prod.fst hu
      rw [Token.boolean?, hk]
    exact ⟨_, writesOne .mandatory hus hread, rfl⟩
  | order i =>
    exact ⟨_, writesOne .order hus fun u hu =>
      Token.integer?_toString (congrArg Prod.fst hu) (congrArg Prod.snd hu), rfl⟩
  | weight i =>
    exact ⟨_, writesOne .weight hus fun u hu =>
      Token.integer?_toString (congrArg Prod.fst hu) (congrArg Prod.snd hu), rfl⟩
  | condition c =>
    obtain ⟨d, hd, hsame⟩ := derives_pieces h.1 h.2 hus
    exact ⟨.condition d, ⟨[], us, d, rfl, Lines.nil, hd, rfl⟩, d, rfl, hsame⟩
  | score sign i => exact ⟨_, ⟨_, writesScore hus, rfl⟩, rfl⟩
  | passMessage s => exact ⟨_, writesOne .passMessage hus fun _ => string?_piece h, rfl⟩
  | failMessage s => exact ⟨_, writesOne .failMessage hus fun _ => string?_piece h, rfl⟩

/-- The tokens of a line after its keyword are a clause. -/
theorem Line.writes {l : Line} (h : l.IsWritable)
    (hus : us.map Token.piece = l.clause.markPieces ++ l.valuePieces) :
    ∃ s, WritesSetting l.clause us s ∧ l.Sets s := by
  by_cases hc : l.clause = .when
  · rw [hc] at hus
    obtain ⟨s, hs, hsets⟩ := l.writesValue h hus
    refine ⟨s, ?_, hsets⟩
    rwa [WritesSetting, if_pos hc]
  · have hmark : l.clause.markPieces = [(.colon, ":")] := by
      generalize l.clause = c at hc
      cases c with
      | when => exact absurd rfl hc
      | _ => rfl
    rw [hmark] at hus
    obtain ⟨t, ws, rfl, ht, hws⟩ := exists_token hus
    obtain ⟨s, hs, hsets⟩ := l.writesValue h hws
    refine ⟨s, ?_, hsets⟩
    rw [WritesSetting, if_neg hc]
    exact ⟨[t], ws, rfl, Sees.one (congrArg Prod.fst ht), hs⟩

/-- A line break and the keyword of the next line leave nothing out, and neither does the end. -/
theorem endsSetting_body (s : Setting) {ls : List Line} {ts : List Token}
    (h : ts.map Token.piece = bodyPieces ls) : EndsSetting s (sight ts) := by
  cases s with
  | condition c =>
    cases ls with
    | nil =>
      rw [List.map_eq_nil_iff.1 h]
      exact ⟨fun _ => nofun, nofun⟩
    | cons l ls =>
      obtain ⟨b, us, rfl, hb, hus⟩ := exists_token h
      obtain ⟨k, us, rfl, hk, -⟩ := exists_token hus
      have hbreak : b.kind = .newline := congrArg Prod.fst hb
      have hclause : k.kind = .clause l.clause := congrArg Prod.fst hk
      have hbeyond : (sight (b :: k :: us)).beyond = some k := by
        have hlines : Lines [b] := fun t ht => by rw [List.mem_singleton.1 ht, hbreak]
        show (dropNewlines ([b] ++ k :: us)).head? = _
        rw [dropNewlines_append hlines, dropNewlines_cons (by rw [hclause]; nofun)]
        rfl
      refine ⟨fun _ t ht => ?_, fun t ht => ?_⟩
      · obtain rfl := Option.some.inj ht
        rw [hbreak]
        rfl
      · rw [hbeyond] at ht
        obtain rfl := Option.some.inj ht
        rw [hclause]
        exact ⟨nofun, nofun⟩
  | _ => trivial

end Writes

/-! ## Blocks -/

theorem readSettings_body {ls : List Line} (h : ∀ l ∈ ls, l.IsWritable) {ts : List Token}
    (ht : ts.map Token.piece = bodyPieces ls) :
    ∃ ss, of readSettings ts = .ok (ss, []) ∧ List.Forall₂ Line.Sets ls ss := by
  induction ls generalizing ts with
  | nil =>
    rw [List.map_eq_nil_iff.1 ht]
    exact ⟨[], of_readSettings_nil, .nil⟩
  | cons l ls ih =>
    obtain ⟨hl, hls⟩ := List.forall_mem_cons.1 h
    have hsplit : ts.map Token.piece = (.newline, "\n") :: (.clause l.clause, l.clause.keyword) ::
        ((l.clause.markPieces ++ l.valuePieces) ++ bodyPieces ls) := ht
    obtain ⟨b, us, rfl, hb, hus⟩ := exists_token hsplit
    obtain ⟨k, us, rfl, hk, hus⟩ := exists_token hus
    obtain ⟨vs, rest, rfl, hvs, hrest⟩ := List.map_eq_append_iff.1 hus
    obtain ⟨s, hs, hsets⟩ := l.writes hl hvs
    obtain ⟨ss, hss, hall⟩ := ih hls hrest
    have hkeyword : Sees true (·.kind = .clause l.clause) [b, k] := by
      refine ⟨[b], k, rfl, fun t ht => ?_, nofun, congrArg Prod.fst hk⟩
      rw [List.mem_singleton.1 ht]
      exact congrArg Prod.fst hb
    refine ⟨s :: ss, ?_, .cons hsets hall⟩
    have hclause : of readSettings ([b, k] ++ (vs ++ rest)) = _ := readSettings_of_clause hkeyword
    rw [List.cons_append, List.cons_append, List.nil_append] at hclause
    rw [hclause]
    have hread := (spec_setting l.clause).complete vs s rest hs (endsSetting_body s hrest)
    exact bind_ok_iff.2 ⟨s, rest, hread, bind_ok_iff.2 ⟨ss, [], hss, rfl⟩⟩

/-- The rule that a block with a name and settings sets. -/
theorem readBlock_body {name : String} (hn : IsQuotable name.toList) {ls : List Line}
    (h : ∀ l ∈ ls, l.IsWritable) (start : Token) {ts : List Token}
    (ht : ts.map Token.piece = (Value.string name).piece :: bodyPieces ls) :
    ∃ ss, of (readBlock start) ts = .ok (blockRule start ts (name, ss) [], []) ∧
      List.Forall₂ Line.Sets ls ss := by
  obtain ⟨t, us, rfl, hname, hus⟩ := exists_token ht
  obtain ⟨ss, hss, hall⟩ := readSettings_body h hus
  have hstring : of (expect false Token.string? .ruleName) ([t] ++ us) = .ok (name, us) :=
    spec_name.complete [t] name us (Sees.one (string?_piece hn hname)) trivial
  refine ⟨ss, ?_, hall⟩
  have hparts : readParts (t :: us) = .ok ((name, ss), []) :=
    bind_ok_iff.2 ⟨name, us, hstring, bind_ok_iff.2 ⟨ss, [], hss, rfl⟩⟩
  rw [of_readBlock, hparts]
  rfl

theorem gives_of_outcome {α : Type} {n : Nat} {r : Reading α n} {a : α} {ts : List Token}
    (h : r.outcome = .ok (a, ts)) : Gives r (· = a) (ts.map Token.piece) := by
  cases r with
  | error e => cases h
  | ok p =>
    cases h
    exact gives_ok rfl rfl

/-- The report on a block: it is valid, and its rule is set by the lines in order. -/
theorem ofText_blockText {name : String} (hn : IsQuotable name.toList) {ls : List Line}
    (h : ∀ l ∈ ls, l.IsWritable) :
    ∃ (ss : List Setting) (first last : Nat),
      List.Forall₂ Line.Sets ls ss ∧
      (Report.ofText (blockText name ls)).outcome =
        .ok [{ (Rule.named name).applyAll ss with startLine := first, endLine := last }] := by
  have hpieces : (tokenize (blockText name ls)).tokens.map Token.piece =
      (.rule, "RULE") :: (Value.string name).piece :: bodyPieces ls := by
    rw [map_piece_tokenize, scan_blockText hn h]
    rfl
  obtain ⟨r, hr, ss, first, last, hall, rfl⟩ := readItems_rule
    (P := fun r => ∃ (ss : List Setting) (first last : Nat), List.Forall₂ Line.Sets ls ss ∧
      r = { (Rule.named name).applyAll ss with startLine := first, endLine := last })
    hpieces fun start us hus => by
      obtain ⟨ss, hread, hall⟩ := readBlock_body hn h start hus
      exact (gives_of_outcome hread).mono fun r hr => ⟨ss, _, _, hall, hr⟩
  have hblank : isBlankText (blockText name ls) = false := by
    simp [isBlankText, blockText, isBlank]
  refine ⟨ss, first, last, hall, ?_⟩
  rw [Report.ofText, hblank, if_neg Bool.false_ne_true, Report.ofTokens, hr]
  rfl

/-! ## The last line with a keyword -/

theorem Line.Sets.clause {l : Line} {s : Setting} (h : l.Sets s) : s.clause = l.clause := by
  cases l with
  | condition c =>
    obtain ⟨d, rfl, -⟩ := h
    rfl
  | _ =>
    obtain rfl := h
    rfl

theorem map_clause_sets {ls : List Line} {ss : List Setting} (h : List.Forall₂ Line.Sets ls ss) :
    ss.map Setting.clause = ls.map Line.clause := by
  induction h with
  | nil => rfl
  | cons hl _ ih => rw [List.map_cons, List.map_cons, hl.clause, ih]

/-- A part of a rule that the clauses with one keyword set. -/
def SetBy {α : Type} (c : Clause) (part : Rule → α) : Prop :=
  ∀ r s, Setting.clause s ≠ c → part (s.apply r) = part r

section Last

variable {α : Type} {part : Rule → α} {c : Clause}

/-- Other clauses leave the part as it is. -/
theorem SetBy.applyAll (hp : SetBy c part) {ss : List Setting} (h : ∀ s ∈ ss, s.clause ≠ c)
    (r : Rule) : part (r.applyAll ss) = part r :=
  applyAll_part (fun s hs r => hp r s (h s hs)) r

/-- The last line with the keyword decides. -/
theorem SetBy.applyAll_last {l : Line} (hp : SetBy l.clause part) {before after : List Line}
    {ss : List Setting} (h : List.Forall₂ Line.Sets (before ++ l :: after) ss)
    (hafter : ∀ k ∈ after, k.clause ≠ l.clause) (r : Rule) :
    ∃ s r', l.Sets s ∧ part (r.applyAll ss) = part (Setting.apply r' s) := by
  induction before generalizing ss r with
  | nil =>
    obtain ⟨s, rest, hs, hrest, rfl⟩ := List.forall₂_cons_left_iff.1 h
    have hlater (t : Setting) (ht : t ∈ rest) : t.clause ≠ l.clause := by
      have hmem := List.mem_map_of_mem (f := Setting.clause) ht
      rw [map_clause_sets hrest] at hmem
      obtain ⟨k, hk, hkt⟩ := List.mem_map.1 hmem
      rw [← hkt]
      exact hafter k hk
    exact ⟨s, r, hs, hp.applyAll hlater (s.apply r)⟩
  | cons b before ih =>
    obtain ⟨s, rest, -, hrest, rfl⟩ := List.forall₂_cons_left_iff.1 h
    exact ih hrest (Setting.apply r s)

end Last

end Eligibility
