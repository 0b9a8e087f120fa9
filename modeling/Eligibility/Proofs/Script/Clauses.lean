import Mathlib.Data.List.Induction
import Eligibility.Proofs.Script.Account
import Eligibility.Proofs.Script.Moved

/-!
# Clauses in any order

A block whose clauses stand on lines of their own sets every part of its rule as the last clause of
the kind does.

* `Setting.part?`, `lastOf`, `Rule.ofLast`, **`applyAll_named`**: the last write wins;
* `clauseOf?`, `kindOf?`: the clause that a text is by itself;
* `Body`, `Body.read`, `exists_body`: clauses on lines of their own;
* `Body.readItems`, `exists_rule`: a header and a body are one rule;
* `Rearranged`: clauses in another order, those of each kind in the same one;
* **`Report.ofText_clauses`**.
-/

namespace Eligibility

open Reader

/-! ## The last write wins -/

section Last

/-- What a clause of a kind sets. -/
def Clause.Part : Clause → Type
  | type => RuleType
  | category | passMessage | failMessage => String
  | mandatory => Bool
  | order | score | weight => Int64
  | when => Condition

/-- What the setting sets, if it is of the kind. -/
def Setting.part? : (k : Clause) → Setting → Option k.Part
  | .type, ruleType t => some t
  | .category, category s => some s
  | .mandatory, mandatory b => some b
  | .order, order n => some n
  | .when, condition c => some c
  | .score, score n => some n
  | .weight, weight n => some n
  | .passMessage, passMessage s => some s
  | .failMessage, failMessage s => some s
  | _, _ => none

/-- What the last setting of the kind sets. -/
def lastOf (k : Clause) (ss : List Setting) : Option k.Part := (ss.filterMap (·.part? k)).getLast?

/-- The rule of which every part is set by the last setting of the kind; a part that none sets is
the default one. -/
def Rule.ofLast (name : String) (ss : List Setting) : Rule where
  name := name
  code := ruleCode name
  ruleType := (lastOf .type ss).getD RuleType.inclusion
  category := lastOf .category ss
  mandatory := (lastOf .mandatory ss).getD true
  order := lastOf .order ss
  condition := lastOf .when ss
  score := lastOf .score ss
  weight := lastOf .weight ss
  passMessage := lastOf .passMessage ss
  failMessage := lastOf .failMessage ss

variable {ss ss' : List Setting}

theorem lastOf_concat (k : Clause) (ss : List Setting) (s : Setting) :
    lastOf k (ss ++ [s]) = (s.part? k).or (lastOf k ss) := by
  rw [lastOf, List.filterMap_append, List.getLast?_append]
  cases h : s.part? k with
  | none => rw [List.filterMap_cons_none h]; rfl
  | some a => rw [List.filterMap_cons_some h]; rfl

/-- **The last write wins:** all settings in their order are the last ones of each kind. -/
theorem applyAll_named (name : String) (ss : List Setting) :
    (Rule.named name).applyAll ss = Rule.ofLast name ss := by
  -- from the end: one more setting is the last one of its kind, and of no other
  induction ss using List.reverseRecOn with
  | nil => rfl
  | append_singleton ss s ih =>
    rw [Rule.applyAll] at *
    rw [List.foldl_append, ih]
    show Setting.apply _ s = _
    simp only [Rule.ofLast, lastOf_concat]
    cases s <;> rfl

theorem Setting.part?_eq_none {k : Clause} {s : Setting} (h : s.clause ≠ k) : s.part? k = none := by
  cases k <;> cases s <;> first | rfl | exact absurd rfl h

theorem lastOf_filter (k : Clause) (ss : List Setting) :
    lastOf k (ss.filter (·.clause = k)) = lastOf k ss := by
  rw [lastOf, List.filterMap_filter, lastOf]
  congr 2
  funext s
  split
  · rfl
  · rename_i h
    exact (Setting.part?_eq_none (by simpa using h)).symm

theorem Rule.ofLast_congr (name : String)
    (h : ∀ k, ss.filter (·.clause = k) = ss'.filter (·.clause = k)) :
    Rule.ofLast name ss = Rule.ofLast name ss' := by
  have hlast (k : Clause) : lastOf k ss = lastOf k ss' := by
    rw [← lastOf_filter, h, lastOf_filter]
  simp only [Rule.ofLast, hlast]

theorem Rule.isNone_unlined (r : Rule) : r.unlined.condition.isNone = r.condition.isNone :=
  Option.isNone_map

theorem Rule.applyAll_unlined (r : Rule) (ss : List Setting) :
    (r.applyAll ss).unlined = r.unlined.applyAll (ss.map Setting.unlined) := by
  unfold Rule.applyAll
  induction ss generalizing r with
  | nil => rfl
  | cons s ss ih =>
    rw [List.foldl_cons, ih, List.map_cons, List.foldl_cons]
    cases s <;> rfl

end Last

/-! ## A text that is a clause -/

section Clause

variable {text : String} {s : Setting}

/-- The clause that a text is: the only one of a body that takes all of the text. -/
def clauseOf? (text : String) : Option Setting :=
  match (readSettings (tokenize text).tokens).outcome with
  | .ok ([s], []) => some s
  | _ => none

/-- The kind of the clause that a text is. -/
def kindOf? (text : String) : Option Clause := (clauseOf? text).map Setting.clause

theorem clauseOf?_eq_some (h : clauseOf? text = some s) :
    of readSettings (tokenize text).tokens = .ok ([s], []) := by
  unfold clauseOf? at h
  split at h
  · rename_i hok
    cases h
    exact hok
  · cases h

theorem lines_of_noClauses {ts : List Token} (h : of readSettings ts = .ok ([], [])) :
    Lines ts := by
  rcases clause_cases ts with ⟨-, hok⟩ | ⟨ks, c, mid, rfl, hk⟩
  · obtain ⟨bs, hbs, hts⟩ := exists_lines ts
    rw [hok] at h
    obtain ⟨-, hdrop⟩ := Prod.mk.inj (Except.ok.inj h)
    rwa [hts, hdrop, List.append_nil]
  · rw [readSettings_of_clause hk] at h
    obtain ⟨s, mid', -, h⟩ := bind_ok_iff.1 h
    obtain ⟨more, rest, -, h⟩ := bind_ok_iff.1 h
    cases h

/-- The tokens of a clause: its keyword, what follows it, and line breaks. -/
theorem tokens_of_clauseOf? (h : clauseOf? text = some s) :
    ∃ ks c us bs, (tokenize text).tokens = ks ++ (us ++ bs) ∧ Sees true (·.kind = .clause c) ks ∧
      WritesSetting c us s ∧ Lines bs := by
  replace h := clauseOf?_eq_some h
  rcases clause_cases (tokenize text).tokens with ⟨-, hok⟩ | ⟨ks, c, mid, htokens, hk⟩
  · rw [hok] at h
    cases h
  · rw [htokens, readSettings_of_clause hk] at h
    obtain ⟨s', bs, hs, h⟩ := bind_ok_iff.1 h
    obtain ⟨more, rest, hmore, h⟩ := bind_ok_iff.1 h
    cases h
    obtain ⟨us, rfl, hus, -⟩ := ((spec_setting c).judges mid).sound s bs hs
    exact ⟨ks, c, us, bs, htokens, hk, hus, lines_of_noClauses hmore⟩

theorem known_of_clauseOf? (h : clauseOf? text = some s) : Known text.toList := by
  obtain ⟨ks, c, us, bs, htokens, hk, hus, hbs⟩ := tokens_of_clauseOf? h
  have hall : Bracketed (tokenize text).tokens := by
    rw [htokens]
    exact (Sees.bracketed_kind hk rfl).append (hus.bracketed.append (Lines.bracketed hbs))
  exact ⟨.first, hall.kind_ne rfl nofun nofun⟩

end Clause

/-! ## Clauses on lines of their own -/

/-- Clauses with line breaks behind them, each at the start of a line. -/
inductive Body : List Token → List Setting → Prop
  | nil : Body [] []
  | cons {b : Token} {ks us bs ts : List Token} {c : Clause} {s : Setting} {ss : List Setting}
      (hb : b.kind = .newline) (hk : Sees true (·.kind = .clause c) (b :: ks))
      (hus : WritesSetting c us s) (hbs : Lines bs) (h : Body ts ss) :
      Body (b :: ks ++ (us ++ (bs ++ ts))) (s :: ss)

section Body

variable {bs ts : List Token} {ss : List Setting}

/-- A body, or line breaks in front of one: nothing else can be seen than a line break and, beyond
it, the keyword of a clause. -/
theorem Body.ends (h : Body ts ss) (hbs : Lines bs) (s : Setting) :
    EndsSetting s (sight (bs ++ ts)) := by
  have hnext : ∀ t ∈ (bs ++ ts).head?, t.kind = .newline := by
    cases bs with
    | nil =>
      cases h with
      | nil => exact nofun
      | cons hb => exact fun t ht => Option.some.inj ht ▸ hb
    | cons b bs => exact fun t ht => Option.some.inj ht ▸ hbs b List.mem_cons_self
  have hbeyond : ∀ t ∈ (sight (bs ++ ts)).beyond, ∃ c, t.kind = .clause c := by
    cases h with
    | nil =>
      have hnil : (sight (bs ++ [])).beyond = none := by
        show (dropNewlines _).head? = none
        rw [dropNewlines_append hbs]
        rfl
      rw [hnil]
      exact nofun
    | @cons _ _ _ _ _ c _ _ _ hk =>
      rw [← List.append_assoc]
      exact fun t ht => ⟨c, (hk.after_lines hbs).beyond (fun _ ht => ht ▸ nofun) _ t ht⟩
  cases s with
  | condition c =>
    refine ⟨fun _ t ht => ?_, fun t ht => ?_⟩
    · rw [hnext t ht]
      rfl
    · obtain ⟨c, hc⟩ := hbeyond t ht
      rw [hc]
      exact ⟨nofun, nofun⟩
  | _ => trivial

/-- **A body is read clause by clause.** -/
theorem Body.read (h : Body ts ss) (hbs : Lines bs) :
    of readSettings (bs ++ ts) = .ok (ss, []) := by
  induction h generalizing bs with
  | nil =>
    rw [List.append_nil]
    rcases clause_cases bs with ⟨-, hok⟩ | ⟨ks, c, mid, rfl, t, u, rfl, -, -, hu⟩
    · have hdrop := dropNewlines_append hbs []
      rw [List.append_nil] at hdrop
      rw [hok, hdrop]
      rfl
    · exact nomatch hu.symm.trans (hbs u (by simp))
  | @cons b ks us bs' ts c s ss hb hk hus hbs' hts ih =>
    rw [← List.append_assoc, readSettings_of_clause (hk.after_lines hbs)]
    exact bind_ok_iff.2 ⟨s, bs' ++ ts, (spec_setting c).complete us s _ hus (hts.ends hbs' s),
      bind_ok_iff.2 ⟨ss, [], ih hbs', rfl⟩⟩

theorem exists_body {texts : List String} (h : ∀ text ∈ texts, (clauseOf? text).isSome = true)
    (p : Position) :
    ∃ ss, Body (tokensFrom p (onLines texts)).tokens ss ∧
      ss.map Setting.unlined = (texts.filterMap clauseOf?).map Setting.unlined := by
  induction texts generalizing p with
  | nil =>
    refine ⟨[], ?_, rfl⟩
    show Body (tokensFrom p []).tokens []
    rw [tokensFrom_nil]
    exact .nil
  | cons text texts ih =>
    obtain ⟨htext, htexts⟩ := List.forall_mem_cons.1 h
    obtain ⟨s, hs⟩ := Option.isSome_iff_exists.1 htext
    -- the text starts a line, as it does by itself, and so only its lines are others
    obtain ⟨q, hq⟩ := exists_tokens_onLines_cons (known_of_clauseOf? hs) p texts
    obtain ⟨ss, hbody, hss⟩ := ih htexts q
    obtain ⟨ks, c, us, bs, htokens, hk, hus, hbs⟩ := tokens_of_clauseOf? hs
    refine ⟨s.move (Position.down p.line) :: ss, ?_, ?_⟩
    · have hline : Lines [⟨.newline, "\n", p⟩] := List.forall_mem_singleton.2 rfl
      rw [hq, htokens]
      simp only [List.map_append, List.append_assoc]
      exact .cons rfl (hk.move_kind.after_lines hline) hus.move (Lines.move hbs) hbody
    · rw [List.filterMap_cons_some hs, List.map_cons, List.map_cons, hss, Setting.unlined_down]

end Body

/-! ## Blocks -/

section Block

variable {header : String} {start name : Token} {texts texts' : List String}

/-- The texts in another order, in which those of each kind follow one another as before. -/
structure Rearranged (texts texts' : List String) : Prop where
  perm : texts'.Perm texts
  kept : ∀ k, texts'.filter (kindOf? · = some k) = texts.filter (kindOf? · = some k)

theorem filter_clauses (texts : List String) (k : Clause) :
    (texts.filterMap clauseOf?).filter (·.clause = k) =
      (texts.filter (kindOf? · = some k)).filterMap clauseOf? := by
  rw [List.filter_filterMap, List.filterMap_filter]
  congr 1
  funext text
  rw [kindOf?]
  cases clauseOf? text with
  | none => rfl
  | some s => simp [Option.filter]

theorem Rearranged.ofLast (h : Rearranged texts texts') (name : String) :
    Rule.ofLast name (texts'.filterMap clauseOf?) = Rule.ofLast name (texts.filterMap clauseOf?) :=
  Rule.ofLast_congr name fun k => by rw [filter_clauses, filter_clauses, h.kept]

theorem Body.readItems {ts : List Token} {ss : List Setting} (h : Body ts ss)
    (hstart : start.kind = .rule) (hname : name.kind = .string) :
    ∃ r, readItems (start :: name :: ts) = ([.rule r], none) ∧
      r.startLine = start.position.line ∧ r.name = name.content ∧
      r.unlined = ((Rule.named name.content).applyAll ss).unlined := by
  have hstring : name.string? = some name.content := if_pos hname
  have hparts : readParts (name :: ts) = .ok ((name.content, ss), []) :=
    bind_ok_iff.2 ⟨name.content, ts, spec_name.complete [name] _ ts (.one hstring) trivial,
      bind_ok_iff.2 ⟨ss, [], h.read Lines.nil, rfl⟩⟩
  have hblock : of (readBlock start) (name :: ts) =
      .ok (blockRule start (name :: ts) (name.content, ss) [], []) := by
    rw [of_readBlock, hparts]
    rfl
  have hitems := readItems_block Lines.nil hstart hblock
  rw [readItems_lines Lines.nil, List.nil_append] at hitems
  exact ⟨_, hitems, rfl, applyAll_name _ _, rfl⟩

theorem exists_tokens_body (hheader : (tokenize header).tokens = [start, name])
    (hstart : start.kind = .rule) (hname : name.kind = .string)
    (htexts : ∀ text ∈ texts, (clauseOf? text).isSome = true) :
    ∃ ts ss, (tokenize ("\n".intercalate (header :: texts))).tokens = start :: name :: ts ∧
      Body ts ss ∧ ss.map Setting.unlined = (texts.filterMap clauseOf?).map Setting.unlined := by
  have hknown : Known header.toList := by
    refine ⟨.first, ?_⟩
    show ∀ t ∈ (tokenize header).tokens, _
    rw [hheader]
    simp [hstart, hname]
  obtain ⟨q, hq⟩ := exists_tokens_onLines hknown .first texts
  obtain ⟨ss, hbody, hss⟩ := exists_body htexts q
  refine ⟨_, ss, ?_, hbody, hss⟩
  rw [tokenize, toList_intercalate_newline, hq]
  show (tokenize header).tokens ++ _ = _
  rw [hheader]
  rfl

theorem Report.ofText_rule {text : String} {r : Rule}
    (h : Eligibility.readItems (tokenize text).tokens = ([.rule r], none))
    (hstart : ∃ t ∈ (tokenize text).tokens, t.kind = .rule) :
    (ofText text).outcome = .ok [r] ∧
      (ofText text).warnings =
        if r.condition.isNone then [⟨⟨r.startLine, 1⟩, .noCondition r.name⟩] else [] := by
  have hblank : Text.isBlankText text = false := by
    obtain ⟨t, ht, hk⟩ := hstart
    exact Bool.eq_false_iff.2 fun hblank => kind_ne_rule_of_blank hblank ht hk
  rw [ofText, hblank, if_neg Bool.false_ne_true, ofTokens, h]
  refine ⟨rfl, ?_⟩
  show [Item.rule r].filterMap Item.warning? = _
  rw [List.filterMap_cons, Item.warning?]
  cases r.condition <;> rfl

theorem exists_rule (hheader : (tokenize header).tokens = [start, name])
    (hstart : start.kind = .rule) (hname : name.kind = .string)
    (htexts : ∀ text ∈ texts, (clauseOf? text).isSome = true) :
    ∃ r, (Report.ofText ("\n".intercalate (header :: texts))).outcome = .ok [r] ∧
      r.unlined = (Rule.ofLast name.content (texts.filterMap clauseOf?)).unlined ∧
      (Report.ofText ("\n".intercalate (header :: texts))).warnings =
        if r.condition.isNone then [⟨⟨start.position.line, 1⟩, .noCondition name.content⟩]
        else [] := by
  obtain ⟨ts, ss, htokens, hbody, hss⟩ := exists_tokens_body hheader hstart hname htexts
  obtain ⟨r, hitems, hline, hrname, hrule⟩ := hbody.readItems hstart hname
  rw [← htokens] at hitems
  obtain ⟨houtcome, hwarnings⟩ :=
    Report.ofText_rule hitems ⟨start, by rw [htokens]; exact List.mem_cons_self, hstart⟩
  refine ⟨r, houtcome, ?_, by rw [hwarnings, hline, hrname]⟩
  rw [hrule, Rule.applyAll_unlined, hss, ← Rule.applyAll_unlined, applyAll_named]

/-- **The order of clauses is free, and the last one of a kind wins.** Clauses in another order,
those of each kind in the same one, give the same rule up to the numbers of lines. -/
theorem Report.ofText_clauses (hheader : (tokenize header).tokens = [start, name])
    (hstart : start.kind = .rule) (hname : name.kind = .string)
    (htexts : ∀ text ∈ texts, (clauseOf? text).isSome = true) :
    ∃ r, (ofText ("\n".intercalate (header :: texts))).outcome = .ok [r] ∧
      r.unlined = (Rule.ofLast name.content (texts.filterMap clauseOf?)).unlined ∧
      (ofText ("\n".intercalate (header :: texts))).warnings =
        (if r.condition.isNone then [⟨⟨start.position.line, 1⟩, .noCondition name.content⟩]
        else []) ∧
      ∀ texts', Rearranged texts texts' →
        ∃ r', (ofText ("\n".intercalate (header :: texts'))).outcome = .ok [r'] ∧
          r'.unlined = r.unlined ∧
          (ofText ("\n".intercalate (header :: texts'))).warnings =
            (ofText ("\n".intercalate (header :: texts))).warnings := by
  obtain ⟨r, houtcome, hrule, hwarnings⟩ := exists_rule hheader hstart hname htexts
  refine ⟨r, houtcome, hrule, hwarnings, fun texts' h => ?_⟩
  obtain ⟨r', houtcome', hrule', hwarnings'⟩ := exists_rule hheader hstart hname
    fun text ht => htexts text (h.perm.subset ht)
  have hsame : r'.unlined = r.unlined := by rw [hrule', hrule, h.ofLast]
  have hcondition : r'.condition.isNone = r.condition.isNone := by
    rw [← Rule.isNone_unlined, hsame, Rule.isNone_unlined]
  exact ⟨r', houtcome', hsame, by rw [hwarnings', hwarnings, hcondition]⟩

end Block

/-- Four clauses, two of one kind, one with a comment and one over two lines that ends in an
aggregation. -/
def someClauses : List String :=
  ["ORDER: 3", "WHEN age >= 18\nOR SUM(herd)", "TYPE: bonus # for now", "ORDER: -1"]

/-- The same clauses in another order. -/
def sameClauses : List String :=
  ["TYPE: bonus # for now", "ORDER: 3", "ORDER: -1", "WHEN age >= 18\nOR SUM(herd)"]

/-- The rule of these clauses, with no number of a line. -/
def unlinedRule : Rule :=
  { Rule.named "A b" with
    ruleType := .bonus
    order := some (-1)
    condition := some (.or (.leaf (.comparison ⟨"age", .gte, .single (.int 18), ⟨0, 6⟩⟩))
      (.leaf (.call { function := .sum, target := "herd", position := ⟨0, 4⟩ }))) }

theorem rearranged_sameClauses : Rearranged someClauses sameClauses := by
  have hfirst : kindOf? "ORDER: 3" = some .order := by decide +kernel
  have hwhen : kindOf? "WHEN age >= 18\nOR SUM(herd)" = some .when := by decide +kernel
  have htype : kindOf? "TYPE: bonus # for now" = some .type := by decide +kernel
  have hlast : kindOf? "ORDER: -1" = some .order := by decide +kernel
  refine ⟨by decide +kernel, fun k => ?_⟩
  simp only [someClauses, sameClauses, List.filter, hfirst, hwhen, htype, hlast]
  cases k <;> rfl

theorem ofText_sameClauses :
    ∃ r r', (Report.ofText ("\n".intercalate ("RULE 'A b'" :: someClauses))).outcome = .ok [r] ∧
      (Report.ofText ("\n".intercalate ("RULE 'A b'" :: sameClauses))).outcome = .ok [r'] ∧
      r.unlined = unlinedRule ∧ r'.unlined = unlinedRule ∧
      (Report.ofText ("\n".intercalate ("RULE 'A b'" :: sameClauses))).warnings = [] := by
  have hheader : (tokenize "RULE 'A b'").tokens =
      [⟨.rule, "RULE", ⟨1, 1⟩⟩, ⟨.string, "'A b'", ⟨1, 6⟩⟩] := by decide +kernel
  have hclauses : ∀ text ∈ someClauses, (clauseOf? text).isSome = true := by decide +kernel
  obtain ⟨r, houtcome, hrule, hwarnings, hsame⟩ :=
    Report.ofText_clauses hheader rfl rfl hclauses
  obtain ⟨r', houtcome', hrule', hwarnings'⟩ := hsame sameClauses rearranged_sameClauses
  have hlast : (Rule.ofLast (Token.content ⟨.string, "'A b'", ⟨1, 6⟩⟩)
      (someClauses.filterMap clauseOf?)).unlined = unlinedRule := by decide +kernel
  have hunlined : r.unlined = unlinedRule := hrule.trans hlast
  have hcondition : r.condition.isNone = false := by
    rw [← Rule.isNone_unlined, hunlined]
    rfl
  rw [hcondition, if_neg Bool.false_ne_true] at hwarnings
  exact ⟨r, r', houtcome, houtcome', hunlined, hrule'.trans hunlined, hwarnings'.trans hwarnings⟩

end Eligibility
