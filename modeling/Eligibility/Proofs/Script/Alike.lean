import Mathlib.Data.List.Forall2
import Eligibility.Proofs.Script.Items

/-!
# Scripts of tokens that are alike

No reader tells tokens apart by the place of a line break, or by a text that is not that of a
literal or a name. So alike tokens are read as the same.

* `Token.Alike`, `Fair`: tokens that are alike, and readings of one token that treat them alike;
* `Agree`, `Reader.Respects`, **`Respects.bind`**: readers that treat alike tokens alike;
* `respects_expect`, `respects_option`: readers of one token;
* `respects_comparison`, `respects_call`, **`respects_or`**, `respects_setting`,
  **`respects_settings`**: leaves, conditions and clauses;
* `blockRule_respects`, `readBlock_respects`, **`readItems_respects`**: blocks and scripts.
-/

namespace Eligibility

open Reader

variable {α β : Type} {R : Token → Token → Prop}

/-! ## Tokens -/

/-- Readers look at the texts of tokens of this kind. -/
def TokenKind.hasText : TokenKind → Bool
  | .string | .number | .identifier => true
  | _ => false

/-- Tokens that no reader tells apart. -/
structure Token.Alike (t u : Token) : Prop where
  kind : t.kind = u.kind
  text : t.kind.hasText = true → t.text = u.text
  position : t.kind ≠ .newline → t.position = u.position

/-- The reading of a token does not tell alike tokens apart. -/
def Fair (read : Token → Option α) : Prop := ∀ t u : Token, t.Alike u → read t = read u

section Fair

theorem fair_ofKind? (k : TokenKind) : Fair (Token.ofKind? k) := by
  intro t u h
  rw [Token.ofKind?, Token.ofKind?, h.kind]

theorem fair_ruleType? : Fair Token.ruleType? := by
  intro t u h
  rw [Token.ruleType?, Token.ruleType?, h.kind]

theorem fair_clause? : Fair Token.clause? := by
  intro t u h
  rw [Token.clause?, Token.clause?, h.kind]

theorem fair_binary? : Fair Token.binary? := by
  intro t u h
  rw [Token.binary?, Token.binary?, h.kind]

theorem fair_operator? : Fair Token.operator? := by
  intro t u h
  rw [Token.operator?, Token.operator?, h.kind]

theorem fair_value? : Fair Token.value? := by
  rintro ⟨k, s, p⟩ ⟨_, s', p'⟩ ⟨rfl, htext, -⟩
  cases k with
  | string | number | identifier =>
    obtain rfl : s = s' := htext rfl
    rfl
  | _ => rfl

theorem fair_field? : Fair Token.field? := by
  rintro ⟨k, s, p⟩ ⟨_, s', p'⟩ ⟨rfl, htext, -⟩
  cases k with
  | identifier => exact congrArg some (htext rfl)
  | _ => rfl

theorem fair_string? : Fair Token.string? := by
  rintro ⟨k, s, p⟩ ⟨_, s', p'⟩ ⟨rfl, htext, -⟩
  cases k with
  | string =>
    obtain rfl : s = s' := htext rfl
    rfl
  | _ => rfl

theorem fair_category? : Fair Token.category? := by
  intro t u h
  rw [Token.category?, Token.category?, fair_field? t u h, fair_string? t u h]

theorem fair_number? : Fair Token.number? := by
  intro t u h
  rw [Token.number?, Token.number?, ← h.kind]
  split
  · rename_i hk
    rw [h.text (by rw [hk]; rfl)]
  · rfl

theorem fair_integer? : Fair Token.integer? := by
  intro t u h
  rw [Token.integer?, Token.integer?, fair_number? t u h]

theorem fair_boolean? : Fair Token.boolean? := by
  intro t u h
  rw [Token.boolean?, Token.boolean?, h.kind, fair_number? t u h]

theorem fair_opening? : Fair Token.opening? := by
  rintro ⟨k, s, p⟩ ⟨_, s', p'⟩ ⟨rfl, htext, hposition⟩
  cases k with
  | identifier =>
    obtain rfl : s = s' := htext rfl
    obtain rfl : p = p' := hposition nofun
    rfl
  | function f =>
    obtain rfl : p = p' := hposition nofun
    rfl
  | _ => rfl

end Fair

/-! ## Readers -/

/-- The same was lacking, and the tokens left are alike. -/
structure Failure.Alike (R : Token → Token → Prop) (e f : Failure) : Prop where
  expected : e.expected = f.expected
  rest : List.Forall₂ R e.rest f.rest

/-- The same was read or lacking, and the tokens left are alike. -/
inductive Agree (R : Token → Token → Prop) :
    Except Failure (α × List Token) → Except Failure (α × List Token) → Prop
  | ok (a : α) {ts us : List Token} (h : List.Forall₂ R ts us) : Agree R (.ok (a, ts)) (.ok (a, us))
  | error {e f : Failure} (h : e.Alike R f) : Agree R (.error e) (.error f)

namespace Reader

/-- From tokens that are like `ts` the reader reads the same as from `ts`. -/
def Respects (R : Token → Token → Prop) (r : Reader α) (ts : List Token) : Prop :=
  ∀ us, List.Forall₂ R ts us → Agree R (r ts) (r us)

theorem respects_pure (a : α) (ts : List Token) : (pure a : Reader α).Respects R ts :=
  fun _ h => .ok a h

/-- **Readers that treat alike tokens alike do so one after the other.** -/
theorem Respects.bind {r : Reader α} {next : α → Reader β} {ts : List Token}
    (hr : r.Respects R ts) (hn : ∀ a mid, r ts = .ok (a, mid) → (next a).Respects R mid) :
    (r >>= next).Respects R ts := by
  intro us h
  show Agree R (r ts >>= fun q => next q.1 q.2) (r us >>= fun q => next q.1 q.2)
  have hfirst := hr us h
  generalize hts : r ts = x at hfirst
  generalize r us = y at hfirst
  cases hfirst with
  | ok a hrest => exact hn a _ hts _ hrest
  | error h => exact .error h

theorem Respects.map {r : Reader α} {ts : List Token} (hr : r.Respects R ts) (f : α → β) :
    (r >>= fun a => pure (f a)).Respects R ts :=
  hr.bind fun _ _ _ => respects_pure _ _

end Reader

/-! ## Readers of one token -/

section One

variable (hR : ∀ t u, R t u → t.Alike u) {ts us : List Token}
include hR

theorem forall₂_dropNewlines (h : List.Forall₂ R ts us) :
    List.Forall₂ R (dropNewlines ts) (dropNewlines us) := by
  induction h with
  | nil => exact .nil
  | @cons t u ts us htu h ih =>
    by_cases hk : t.kind = .newline
    · have hk' : u.kind = .newline := (hR t u htu).kind ▸ hk
      have hdrop (v : Token) (vs : List Token) (hv : v.kind = .newline) :
          dropNewlines (v :: vs) = dropNewlines vs :=
        List.dropWhile_cons_of_pos (decide_eq_true hv)
      rw [hdrop t ts hk, hdrop u us hk']
      exact ih
    · have hk' : u.kind ≠ .newline := (hR t u htu).kind ▸ hk
      rw [dropNewlines_cons hk, dropNewlines_cons hk']
      exact .cons htu h

theorem forall₂_ahead (nested : Bool) (h : List.Forall₂ R ts us) :
    List.Forall₂ R (ahead nested ts) (ahead nested us) := by
  cases nested with
  | false => exact h
  | true => exact forall₂_dropNewlines hR h

/-- The first token that counts is read as the same value from alike tokens, if at all. -/
theorem next?_respects {read : Token → Option α} (hread : Fair read) (nested : Bool)
    (h : List.Forall₂ R ts us) :
    (next? nested read ts = none ∧ next? nested read us = none) ∨
      ∃ q q', next? nested read ts = some q ∧ next? nested read us = some q' ∧
        q.value = q'.value ∧ List.Forall₂ R q.rest q'.rest := by
  have hahead := forall₂_ahead hR nested h
  have hnone {vs : List Token} (hv : ∀ v ∈ (ahead nested vs).head?, read v = none) :
      next? nested read vs = none := next?_eq_none_iff.2 (by rwa [seen_sight])
  generalize hts : ahead nested ts = ts' at hahead
  generalize hus : ahead nested us = us' at hahead
  cases hahead with
  | nil => exact .inl ⟨hnone (by rw [hts]; exact nofun), hnone (by rw [hus]; exact nofun)⟩
  | @cons t u ts' us' htu hrest =>
    have hsame := hread t u (hR t u htu)
    cases ht : read t with
    | none =>
      have hu : read u = none := hsame.symm.trans ht
      exact .inl ⟨hnone (by rw [hts]; exact fun v hv => Option.some.inj hv ▸ ht),
        hnone (by rw [hus]; exact fun v hv => Option.some.inj hv ▸ hu)⟩
    | some a =>
      obtain ⟨q, hq, hval, hq'⟩ := next?_of_ahead_cons hts ht
      obtain ⟨p, hp, hval', hp'⟩ := next?_of_ahead_cons hus (hsame.symm.trans ht)
      exact .inr ⟨q, p, hq, hp, hval.trans hval'.symm, by rwa [hq', hp']⟩

theorem respects_expect {read : Token → Option α} (hread : Fair read) (nested : Bool)
    (e : Expected) (ts : List Token) : (of (expect nested read e)).Respects R ts := by
  intro us h
  rw [of, of, expect, expect]
  obtain ⟨hts, hus⟩ | ⟨q, q', hts, hus, hvalue, hrest⟩ := next?_respects hR hread nested h
  · rw [hts, hus]
    exact .error ⟨rfl, forall₂_ahead hR nested h⟩
  · rw [hts, hus]
    show Agree R (.ok (q.value, q.rest)) (.ok (q'.value, q'.rest))
    rw [hvalue]
    exact .ok _ hrest

theorem respects_option {read : Token → Option α} (hread : Fair read) (nested : Bool)
    (ts : List Token) : (option nested read).Respects R ts := by
  intro us h
  rw [option, option]
  obtain ⟨hts, hus⟩ | ⟨q, q', hts, hus, hvalue, hrest⟩ := next?_respects hR hread nested h
  · rw [hts, hus]
    exact .ok none h
  · rw [hts, hus]
    show Agree R (.ok (some q.value, q.rest)) (.ok (some q'.value, q'.rest))
    rw [hvalue]
    exact .ok _ hrest

theorem respects_lines (ts : List Token) : lines.Respects R ts :=
  fun _ h => .ok () (forall₂_dropNewlines hR h)

end One

/-! ## Values and leaves -/

theorem length_of_ok {b : List Token → Nat} {read : (ts : List Token) → Reading α (b ts)}
    {ts rest : List Token} {a : α} (h : of read ts = .ok (a, rest)) : rest.length < b ts := by
  rw [of] at h
  cases hread : read ts with
  | error e =>
    rw [hread] at h
    cases h
  | ok q =>
    rw [hread] at h
    cases h
    exact q.lt

theorem length_option {nested : Bool} {read : Token → Option α} {ts rest : List Token}
    {o : Option α} (h : option nested read ts = .ok (o, rest)) :
    rest.length ≤ ts.length ∧ (o.isSome = true → rest.length < ts.length) := by
  rw [option] at h
  cases hn : next? nested read ts with
  | none =>
    rw [hn] at h
    cases h
    exact ⟨Nat.le_refl _, fun h => absurd h Bool.false_ne_true⟩
  | some q =>
    rw [hn] at h
    cases h
    exact ⟨Nat.le_of_lt q.lt, fun _ => q.lt⟩

section Leaf

variable (hR : ∀ t u, R t u → t.Alike u) (nested : Bool)
include hR

theorem respects_value (ts : List Token) : (of (readValue nested)).Respects R ts :=
  respects_expect hR fair_value? nested .value ts

theorem respects_values (ts : List Token) : (of (readValues nested)).Respects R ts := by
  rw [of_readValues]
  refine (respects_value hR nested ts).bind fun v mid hv => ?_
  refine (respects_option hR (fair_ofKind? .comma) nested mid).bind fun o rest ho => ?_
  cases o with
  | none => exact respects_pure _ _
  | some _ =>
    have hlt := length_of_ok hv
    have hlt' := (length_option ho).2 rfl
    exact (respects_values rest).map _
termination_by ts.length

theorem respects_list (negated : Bool) (ts : List Token) :
    (of (readList nested negated)).Respects R ts := by
  rw [of_readList]
  refine (respects_expect hR (fair_ofKind? _) _ _ ts).bind fun _ mid _ => ?_
  exact (respects_values hR true mid).bind fun vs mid _ =>
    (respects_expect hR (fair_ofKind? _) _ _ mid).map _

theorem respects_range (ts : List Token) : (of (readRange nested)).Respects R ts := by
  rw [of_readRange]
  refine (respects_value hR nested ts).bind fun low mid _ => ?_
  exact (respects_expect hR (fair_ofKind? _) _ _ mid).bind fun _ mid _ =>
    (respects_value hR nested mid).map _

theorem respects_operand (op : Operator) (negated : Bool) (ts : List Token) :
    (of (readOperand nested op negated)).Respects R ts := by
  have hmap {β : Type} {read : (ts : List Token) → Reading β ts.length}
      (h : (of read).Respects R ts) (v : β → Operand) :
      (of fun ts => do
        let r ← read ts
        return (r.map v).widen (Nat.le_succ ts.length)).Respects R ts := by
    rw [of_bind (r := fun b => pure (v b)) (fun _ => rfl) fun _ _ => rfl]
    exact h.map v
  cases op with
  | isEmpty | isNotEmpty => exact respects_pure Operand.none ts
  | between => exact hmap (respects_range hR nested ts) fun r => .range r.1 r.2
  | isIn => exact hmap (respects_list hR nested negated ts) .list
  | _ => exact hmap (respects_value hR nested ts) .single

theorem respects_comparison (id : String) (p : Position) (ts : List Token) :
    (of (readComparison nested id p)).Respects R ts := by
  rw [of_readComparison]
  exact (respects_expect hR fair_operator? _ _ ts).bind fun op mid _ =>
    (respects_operand hR nested op.1 op.2 mid).map _

theorem respects_checkValues (f : GridFunction) (ts : List Token) :
    (of (readCheckValues f)).Respects R ts := by
  rw [of_readCheckValues]
  split
  · refine (respects_option hR (fair_ofKind? _) _ ts).bind fun o mid _ => ?_
    cases o with
    | none => exact respects_pure _ _
    | some _ => exact respects_values hR true mid
  · exact respects_pure _ _

theorem respects_trailing (f : GridFunction) (ts : List Token) :
    (of (readTrailing nested f)).Respects R ts := by
  rw [of_readTrailing]
  split
  · refine (respects_option hR fair_binary? _ ts).bind fun o mid _ => ?_
    cases o with
    | none => exact respects_pure _ _
    | some op => exact (respects_value hR nested mid).map _
  · exact respects_pure _ _

theorem respects_call (f : GridFunction) (p : Position) (ts : List Token) :
    (of (readCall nested f p)).Respects R ts := by
  rw [of_readCall]
  refine (respects_expect hR (fair_ofKind? _) _ _ ts).bind fun _ mid _ => ?_
  refine (respects_expect hR fair_field? _ _ mid).bind fun target mid _ => ?_
  refine (respects_checkValues hR f mid).bind fun vs mid _ => ?_
  refine (respects_expect hR (fair_ofKind? _) _ _ mid).bind fun _ mid _ => ?_
  exact (respects_trailing hR nested f mid).map _

end Leaf

/-! ## Conditions -/

section Condition

variable (hR : ∀ t u, R t u → t.Alike u)
include hR

/-- What follows an operand of a chain: nothing, or operands that are read off fewer tokens. -/
theorem respects_goOn {k : TokenKind} {read : Option Condition → Reader Condition} (c : Condition)
    (ts : List Token)
    (h : ∀ left us, us.length < ts.length → (read left).Respects R us) :
    (goOn k read c).Respects R ts := by
  refine (respects_option hR (fair_ofKind? k) true ts).bind fun o mid ho => ?_
  cases o with
  | none => exact respects_pure _ _
  | some _ =>
    have hlt := (length_option ho).2 rfl
    refine (respects_lines hR mid).bind fun _ rest hrest => h _ _ ?_
    cases hrest
    have := length_dropNewlines_le mid
    omega

mutual

theorem respects_or (nested : Bool) (left : Option Condition) (ts : List Token) :
    (of (readOr nested left)).Respects R ts := by
  rw [of_readOr]
  refine (respects_and nested none ts).bind fun c mid hc =>
    respects_goOn hR _ _ fun left us hus => ?_
  have hlt := length_of_ok hc
  exact respects_or nested left us
termination_by 4 * ts.length + 3

theorem respects_and (nested : Bool) (left : Option Condition) (ts : List Token) :
    (of (readAnd nested left)).Respects R ts := by
  rw [of_readAnd]
  refine (respects_unary nested ts).bind fun c mid hc => respects_goOn hR _ _ fun left us hus => ?_
  have hlt := length_of_ok hc
  exact respects_and nested left us
termination_by 4 * ts.length + 2

theorem respects_unary (nested : Bool) (ts : List Token) :
    (of (readUnary nested)).Respects R ts := by
  rw [of_readUnary]
  refine (respects_option hR (fair_ofKind? _) _ ts).bind fun o mid ho => ?_
  have hle := (length_option ho).1
  cases o with
  | none => exact respects_primary nested mid
  | some _ => exact (respects_primary nested mid).map _
termination_by 4 * ts.length + 1

theorem respects_primary (nested : Bool) (ts : List Token) :
    (of (readPrimary nested)).Respects R ts := by
  rw [of_readPrimary]
  refine (respects_expect hR fair_opening? _ _ ts).bind fun o mid ho => ?_
  have hlt := length_of_ok ho
  cases o with
  | group =>
    exact (respects_or true none mid).bind fun c mid _ =>
      (respects_expect hR (fair_ofKind? _) _ _ mid).map _
  | call f p => exact (respects_call hR nested f p mid).map _
  | field id p => exact respects_comparison hR nested id p mid
termination_by 4 * ts.length

end

end Condition

/-! ## Clauses -/

section Setting

variable (hR : ∀ t u, R t u → t.Alike u)
include hR

theorem respects_score (ts : List Token) : (of readScore).Respects R ts := by
  have hnumber := respects_expect hR fair_integer? false (.number .score)
  rw [of_readScore]
  refine (respects_option hR (fair_ofKind? _) _ ts).bind fun o mid _ => ?_
  cases o with
  | none => exact (respects_option hR (fair_ofKind? _) _ mid).bind fun _ rest _ => hnumber rest
  | some _ => exact (hnumber mid).map _

theorem respects_one {read : Token → Option α} (hread : Fair read) (e : Expected)
    (v : α → Setting) (ts : List Token) :
    (of fun ts => do return (← expect false read e ts).map v).Respects R ts := by
  rw [of_bind (r := fun a => pure (v a)) (fun _ => rfl) fun _ _ => rfl]
  exact (respects_expect hR hread false e ts).map v

theorem respects_settingValue (c : Clause) (ts : List Token) :
    (of (readSettingValue c)).Respects R ts := by
  cases c with
  | type => exact respects_one hR fair_ruleType? _ _ ts
  | category => exact respects_one hR fair_category? _ _ ts
  | mandatory => exact respects_one hR fair_boolean? _ _ ts
  | order | weight => exact respects_one hR fair_integer? _ _ ts
  | passMessage | failMessage => exact respects_one hR fair_string? _ _ ts
  | score =>
    rw [of_readSettingValue_score]
    exact (respects_score hR ts).map _
  | when =>
    rw [of_readSettingValue_when]
    exact (respects_lines hR ts).bind fun _ mid _ => (respects_or hR false none mid).map _

theorem respects_setting (c : Clause) (ts : List Token) : (of (readSetting c)).Respects R ts := by
  by_cases hc : c = .when
  · rw [hc, readSetting_when]
    exact respects_settingValue hR .when ts
  · rw [of_readSetting hc]
    exact (respects_expect hR (fair_ofKind? _) _ _ ts).bind fun _ mid _ =>
      respects_settingValue hR c mid

theorem respects_settings (ts : List Token) : (of readSettings).Respects R ts := by
  rw [of_readSettings]
  refine (respects_option hR fair_clause? true ts).bind fun o mid ho => ?_
  cases o with
  | none => exact (respects_lines hR mid).map _
  | some c =>
    have hlt := (length_option ho).2 rfl
    refine (respects_setting hR c mid).bind fun s rest hs => ?_
    have hlt' := length_of_ok hs
    exact (respects_settings rest).map _
termination_by ts.length

end Setting

/-! ## Blocks and scripts -/

/-- The same rule, or stray tokens that are alike. -/
inductive Item.Alike (R : Token → Token → Prop) : Item → Item → Prop
  | rule (r : Rule) : Item.Alike R (.rule r) (.rule r)
  | stray {t u : Token} (h : R t u) (hk : t.kind ≠ .newline) : Item.Alike R (.stray t) (.stray u)

/-- The last line of a block is that of the last place of a token that is no line break. -/
theorem lastLine_eq (ts : List Token) :
    lastLine ts =
      ((ts.filter (·.kind ≠ .newline)).map Token.position).getLast?.elim 1 Position.line := by
  rw [lastLine, List.getLast?_map]
  cases (ts.filter (·.kind ≠ .newline)).getLast? <;> rfl

section Script

variable (hR : ∀ t u, R t u → t.Alike u) {ts us : List Token} {t u : Token}
include hR

theorem places_eq (h : List.Forall₂ R ts us) :
    (ts.filter (·.kind ≠ .newline)).map Token.position =
      (us.filter (·.kind ≠ .newline)).map Token.position := by
  induction h with
  | nil => rfl
  | @cons t u ts us htu h ih =>
    have hkind := (hR t u htu).kind
    by_cases hk : t.kind = .newline
    · rw [List.filter_cons_of_neg (by simp [hk]),
        List.filter_cons_of_neg (by simp [← hkind, hk]), ih]
    · rw [List.filter_cons_of_pos (by simp [hk]), List.filter_cons_of_pos (by simp [← hkind, hk]),
        List.map_cons, List.map_cons, ih, (hR t u htu).position hk]

theorem lastLine_respects (h : List.Forall₂ R ts us) : lastLine ts = lastLine us := by
  rw [lastLine_eq, lastLine_eq, places_eq hR h]

theorem respects_parts (ts : List Token) : readParts.Respects R ts :=
  (respects_expect hR fair_string? _ _ ts).bind fun _ mid _ => (respects_settings hR mid).map _

/-- Blocks of alike tokens are the same rule: a block starts and ends with tokens that are no line
breaks, and so on the same lines. -/
theorem blockRule_respects (htu : R t u) (hk : t.kind = .rule) (h : List.Forall₂ R ts us)
    {rest rest' : List Token} (hrest : List.Forall₂ R rest rest') (parts : String × List Setting) :
    blockRule t ts parts rest = blockRule u us parts rest' := by
  have hplace : t.position = u.position := (hR t u htu).position (hk ▸ nofun)
  have hlast := lastLine_respects hR
    (List.forall₂_take (ts.length + 1 - rest.length) (List.Forall₂.cons htu h))
  rw [blockRule, blockRule, ← h.length_eq, ← hrest.length_eq, hplace, hlast]

theorem readBlock_respects (htu : R t u) (hk : t.kind = .rule) (h : List.Forall₂ R ts us) :
    Agree R (of (readBlock t) ts) (of (readBlock u) us) := by
  rw [of_readBlock, of_readBlock]
  have hparts := respects_parts hR ts us h
  generalize readParts ts = x at hparts
  generalize readParts us = y at hparts
  cases hparts with
  | error h => exact .error h
  | @ok parts rest rest' hrest =>
    show Agree R (.ok (blockRule t ts parts rest, rest)) (.ok (blockRule u us parts rest', rest'))
    rw [blockRule_respects hR htu hk h hrest parts]
    exact .ok _ hrest

/-- **Scripts of alike tokens have the same rules,** stray tokens that are alike, and the same
failure, if any, at tokens that are alike. -/
theorem readItems_respects {ts us : List Token} (h : List.Forall₂ R ts us) :
    List.Forall₂ (Item.Alike R) (readItems ts).1 (readItems us).1 ∧
      Option.Rel (Failure.Alike R) (readItems ts).2 (readItems us).2 := by
  obtain ⟨bs, hbs, hts⟩ := exists_lines ts
  obtain ⟨bs', hbs', hus⟩ := exists_lines us
  -- line breaks at the front are no part; what stands behind them is alike
  have hahead := forall₂_dropNewlines hR h
  cases hd : dropNewlines ts with
  | nil =>
    have hd' : dropNewlines us = [] := List.forall₂_nil_left_iff.1 (hd ▸ hahead)
    rw [hts, hus, hd, hd', List.append_nil, List.append_nil, readItems_lines hbs,
      readItems_lines hbs']
    exact ⟨.nil, .none⟩
  | cons t vs =>
    rw [hd] at hahead
    obtain ⟨u, ws, htu, hvs, hd'⟩ := List.forall₂_cons_left_iff.1 hahead
    have hk : t.kind ≠ .newline := head_dropNewlines (congrArg List.head? hd)
    have hkind : t.kind = u.kind := (hR t u htu).kind
    have hlen : vs.length < ts.length := by
      rw [hts, hd, List.length_append, List.length_cons]
      omega
    rw [hts, hus, hd, hd', readItems_cons hbs hk, readItems_cons hbs' (hkind ▸ hk), ← hkind]
    by_cases hr : t.kind = .rule
    · rw [if_pos hr, if_pos hr]
      have hblock := readBlock_respects hR htu hr hvs
      generalize hx : of (readBlock t) vs = x at hblock
      generalize of (readBlock u) ws = y at hblock
      cases hblock with
      | error h => exact ⟨.nil, .some h⟩
      | @ok r rest rest' hrest =>
        have hlt := length_of_ok hx
        obtain ⟨hitems, hfailure⟩ := readItems_respects hrest
        exact ⟨.cons (.rule r) hitems, hfailure⟩
    · rw [if_neg hr, if_neg hr]
      obtain ⟨hitems, hfailure⟩ := readItems_respects hvs
      exact ⟨.cons (.stray htu hk) hitems, hfailure⟩
termination_by ts.length

end Script

end Eligibility
