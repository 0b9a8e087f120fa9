import Eligibility.Proofs.Script.Chains
import Eligibility.Script.Block

/-!
# Reading clauses by their grammar

```
score  := ('-' | '+')? number
clause := WHEN NL* disjunction | keyword ':' value
```

* `Setting.clause`: the keyword of a clause;
* `WritesScore`, `WritesValueOf`, **`WritesSetting`**: the tokens of a clause after its keyword;
* `EndsSetting`: no optional part is left out at the end of a clause;
* `spec_sign`, `spec_score`, `spec_settingValue`, **`spec_setting`**: clauses are read by their
  grammar.
-/

namespace Eligibility

open Reader

/-! ## Clauses -/

/-- The keyword of the clause. -/
def Setting.clause : Setting → Clause
  | ruleType _ => .type
  | category _ => .category
  | mandatory _ => .mandatory
  | order _ => .order
  | condition _ => .when
  | score _ => .score
  | weight _ => .weight
  | passMessage _ => .passMessage
  | failMessage _ => .failMessage

/-- A number and the sign that may stand before it. -/
inductive WritesScore : List Token → Int64 → Prop
  | plain {us : List Token} {n : Int64} (h : Sees false (·.integer? = some n) us) :
      WritesScore us n
  | plus {ks us : List Token} {n : Int64} (hk : Sees false (·.kind = .plus) ks)
      (h : Sees false (·.integer? = some n) us) : WritesScore (ks ++ us) n
  | minus {ks us : List Token} {n : Int64} (hk : Sees false (·.kind = .minus) ks)
      (h : Sees false (·.integer? = some n) us) : WritesScore (ks ++ us) (negateSaturated n)

/-- One token that reads as a value. -/
def WritesOne {α : Type} (read : Token → Option α) (v : α → Setting) : Sentences Setting :=
  fun us s => ∃ a, Sees false (read · = some a) us ∧ s = v a

/-- What the keyword of a clause asks for. -/
def WritesValueOf : Clause → Sentences Setting
  | .type => WritesOne Token.ruleType? .ruleType
  | .category => WritesOne Token.category? .category
  | .mandatory => WritesOne Token.boolean? .mandatory
  | .order => WritesOne Token.integer? .order
  | .weight => WritesOne Token.integer? .weight
  | .score => fun us s => ∃ n, WritesScore us n ∧ s = .score n
  | .passMessage => WritesOne Token.string? .passMessage
  | .failMessage => WritesOne Token.string? .failMessage
  | .when => fun us s => ∃ bs vs c, us = bs ++ vs ∧ Lines bs ∧ Derives .disjunction false vs c ∧
      s = .condition c

/-- A clause after its keyword. -/
def WritesSetting (c : Clause) : Sentences Setting := fun us s =>
  if c = .when then WritesValueOf c us s
  else ∃ ks ws, us = ks ++ ws ∧ Sees false (·.kind = .colon) ks ∧ WritesValueOf c ws s

/-- No optional part is left out at the end of a condition. -/
def EndsSetting : Follow Setting
  | .condition c, s => Ends false c s
  | _, _ => True

/-! ## Tokens -/

section Token

variable {t : Token}

theorem Token.ruleType?_kind {r : RuleType} (h : t.ruleType? = some r) : t.kind = .ruleType r := by
  unfold Token.ruleType? at h
  split at h
  · rename_i hk
    cases h
    exact hk
  · cases h

theorem Token.string?_kind {s : String} (h : t.string? = some s) : t.kind = .string := by
  unfold Token.string? at h
  split at h
  · rename_i hk
    exact hk
  · cases h

theorem Token.integer?_kind {n : Int64} (h : t.integer? = some n) : t.kind = .number := by
  unfold Token.integer? Token.number? at h
  split at h
  · rename_i hk
    exact hk
  · cases h

theorem Token.category?_kind {s : String} (h : t.category? = some s) :
    t.kind = .identifier ∨ t.kind = .string := by
  rcases Option.or_eq_some_iff.1 h with h | ⟨-, h⟩
  · exact .inl (Token.field?_eq_some.1 h).1
  · exact .inr (Token.string?_kind h)

theorem Token.boolean?_kind {b : Bool} (h : t.boolean? = some b) :
    t.kind = .answer b ∨ t.kind = .truth b ∨ t.kind = .number := by
  unfold Token.boolean? at h
  split at h
  · rename_i hk
    cases h
    exact .inl hk
  · rename_i hk
    cases h
    exact .inr (.inl hk)
  · rename_i hk
    exact .inr (.inr hk)
  · cases h

theorem Token.clause?_eq_some {c : Clause} : t.clause? = some c ↔ t.kind = .clause c := by
  unfold Token.clause?
  split <;> simp_all

end Token

/-! ## Scores -/

section Score

theorem spec_sign {β : Type} {k : TokenKind} (next : Option Unit → Reader β) {g₀ g₁ : Sentences β}
    {f : Follow β} (hk : k ≠ .newline) (h₀ : (next none).Spec g₀ f)
    (h₁ : (next (some ())).Spec g₁ f)
    (hno : ∀ us b rest, g₀ us b → ∀ t ∈ (sight (us ++ rest)).next, t.kind ≠ k) :
    (option false (Token.ofKind? k) >>= next).Spec
      (fun us b => g₀ us b ∨ ∃ ks ws, us = ks ++ ws ∧ Sees false (·.kind = k) ks ∧ g₁ ws b) f := by
  refine ⟨?_, fun ts => judges_optional hk (fun _ => ?_) (fun ks mid _ hks => ?_) ?_, ?_⟩
  · rintro _ b rest (hus | ⟨ks, ws, rfl, hks, hws⟩) hf
    · exact bind_ok_iff.2
        ⟨none, _, optional_eq_none (hno _ b rest hus), h₀.complete _ b rest hus hf⟩
    · rw [List.append_assoc]
      exact bind_ok_iff.2 ⟨some (), _, optional_eq_some hk hks, h₁.complete ws b rest hws hf⟩
  · exact (h₀.judges ts).mono (fun _ _ => .inl) fun _ _ _ _ _ hf => hf
  · exact (h₁.judges mid).mono (fun ws _ hws => .inr ⟨ks, ws, rfl, hks, hws⟩)
      fun _ _ _ _ _ hf => hf
  · exact settles_next (p := fun o => ∀ t ∈ o, t.kind ≠ k) _
  · obtain ⟨us, b, hus⟩ := h₀.possible
    exact ⟨us, b, .inl hus⟩

theorem exists_integer : ∃ (t : Token) (n : Int64), t.integer? = some n :=
  ⟨⟨.number, "0", {}⟩, 0, by decide +kernel⟩

theorem spec_integer (e : Expected) :
    (of (expect false Token.integer? e)).Spec (fun us n => Sees false (·.integer? = some n) us)
      anything :=
  spec_expect (fun _ _ => Iff.rfl) (fun _ _ h => Token.integer?_kind h ▸ nofun) exists_integer

/-- The reader of a score after its minus sign, if any. -/
def afterMinus : Option Unit → Reader Int64
  | none => option false (Token.ofKind? .plus) >>= fun _ =>
      of (expect false Token.integer? (.number .score))
  | some _ => of (expect false Token.integer? (.number .score)) >>= fun n =>
      pure (negateSaturated n)

theorem of_readScore :
    of readScore = option false (Token.ofKind? .minus) >>= afterMinus := by
  funext ts
  show Reading.outcome (readScore ts) = option false _ ts >>= fun q => afterMinus q.1 q.2
  rw [readScore]
  unfold option
  cases next? false (Token.ofKind? .minus) ts with
  | some sign =>
    show _ = (of (expect false Token.integer? _) >>= fun n => pure (negateSaturated n)) sign.rest
    exact outcome_bind rfl fun n => rfl
  | none =>
    show _ = option false (Token.ofKind? .plus) ts >>= fun q => of (expect false _ _) q.2
    unfold option
    dsimp only
    cases next? false (Token.ofKind? .plus) ts with
    | some sign => exact outcome_widen _ _
    | none => rfl

theorem spec_score : (of readScore).Spec WritesScore anything := by
  rw [of_readScore]
  have hnumber := spec_integer (.number .score)
  have hnext {p : Token → Prop} {us : List Token} (h : Sees false p us) (rest : List Token) :
      ∀ t ∈ (sight (us ++ rest)).next, p t := by
    obtain ⟨bs, t, rfl, -, hbs, ht⟩ := h
    rw [hbs rfl]
    exact fun u hu => Option.some.inj hu ▸ ht
  have hplus := spec_sign (k := .plus)
    (fun _ => of (expect false Token.integer? (.number .score))) (by decide) hnumber hnumber
    fun us n rest h t ht => by rw [Token.integer?_kind (hnext h rest t ht)]; exact nofun
  have hminus := hnumber.map (k := anything) negateSaturated fun _ _ => Iff.rfl
  refine (spec_sign (k := .minus) afterMinus (by decide) hplus hminus ?_).congr ?_
  · rintro us n rest (h | ⟨ks, ws, rfl, hk, -⟩) t ht
    · rw [Token.integer?_kind (hnext h rest t ht)]
      exact nofun
    · rw [List.append_assoc] at ht
      rw [hnext hk _ t ht]
      exact nofun
  · intro us n
    constructor
    · rintro ((h | ⟨ks, ws, rfl, hk, h⟩) | ⟨ks, ws, rfl, hk, m, h, rfl⟩)
      · exact .plain h
      · exact .plus hk h
      · exact .minus hk h
    · intro h
      cases h with
      | plain h => exact .inl (.inl h)
      | plus hk h => exact .inl (.inr ⟨_, _, rfl, hk, h⟩)
      | minus hk h => exact .inr ⟨_, _, rfl, hk, _, h, rfl⟩

end Score

/-! ## Settings -/

section Setting

theorem of_readSettingValue_score :
    of (readSettingValue .score) = of readScore >>= fun n => pure (.score n) :=
  of_bind (fun _ => rfl) fun _ _ => rfl

theorem of_readSettingValue_when :
    of (readSettingValue .when) =
      lines >>= fun _ => of (readOr false none) >>= fun c => pure (.condition c) := by
  funext ts
  show _ = (of (readOr false none) >>= fun c => pure (Setting.condition c)) (dropNewlines ts)
  exact outcome_bind rfl fun c => rfl

theorem of_readSetting {c : Clause} (hc : c ≠ .when) :
    of (readSetting c) = of (expect false (Token.ofKind? .colon) (.colon c)) >>= fun _ =>
      of (readSettingValue c) := by
  have hnext (ts : List Token) (colon : Parsed Unit ts.length) :
      ((readSettingValue c colon.rest).widen (Nat.le_of_lt colon.lt)).outcome =
        of (readSettingValue c) colon.rest := outcome_widen _ _
  refine of_bind (fun ts => ?_) hnext
  rw [readSetting, if_neg hc]

theorem readSetting_when : readSetting .when = readSettingValue .when := by
  funext ts
  rw [readSetting, if_pos rfl]

theorem spec_one {α : Type} {read : Token → Option α} {e : Expected} (v : α → Setting)
    (hk : ∀ t a, read t = some a → t.kind ≠ .newline) (hp : ∃ t a, read t = some a)
    (hv : ∀ a s, EndsSetting (v a) s) :
    (of fun ts => do return (← expect false read e ts).map v).Spec (WritesOne read v)
      EndsSetting := by
  rw [of_bind (r := fun a => pure (v a)) (fun _ => rfl) fun _ _ => rfl]
  exact (spec_expect (fun _ _ => Iff.rfl) hk hp).map v fun a s => iff_of_true (hv a s) trivial

/-- The condition of a clause may start on a later line. -/
theorem spec_when :
    (lines >>= fun _ => of (readOr false none) >>= fun c => pure (Setting.condition c)).Spec
      (WritesValueOf .when) EndsSetting := by
  have hcondition := (spec_condition false).map (k := EndsSetting) Setting.condition
    fun _ _ => Iff.rfl
  refine ⟨?_, fun ts => (spec_lines.judges ts).bind spec_lines.complete
    (fun bs _ mid _ hbs _ => (hcondition.judges mid).mono ?_ fun _ _ _ _ _ hf => hf)
    (fun bs _ hbs => ?_) (fun _ => settles_next (p := fun o => ∀ t ∈ o, t.kind ≠ .newline) _), ?_⟩
  · rintro _ _ rest ⟨bs, vs, c, rfl, hbs, hc, rfl⟩ hend
    rw [List.append_assoc]
    show of (readOr false none) (dropNewlines _) >>= _ = _
    rw [dropNewlines_append hbs]
    have hread : of (readOr false none) (dropNewlines (vs ++ rest)) = .ok (c, rest) :=
      readOr_of_derives true hc hend
    rw [hread]
    rfl
  · rintro ws _ ⟨c, hc, rfl⟩
    exact ⟨bs, ws, c, rfl, hbs, hc, rfl⟩
  · obtain ⟨us, c, hc⟩ := (spec_condition false).possible
    exact ⟨us, _, bs, us, c, rfl, hbs, hc, rfl⟩
  · obtain ⟨us, c, hc⟩ := (spec_condition false).possible
    exact ⟨us, _, [], us, c, rfl, Lines.nil, hc, rfl⟩

theorem spec_settingValue (c : Clause) :
    (of (readSettingValue c)).Spec (WritesValueOf c) EndsSetting := by
  cases c with
  | type =>
    exact spec_one _ (fun _ _ h => Token.ruleType?_kind h ▸ nofun)
      ⟨⟨.ruleType .bonus, "", {}⟩, _, rfl⟩ fun _ _ => trivial
  | category =>
    refine spec_one _ (fun t _ h => ?_) ⟨⟨.identifier, "", {}⟩, "", rfl⟩ fun _ _ => trivial
    rcases Token.category?_kind h with h | h <;> rw [h] <;> exact nofun
  | mandatory =>
    refine spec_one _ (fun t _ h => ?_) ⟨⟨.answer true, "", {}⟩, true, rfl⟩ fun _ _ => trivial
    rcases Token.boolean?_kind h with h | h | h <;> rw [h] <;> exact nofun
  | order | weight =>
    exact spec_one _ (fun _ _ h => Token.integer?_kind h ▸ nofun) exists_integer fun _ _ => trivial
  | passMessage | failMessage =>
    exact spec_one _ (fun _ _ h => Token.string?_kind h ▸ nofun) ⟨⟨.string, "", {}⟩, _, rfl⟩
      fun _ _ => trivial
  | score =>
    rw [of_readSettingValue_score]
    exact spec_score.map _ fun _ _ => Iff.rfl
  | when =>
    rw [of_readSettingValue_when]
    exact spec_when

/-- **Clauses are read by their grammar.** -/
theorem spec_setting (c : Clause) : (of (readSetting c)).Spec (WritesSetting c) EndsSetting := by
  have hvalue := spec_settingValue c
  by_cases hc : c = .when
  · subst hc
    rw [readSetting_when]
    exact hvalue
  · rw [of_readSetting hc]
    refine ((spec_kind (by decide)).andThen fun _ => hvalue).congr fun us s => ?_
    rw [WritesSetting, if_neg hc]
    exact ⟨fun ⟨ks, _, ws, h⟩ => ⟨ks, ws, h⟩, fun ⟨ks, ws, h⟩ => ⟨ks, (), ws, h⟩⟩

end Setting

/-! ## Tokens inside a clause -/

section Bracketed

variable {us : List Token}

theorem WritesScore.bracketed {n : Int64} (h : WritesScore us n) : Bracketed us := by
  have hnumber {us : List Token} {n : Int64} (h : Sees false (·.integer? = some n) us) :
      Bracketed us := Sees.bracketed h fun _ ht => Token.integer?_kind ht ▸ rfl
  cases h with
  | plain h => exact hnumber h
  | plus hk h | minus hk h => exact (Sees.bracketed_kind hk rfl).append (hnumber h)

theorem WritesOne.bracketed {α : Type} {read : Token → Option α} {v : α → Setting} {s : Setting}
    (h : WritesOne read v us s) (hk : ∀ t a, read t = some a → t.kind.isClausal = true) :
    Bracketed us := by
  obtain ⟨a, h, -⟩ := h
  exact Sees.bracketed h fun t ht => hk t a ht

theorem WritesValueOf.bracketed {c : Clause} {s : Setting} (h : WritesValueOf c us s) :
    Bracketed us := by
  cases c with
  | type => exact WritesOne.bracketed h fun _ _ h => Token.ruleType?_kind h ▸ rfl
  | category =>
    refine WritesOne.bracketed h fun t _ h => ?_
    rcases Token.category?_kind h with h | h <;> rw [h] <;> rfl
  | mandatory =>
    refine WritesOne.bracketed h fun t _ h => ?_
    rcases Token.boolean?_kind h with h | h | h <;> rw [h] <;> rfl
  | order | weight => exact WritesOne.bracketed h fun _ _ h => Token.integer?_kind h ▸ rfl
  | passMessage | failMessage =>
    exact WritesOne.bracketed h fun _ _ h => Token.string?_kind h ▸ rfl
  | score =>
    obtain ⟨n, h, -⟩ := h
    exact h.bracketed
  | when =>
    obtain ⟨bs, vs, c, rfl, hbs, h, -⟩ := h
    exact (Lines.bracketed hbs).append h.bracketed

/-- Every parenthesis of a clause has its match. -/
theorem WritesSetting.bracketed {c : Clause} {s : Setting} (h : WritesSetting c us s) :
    Bracketed us := by
  unfold WritesSetting at h
  split at h
  · exact WritesValueOf.bracketed h
  · obtain ⟨ks, ws, rfl, hk, h⟩ := h
    exact (Sees.bracketed_kind hk rfl).append (WritesValueOf.bracketed h)

end Bracketed

end Eligibility
