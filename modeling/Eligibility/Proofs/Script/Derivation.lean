import Eligibility.Script.Condition

/-!
# The grammar of conditions

```
disjunction := conjunction (NL* OR NL* conjunction)*
conjunction := unary (NL* AND NL* unary)*
unary       := NOT NL* primary | primary
primary     := NL* ('(' disjunction ')' | aggregation | check | field test)
aggregation := AGG '(' field ')' [binary value]
check       := CHECK '(' field [',' values] ')'
test        := IS EMPTY | IS NOT EMPTY | BETWEEN value AND value | [NOT] IN '(' values ')'
             | binary value
values      := value (',' value)*
```

Chains fold to the left, and line breaks count for nothing inside parentheses.

* `Lines`, `Sees`: line breaks, and one token;
* `Token.Denotes`: the value that a token stands for;
* `WritesValues`, `WritesList`, `WritesTest`, `WritesCall`: the parts of a leaf;
* **`Derives`**: the tokens that write a condition;
* `Condition.endsInCall`, **`Ends`**: no optional part is left out at the end of a condition;
* `Inside`: there is no keyword `RULE`;
* `Bracketed`, **`Derives.bracketed`**: the tokens of a condition are of the kinds that clauses are
  made of, and every parenthesis has its match.
-/

namespace Eligibility

/-! ## Tokens -/

/-- Line breaks and nothing else. -/
def Lines (us : List Token) : Prop := ∀ t ∈ us, t.kind = .newline

/-- One token that `P` holds of. Inside parentheses line breaks may stand before it. -/
def Sees (nested : Bool) (P : Token → Prop) (us : List Token) : Prop :=
  ∃ bs t, us = bs ++ [t] ∧ Lines bs ∧ (nested = false → bs = []) ∧ P t

theorem Lines.nil : Lines [] := List.forall_mem_nil _

theorem Sees.one {nested : Bool} {P : Token → Prop} {t : Token} (ht : P t) : Sees nested P [t] :=
  ⟨[], t, rfl, Lines.nil, fun _ => rfl, ht⟩

theorem Sees.length_pos {nested : Bool} {P : Token → Prop} {us : List Token}
    (h : Sees nested P us) : 0 < us.length := by
  obtain ⟨bs, t, rfl, -⟩ := h
  rw [List.length_append]
  exact Nat.succ_pos _

/-- The token stands for the value. -/
inductive Token.Denotes (t : Token) : Value → Prop
  | string (hk : t.kind = .string) : t.Denotes (.string t.content)
  | number {v : Value} (hk : t.kind = .number) (hv : Value.ofNumber? t.text = some v) : t.Denotes v
  | answer {b : Bool} (hk : t.kind = .answer b) : t.Denotes (.bool b)
  | truth {b : Bool} (hk : t.kind = .truth b) : t.Denotes (.bool b)
  | identifier (hk : t.kind = .identifier) : t.Denotes (.identifier t.text)

/-! ## Leaves -/

/-- Values with commas between them, inside parentheses. -/
inductive WritesValues : List Token → List Value → Prop
  | one {us : List Token} {v : Value} (hv : Sees true (·.Denotes v) us) : WritesValues us [v]
  | more {us ks ws : List Token} {v : Value} {vs : List Value} (hv : Sees true (·.Denotes v) us)
      (hk : Sees true (·.kind = .comma) ks) (h : WritesValues ws vs) :
      WritesValues (us ++ (ks ++ ws)) (v :: vs)

/-- A list of values with its parentheses. -/
inductive WritesList (nested : Bool) : List Token → List Value → Prop
  | mk {os us ks : List Token} {vs : List Value} (ho : Sees nested (·.kind = .leftParen) os)
      (h : WritesValues us vs) (hk : Sees true (·.kind = .rightParen) ks) :
      WritesList nested (os ++ (us ++ ks)) vs

/-- An operator and its operand. -/
inductive WritesTest (nested : Bool) : List Token → Operator → Operand → Prop
  | isEmpty {us : List Token} (h : Sees nested (·.kind = .comparison .isEmpty) us) :
      WritesTest nested us .isEmpty .none
  | isNotEmpty {us : List Token} (h : Sees nested (·.kind = .comparison .isNotEmpty) us) :
      WritesTest nested us .isNotEmpty .none
  | between {us ls ks hs : List Token} {low high : Value}
      (h : Sees nested (·.kind = .comparison .between) us) (hlow : Sees nested (·.Denotes low) ls)
      (hand : Sees nested (·.kind = .and) ks) (hhigh : Sees nested (·.Denotes high) hs) :
      WritesTest nested (us ++ (ls ++ (ks ++ hs))) .between (.range low high)
  | isIn {us ws : List Token} {vs : List Value} (h : Sees nested (·.kind = .comparison .isIn) us)
      (hl : WritesList nested ws vs) : WritesTest nested (us ++ ws) .isIn (.list vs)
  | binary {us ws : List Token} {op : Operator} {v : Value} (hop : op.isBinary = true)
      (h : Sees nested (·.kind = .comparison op) us) (hv : Sees nested (·.Denotes v) ws) :
      WritesTest nested (us ++ ws) op (.single v)

/-- A field id. -/
def Token.IsField (id : String) (t : Token) : Prop := t.kind = .identifier ∧ t.text = id

/-- A call after the function's name: an aggregation may have a comparison behind it, a grid check
may have values. -/
inductive WritesCall (nested : Bool) (f : GridFunction) (p : Position) :
    List Token → FunctionCall → Prop
  | total {os us ks : List Token} {target : String} (hf : f.isAggregation = true)
      (ho : Sees nested (·.kind = .leftParen) os) (ht : Sees true (·.IsField target) us)
      (hk : Sees true (·.kind = .rightParen) ks) :
      WritesCall nested f p (os ++ (us ++ ks)) ⟨f, target, [], none, p⟩
  | compared {os us ks ops vs : List Token} {target : String} {op : Operator} {v : Value}
      (hf : f.isAggregation = true) (ho : Sees nested (·.kind = .leftParen) os)
      (ht : Sees true (·.IsField target) us) (hk : Sees true (·.kind = .rightParen) ks)
      (hop : op.isBinary = true) (hops : Sees nested (·.kind = .comparison op) ops)
      (hv : Sees nested (·.Denotes v) vs) :
      WritesCall nested f p (os ++ (us ++ (ks ++ (ops ++ vs)))) ⟨f, target, [], some (op, v), p⟩
  | check {os us ks : List Token} {target : String} (hf : f.isGridCheck = true)
      (ho : Sees nested (·.kind = .leftParen) os) (ht : Sees true (·.IsField target) us)
      (hk : Sees true (·.kind = .rightParen) ks) :
      WritesCall nested f p (os ++ (us ++ ks)) ⟨f, target, [], none, p⟩
  | listed {os us cs ws ks : List Token} {target : String} {vs : List Value}
      (hf : f.isGridCheck = true) (ho : Sees nested (·.kind = .leftParen) os)
      (ht : Sees true (·.IsField target) us) (hc : Sees true (·.kind = .comma) cs)
      (hv : WritesValues ws vs) (hk : Sees true (·.kind = .rightParen) ks) :
      WritesCall nested f p (os ++ (us ++ (cs ++ (ws ++ ks)))) ⟨f, target, vs, none, p⟩

/-! ## Conditions -/

/-- How tightly a condition binds. -/
inductive Level where
  | primary | unary | conjunction | disjunction

/-- The tokens write the condition. -/
inductive Derives : Level → (nested : Bool) → List Token → Condition → Prop
  | comparison {nested : Bool} {us ws : List Token} {id : String} {p : Position} {op : Operator}
      {o : Operand} (hf : Sees true (fun t => t.IsField id ∧ t.position = p) us)
      (ht : WritesTest nested ws op o) :
      Derives .primary nested (us ++ ws) (.leaf (.comparison ⟨id, op, o, p⟩))
  | excluded {nested : Bool} {us ks ws : List Token} {id : String} {p : Position}
      {vs : List Value} (hf : Sees true (fun t => t.IsField id ∧ t.position = p) us)
      (hk : Sees nested (·.kind = .notIn) ks) (hl : WritesList nested ws vs) :
      Derives .primary nested (us ++ (ks ++ ws))
        (.not (.leaf (.comparison ⟨id, .isIn, .list vs, p⟩)))
  | call {nested : Bool} {us ws : List Token} {f : GridFunction} {p : Position}
      {call : FunctionCall} (hf : Sees true (fun t => t.kind = .function f ∧ t.position = p) us)
      (hc : WritesCall nested f p ws call) :
      Derives .primary nested (us ++ ws) (.leaf (.call call))
  | group {nested : Bool} {os us ks : List Token} {c : Condition}
      (ho : Sees true (·.kind = .leftParen) os) (h : Derives .disjunction true us c)
      (hk : Sees true (·.kind = .rightParen) ks) :
      Derives .primary nested (os ++ (us ++ ks)) (.group c)
  | plain {nested : Bool} {us : List Token} {c : Condition} (h : Derives .primary nested us c) :
      Derives .unary nested us c
  | not {nested : Bool} {ks us : List Token} {c : Condition}
      (hk : Sees nested (·.kind = .not) ks) (h : Derives .primary nested us c) :
      Derives .unary nested (ks ++ us) (.not c)
  | operand {nested : Bool} {us : List Token} {c : Condition} (h : Derives .unary nested us c) :
      Derives .conjunction nested us c
  | and {nested : Bool} {us ks bs ws : List Token} {a b : Condition}
      (ha : Derives .conjunction nested us a) (hk : Sees true (·.kind = .and) ks) (hbs : Lines bs)
      (hb : Derives .unary nested ws b) :
      Derives .conjunction nested (us ++ (ks ++ (bs ++ ws))) (.and a b)
  | clause {nested : Bool} {us : List Token} {c : Condition}
      (h : Derives .conjunction nested us c) : Derives .disjunction nested us c
  | or {nested : Bool} {us ks bs ws : List Token} {a b : Condition}
      (ha : Derives .disjunction nested us a) (hk : Sees true (·.kind = .or) ks) (hbs : Lines bs)
      (hb : Derives .conjunction nested ws b) :
      Derives .disjunction nested (us ++ (ks ++ (bs ++ ws))) (.or a b)

/-! ## Ends -/

/-- What can be seen of the tokens ahead: the next one, and the next one that is no line break. -/
structure Sight where
  next : Option Token
  beyond : Option Token

def sight (ts : List Token) : Sight := ⟨ts.head?, (dropNewlines ts).head?⟩

/-- The next token that counts. -/
def Sight.seen (nested : Bool) (s : Sight) : Option Token := if nested then s.beyond else s.next

/-- The condition ends in an aggregation that a comparison could still follow. -/
def Condition.endsInCall : Condition → Bool
  | leaf (.call f) => f.function.isAggregation && f.comparison.isNone
  | leaf (.comparison _) | group _ => false
  | and _ b | or _ b => b.endsInCall
  | not c => c.endsInCall

/-- No comparison follows an aggregation that the condition ends in. -/
def EndsCall (nested : Bool) (c : Condition) (s : Sight) : Prop :=
  c.endsInCall = true → ∀ t ∈ s.seen nested, t.kind.binary? = none

/-- No optional part is left out in front of what is ahead: neither a comparison after an
aggregation nor, past line breaks, another operand of a chain. Before its end a condition leaves no
choice: an optional part that is there can be read as nothing else. -/
def Ends (nested : Bool) (c : Condition) (s : Sight) : Prop :=
  EndsCall nested c s ∧ ∀ t ∈ s.beyond, t.kind ≠ .and ∧ t.kind ≠ .or

/-! ## Tokens inside a clause -/

/-- Neither the keyword of a rule nor the end of a text is among the tokens. -/
def Inside (us : List Token) : Prop := ∀ t ∈ us, t.kind ≠ .rule ∧ t.kind ≠ .eof

/-- The kinds of the tokens that clauses are made of, parentheses apart. -/
def TokenKind.isClausal : TokenKind → Bool
  | rule | eof | unknown | leftParen | rightParen => false
  | _ => true

/-- Tokens that clauses are made of, with a match for every parenthesis. -/
inductive Bracketed : List Token → Prop
  | nil : Bracketed []
  | cons {t : Token} {us : List Token} (ht : t.kind.isClausal = true) (h : Bracketed us) :
      Bracketed (t :: us)
  | parens {o k : Token} {us vs : List Token} (ho : o.kind = .leftParen) (hus : Bracketed us)
      (hk : k.kind = .rightParen) (hvs : Bracketed vs) : Bracketed (o :: (us ++ k :: vs))

section Inside

variable {nested : Bool} {us vs : List Token}

@[simp] theorem inside_append : Inside (us ++ vs) ↔ Inside us ∧ Inside vs :=
  List.forall_mem_append

theorem Lines.inside (h : Lines us) : Inside us := fun t ht => by
  rw [h t ht]
  exact ⟨nofun, nofun⟩

theorem Sees.inside {p : Token → Prop} (h : Sees nested p us)
    (hp : ∀ t, p t → t.kind ≠ .rule ∧ t.kind ≠ .eof) : Inside us := by
  obtain ⟨bs, t, rfl, hbs, -, ht⟩ := h
  refine inside_append.2 ⟨Lines.inside hbs, fun u hu => ?_⟩
  rw [List.mem_singleton.1 hu]
  exact hp t ht

theorem Sees.inside_kind {k : TokenKind} (h : Sees nested (·.kind = k) us)
    (hk : k ≠ .rule ∧ k ≠ .eof) : Inside us :=
  Sees.inside h fun _ ht => ht ▸ hk

theorem Bracketed.kinds (h : Bracketed us) :
    ∀ t ∈ us, t.kind.isClausal = true ∨ t.kind = .leftParen ∨ t.kind = .rightParen := by
  induction h with
  | nil => exact List.forall_mem_nil _
  | cons ht _ ih => exact List.forall_mem_cons.2 ⟨.inl ht, ih⟩
  | parens ho _ hk _ ihus ihvs =>
    refine List.forall_mem_cons.2 ⟨.inr (.inl ho), List.forall_mem_append.2 ⟨ihus, ?_⟩⟩
    exact List.forall_mem_cons.2 ⟨.inr (.inr hk), ihvs⟩

/-- No token of a clause opens a rule, ends the text or is no token of any clause. -/
theorem Bracketed.kind_ne (h : Bracketed us) {k : TokenKind} (hk : k.isClausal = false)
    (hl : k ≠ .leftParen) (hr : k ≠ .rightParen) : ∀ t ∈ us, t.kind ≠ k := by
  rintro t ht rfl
  rcases h.kinds t ht with h | h | h
  · exact absurd (hk.symm.trans h) nofun
  · exact hl h
  · exact hr h

theorem Bracketed.inside (h : Bracketed us) : Inside us := fun t ht =>
  ⟨h.kind_ne (k := .rule) rfl nofun nofun t ht, h.kind_ne (k := .eof) rfl nofun nofun t ht⟩

end Inside

section Bracketed

variable {nested : Bool} {us vs : List Token}

theorem Bracketed.append (hus : Bracketed us) (hvs : Bracketed vs) : Bracketed (us ++ vs) := by
  induction hus with
  | nil => exact hvs
  | cons ht _ ih => exact .cons ht ih
  | parens ho hus hk _ _ ih =>
    rw [List.cons_append, List.append_assoc]
    exact .parens ho hus hk ih

theorem Lines.bracketed (h : Lines us) : Bracketed us := by
  induction us with
  | nil => exact .nil
  | cons t us ih =>
    obtain ⟨ht, hus⟩ := List.forall_mem_cons.1 h
    exact .cons (by rw [ht]; rfl) (ih hus)

theorem Sees.bracketed {p : Token → Prop} (h : Sees nested p us)
    (hp : ∀ t, p t → t.kind.isClausal = true) : Bracketed us := by
  obtain ⟨bs, t, rfl, hbs, -, ht⟩ := h
  exact (Lines.bracketed hbs).append (.cons (hp t ht) .nil)

theorem Sees.bracketed_kind {k : TokenKind} (h : Sees nested (·.kind = k) us)
    (hk : k.isClausal = true) : Bracketed us :=
  Sees.bracketed h fun _ ht => ht ▸ hk

theorem Sees.bracketed_value {v : Value} (h : Sees nested (·.Denotes v) us) : Bracketed us :=
  Sees.bracketed h fun _ ht => by cases ht <;> simp [*, TokenKind.isClausal]

theorem Sees.bracketed_field {id : String} (h : Sees nested (·.IsField id) us) : Bracketed us :=
  Sees.bracketed h fun _ ht => ht.1 ▸ rfl

theorem Bracketed.enclosed {os ks : List Token} (ho : Sees nested (·.kind = .leftParen) os)
    (hus : Bracketed us) (hk : Sees true (·.kind = .rightParen) ks) :
    Bracketed (os ++ (us ++ ks)) := by
  obtain ⟨bs, o, rfl, hbs, -, ho⟩ := ho
  obtain ⟨cs, k, rfl, hcs, -, hk⟩ := hk
  have hparens : Bracketed (o :: ((us ++ cs) ++ [k])) :=
    .parens ho (hus.append (Lines.bracketed hcs)) hk .nil
  have hall := (Lines.bracketed hbs).append hparens
  rwa [List.append_cons, List.append_assoc us] at hall

theorem WritesValues.bracketed {vs : List Value} (h : WritesValues us vs) : Bracketed us := by
  induction h with
  | one hv => exact Sees.bracketed_value hv
  | more hv hk _ ih =>
    exact (Sees.bracketed_value hv).append ((Sees.bracketed_kind hk rfl).append ih)

theorem WritesList.bracketed {vs : List Value} (h : WritesList nested us vs) : Bracketed us := by
  obtain ⟨ho, h, hk⟩ := h
  exact .enclosed ho h.bracketed hk

theorem WritesTest.bracketed {op : Operator} {o : Operand} (h : WritesTest nested us op o) :
    Bracketed us := by
  cases h with
  | isEmpty h | isNotEmpty h => exact Sees.bracketed_kind h rfl
  | between h hlow hand hhigh =>
    exact (Sees.bracketed_kind h rfl).append ((Sees.bracketed_value hlow).append
      ((Sees.bracketed_kind hand rfl).append (Sees.bracketed_value hhigh)))
  | isIn h hl => exact (Sees.bracketed_kind h rfl).append hl.bracketed
  | binary _ h hv => exact (Sees.bracketed_kind h rfl).append (Sees.bracketed_value hv)

theorem WritesCall.bracketed {f : GridFunction} {p : Position} {call : FunctionCall}
    (h : WritesCall nested f p us call) : Bracketed us := by
  cases h with
  | total _ ho ht hk | check _ ho ht hk => exact .enclosed ho (Sees.bracketed_field ht) hk
  | @compared os us ks ops vs _ _ _ _ ho ht hk _ hops hv =>
    have hcall := (Bracketed.enclosed ho (Sees.bracketed_field ht) hk).append
      ((Sees.bracketed_kind hops rfl).append (Sees.bracketed_value hv))
    simpa only [List.append_assoc] using hcall
  | listed _ ho ht hc hv hk =>
    have hcall := Bracketed.enclosed ho
      ((Sees.bracketed_field ht).append ((Sees.bracketed_kind hc rfl).append hv.bracketed)) hk
    simpa only [List.append_assoc] using hcall

/-- **Every parenthesis of a condition has its match.** -/
theorem Derives.bracketed {l : Level} {c : Condition} (h : Derives l nested us c) :
    Bracketed us := by
  have hfield {ks : List Token} {id : String} {p : Position}
      (hf : Sees true (fun t => t.IsField id ∧ t.position = p) ks) : Bracketed ks :=
    Sees.bracketed hf fun _ ht => ht.1.1 ▸ rfl
  induction h with
  | comparison hf ht => exact (hfield hf).append ht.bracketed
  | excluded hf hk hl => exact (hfield hf).append ((Sees.bracketed_kind hk rfl).append hl.bracketed)
  | call hf hc => exact (Sees.bracketed hf fun _ ht => ht.1 ▸ rfl).append hc.bracketed
  | group ho _ hk ih => exact .enclosed ho ih hk
  | plain _ ih | operand _ ih | clause _ ih => exact ih
  | not hk _ ih => exact (Sees.bracketed_kind hk rfl).append ih
  | and _ hk hbs _ iha ihb | or _ hk hbs _ iha ihb =>
    exact iha.append ((Sees.bracketed_kind hk rfl).append ((Lines.bracketed hbs).append ihb))

end Bracketed

end Eligibility
