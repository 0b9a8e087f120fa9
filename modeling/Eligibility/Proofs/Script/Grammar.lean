import Eligibility.Proofs.Script.Reading

/-!
# Reading the text of conditions

* `Condition.unplaced`, `Condition.Same`: conditions without their places;
* `Condition.rank`, `Condition.Grammatical`: the conditions that a script can be read as;
* `link`, `Continues`, **`link_gives`**: one operand of a chain, and the chain after it;
* `Condition.ReadBack`, **`Condition.readBack`**: the pieces of a condition read as that condition.
-/

namespace Eligibility

open TokenKind

/-! ## Places -/

/-- The leaf without its place. -/
def Leaf.unplaced : Leaf → Leaf
  | comparison c => comparison { c with position := {} }
  | call f => call { f with position := {} }

namespace Condition

/-- The condition without its places. -/
def unplaced : Condition → Condition
  | leaf l => leaf l.unplaced
  | and a b => and a.unplaced b.unplaced
  | or a b => or a.unplaced b.unplaced
  | not c => not c.unplaced
  | group c => group c.unplaced

/-- The conditions are equal up to places. -/
def Same (c d : Condition) : Prop := d.unplaced = c.unplaced

theorem Same.and {a b a' b' : Condition} (ha : Same a a') (hb : Same b b') :
    Same (and a b) (and a' b') := by
  rw [Same, unplaced, unplaced, ha, hb]

theorem Same.or {a b a' b' : Condition} (ha : Same a a') (hb : Same b b') :
    Same (or a b) (or a' b') := by
  rw [Same, unplaced, unplaced, ha, hb]

theorem Same.not {c c' : Condition} (h : Same c c') : Same (not c) (not c') := by
  rw [Same, unplaced, unplaced, h]

theorem Same.group {c c' : Condition} (h : Same c c') : Same (group c) (group c') := by
  rw [Same, unplaced, unplaced, h]

/-! ## Shapes -/

/-- How loosely the outermost connective binds. A list that a field is not in is a primary. -/
def rank : Condition → Nat
  | or _ _ => 3
  | and _ _ => 2
  | not c => if c.excludedList?.isSome then 0 else 1
  | _ => 0

/-- The condition is grouped as a script groups it: chains fold to the left, and a negation applies
to a primary. -/
def Grammatical : Condition → Prop
  | leaf _ => True
  | and a b => a.Grammatical ∧ b.Grammatical ∧ a.rank ≤ 2 ∧ b.rank ≤ 1
  | or a b => a.Grammatical ∧ b.Grammatical ∧ b.rank ≤ 2
  | not c => c.Grammatical ∧ c.rank = 0
  | group c => c.Grammatical

/-- The decision of `Grammatical`. -/
def decideGrammatical : (c : Condition) → Decidable c.Grammatical
  | leaf _ => inferInstanceAs (Decidable True)
  | and a b =>
    have := a.decideGrammatical
    have := b.decideGrammatical
    inferInstanceAs (Decidable (_ ∧ _ ∧ _ ∧ _))
  | or a b =>
    have := a.decideGrammatical
    have := b.decideGrammatical
    inferInstanceAs (Decidable (_ ∧ _ ∧ _))
  | not c =>
    have := c.decideGrammatical
    inferInstanceAs (Decidable (_ ∧ _))
  | group c => c.decideGrammatical

instance (c : Condition) : Decidable c.Grammatical := c.decideGrammatical

/-- A condition starts with a piece, and a primary one not with a negation. -/
theorem pieces_eq_cons (c : Condition) :
    ∃ p ps, c.pieces = p :: ps ∧ p.1 ≠ .newline ∧ (c.rank = 0 → p.1 ≠ .not) := by
  induction c with
  | leaf l => cases l <;> exact ⟨_, _, rfl, by simp, fun _ => by simp⟩
  | and a b iha ihb =>
    obtain ⟨p, ps, hp, hn, -⟩ := iha
    exact ⟨p, ps ++ (.and, "AND") :: b.pieces, by rw [pieces, hp]; rfl, hn, by simp [rank]⟩
  | or a b iha ihb =>
    obtain ⟨p, ps, hp, hn, -⟩ := iha
    exact ⟨p, ps ++ (.or, "OR") :: b.pieces, by rw [pieces, hp]; rfl, hn, by simp [rank]⟩
  | not c ih =>
    rw [pieces, rank]
    cases hx : c.excludedList? with
    | some p => exact ⟨_, _, rfl, by simp, fun _ => by simp⟩
    | none => exact ⟨_, _, rfl, by simp, by simp⟩
  | group c ih => exact ⟨_, _, rfl, by simp, fun _ => by simp⟩

theorem started_pieces (c : Condition) (ps : List Piece) : Started (c.pieces ++ ps) := by
  obtain ⟨p, qs, hp, hn, -⟩ := c.pieces_eq_cons
  rw [hp]
  intro q hq
  rw [← Option.some.inj hq]
  exact hn

end Condition

/-! ## Chains -/

section Chain

variable {nested : Bool} {left : Option Condition} {ts : List Token} {ps qs : List Piece}
  {P Q : Condition → Prop}

/-- After a chain that `Q` holds of, either nothing joins it and it is the answer, or an operator
does and the reader goes on from it. -/
def Continues (read : Option Condition → (ts : List Token) → Reading Condition ts.length)
    (k : TokenKind) (Q : Condition → Prop) (ps : List Piece) (P : Condition → Prop)
    (qs : List Piece) : Prop :=
  ((∀ p ∈ ps.head?, p.1 ≠ k) ∧ ps = qs ∧ ∀ c, Q c → P c) ∨
    ∃ s rest, ps = (k, s) :: rest ∧ Started rest ∧
      ∀ c ts, Q c → ts.map Token.piece = rest → Gives (read (some c) ts) P qs

theorem Continues.mono {read : Option Condition → (ts : List Token) → Reading Condition ts.length}
    {k : TokenKind} (h : Continues read k Q ps P qs) {Q' : Condition → Prop}
    (hq : ∀ c, Q' c → Q c) : Continues read k Q' ps P qs := by
  rcases h with ⟨hk, hs, hp⟩ | ⟨s, rest, hs, hr, hp⟩
  · exact .inl ⟨hk, hs, fun c hc => hp c (hq c hc)⟩
  · exact .inr ⟨s, rest, hs, hr, fun c ts hc => hp c ts (hq c hc)⟩

/-- What follows one operand of a chain: nothing that joins it, or the rest of the chain. -/
def link {n : Nat} (read : Option Condition → (ts : List Token) → Reading Condition ts.length)
    (k : TokenKind) (join : Condition → Condition → Condition) (left : Option Condition)
    (c : Parsed Condition n) : Reading Condition n :=
  match next? true (Token.ofKind? k) c.rest with
  | none => return c.map (chain join left)
  | some o => do
    have ho := Nat.lt_of_le_of_lt (length_dropNewlines_le o.rest) (Nat.lt_trans o.lt c.lt)
    let d ← read (some (chain join left c.value)) (dropNewlines o.rest)
    return d.widen (Nat.le_of_lt ho)

theorem readAnd_eq (nested : Bool) (left : Option Condition) (ts : List Token) :
    readAnd nested left ts = readUnary nested ts >>= link (readAnd nested) .and .and left := by
  rw [readAnd]
  congr 1
  funext c
  unfold link
  cases next? true (Token.ofKind? .and) c.rest <;> rfl

theorem readOr_eq (nested : Bool) (left : Option Condition) (ts : List Token) :
    readOr nested left ts = readAnd nested none ts >>= link (readOr nested) .or .or left := by
  rw [readOr]
  congr 1
  funext c
  unfold link
  cases next? true (Token.ofKind? .or) c.rest <;> rfl

theorem link_gives {n : Nat}
    {read : Option Condition → (ts : List Token) → Reading Condition ts.length} {k : TokenKind}
    {join : Condition → Condition → Condition} {c : Parsed Condition n} (hk : k ≠ .newline)
    (hq : Q c.value) (hs : c.rest.map Token.piece = ps) (hps : Started ps)
    (hc : Continues read k (fun d => ∃ u, Q u ∧ d = chain join left u) ps P qs) :
    Gives (link read k join left c) P qs := by
  unfold link
  rcases hc with ⟨hne, rfl, hp⟩ | ⟨s, rest, rfl, hr, hp⟩
  · have hnone : next? true (Token.ofKind? k) c.rest = none :=
      next?_other hs fun p hp => ⟨hps p hp, hne p hp⟩
    rw [hnone]
    exact gives_ok (hp _ ⟨_, hq, rfl⟩) hs
  · obtain ⟨o, ho, hos⟩ := next?_kind true hs hk
    rw [ho]
    have hdrop : (dropNewlines o.rest).map Token.piece = rest := by
      rw [dropNewlines_of_started hos hr, hos]
    refine (hp _ _ ⟨_, hq, rfl⟩ hdrop).bind fun d hd hds => ?_
    exact gives_ok hd hds

theorem readAnd_gives (h : Gives (readUnary nested ts) Q ps) (hps : Started ps)
    (hc : Continues (readAnd nested) .and (fun c => ∃ u, Q u ∧ c = chain .and left u) ps P qs) :
    Gives (readAnd nested left ts) P qs := by
  rw [readAnd_eq]
  exact h.bind fun u hu hs => link_gives nofun hu hs hps hc

theorem readOr_gives (h : Gives (readAnd nested none ts) Q ps) (hps : Started ps)
    (hc : Continues (readOr nested) .or (fun c => ∃ u, Q u ∧ c = chain .or left u) ps P qs) :
    Gives (readOr nested left ts) P qs := by
  rw [readOr_eq]
  exact h.bind fun u hu hs => link_gives nofun hu hs hps hc

end Chain

/-! ## Conditions -/

namespace Condition

/-- The reader answers the pieces of the condition with the condition. -/
def ReadsBy (c : Condition) (read : Bool → (ts : List Token) → Reading Condition ts.length) :
    Prop :=
  ∀ (nested : Bool) (ts : List Token) (ps : List Piece), Closes ps →
    ts.map Token.piece = c.pieces ++ ps → Gives (read nested ts) (Same c) ps

/-- The condition is the start of a conjunction. -/
def ReadsAnd (c : Condition) : Prop :=
  ∀ (nested : Bool) (ts : List Token) (ps qs : List Piece) (P : Condition → Prop), Closes ps →
    ts.map Token.piece = c.pieces ++ ps → Continues (readAnd nested) .and (Same c) ps P qs →
    Gives (readAnd nested none ts) P qs

/-- The condition is the start of a disjunction. -/
def ReadsOr (c : Condition) : Prop :=
  ∀ (nested : Bool) (ts : List Token) (ps qs : List Piece) (P : Condition → Prop), Closes ps →
    (∀ p ∈ ps.head?, p.1 ≠ .and) → ts.map Token.piece = c.pieces ++ ps →
    Continues (readOr nested) .or (Same c) ps P qs → Gives (readOr nested none ts) P qs

/-- The pieces of the condition read as the condition, by its rank. -/
structure ReadBack (c : Condition) : Prop where
  primary : c.rank = 0 → c.ReadsBy readPrimary
  unary : c.rank ≤ 1 → c.ReadsBy readUnary
  conjunction : c.rank ≤ 2 → c.ReadsAnd
  disjunction : c.ReadsOr

variable {c : Condition}

theorem ReadsBy.unary (h : c.ReadsBy readPrimary) (hr : c.rank = 0) : c.ReadsBy readUnary := by
  intro nested ts ps hps ht
  obtain ⟨p, qs, hp, hn, hnot⟩ := c.pieces_eq_cons
  have hnone : next? nested (Token.ofKind? .not) ts = none := by
    refine next?_other ht fun q hq => ?_
    rw [hp] at hq
    rw [← Option.some.inj hq]
    exact ⟨hn, hnot hr⟩
  rw [readUnary, hnone]
  exact h nested ts ps hps ht

theorem ReadsBy.and (h : c.ReadsBy readUnary) : c.ReadsAnd := by
  intro nested ts ps qs P hps ht hc
  refine readAnd_gives (h nested ts ps hps ht) hps.started (hc.mono ?_)
  rintro _ ⟨u, hu, rfl⟩
  exact hu

theorem ReadsAnd.gives (h : c.ReadsAnd) {nested : Bool} {ts : List Token} {ps : List Piece}
    (hps : Closes ps) (hand : ∀ p ∈ ps.head?, p.1 ≠ .and)
    (ht : ts.map Token.piece = c.pieces ++ ps) : Gives (readAnd nested none ts) (Same c) ps :=
  h nested ts ps ps _ hps ht (.inl ⟨hand, rfl, fun _ h => h⟩)

theorem ReadsAnd.or (h : c.ReadsAnd) : c.ReadsOr := by
  intro nested ts ps qs P hps hand ht hc
  refine readOr_gives (h.gives hps hand ht) hps.started (hc.mono ?_)
  rintro _ ⟨u, hu, rfl⟩
  exact hu

theorem ReadsOr.gives (h : c.ReadsOr) {nested : Bool} {ts : List Token} {ps : List Piece}
    (hps : ∀ p ∈ ps.head?, p.1 = .rightParen) (ht : ts.map Token.piece = c.pieces ++ ps) :
    Gives (readOr nested none ts) (Same c) ps := by
  have hne (k : TokenKind) (hk : TokenKind.rightParen ≠ k) : ∀ p ∈ ps.head?, p.1 ≠ k := by
    intro p hp
    rw [hps p hp]
    exact hk
  exact h nested ts ps ps _ (fun p hp => .inr (.inr (hps p hp))) (hne _ nofun) ht
    (.inl ⟨hne _ nofun, rfl, fun _ h => h⟩)

theorem readBack_of_unary (hp : c.rank = 0 → c.ReadsBy readPrimary)
    (h : c.ReadsBy readUnary) : c.ReadBack :=
  ⟨hp, fun _ => h, fun _ => h.and, h.and.or⟩

theorem readBack_of_primary (hr : c.rank = 0) (h : c.ReadsBy readPrimary) : c.ReadBack :=
  readBack_of_unary (fun _ => h) (h.unary hr)

theorem opening?_field {s : String} {t : Token} (ht : t.piece = (.identifier, s)) :
    ∃ a, t.opening? = some a ∧ ∃ p, a = .field s p := by
  have hk : t.kind = .identifier := congrArg Prod.fst ht
  have hs : t.text = s := congrArg Prod.snd ht
  exact ⟨_, by rw [Token.opening?, hk], t.position, by rw [hs]⟩

theorem opening?_call {f : GridFunction} {s : String} {t : Token}
    (ht : t.piece = (.function f, s)) : ∃ a, t.opening? = some a ∧ ∃ p, a = .call f p := by
  have hk : t.kind = .function f := congrArg Prod.fst ht
  exact ⟨_, by rw [Token.opening?, hk], t.position, rfl⟩

theorem opening?_group {s : String} {t : Token} (ht : t.piece = (.leftParen, s)) :
    ∃ a, t.opening? = some a ∧ a = .group := by
  have hk : t.kind = .leftParen := congrArg Prod.fst ht
  exact ⟨_, by rw [Token.opening?, hk], rfl⟩

theorem readBack_leaf {l : Leaf} (h : l.IsWritable) : (leaf l).ReadBack := by
  refine readBack_of_primary rfl ?_
  intro nested ts ps hps ht
  rw [readPrimary]
  cases l with
  | comparison c =>
    refine (expect_gives ht nofun fun _ => opening?_field).bind ?_
    rintro ⟨_, rest, hlt⟩ ⟨p, rfl⟩ hrest
    have hread : Gives (readComparison nested c.field p rest) _ ps :=
      readComparison_gives h.2 p hrest
    exact (hread.widen (Nat.le_of_lt hlt)).mono fun d hd => by rw [hd]; rfl
  | call f =>
    refine (expect_gives ht nofun fun _ => opening?_call).bind ?_
    rintro ⟨_, rest, hlt⟩ ⟨p, rfl⟩ hrest
    have hcall : rest.map Token.piece = (.leftParen, "(") :: (.identifier, f.target) ::
        (f.valuePieces ++ (.rightParen, ")") :: (f.trailingPieces ++ ps)) := by
      rw [hrest]; simp
    have hread : Gives (readCall nested f.function p rest) _ ps := readCall_gives h hps p hcall
    refine hread.bind fun q hq hqs => ?_
    refine gives_ok ?_ hqs
    change Same _ (leaf q.value)
    rw [hq]
    rfl

theorem readBack_group (h : c.ReadBack) : (group c).ReadBack := by
  refine readBack_of_primary rfl ?_
  intro nested ts ps hps ht
  have hgroup : ts.map Token.piece =
      (.leftParen, "(") :: (c.pieces ++ (.rightParen, ")") :: ps) := by
    rw [ht]; simp [pieces]
  rw [readPrimary]
  refine (expect_gives hgroup (by decide) fun _ => opening?_group).bind ?_
  rintro ⟨_, rest, hlt⟩ rfl hrest
  refine (h.disjunction.gives (fun p hp => by cases hp; rfl) hrest).bind fun d hd hds => ?_
  refine (expect_kind hds (by decide)).bind fun close _ hclose => ?_
  exact gives_ok hd.group hclose

theorem readBack_excluded {field : String} {vs : List Value} {p : Position}
    (h : (Operand.list vs).Fits .isIn) :
    (not (leaf (.comparison ⟨field, .isIn, .list vs, p⟩))).ReadBack := by
  refine readBack_of_primary rfl ?_
  intro nested ts ps hps ht
  rw [readPrimary]
  refine (expect_gives ht nofun fun _ => opening?_field).bind ?_
  rintro ⟨_, rest, hlt⟩ ⟨q, rfl⟩ hrest
  have hread : Gives (readComparison nested field q rest) _ ps := readComparison_excluded h q hrest
  exact (hread.widen (Nat.le_of_lt hlt)).mono fun d hd => by rw [hd]; rfl

theorem readBack_not (h : c.ReadBack) (hr : c.rank = 0) (hx : c.excludedList? = none) :
    (not c).ReadBack := by
  have hrank : (not c).rank = 1 := by rw [rank, hx]; rfl
  refine readBack_of_unary (fun hz => ?_) ?_
  · rw [hrank] at hz
    cases hz
  · intro nested ts ps hps ht
    rw [pieces, hx] at ht
    obtain ⟨o, ho, hos⟩ := next?_kind nested ht (by decide)
    rw [readUnary, ho]
    refine (h.primary hr nested o.rest ps hps hos).bind fun d hd hds => ?_
    exact gives_ok hd.not hds

theorem readBack_and {a b : Condition} (ha : a.ReadBack) (hb : b.ReadBack) (hra : a.rank ≤ 2)
    (hrb : b.rank ≤ 1) : (and a b).ReadBack := by
  have hand : (and a b).ReadsAnd := by
    intro nested ts ps qs P hps ht hc
    have hsplit : ts.map Token.piece = a.pieces ++ (.and, "AND") :: (b.pieces ++ ps) := by
      rw [ht]; simp [pieces]
    refine ha.conjunction hra nested ts _ qs P (fun p hp => by cases hp; exact .inl rfl) hsplit ?_
    refine .inr ⟨_, _, rfl, b.started_pieces ps, fun d us hd hus => ?_⟩
    refine readAnd_gives (hb.unary hrb nested us ps hps hus) hps.started (hc.mono ?_)
    rintro _ ⟨u, hu, rfl⟩
    exact hd.and hu
  exact ⟨fun hr => by simp [rank] at hr, fun hr => by simp [rank] at hr, fun _ => hand, hand.or⟩

theorem readBack_or {a b : Condition} (ha : a.ReadBack) (hb : b.ReadBack) (hrb : b.rank ≤ 2) :
    (or a b).ReadBack := by
  refine ⟨fun hr => by simp [rank] at hr, fun hr => by simp [rank] at hr,
    fun hr => by simp [rank] at hr, ?_⟩
  intro nested ts ps qs P hps hand ht hc
  have hsplit : ts.map Token.piece = a.pieces ++ (.or, "OR") :: (b.pieces ++ ps) := by
    rw [ht]; simp [pieces]
  refine ha.disjunction nested ts _ qs P (fun p hp => by cases hp; exact .inr (.inl rfl))
    (fun p hp => by cases hp; decide) hsplit ?_
  refine .inr ⟨_, _, rfl, b.started_pieces ps, fun d us hd hus => ?_⟩
  refine readOr_gives ((hb.conjunction hrb).gives hps hand hus) hps.started (hc.mono ?_)
  rintro _ ⟨u, hu, rfl⟩
  exact hd.or hu

/-- Conditions that a script can be read as are read back from their pieces. -/
theorem readBack (h : c.Grammatical) (hw : c.IsWritable) : c.ReadBack := by
  induction c with
  | leaf l => exact readBack_leaf (hw l List.mem_cons_self)
  | and a b iha ihb =>
    obtain ⟨ha, hb, hra, hrb⟩ := h
    obtain ⟨hwa, hwb⟩ := List.forall_mem_append.1 hw
    exact readBack_and (iha ha hwa) (ihb hb hwb) hra hrb
  | or a b iha ihb =>
    obtain ⟨ha, hb, hrb⟩ := h
    obtain ⟨hwa, hwb⟩ := List.forall_mem_append.1 hw
    exact readBack_or (iha ha hwa) (ihb hb hwb) hrb
  | not c ih =>
    cases hx : c.excludedList? with
    | some p =>
      obtain ⟨p, rfl⟩ := excludedList?_eq_some hx
      exact readBack_excluded (hw _ List.mem_cons_self).2
    | none => exact readBack_not (ih h.1 hw) h.2 hx
  | group c ih => exact readBack_group (ih h hw)

end Condition

end Eligibility
