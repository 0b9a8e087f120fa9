import Eligibility.Proofs.Script.Expect

/-!
# Reading leaves

Every reader of a part of a leaf takes just that part, and stops where no such part can go on.

* `Token.value?_eq_some`, `Token.operator?_eq_some`, …: what one token reads as;
* `spec_value`, `spec_values`, `spec_list`, `spec_range`: values and lists of them;
* `spec_operand`, **`spec_comparison`**: a test after its field;
* `spec_checkValues`, `spec_trailing`, **`spec_call`**: a call after its function.
-/

namespace Eligibility

open Reader

/-! ## Tokens -/

section Token

variable {t : Token}

theorem Token.value?_eq_some {v : Value} : t.value? = some v ↔ t.Denotes v := by
  constructor
  · intro h
    unfold Token.value? at h
    split at h
    · cases h; exact .string ‹_›
    · exact .number ‹_› h
    · cases h; exact .answer ‹_›
    · cases h; exact .truth ‹_›
    · cases h; exact .identifier ‹_›
    · cases h
  · intro h
    cases h with
    | number hk hv => rw [Token.value?, hk]; exact hv
    | string hk | answer hk | truth hk | identifier hk => rw [Token.value?, hk]

theorem Token.Denotes.kind_ne {v : Value} (h : t.Denotes v) : t.kind ≠ .newline := by
  cases h <;> simp [*]

theorem Token.field?_eq_some {id : String} : t.field? = some id ↔ t.IsField id := by
  rw [Token.field?, Token.IsField]
  split <;> simp [*]

theorem Token.binary?_eq_some {op : Operator} :
    t.binary? = some op ↔ t.kind = .comparison op ∧ op.isBinary = true := by
  constructor
  · intro h
    unfold Token.binary? TokenKind.binary? at h
    split at h
    · split at h
      · cases h; exact ⟨‹_›, ‹_›⟩
      · cases h
    · cases h
  · rintro ⟨hk, hop⟩
    rw [Token.binary?, hk, TokenKind.binary?, if_pos hop]

/-- An operator after a field, and whether it is negated. -/
inductive Token.Operates (t : Token) : Operator × Bool → Prop
  | plain {op : Operator} (hk : t.kind = .comparison op) : t.Operates (op, false)
  | excluded (hk : t.kind = .notIn) : t.Operates (.isIn, true)

theorem Token.operator?_eq_some {o : Operator × Bool} : t.operator? = some o ↔ t.Operates o := by
  constructor
  · intro h
    unfold Token.operator? at h
    split at h
    · cases h; exact .plain ‹_›
    · cases h; exact .excluded ‹_›
    · cases h
  · intro h
    cases h with
    | plain hk | excluded hk => rw [Token.operator?, hk]

theorem Token.Operates.kind_ne {o : Operator × Bool} (h : t.Operates o) : t.kind ≠ .newline := by
  cases h <;> simp [*]

end Token

/-! ## Values -/

section Values

theorem spec_value (nested : Bool) :
    (of (readValue nested)).Spec (fun us v => Sees nested (·.Denotes v) us) anything :=
  spec_expect (fun _ _ => Token.value?_eq_some) (fun _ _ => Token.Denotes.kind_ne)
    ⟨⟨.string, "", {}⟩, _, .string rfl⟩

/-- What follows a value of a list: nothing, or the other values. -/
def otherValues (nested : Bool) (v : Value) : Option Unit → Reader (List Value)
  | none => pure [v]
  | some _ => of (readValues nested) >>= fun vs => pure (v :: vs)

theorem of_readValues (nested : Bool) :
    of (readValues nested) = of (readValue nested) >>= fun v =>
      option nested (Token.ofKind? .comma) >>= otherValues nested v := by
  refine of_bind (readValues.eq_def nested) fun ts v => ?_
  show Reading.outcome _ = option nested _ v.rest >>= fun q => otherValues nested v.value q.1 q.2
  unfold option
  cases next? nested (Token.ofKind? .comma) v.rest with
  | none => rfl
  | some c =>
    show _ = (of (readValues nested) >>= fun vs => pure (v.value :: vs)) c.rest
    exact outcome_bind rfl fun vs => rfl

/-- No comma is ahead that could go on with the list. -/
def EndsValues : Follow (List Value) := fun _ s => ∀ t ∈ s.beyond, t.kind ≠ .comma

theorem complete_values : (of (readValues true)).Complete WritesValues EndsValues := by
  intro us vs rest h hend
  induction h with
  | one hv =>
    rw [of_readValues]
    exact bind_ok_iff.2 ⟨_, _, (spec_value true).complete _ _ _ hv trivial,
      bind_ok_iff.2 ⟨_, _, optional_eq_none hend, rfl⟩⟩
  | more hv hk h ih =>
    rw [of_readValues, List.append_assoc, List.append_assoc]
    exact bind_ok_iff.2 ⟨_, _, (spec_value true).complete _ _ _ hv trivial,
      bind_ok_iff.2 ⟨_, _, optional_eq_some nofun hk, bind_ok_iff.2 ⟨_, _, ih hend, rfl⟩⟩⟩

theorem judges_values (ts : List Token) :
    (of (readValues true)).Judges WritesValues EndsValues ts := by
  have hvalue := spec_value true
  rw [of_readValues]
  refine (hvalue.judges ts).bind hvalue.complete (fun us v mid hts hv _ => ?_)
    (fun us v hv => ⟨[], [v], by rw [List.append_nil]; exact .one hv⟩) fun _ => settles_anything _
  refine judges_optional (by decide) (fun h => ?_) (fun ks more hmid hk => ?_) (settles_pure _ _)
  · exact judges_pure (by rw [List.append_nil]; exact .one hv) h
  · -- the other values are read off fewer tokens
    have hlt : more.length < ts.length := by
      have := hk.length_pos
      rw [hts, hmid, List.length_append, List.length_append]
      omega
    refine (judges_values more).bind complete_values
      (fun ws vs rest _ hws hf => judges_pure ?_ hf)
      (fun ws vs hws => ⟨[], v :: vs, by rw [List.append_nil]; exact .more hv hk hws⟩)
      fun _ => settles_pure _ _
    rw [List.append_nil]
    exact .more hv hk hws
termination_by ts.length

theorem spec_values : (of (readValues true)).Spec WritesValues EndsValues :=
  ⟨complete_values, judges_values,
    [⟨.string, "", {}⟩], _, .one (Sees.one (.string rfl))⟩

theorem endsValues_close {us : List Token} (h : Sees true (·.kind = .rightParen) us)
    (vs : List Value) (rest : List Token) : EndsValues vs (sight (us ++ rest)) := by
  intro t ht
  rw [h.beyond (fun _ hk => hk ▸ nofun) rest t ht]
  exact nofun

theorem settles_close {α : Type} {f : Sight → Prop} {e : Expected} {next : Unit → Reader α}
    (h : ∃ ts q, next () ts = .ok q) :
    (of (expect true (Token.ofKind? .rightParen) e) >>= next).Settles f := by
  obtain ⟨ts, q, hq⟩ := h
  refine settles_of_lines fun bs hbs => ⟨⟨.rightParen, "", {}⟩ :: ts, q, ?_⟩
  have hclose : Sees true (·.kind = .rightParen) (bs ++ [⟨.rightParen, "", {}⟩]) :=
    ⟨bs, _, rfl, hbs, nofun, rfl⟩
  rw [List.append_cons]
  exact bind_ok_iff.2 ⟨(), ts, (spec_kind (by decide)).complete _ _ _ hclose trivial, hq⟩

variable {nested : Bool}

theorem of_readList (nested negated : Bool) :
    of (readList nested negated) =
      of (expect nested (Token.ofKind? .leftParen) (.openList negated)) >>= fun _ =>
        of (readValues true) >>= fun vs =>
          of (expect true (Token.ofKind? .rightParen) (.closeList negated)) >>= fun _ => pure vs :=
  of_bind (fun _ => rfl) fun _ _ => outcome_bind rfl fun _ => outcome_bind rfl fun _ => rfl

theorem spec_list (nested negated : Bool) :
    (of (readList nested negated)).Spec (WritesList nested) anything := by
  rw [of_readList]
  refine ((spec_kind (by decide)).andThen fun _ => spec_values.bind (k := anything)
    (fun vs => (spec_kind (by decide)).map (k := anything) (fun _ => vs) fun _ _ => Iff.rfl)
    (fun vs => settles_close ⟨[], _, rfl⟩) ?_).congr ?_
  · rintro _ us vs rest ⟨_, h, rfl⟩
    exact ⟨fun _ => ⟨endsValues_close h vs rest, trivial⟩, fun _ => trivial⟩
  · intro us vs
    constructor
    · rintro ⟨os, _, _, rfl, ho, ws, _, ks, rfl, hws, _, hk, rfl⟩
      exact .mk ho hws hk
    · rintro ⟨ho, h, hk⟩
      exact ⟨_, (), _, rfl, ho, _, _, _, rfl, h, (), hk, rfl⟩

end Values

/-! ## Tests -/

section Test

variable {nested : Bool}

/-- The ends of a range. -/
def WritesRange (nested : Bool) : Sentences (Value × Value) := fun us r =>
  ∃ ls ks hs, us = ls ++ (ks ++ hs) ∧ Sees nested (·.Denotes r.1) ls ∧
    Sees nested (·.kind = .and) ks ∧ Sees nested (·.Denotes r.2) hs

theorem of_readRange (nested : Bool) :
    of (readRange nested) = of (readValue nested) >>= fun low =>
      of (expect nested (Token.ofKind? .and) .rangeAnd) >>= fun _ =>
        of (readValue nested) >>= fun high => pure (low, high) :=
  of_bind (fun _ => rfl) fun _ _ => outcome_bind rfl fun _ => outcome_bind rfl fun _ => rfl

theorem spec_range (nested : Bool) :
    (of (readRange nested)).Spec (WritesRange nested) anything := by
  rw [of_readRange]
  refine ((spec_value nested).andThen fun low => (spec_kind (by decide)).andThen fun _ =>
    (spec_value nested).map (k := anything) (fun high => (low, high)) fun _ _ => Iff.rfl).congr ?_
  intro us r
  constructor
  · rintro ⟨ls, low, _, rfl, hl, ks, _, hs, rfl, hk, high, hh, rfl⟩
    exact ⟨ls, ks, hs, rfl, hl, hk, hh⟩
  · rintro ⟨ls, ks, hs, rfl, hl, hk, hh⟩
    exact ⟨ls, r.1, _, rfl, hl, ks, (), hs, rfl, hk, r.2, hh, rfl⟩

/-- The operand that an operator asks for. -/
def WritesOperand (nested : Bool) : Operator → Sentences Operand
  | .isEmpty | .isNotEmpty => fun us o => us = [] ∧ o = .none
  | .between => fun us o => ∃ r, WritesRange nested us r ∧ o = .range r.1 r.2
  | .isIn => fun us o => ∃ vs, WritesList nested us vs ∧ o = .list vs
  | _ => fun us o => ∃ v, Sees nested (·.Denotes v) us ∧ o = .single v

theorem spec_operand (nested : Bool) (op : Operator) (negated : Bool) :
    (of (readOperand nested op negated)).Spec (WritesOperand nested op) anything := by
  have hnone : of (fun ts => (pure (.stay .none ts) : Reading Operand (ts.length + 1))) =
      pure Operand.none := rfl
  have hmap {β : Type} {g : Sentences β} {read : (ts : List Token) → Reading β ts.length}
      (h : (of read).Spec g anything) (v : β → Operand) :
      (of fun ts => do
        let r ← read ts
        return (r.map v).widen (Nat.le_succ ts.length)).Spec (fun us o => ∃ b, g us b ∧ o = v b)
          anything := by
    rw [of_bind (r := fun b => pure (v b)) (fun _ => rfl) fun _ _ => rfl]
    exact h.map v fun _ _ => Iff.rfl
  cases op with
  | isEmpty | isNotEmpty => exact hnone ▸ spec_pure _
  | between => exact hmap (spec_range nested) fun r => .range r.1 r.2
  | isIn => exact hmap (spec_list nested negated) .list
  | _ => exact hmap (spec_value nested) .single

theorem writesTest_iff {us : List Token} {op : Operator} {o : Operand} :
    WritesTest nested us op o ↔
      ∃ ks ws, us = ks ++ ws ∧ Sees nested (·.kind = .comparison op) ks ∧
        WritesOperand nested op ws o := by
  constructor
  · intro h
    cases h with
    | isEmpty h | isNotEmpty h => exact ⟨us, [], by rw [List.append_nil], h, rfl, rfl⟩
    | between h hlow hand hhigh =>
      exact ⟨_, _, rfl, h, (_, _), ⟨_, _, _, rfl, hlow, hand, hhigh⟩, rfl⟩
    | isIn h hl => exact ⟨_, _, rfl, h, _, hl, rfl⟩
    | binary hop h hv =>
      refine ⟨_, _, rfl, h, ?_⟩
      cases op <;> first | exact ⟨_, hv, rfl⟩ | cases hop
  · rintro ⟨ks, ws, rfl, hk, h⟩
    cases op with
    | isEmpty | isNotEmpty =>
      obtain ⟨rfl, rfl⟩ := h
      rw [List.append_nil]
      first | exact .isEmpty hk | exact .isNotEmpty hk
    | between =>
      obtain ⟨_, ⟨_, _, _, rfl, hl, ha, hh⟩, rfl⟩ := h
      exact .between hk hl ha hh
    | isIn =>
      obtain ⟨_, hl, rfl⟩ := h
      exact .isIn hk hl
    | _ =>
      obtain ⟨_, hv, rfl⟩ := h
      exact .binary rfl hk hv

/-- A comparison after its field. -/
inductive WritesComparison (nested : Bool) (id : String) (p : Position) :
    List Token → Condition → Prop
  | plain {us : List Token} {op : Operator} {o : Operand} (h : WritesTest nested us op o) :
      WritesComparison nested id p us (.leaf (.comparison ⟨id, op, o, p⟩))
  | excluded {ks ws : List Token} {vs : List Value} (hk : Sees nested (·.kind = .notIn) ks)
      (h : WritesList nested ws vs) :
      WritesComparison nested id p (ks ++ ws) (.not (.leaf (.comparison ⟨id, .isIn, .list vs, p⟩)))

/-- The condition that a field, an operator and an operand write. -/
def comparison (id : String) (p : Position) (op : Operator × Bool) (o : Operand) : Condition :=
  let c : Condition := .leaf (.comparison ⟨id, op.1, o, p⟩)
  if op.2 then .not c else c

theorem of_readComparison (nested : Bool) (id : String) (p : Position) :
    of (readComparison nested id p) = of (expect nested Token.operator? .operator) >>= fun op =>
      of (readOperand nested op.1 op.2) >>= fun o => pure (comparison id p op o) :=
  of_bind (fun _ => rfl) fun _ _ => outcome_bind rfl fun _ => rfl

theorem spec_comparison (nested : Bool) (id : String) (p : Position) :
    (of (readComparison nested id p)).Spec (WritesComparison nested id p) anything := by
  rw [of_readComparison]
  refine ((spec_expect (fun _ _ => Token.operator?_eq_some) (fun _ _ => Token.Operates.kind_ne)
    ⟨⟨.notIn, "", {}⟩, _, .excluded rfl⟩).andThen fun op =>
      (spec_operand nested op.1 op.2).map (k := anything) (comparison id p op) fun _ _ =>
        Iff.rfl).congr ?_
  intro us c
  constructor
  · rintro ⟨ks, _, ws, rfl, ⟨bs, t, rfl, hbs, hn, ht⟩, o, ho, rfl⟩
    cases ht with
    | plain hk => exact .plain (writesTest_iff.2 ⟨_, _, rfl, ⟨bs, t, rfl, hbs, hn, hk⟩, ho⟩)
    | excluded hk =>
      obtain ⟨vs, hvs, rfl⟩ := ho
      exact .excluded ⟨bs, t, rfl, hbs, hn, hk⟩ hvs
  · intro h
    cases h with
    | plain h =>
      obtain ⟨ks, ws, rfl, ⟨bs, t, rfl, hbs, hn, hk⟩, ho⟩ := writesTest_iff.1 h
      exact ⟨_, _, _, rfl, ⟨bs, t, rfl, hbs, hn, .plain hk⟩, _, ho, rfl⟩
    | excluded hk h =>
      obtain ⟨bs, t, rfl, hbs, hn, hk⟩ := hk
      exact ⟨_, _, _, rfl, ⟨bs, t, rfl, hbs, hn, .excluded hk⟩, _, ⟨_, h, rfl⟩, rfl⟩

end Test

/-! ## Calls -/

section Call

variable {nested : Bool}

/-- The values of a grid check, if any. -/
def WritesChecks (f : GridFunction) : Sentences (List Value) := fun us vs =>
  (us = [] ∧ vs = []) ∨ f.isGridCheck = true ∧
    ∃ ks ws, us = ks ++ ws ∧ Sees true (·.kind = .comma) ks ∧ WritesValues ws vs

/-- A comma would go on with a grid check. -/
def EndsChecks (f : GridFunction) : Follow (List Value) := fun vs s =>
  f.isGridCheck = true → EndsValues vs s

/-- The reader of the values of a grid check after its comma. -/
def checkValues : Option Unit → Reader (List Value)
  | none => pure []
  | some _ => of (readValues true)

theorem of_readCheckValues (f : GridFunction) :
    of (readCheckValues f) =
      if f.isGridCheck then option true (Token.ofKind? .comma) >>= checkValues else pure [] := by
  funext ts
  rw [of, readCheckValues]
  cases f.isGridCheck with
  | false => rfl
  | true =>
    show _ = option true _ ts >>= fun q => checkValues q.1 q.2
    unfold option
    rw [if_pos rfl]
    cases next? true (Token.ofKind? .comma) ts with
    | none => rfl
    | some c => exact outcome_widen _ _

theorem spec_checkValues (f : GridFunction) :
    (of (readCheckValues f)).Spec (WritesChecks f) (EndsChecks f) := by
  rw [of_readCheckValues]
  unfold WritesChecks EndsChecks
  cases f.isGridCheck with
  | false =>
    rw [if_neg nofun]
    exact ((spec_pure []).congr fun _ _ => by simp).follow fun _ _ => by simp [anything]
  | true =>
    rw [if_pos rfl]
    have hcomma : (option true (Token.ofKind? .comma) >>= checkValues).Spec _ EndsValues :=
      spec_optional (by decide) rfl spec_values fun _ => Iff.rfl
    exact (hcomma.congr fun _ _ => by simp).follow fun _ _ => by simp

/-- The comparison behind an aggregation, if any. -/
def WritesTrailing (nested : Bool) (f : GridFunction) : Sentences (Option (Operator × Value)) :=
  fun us o => (us = [] ∧ o = none) ∨ f.isAggregation = true ∧
    ∃ ks op ws v, us = ks ++ ws ∧ op.isBinary = true ∧ Sees nested (·.kind = .comparison op) ks ∧
      Sees nested (·.Denotes v) ws ∧ o = some (op, v)

/-- A binary operator would go on with an aggregation. -/
def EndsTrailing (nested : Bool) (f : GridFunction) : Follow (Option (Operator × Value)) :=
  fun o s => f.isAggregation = true → o = none → ∀ t ∈ s.seen nested, t.kind.binary? = none

/-- The reader of a comparison after its operator. -/
def trailing (nested : Bool) : Option Operator → Reader (Option (Operator × Value))
  | none => pure none
  | some op => of (readValue nested) >>= fun v => pure (some (op, v))

theorem of_readTrailing (nested : Bool) (f : GridFunction) :
    of (readTrailing nested f) =
      if f.isAggregation then option nested Token.binary? >>= trailing nested else pure none := by
  funext ts
  rw [of, readTrailing]
  cases f.isAggregation with
  | false => rfl
  | true =>
    show _ = option nested _ ts >>= fun q => trailing nested q.1 q.2
    unfold option
    rw [if_pos rfl]
    cases next? nested Token.binary? ts with
    | none => rfl
    | some op =>
      show _ = (of (readValue nested) >>= fun v => pure (some (op.value, v))) op.rest
      exact outcome_bind rfl fun v => rfl

theorem spec_trailing (nested : Bool) (f : GridFunction) :
    (of (readTrailing nested f)).Spec (WritesTrailing nested f) (EndsTrailing nested f) := by
  rw [of_readTrailing]
  unfold WritesTrailing EndsTrailing
  cases f.isAggregation with
  | false =>
    rw [if_neg nofun]
    exact ((spec_pure none).congr fun _ _ => by simp).follow fun _ _ => by simp [anything]
  | true =>
    rw [if_pos rfl]
    have hsome (op : Operator) : (trailing nested (some op)).Spec
        (fun us o => ∃ v, Sees nested (·.Denotes v) us ∧ o = some (op, v))
        (fun o s => o = none → ∀ t ∈ s.seen nested, t.kind.binary? = none) :=
      (spec_value nested).map (fun v => some (op, v)) fun v s => by simp [anything]
    have hnone (s : Sight) : (∀ t ∈ s.seen nested, t.kind.binary? = none) ↔
        ∀ t ∈ s.seen nested, ∀ op, ¬ (t.kind = .comparison op ∧ op.isBinary = true) := by
      simp only [← Token.binary?_eq_some, ← ne_eq, ← Option.eq_none_iff_forall_ne_some]
      rfl
    have hbinary : (option nested Token.binary? >>= trailing nested).Spec _ _ :=
      spec_option (fun _ _ => Token.binary?_eq_some) (fun _ _ h => h.1 ▸ nofun) rfl
        hsome fun s => ⟨fun h => (hnone s).1 (h rfl), fun h _ => (hnone s).2 h⟩
    refine (hbinary.congr fun us o => ?_).follow fun _ _ => by simp
    refine or_congr Iff.rfl ⟨?_, ?_⟩
    · rintro ⟨ks, op, ws, rfl, ⟨bs, t, rfl, hbs, hn, hk, hop⟩, v, hv, rfl⟩
      exact ⟨rfl, _, op, ws, v, rfl, hop, ⟨bs, t, rfl, hbs, hn, hk⟩, hv, rfl⟩
    · rintro ⟨-, _, op, ws, v, rfl, hop, ⟨bs, t, rfl, hbs, hn, hk⟩, hv, rfl⟩
      exact ⟨_, op, ws, rfl, ⟨bs, t, rfl, hbs, hn, hk, hop⟩, v, hv, rfl⟩

theorem of_readCall (nested : Bool) (f : GridFunction) (p : Position) :
    of (readCall nested f p) =
      of (expect nested (Token.ofKind? .leftParen) .openFunction) >>= fun _ =>
        of (expect true Token.field? .functionField) >>= fun target =>
          of (readCheckValues f) >>= fun vs =>
            of (expect true (Token.ofKind? .rightParen) .closeFunction) >>= fun _ =>
              of (readTrailing nested f) >>= fun o => pure (.call ⟨f, target, vs, o, p⟩) :=
  of_bind (fun _ => rfl) fun _ _ => outcome_bind rfl fun _ => outcome_bind rfl fun _ =>
    outcome_bind rfl fun _ => outcome_bind rfl fun _ => rfl

/-- No comparison can go on with the call. -/
def EndsLeaf (nested : Bool) : Follow Leaf := fun l s => EndsCall nested (.leaf l) s

theorem spec_callEnd (nested : Bool) (f : GridFunction) (id : String) (vs : List Value)
    (p : Position) :
    (of (expect true (Token.ofKind? .rightParen) .closeFunction) >>= fun _ =>
        of (readTrailing nested f) >>= fun o => pure (Leaf.call ⟨f, id, vs, o, p⟩)).Spec
      (fun us l => ∃ ks ws o, us = ks ++ ws ∧ Sees true (·.kind = .rightParen) ks ∧
        WritesTrailing nested f ws o ∧ l = .call ⟨f, id, vs, o, p⟩)
      (EndsLeaf nested) := by
  have htrailing := (spec_trailing nested f).map (k := EndsLeaf nested)
    (fun o => .call ⟨f, id, vs, o, p⟩) fun o s => by
      simp [EndsLeaf, EndsCall, Condition.endsInCall, EndsTrailing]
  refine ((spec_kind (by decide)).andThen fun _ => htrailing).congr fun us l => ?_
  constructor
  · rintro ⟨ks, _, ws, rfl, hk, o, ho, rfl⟩
    exact ⟨ks, ws, o, rfl, hk, ho, rfl⟩
  · rintro ⟨ks, ws, o, rfl, hk, ho, rfl⟩
    exact ⟨ks, (), ws, rfl, hk, o, ho, rfl⟩

/-- A call in parts, whether or not its function is an aggregation. -/
theorem writesCall_iff {f : GridFunction} {p : Position} {us : List Token} {call : FunctionCall} :
    WritesCall nested f p us call ↔ ∃ os is vs ks ts id values o,
      us = os ++ (is ++ (vs ++ (ks ++ ts))) ∧ Sees nested (·.kind = .leftParen) os ∧
      Sees true (·.IsField id) is ∧ WritesChecks f vs values ∧ Sees true (·.kind = .rightParen) ks ∧
      WritesTrailing nested f ts o ∧ call = ⟨f, id, values, o, p⟩ := by
  constructor
  · intro h
    cases h with
    | total hf ho ht hk | check hf ho ht hk =>
      exact ⟨_, _, [], _, [], _, _, _, by simp, ho, ht, .inl ⟨rfl, rfl⟩, hk, .inl ⟨rfl, rfl⟩, rfl⟩
    | compared hf ho ht hk hop hops hv =>
      exact ⟨_, _, [], _, _, _, _, _, rfl, ho, ht, .inl ⟨rfl, rfl⟩, hk,
        .inr ⟨hf, _, _, _, _, rfl, hop, hops, hv, rfl⟩, rfl⟩
    | listed hf ho ht hc hv hk =>
      exact ⟨_, _, _, _, [], _, _, _, by simp, ho, ht, .inr ⟨hf, _, _, rfl, hc, hv⟩, hk,
        .inl ⟨rfl, rfl⟩, rfl⟩
  · rintro ⟨os, is, _, ks, _, id, values, o, rfl, ho, hi, hvs, hk, hts, rfl⟩
    rcases hvs with ⟨rfl, rfl⟩ | ⟨hf, cs, ws, rfl, hc, hv⟩
    · rcases hts with ⟨rfl, rfl⟩ | ⟨hf, ops, op, vs, v, rfl, hop, hops, hv, rfl⟩
      · rw [List.nil_append, List.append_nil]
        cases hf : f.isAggregation with
        | true => exact .total hf ho hi hk
        | false => exact .check (by rw [GridFunction.isGridCheck, hf]; rfl) ho hi hk
      · rw [List.nil_append]
        exact .compared hf ho hi hk hop hops hv
    · rcases hts with ⟨rfl, rfl⟩ | ⟨hagg, -⟩
      · rw [List.append_nil, List.append_assoc]
        exact .listed hf ho hi hc hv hk
      · rw [GridFunction.isGridCheck, hagg] at hf
        cases hf

theorem spec_call (nested : Bool) (f : GridFunction) (p : Position) :
    (of (readCall nested f p)).Spec
      (fun us l => ∃ call, WritesCall nested f p us call ∧ l = .call call) (EndsLeaf nested) := by
  have hend := spec_callEnd nested f (p := p)
  have hvalues (id : String) := (spec_checkValues f).bind (k := EndsLeaf nested) (hend id)
    (fun vs => settles_close ⟨[], (_, []), bind_ok_iff.2 ⟨none, [], ?_, rfl⟩⟩) ?_
  · rw [of_readCall]
    refine ((spec_kind (by decide)).andThen fun _ => (spec_expect (fun _ _ => Token.field?_eq_some)
      (fun _ _ h => h.1 ▸ nofun) ⟨⟨.identifier, "", {}⟩, _, rfl, rfl⟩).andThen hvalues).congr ?_
    intro us l
    constructor
    · rintro ⟨os, _, _, rfl, ho, is, id, _, rfl, hi, vs, values, _, rfl, hvs, ks, ts, o, rfl, hk,
        hts, rfl⟩
      exact ⟨_, writesCall_iff.2
        ⟨os, is, vs, ks, ts, id, values, o, rfl, ho, hi, hvs, hk, hts, rfl⟩, rfl⟩
    · rintro ⟨call, hcall, rfl⟩
      obtain ⟨os, is, vs, ks, ts, id, values, o, rfl, ho, hi, hvs, hk, hts, rfl⟩ :=
        writesCall_iff.1 hcall
      exact ⟨os, (), _, rfl, ho, is, id, _, rfl, hi, vs, values, _, rfl, hvs, ks, ts, o, rfl, hk,
        hts, rfl⟩
  · -- at the end of the tokens no comparison is ahead
    exact (spec_trailing nested f).complete [] none [] (.inl ⟨rfl, rfl⟩) fun _ _ => by
      cases nested <;> exact nofun
  · rintro vs _ l rest ⟨ks, ts, o, rfl, hk, -, -⟩
    rw [List.append_assoc]
    exact ⟨fun h => ⟨fun _ => endsValues_close hk vs _, h⟩, And.right⟩

end Call

end Eligibility
