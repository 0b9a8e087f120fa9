import Eligibility.Proofs.Script.Settings
import Eligibility.Proofs.Token.Joined

/-!
# Clauses at other places

The tokens of a clause at other places write the clause at these places.

* `Leaf.move`, `Condition.move`, `Setting.move`: what is written at other places;
* `Sees.move`, `WritesTest.move`, `WritesCall.move`, **`Derives.move`**: leaves and conditions;
* **`WritesSetting.move`**: clauses;
* `Setting.unlined`, `Rule.unlined`: what is written, up to the numbers of lines.
-/

namespace Eligibility

/-! ## Conditions and settings -/

section Move

variable (f : Position → Position)

/-- The leaf at another place. -/
def Leaf.move : Leaf → Leaf
  | comparison c => comparison { c with position := f c.position }
  | call g => call { g with position := f g.position }

/-- The condition with its leaves at other places. -/
def Condition.move : Condition → Condition
  | leaf l => leaf (l.move f)
  | and a b => and a.move b.move
  | or a b => or a.move b.move
  | not c => not c.move
  | group c => group c.move

/-- The setting with the leaves of its condition at other places. -/
def Setting.move : Setting → Setting
  | condition c => condition (c.move f)
  | s => s

theorem Condition.move_move (g : Position → Position) (c : Condition) :
    (c.move g).move f = c.move (f ∘ g) := by
  induction c with
  | leaf l => cases l <;> rfl
  | and a b iha ihb | or a b iha ihb => simp only [move, iha, ihb]
  | not c ih | group c ih => simp only [move, ih]

theorem Setting.move_move (g : Position → Position) (s : Setting) :
    (s.move g).move f = s.move (f ∘ g) := by
  cases s with
  | condition c => exact congrArg condition (c.move_move f g)
  | _ => rfl

end Move

/-! ## Tokens -/

section Tokens

variable {f : Position → Position} {nested : Bool} {us : List Token}

theorem Lines.move (h : Lines us) : Lines (us.map (Token.move f)) :=
  List.forall_mem_map.2 h

theorem Sees.move {P Q : Token → Prop} (h : Sees nested P us) (hPQ : ∀ t, P t → Q (t.move f)) :
    Sees nested Q (us.map (Token.move f)) := by
  obtain ⟨bs, t, rfl, hbs, hn, ht⟩ := h
  refine ⟨bs.map (Token.move f), t.move f, List.map_append, Lines.move hbs, fun hf => ?_, hPQ t ht⟩
  rw [hn hf, List.map_nil]

theorem Sees.move_kind {k : TokenKind} (h : Sees nested (·.kind = k) us) :
    Sees nested (·.kind = k) (us.map (Token.move f)) :=
  h.move fun _ ht => ht

theorem Token.Denotes.move {t : Token} {v : Value} (h : t.Denotes v) : (t.move f).Denotes v := by
  cases h with
  | string hk => exact .string (t := t.move f) hk
  | number hk hv => exact .number hk hv
  | answer hk => exact .answer hk
  | truth hk => exact .truth hk
  | identifier hk => exact .identifier (t := t.move f) hk

theorem Sees.move_value {v : Value} (h : Sees nested (·.Denotes v) us) :
    Sees nested (·.Denotes v) (us.map (Token.move f)) :=
  h.move fun _ ht => Token.Denotes.move ht

theorem Sees.move_field {id : String} (h : Sees nested (·.IsField id) us) :
    Sees nested (·.IsField id) (us.map (Token.move f)) :=
  h.move fun _ ht => ht

end Tokens

/-! ## Leaves and conditions -/

section Condition

variable {f : Position → Position} {nested : Bool} {us : List Token}

theorem WritesValues.move {vs : List Value} (h : WritesValues us vs) :
    WritesValues (us.map (Token.move f)) vs := by
  induction h with
  | one hv => exact .one hv.move_value
  | more hv hk _ ih =>
    simp only [List.map_append]
    exact .more hv.move_value hk.move_kind ih

theorem WritesList.move {vs : List Value} (h : WritesList nested us vs) :
    WritesList nested (us.map (Token.move f)) vs := by
  obtain ⟨ho, h, hk⟩ := h
  simp only [List.map_append]
  exact ⟨ho.move_kind, h.move, hk.move_kind⟩

theorem WritesTest.move {op : Operator} {o : Operand} (h : WritesTest nested us op o) :
    WritesTest nested (us.map (Token.move f)) op o := by
  cases h with
  | isEmpty h => exact .isEmpty h.move_kind
  | isNotEmpty h => exact .isNotEmpty h.move_kind
  | between h hlow hand hhigh =>
    simp only [List.map_append]
    exact .between h.move_kind hlow.move_value hand.move_kind hhigh.move_value
  | isIn h hl =>
    simp only [List.map_append]
    exact .isIn h.move_kind hl.move
  | binary hop h hv =>
    simp only [List.map_append]
    exact .binary hop h.move_kind hv.move_value

theorem WritesCall.move {g : GridFunction} {p : Position} {call : FunctionCall}
    (h : WritesCall nested g p us call) :
    WritesCall nested g (f p) (us.map (Token.move f))
      { call with position := f call.position } := by
  cases h with
  | total hg ho ht hk =>
    simp only [List.map_append]
    exact .total hg ho.move_kind ht.move_field hk.move_kind
  | compared hg ho ht hk hop hops hv =>
    simp only [List.map_append]
    exact .compared hg ho.move_kind ht.move_field hk.move_kind hop hops.move_kind hv.move_value
  | check hg ho ht hk =>
    simp only [List.map_append]
    exact .check hg ho.move_kind ht.move_field hk.move_kind
  | listed hg ho ht hc hv hk =>
    simp only [List.map_append]
    exact .listed hg ho.move_kind ht.move_field hc.move_kind hv.move hk.move_kind

/-- **The tokens of a condition at other places write the condition at these places.** -/
theorem Derives.move {level : Level} {c : Condition} (h : Derives level nested us c) :
    Derives level nested (us.map (Token.move f)) (c.move f) := by
  have hplace {P : Token → Prop} {us : List Token} {p : Position}
      (h : Sees true (fun t => P t ∧ t.position = p) us) (hP : ∀ t, P t → P (t.move f)) :
      Sees true (fun t => P t ∧ t.position = f p) (us.map (Token.move f)) :=
    h.move fun t ht => ⟨hP t ht.1, congrArg f ht.2⟩
  induction h with
  | comparison hf ht =>
    rw [List.map_append]
    exact .comparison (hplace hf fun _ ht => ht) ht.move
  | excluded hf hk hl =>
    simp only [List.map_append]
    exact .excluded (hplace hf fun _ ht => ht) hk.move_kind hl.move
  | call hf hc =>
    rw [List.map_append]
    exact .call (hplace hf fun _ ht => ht) hc.move
  | group ho _ hk ih =>
    simp only [List.map_append]
    exact .group ho.move_kind ih hk.move_kind
  | plain _ ih => exact .plain ih
  | not hk _ ih =>
    rw [List.map_append]
    exact .not hk.move_kind ih
  | operand _ ih => exact .operand ih
  | and _ hk hbs _ iha ihb =>
    simp only [List.map_append]
    exact .and iha hk.move_kind (Lines.move hbs) ihb
  | clause _ ih => exact .clause ih
  | or _ hk hbs _ iha ihb =>
    simp only [List.map_append]
    exact .or iha hk.move_kind (Lines.move hbs) ihb

end Condition

/-! ## Clauses -/

section Setting

variable {f : Position → Position} {us : List Token} {s : Setting}

theorem WritesScore.move {n : Int64} (h : WritesScore us n) :
    WritesScore (us.map (Token.move f)) n := by
  cases h with
  | plain h => exact .plain (h.move fun _ ht => ht)
  | plus hk h =>
    rw [List.map_append]
    exact .plus hk.move_kind (h.move fun _ ht => ht)
  | minus hk h =>
    rw [List.map_append]
    exact .minus hk.move_kind (h.move fun _ ht => ht)

theorem WritesOne.move {α : Type} {read : Token → Option α} {v : α → Setting}
    (h : WritesOne read v us s) (hread : ∀ t : Token, read (t.move f) = read t)
    (hv : ∀ a, (v a).move f = v a) : WritesOne read v (us.map (Token.move f)) (s.move f) := by
  obtain ⟨a, h, rfl⟩ := h
  exact ⟨a, h.move fun t ht => (hread t).trans ht, hv a⟩

theorem WritesValueOf.move {c : Clause} (h : WritesValueOf c us s) :
    WritesValueOf c (us.map (Token.move f)) (s.move f) := by
  cases c with
  | score =>
    obtain ⟨n, h, rfl⟩ := h
    exact ⟨n, h.move, rfl⟩
  | when =>
    obtain ⟨bs, vs, c, rfl, hbs, h, rfl⟩ := h
    exact ⟨_, _, _, List.map_append, Lines.move hbs, h.move, rfl⟩
  | _ => exact WritesOne.move h (fun _ => rfl) fun _ => rfl

/-- **The tokens of a clause at other places write the clause at these places.** -/
theorem WritesSetting.move {c : Clause} (h : WritesSetting c us s) :
    WritesSetting c (us.map (Token.move f)) (s.move f) := by
  unfold WritesSetting at *
  by_cases hc : c = .when
  · rw [if_pos hc] at *
    exact WritesValueOf.move h
  · rw [if_neg hc] at *
    obtain ⟨ks, ws, rfl, hk, h⟩ := h
    exact ⟨_, _, List.map_append, hk.move_kind, WritesValueOf.move h⟩

end Setting

/-! ## Up to the numbers of lines -/

/-- The place with no line. -/
def Position.unlined (p : Position) : Position := ⟨0, p.column⟩

def Setting.unlined (s : Setting) : Setting := s.move Position.unlined

/-- The rule with no number of a line. -/
def Rule.unlined (r : Rule) : Rule :=
  { r with
    condition := r.condition.map (Condition.move Position.unlined)
    startLine := 0
    endLine := 0 }

theorem Setting.unlined_down (n : Nat) (s : Setting) :
    (s.move (Position.down n)).unlined = s.unlined :=
  s.move_move _ _

end Eligibility
