import Eligibility.Proofs.Ruleset.Counts
import Eligibility.Blob.Payload

/-!
# What the format has room for

A form whose size is a word has words for all the counts and lengths in it. What is left to ask of a
value is that its plain numbers are words.

* `Position.InWords`, `Ruleset.InWords`: plain numbers that are words;
* `Codec.Roomy`: a condition under which values of bounded size have room, with `Roomy.pair`,
  `Roomy.list`, `Roomy.option` and `Roomy.via`;
* **`Payload.fits_of`**: the payload of a counted ruleset whose warnings are placed at words has
  room if it is short.
-/

namespace Eligibility

/-- A line and a column that are machine words. -/
structure Position.InWords (p : Position) : Prop where
  line : p.line < 2 ^ 64
  column : p.column < 2 ^ 64

instance (p : Position) : Decidable p.InWords :=
  decidable_of_iff (p.line < 2 ^ 64 ∧ p.column < 2 ^ 64) ⟨fun h => ⟨h.1, h.2⟩, fun h => ⟨h.1, h.2⟩⟩

/-- The counts of a ruleset and the places of its warnings are machine words. -/
structure Ruleset.InWords (r : Ruleset) : Prop where
  total : r.totalRules < 2 ^ 64
  ofType (t : RuleType) : r.countOf t < 2 ^ 64
  places : ∀ w ∈ r.warnings, w.position.InWords

/-! ## Codecs -/

namespace Codec

variable {α β : Type} {c : Codec α} {d : Codec β} {P : α → Prop} {Q : β → Prop}

/-- Values with the property have room if their forms are short. -/
def Roomy (c : Codec α) (P : α → Prop) : Prop :=
  ∀ a, P a → (c.write a).length < 2 ^ 64 → c.Fits a

theorem length_pair (c : Codec α) (d : Codec β) (p : α × β) :
    ((c.pair d).write p).length = (c.write p.1).length + (d.write p.2).length :=
  List.length_append

theorem Roomy.pair (hc : c.Roomy P) (hd : d.Roomy Q) :
    (c.pair d).Roomy fun p => P p.1 ∧ Q p.2 := by
  intro p hp hl
  rw [length_pair] at hl
  exact ⟨hc p.1 hp.1 (by omega), hd p.2 hp.2 (by omega)⟩

theorem Roomy.via (hc : c.Roomy P) (f : β → α) (g : α → Option β) :
    (c.via f g).Roomy fun b => P (f b) :=
  fun b hb hl => hc (f b) hb hl

theorem Roomy.option (hc : c.Roomy P) : c.option.Roomy fun o => ∀ a ∈ o, P a := by
  intro o ho hl a ha
  obtain rfl : o = some a := ha
  refine hc a (ho a rfl) ?_
  simp only [Codec.option, List.length_cons] at hl
  omega

theorem length_writeNumber_pos (n : Nat) : 0 < (writeNumber n).length := by
  rw [length_writeNumber]
  omega

theorem length_le_flatMap {f : α → Bytes} {a : α} {l : List α} (h : a ∈ l) :
    (f a).length ≤ (l.flatMap f).length :=
  (List.sublist_flatten_of_mem (List.mem_map_of_mem h)).length_le

theorem length_le_list (hpos : ∀ a, 0 < (c.write a).length) (l : List α) :
    l.length ≤ (c.list.write l).length := by
  have : l.length ≤ (l.flatMap c.write).length := by
    induction l with
    | nil => exact Nat.le_refl 0
    | cons a l ih =>
      have := hpos a
      simp only [List.flatMap_cons, List.length_append, List.length_cons]
      omega
  simp only [Codec.list, List.length_append]
  omega

theorem Roomy.list (hc : c.Roomy P) (hpos : ∀ a, 0 < (c.write a).length) :
    c.list.Roomy fun l => ∀ a ∈ l, P a := by
  intro l hP hl
  refine ⟨Nat.lt_of_le_of_lt (length_le_list hpos l) hl, fun a ha => hc a (hP a ha) ?_⟩
  have := length_le_flatMap (f := c.write) ha
  simp only [Codec.list, List.length_append] at hl
  omega

theorem natural_roomy : natural.Roomy (· < 2 ^ 64) := fun _ h _ => natural_fits.2 h

theorem text_roomy : text.Roomy fun _ => True := by
  intro s _ hl
  have hle : (utf8 s).length ≤ (text.write s).length := by
    simp only [text, Codec.via, bytes, List.length_append]
    omega
  exact Nat.lt_of_le_of_lt hle hl

theorem length_text_pos (s : String) : 0 < (text.write s).length := by
  have := length_writeNumber_pos (utf8 s).length
  simp only [text, Codec.via, bytes, natural, number, List.length_append]
  omega

theorem flag_roomy : flag.Roomy fun _ => True := fun _ _ _ => trivial

theorem integer_roomy : integer.Roomy fun _ => True :=
  fun n _ _ => natural_fits.2 (zigzag_lt n)

theorem digest_roomy : digest.Roomy fun _ => True := fun d _ _ => d.length_bytes

theorem ruleType_roomy : ruleType.Roomy fun _ => True := by
  intro t _ _
  refine index_fits.2 (Nat.lt_of_le_of_lt List.idxOf_le_length ?_)
  decide

/-! ## Rulesets -/

theorem compiledRule_roomy : compiledRule.Roomy fun _ => True := by
  have h := (text_roomy.pair <| text_roomy.pair <| ruleType_roomy.pair <| flag_roomy.pair <|
    integer_roomy.option.pair <| text_roomy.pair <| text_roomy.pair <|
    text_roomy.list length_text_pos)
  exact fun r _ => h.via _ _ r (by simp)

theorem length_compiledRule_pos (r : CompiledRule) : 0 < (compiledRule.write r).length := by
  have := length_text_pos r.name
  simp only [compiledRule, Codec.via, length_pair]
  omega

theorem warning_roomy : warning.Roomy fun w => w.position.InWords := by
  have h := (text_roomy.option.pair <| natural_roomy.pair <| natural_roomy.pair text_roomy)
  exact fun w hw => h.via _ _ w ⟨by simp, hw.line, hw.column, trivial⟩

theorem length_warning_pos (w : CompilationWarning) : 0 < (warning.write w).length := by
  have hpos : 0 < (text.option.write w.rule).length := by
    cases w.rule <;> simp [Codec.option]
  simp only [warning, Codec.via, length_pair]
  omega

theorem ruleset_roomy : ruleset.Roomy Ruleset.InWords := by
  have h := (text_roomy.pair <| text_roomy.pair <| natural_roomy.pair <| natural_roomy.pair <|
    natural_roomy.pair <| natural_roomy.pair <| natural_roomy.pair <| text_roomy.pair <|
    text_roomy.pair <| text_roomy.pair <| text_roomy.pair <| text_roomy.pair <| text_roomy.pair <|
    (compiledRule_roomy.list length_compiledRule_pos).pair
      (warning_roomy.list length_warning_pos))
  exact fun r hr => h.via _ _ r ⟨trivial, trivial, hr.total, hr.ofType .inclusion,
    hr.ofType .exclusion, hr.ofType .priority, hr.ofType .bonus, trivial, trivial, trivial, trivial,
    trivial, trivial, fun _ _ => trivial, hr.places⟩

theorem length_rules_le (r : Ruleset) : r.rules.length ≤ (ruleset.write r).length := by
  have := length_le_list length_compiledRule_pos r.rules
  simp only [ruleset, Codec.via, length_pair]
  omega

theorem length_warnings_le (r : Ruleset) : r.warnings.length ≤ (ruleset.write r).length := by
  have := length_le_list length_warning_pos r.warnings
  simp only [ruleset, Codec.via, length_pair]
  omega

theorem payload_roomy : Payload.codec.Roomy fun p =>
    p.ruleCount < 2 ^ 64 ∧ p.warningCount < 2 ^ 64 ∧ p.ruleset.InWords := by
  have h := (natural_roomy.pair <| natural_roomy.pair <| digest_roomy.option.pair ruleset_roomy)
  exact fun p hp => h.via _ _ p ⟨hp.1, hp.2.1, fun _ _ => trivial, hp.2.2⟩

theorem length_ruleset_le (p : Payload) :
    (ruleset.write p.ruleset).length ≤ (Payload.codec.write p).length := by
  simp only [Payload.codec, Codec.via, length_pair]
  omega

end Codec

/-- **A short payload has room.** If the ruleset is counted and its warnings are placed at words,
all the numbers of its payload are words. -/
theorem Payload.fits_of {r : Ruleset} {source : Option String} (hr : r.IsCounted)
    (hw : ∀ w ∈ r.warnings, w.position.InWords)
    (hl : (Payload.codec.write (.of r source)).length < 2 ^ 64) :
    Payload.codec.Fits (.of r source) := by
  have hpayload := Codec.length_ruleset_le (.of r source)
  have hrules : r.rules.length < 2 ^ 64 :=
    Nat.lt_of_le_of_lt (Nat.le_trans (Codec.length_rules_le r) hpayload) hl
  have hwarnings : r.warnings.length < 2 ^ 64 :=
    Nat.lt_of_le_of_lt (Nat.le_trans (Codec.length_warnings_le r) hpayload) hl
  have hwords : r.InWords :=
    { total := hr.total ▸ hrules
      ofType := fun t => hr.ofType t ▸ Nat.lt_of_le_of_lt List.countP_le_length hrules
      places := hw }
  exact Codec.payload_roomy _ ⟨hrules, hwarnings, hwords⟩ hl

end Eligibility
