import Eligibility.Condition.Value
import Eligibility.Proofs.Number.Text
import Eligibility.Proofs.Token.Range

/-!
# Number tokens

* `IsNumeral`: digits with an optional sign and fraction; `isSome_ofNumber?`: they have a value;
* `mem_tokensFrom`: every token is the one at the front of some end of the text;
* **`number_has_value`**: every number token has a value.
-/

namespace Eligibility

open TokenKind

variable {cs ds : List Char}

/-! ## Numerals -/

/-- Digits and an optional fraction. -/
def IsMagnitude (cs : List Char) : Prop :=
  ∃ whole fraction, cs = whole ++ fraction ∧ whole ≠ [] ∧ whole.all Char.isDigit = true ∧
    (fraction = [] ∨ ∃ ds, fraction = '.' :: ds ∧ ds.all Char.isDigit = true)

/-- Digits with an optional sign and fraction. -/
def IsNumeral (cs : List Char) : Prop := IsMagnitude cs ∨ ∃ ds, cs = '-' :: ds ∧ IsMagnitude ds

theorem IsMagnitude.head? (h : IsMagnitude cs) : cs.head?.any Char.isDigit = true := by
  obtain ⟨whole, fraction, rfl, hne, hwhole, -⟩ := h
  exact Decimal.head?_isDigit hne hwhole _

theorem isSome_readScaled? (h : IsMagnitude cs) : (Decimal.readScaled? cs).isSome = true := by
  obtain ⟨whole, fraction, rfl, hne, hwhole, rfl | ⟨ds, rfl, hds⟩⟩ := h
  · rw [List.append_nil, Decimal.readScaled?_digits hne hwhole]
    rfl
  · rw [Decimal.readScaled?_point hne hwhole hds]
    rfl

theorem IsNumeral.signed (h : IsNumeral cs) :
    ∃ negative ds, cs = Decimal.sign negative ++ ds ∧ IsMagnitude ds := by
  rcases h with h | ⟨ds, rfl, h⟩
  · exact ⟨false, cs, rfl, h⟩
  · exact ⟨true, ds, rfl, h⟩

theorem isSome_ofText? (h : IsNumeral cs) : (Binary64.ofText? (.ofList cs)).isSome = true := by
  obtain ⟨negative, ds, rfl, hds⟩ := h.signed
  rw [Binary64.ofText?_magnitude negative hds.head?, Option.isSome_map]
  exact isSome_readScaled? hds

/-- Every numeral has a value. -/
theorem isSome_ofNumber? (h : IsNumeral cs) : (Value.ofNumber? (.ofList cs)).isSome = true := by
  have htext := isSome_ofText? h
  rw [Value.ofNumber?]
  split
  · rwa [Option.isSome_map]
  · rw [Option.isSome_or, Option.isSome_map, Option.isSome_map, htext, Bool.or_true]

/-! ## Tokens -/

theorem isMagnitude_take {c : Char} (hc : c.isDigit = true) (cs : List Char) :
    IsMagnitude ((c :: cs).take (magnitudeWidth (c :: cs))) := by
  generalize hds : c :: cs = ds
  have hne : ds.takeWhile Char.isDigit ≠ [] := by
    rw [← hds, List.takeWhile_cons_of_pos hc]
    exact List.cons_ne_nil _ _
  let rest := ds.drop (runWidth Char.isDigit ds)
  refine ⟨ds.takeWhile Char.isDigit, rest.take (fractionWidth rest), ?_, hne,
    List.all_takeWhile, ?_⟩
  · rw [magnitudeWidth, List.take_add, take_runWidth]
  · generalize rest = rest
    unfold fractionWidth
    split
    · split
      · exact .inl rfl
      · refine .inr ⟨_, List.take_succ_cons, ?_⟩
        rw [take_runWidth]
        exact List.all_takeWhile
    · exact .inl rfl

theorem wordLexeme_kind (cs : List Char) :
    (wordLexeme cs).kind ∈ wordKinds ++ phrases.map (·.2.2) := by
  unfold wordLexeme
  dsimp only
  split
  · exact List.mem_cons_self
  · cases h : phrase? (.ofList (cs.take (wordWidth cs))) cs with
    | none =>
      dsimp only [Option.getD_none, Lexeme.slice]
      exact List.mem_append_left _ (keyword?_getD_mem _)
    | some l => exact List.mem_append_right _ (phrase?_kind h)

theorem lexeme_number (h : (lexeme cs).kind = .number) :
    ∃ n, (lexeme cs).text = .ofList (cs.take n) ∧ IsNumeral (cs.take n) := by
  cases cs with
  | nil => cases h
  | cons c cs =>
    have hlexeme := isLexeme_lexeme c cs
    generalize lexeme (c :: cs) = l at h hlexeme ⊢
    cases hlexeme with
    | newline | string => cases h
    | number hc => exact ⟨_, rfl, .inl (isMagnitude_take hc cs)⟩
    | negative hc hcs =>
      obtain rfl := hc
      refine ⟨_, rfl, .inr ⟨_, List.take_succ_cons, ?_⟩⟩
      cases cs with
      | nil => cases hcs
      | cons d cs => exact isMagnitude_take hcs cs
    | word =>
      have hall : ∀ k ∈ wordKinds ++ phrases.map (·.2.2), k ≠ .number := by decide
      exact absurd h (hall _ (wordLexeme_kind _))
    | symbol =>
      have hall : ∀ k ∈ TokenKind.unknown :: symbols.map (·.2), k ≠ .number := by decide
      exact absurd h (hall _ (symbolLexeme_kind _))

/-- Every token is the one at the front of some end of the text. -/
theorem mem_tokensFrom {p : Position} {t : Token} (h : t ∈ (tokensFrom p cs).tokens) :
    ∃ ds, ds ≠ [] ∧ ds <:+ cs ∧ t.kind = (lexeme ds).kind ∧ t.text = (lexeme ds).text := by
  fun_induction tokensFrom p cs with
  | case1 => cases h
  | case2 p cs gap start ahead hne l rest ih =>
    have hahead : ahead <:+ cs := List.drop_suffix _ _
    rcases List.mem_cons.1 h with rfl | h
    · exact ⟨ahead, hne, hahead, rfl, rfl⟩
    · obtain ⟨ds, hds, hsuffix, hlexeme⟩ := ih h
      exact ⟨ds, hds, (hsuffix.trans (List.drop_suffix _ _)).trans hahead, hlexeme⟩

theorem number_has_value {text : String} {t : Token} (ht : t ∈ (tokenize text).tokens)
    (hk : t.kind = .number) : ∃ v, Value.ofNumber? t.text = some v := by
  obtain ⟨ds, -, -, hkind, htext⟩ := mem_tokensFrom ht
  obtain ⟨n, hn, hnumeral⟩ := lexeme_number (hkind.symm.trans hk)
  rw [htext, hn]
  exact Option.isSome_iff_exists.1 (isSome_ofNumber? hnumeral)

end Eligibility
