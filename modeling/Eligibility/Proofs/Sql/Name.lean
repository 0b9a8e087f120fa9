import Eligibility.Proofs.Sql.Reading

/-!
# Names in SQL text

* **`shows_name`**: a name reads as a word;
* `starts_of_identifier`, `quiet_of_dot`: identifiers may start an elementary predicate, and dotted
  names may stand anywhere in one;
* `isComplete_of_inert`: text without quotes, comment marks and parentheses is complete.
-/

namespace Eligibility.Sql

theorem shows_name {s : String} (h : isName s.toList = true) : Shows s [.token (.word s)] := by
  refine ⟨?_, by simp [AllPlain, Item.Plain]⟩
  obtain ⟨c, cs, hs⟩ : ∃ c cs, s.toList = c :: cs := by
    refine List.exists_cons_of_ne_nil fun e => ?_
    rw [e] at h; cases h
  rw [hs] at h
  obtain ⟨hc, hw⟩ := isName_cons h
  refine writes_token hs (isSpace_of_kind hc rfl) ?_ (by simp)
  rw [token?_word hc, hw, List.take_length, List.drop_length, ← hs, String.ofList_toList]

/-! ## Names that are no keywords -/

theorem isWord_of_dot {s w : String} (h : '.' ∈ s.toList) (hw : '.' ∉ w.toList) :
    Item.isWord w (.token (.word s)) = false := beq_false_of_ne (upper_ne_of_dot h hw)

theorem quiet_of_dot {s : String} (h : '.' ∈ s.toList) : (Item.token (.word s)).Quiet := by
  have hw (w : String) (hw : '.' ∉ w.toList) : Item.isWord w (.token (.word s)) = false :=
    isWord_of_dot h hw
  refine ⟨?_, hw _ (by decide), ?_⟩
  · rw [Item.isConnective, hw _ (by decide), hw _ (by decide), hw _ (by decide)]; rfl
  · rw [Item.ends, hw _ (by decide), hw _ (by decide)]; rfl

theorem starts_of_identifier {s : String} (h : IsIdentifier s) : (Item.token (.word s)).Starts := by
  have hw (w : String) (hw : w ∈ TokenKind.keywords.map (·.1)) :
      Item.isWord w (.token (.word s)) = false := beq_false_of_ne (h.upper_ne hw)
  refine ⟨?_, hw _ (by decide)⟩
  rw [Item.isConnective, hw _ (by decide), hw _ (by decide), hw _ (by decide)]
  rfl

/-! ## Inert text -/

/-- The character starts no quoted text, no comment and no parenthesis. -/
def isInert (c : Char) : Bool := c ∉ ['\'', '"', '-', '/', '(', ')']

theorem isInert_of_isWordChar {c : Char} (h : isWordChar c = true) : isInert c = true :=
  decide_eq_true (not_mem_of_kind h rfl)

theorem all_isInert_of_full {cs : List Char} (h : tailWidth cs = cs.length) :
    cs.all isInert = true := by
  induction cs with
  | nil => rfl
  | cons c cs ih =>
    rw [tailWidth] at h
    split at h
    · rename_i hc
      rw [List.all_cons, ih (Nat.succ.inj h), Bool.and_true]
      rcases Bool.or_eq_true_iff.1 hc with hc | hc
      · exact isInert_of_isWordChar hc
      · rw [eq_of_beq (Bool.and_eq_true_iff.1 hc).1]; rfl
    · cases h

theorem token?_of_inert {c : Char} (hc : isInert c = true) (cs : List Char) :
    ∃ t rest, token? c cs = some (t, rest) ∧ t.isPlain = true ∧ rest <:+ cs := by
  have hne (d : Char) (hd : isInert d = false) : c ≠ d := ne_of_kind hc hd
  rw [token?, if_neg (hne '\'' rfl), if_neg (hne '"' rfl), if_neg (fun h => hne '-' rfl h.1),
    if_neg (fun h => hne '/' rfl h.1), if_neg (hne '(' rfl), if_neg (hne ')' rfl)]
  split
  · exact ⟨_, _, rfl, rfl, List.drop_suffix _ _⟩
  split
  · exact ⟨_, _, rfl, rfl, List.drop_suffix _ _⟩
  split
  · exact ⟨_, _, rfl, rfl, List.tail_suffix _⟩
  · exact ⟨_, _, rfl, rfl, List.suffix_refl _⟩

theorem tokens_of_inert {cs : List Char} (h : cs.all isInert = true) :
    ∃ ts, tokens cs = some ts ∧ ∀ t ∈ ts, t.isPlain = true := by
  induction hn : cs.length using Nat.strongRecOn generalizing cs with
  | _ n ih =>
    subst hn
    cases cs with
    | nil => exact ⟨[], tokens_nil, by simp⟩
    | cons c cs =>
      rw [List.all_cons, Bool.and_eq_true] at h
      by_cases hs : isSpace c = true
      · rw [tokens_cons_space hs]
        exact ih _ (Nat.lt_succ_self _) h.2 rfl
      · rw [Bool.not_eq_true] at hs
        obtain ⟨t, rest, ht, hp, hr⟩ := token?_of_inert h.1 cs
        have hall : rest.all isInert = true :=
          List.all_eq_true.2 fun d hd => List.all_eq_true.1 h.2 d (hr.subset hd)
        obtain ⟨ts, hts, hq⟩ := ih _ (Nat.lt_succ_of_le (token?_le ht)) hall rfl
        refine ⟨t :: ts, ?_, List.forall_mem_cons.2 ⟨hp, hq⟩⟩
        rw [tokens_cons hs, ht, Option.bind_some, hts]; rfl

theorem isComplete_of_inert {s : String} (h : s.toList.all isInert = true) : IsComplete s := by
  obtain ⟨ts, ht, hp⟩ := tokens_of_inert h
  exact isComplete_of_tokens ht hp

end Eligibility.Sql
