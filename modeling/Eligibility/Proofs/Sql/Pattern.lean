import Eligibility.Proofs.Sql.Text
import Mathlib.Data.List.Infix

/-!
# What patterns match

A pattern is read as SQL reads it: `%` is any text, `_` is any one character, and the character
after the escape character stands for itself. A pattern without an escape clause has no escape
character.

* `Wild`, `wilds?`, **`Wild.matches`**: patterns and what they match;
* `likeTest?`: the test that the tokens of a pattern with its escape clause are;
* `Surrounded`: a text has another in it, with the given leave to stand around it;
* **`likeTest?_likeText`**: the pattern of a text tests for that text, letter by letter.
-/

namespace Eligibility.Sql

/-! ## Patterns -/

/-- A part of a pattern. -/
inductive Wild where
  /-- Any text. -/
  | any
  /-- Any one character. -/
  | one
  | just (c : Char)
  deriving DecidableEq, Repr

/-- What a character of a pattern stands for on its own. -/
def Wild.ofChar (c : Char) : Wild := if c = '%' then any else if c = '_' then one else just c

/-- The parts of a pattern, right after the escape character if `escaping`. A pattern that ends in
its escape character has none. -/
def wilds? (escape : Option Char) (escaping : Bool) : List Char → Option (List Wild)
  | [] => if escaping then none else some []
  | c :: cs =>
    if escaping then (wilds? escape false cs).map (.just c :: ·)
    else if escape = some c then wilds? escape true cs
    else (wilds? escape false cs).map (.ofChar c :: ·)

/-- The text is one that the parts stand for, in their order. -/
def Wild.matches : List Wild → List Char → Bool
  | [], cs => cs.isEmpty
  | any :: ws, cs => cs.tails.any (Wild.matches ws)
  | one :: ws, cs => cs.head?.isSome && Wild.matches ws cs.tail
  | just c :: ws, cs => cs.head? == some c && Wild.matches ws cs.tail

/-- The test of a text that a pattern is, with the escape clause that may follow it. -/
def likeTest? : List Token → Option (String → Bool)
  | [.word "LIKE", .literal p] =>
    (wilds? none false p.toList).map fun ws s => Wild.matches ws s.toList
  | [.word "LIKE", .literal p, .word "ESCAPE", .literal e] =>
    match e.toList with
    | [c] => (wilds? (some c) false p.toList).map fun ws s => Wild.matches ws s.toList
    | _ => none
  | _ => none

/-! ## Reading escaped text -/

theorem isPatternChar_iff {c : Char} :
    isPatternChar c = true ↔ c = escapeChar ∨ c = '%' ∨ c = '_' := by
  simp only [isPatternChar, Bool.or_eq_true, beq_iff_eq, or_assoc]

theorem Wild.ofChar_of_plain {c : Char} (h : isPatternChar c = false) :
    Wild.ofChar c = just c := by
  rw [← Bool.not_eq_true, isPatternChar_iff, not_or, not_or] at h
  rw [ofChar, if_neg h.2.1, if_neg h.2.2]

/-- The characters that stand for a character in an escaped text. -/
def escaped (c : Char) : List Char := if isPatternChar c then [escapeChar, c] else [c]

theorem toList_likeEscape (s : String) : (likeEscape s).toList = s.toList.flatMap escaped := by
  rw [likeEscape, String.toList_ofList]
  rfl

theorem length_escaped (cs : List Char) :
    (cs.flatMap escaped).length = cs.length + cs.countP isPatternChar := by
  induction cs with
  | nil => rfl
  | cons c cs ih =>
    rw [List.flatMap_cons, List.length_append, ih, List.countP_cons, List.length_cons, escaped]
    split
    · simp only [List.length_cons, List.length_nil]
      omega
    · simp only [List.length_cons, List.length_nil]
      omega

theorem plain_of_likeEscape {s : String} (h : likeEscape s = s) :
    ∀ c ∈ s.toList, isPatternChar c = false := by
  have hlength := length_escaped s.toList
  rw [← toList_likeEscape, h] at hlength
  have hcount : s.toList.countP isPatternChar = 0 := by omega
  exact fun c hc => Bool.eq_false_iff.2 (List.countP_eq_zero.1 hcount c hc)

section Parts

variable (rest : List Char)

theorem wilds?_plain {cs : List Char} (h : ∀ c ∈ cs, isPatternChar c = false) :
    wilds? none false (cs ++ rest) = (wilds? none false rest).map (cs.map .just ++ ·) := by
  induction cs with
  | nil => exact (Option.map_id_apply ..).symm
  | cons c cs ih =>
    have hc := Wild.ofChar_of_plain (h c List.mem_cons_self)
    rw [List.cons_append, wilds?, if_neg Bool.false_ne_true, if_neg nofun, hc,
      ih fun d hd => h d (List.mem_cons_of_mem c hd), Option.map_map]
    rfl

theorem wilds?_escaped (cs : List Char) :
    wilds? (some escapeChar) false (cs.flatMap escaped ++ rest) =
      (wilds? (some escapeChar) false rest).map (cs.map .just ++ ·) := by
  induction cs with
  | nil => exact (Option.map_id_apply ..).symm
  | cons c cs ih =>
    rw [List.flatMap_cons, List.append_assoc, escaped]
    by_cases hc : isPatternChar c = true
    · rw [if_pos hc, List.cons_append, List.singleton_append, wilds?, if_neg Bool.false_ne_true,
        if_pos rfl, wilds?, if_pos rfl, ih, Option.map_map]
      rfl
    · have hne : some escapeChar ≠ some c := fun h =>
        hc (isPatternChar_iff.2 (.inl (Option.some.inj h).symm))
      rw [if_neg hc, List.singleton_append, wilds?, if_neg Bool.false_ne_true, if_neg hne,
        Wild.ofChar_of_plain (Bool.not_eq_true _ ▸ hc), ih, Option.map_map]
      rfl

end Parts

/-! ## Matching -/

/-- The parts that match any text, where it is allowed. -/
def Wild.anyIf (b : Bool) : List Wild := if b then [any] else []

theorem Wild.matches_just (cs : List Char) (ws : List Wild) (u : List Char) :
    Wild.matches (cs.map .just ++ ws) u = true ↔ ∃ v, u = cs ++ v ∧ Wild.matches ws v = true := by
  induction cs generalizing u with
  | nil => simp
  | cons c cs ih =>
    cases u with
    | nil => simp [Wild.matches]
    | cons d u =>
      simp only [List.map_cons, List.cons_append, Wild.matches, List.head?_cons, List.tail_cons,
        Bool.and_eq_true, beq_iff_eq, Option.some.injEq, ih, List.cons.injEq]
      constructor
      · rintro ⟨rfl, v, rfl, hv⟩
        exact ⟨v, ⟨rfl, rfl⟩, hv⟩
      · rintro ⟨v, ⟨rfl, rfl⟩, hv⟩
        exact ⟨rfl, v, rfl, hv⟩

theorem Wild.matches_any (ws : List Wild) (u : List Char) :
    Wild.matches (any :: ws) u = true ↔ ∃ a v, u = a ++ v ∧ Wild.matches ws v = true := by
  rw [Wild.matches, List.any_eq_true]
  constructor
  · rintro ⟨v, hv, hm⟩
    obtain ⟨a, rfl⟩ := (List.mem_tails ..).1 hv
    exact ⟨a, v, rfl, hm⟩
  · rintro ⟨a, v, rfl, hm⟩
    exact ⟨v, (List.mem_tails ..).2 ⟨a, rfl⟩, hm⟩

/-- The text `u` is `s` with other text before it and after it, each where it is allowed. -/
def Surrounded (before after : Bool) (s u : List Char) : Prop :=
  ∃ a b, u = a ++ (s ++ b) ∧ (before = false → a = []) ∧ (after = false → b = [])

section Surrounded

variable {s u : List Char}

theorem surrounded_inside : Surrounded true true s u ↔ s <:+: u := by
  constructor
  · rintro ⟨a, b, rfl, -, -⟩
    exact ⟨a, b, List.append_assoc ..⟩
  · rintro ⟨a, b, rfl⟩
    exact ⟨a, b, List.append_assoc .., nofun, nofun⟩

theorem surrounded_atStart : Surrounded false true s u ↔ s <+: u := by
  constructor
  · rintro ⟨a, b, rfl, ha, -⟩
    exact ⟨b, by rw [ha rfl, List.nil_append]⟩
  · rintro ⟨b, rfl⟩
    exact ⟨[], b, rfl, fun _ => rfl, nofun⟩

theorem surrounded_atEnd : Surrounded true false s u ↔ s <:+ u := by
  constructor
  · rintro ⟨a, b, rfl, -, hb⟩
    exact ⟨a, by rw [hb rfl, List.append_nil]⟩
  · rintro ⟨a, rfl⟩
    exact ⟨a, [], by rw [List.append_nil], nofun, fun _ => rfl⟩

end Surrounded

theorem Wild.matches_anyIf (b : Bool) (u : List Char) :
    Wild.matches (anyIf b) u = true ↔ (b = false → u = []) := by
  cases b with
  | false => simp [anyIf, Wild.matches]
  | true => simp [anyIf, Wild.matches]

theorem Wild.matches_surrounded (before after : Bool) (s u : List Char) :
    Wild.matches (anyIf before ++ (s.map .just ++ anyIf after)) u = true ↔
      Surrounded before after s u := by
  have htail (v : List Char) : Wild.matches (s.map .just ++ anyIf after) v = true ↔
      ∃ b, v = s ++ b ∧ (after = false → b = []) := by
    rw [Wild.matches_just]
    simp only [Wild.matches_anyIf]
  cases before with
  | false =>
    rw [anyIf, if_neg Bool.false_ne_true, List.nil_append, htail]
    constructor
    · rintro ⟨b, rfl, hb⟩
      exact ⟨[], b, rfl, fun _ => rfl, hb⟩
    · rintro ⟨a, b, rfl, ha, hb⟩
      rw [ha rfl]
      exact ⟨b, rfl, hb⟩
  | true =>
    rw [anyIf, if_pos rfl, List.singleton_append, Wild.matches_any]
    constructor
    · rintro ⟨a, v, rfl, hv⟩
      obtain ⟨b, rfl, hb⟩ := (htail v).1 hv
      exact ⟨a, b, rfl, nofun, hb⟩
    · rintro ⟨a, b, rfl, -, hb⟩
      exact ⟨a, _, rfl, (htail _).2 ⟨b, rfl, hb⟩⟩

/-! ## Pattern and escape clause -/

/-- Where the middle of a pattern reads as characters, the whole reads as them and the two ends. -/
theorem wilds?_ends {e : Option Char} (he : e ≠ some '%') {p : String} {cs : List Char}
    (hp : ∀ rest, wilds? e false (p.toList ++ rest) =
      (wilds? e false rest).map (cs.map .just ++ ·)) (before after : Bool) :
    wilds? e false ((if before then "%" else "") ++ p ++ if after then "%" else "").toList =
      some (Wild.anyIf before ++ (cs.map .just ++ Wild.anyIf after)) := by
  have hafter : wilds? e false (if after then "%" else "").toList =
      some (Wild.anyIf after) := by
    cases after with
    | false => rfl
    | true => simp [wilds?, he, Wild.ofChar, Wild.anyIf]
  have hbody : wilds? e false (p.toList ++ (if after then "%" else "").toList) =
      some (cs.map .just ++ Wild.anyIf after) := by
    rw [hp, hafter, Option.map_some]
  rw [String.toList_append, String.toList_append, List.append_assoc]
  cases before with
  | false => exact hbody
  | true =>
    change wilds? e false ('%' :: (p.toList ++ _)) = _
    rw [wilds?, if_neg Bool.false_ne_true, if_neg he, hbody]
    rfl

/-- **The pattern of a text tests for the text.** Read by its tokens, it is true of the texts that
have it inside, with other text around it where that is allowed. -/
theorem likeTest?_likeText (before after : Bool) (s : String) :
    ∃ ts test, tokens (likeText before after s).toList = some ts ∧ likeTest? ts = some test ∧
      ∀ u, test u = true ↔ Surrounded before after s.toList u.toList := by
  refine ⟨_, fun u => Wild.matches
    (Wild.anyIf before ++ (s.toList.map .just ++ Wild.anyIf after)) u.toList,
    (shows_like before after s).1.tokens, ?_,
    fun u => Wild.matches_surrounded before after s.toList u.toList⟩
  rw [likeItems]
  by_cases h : likeEscape s = s
  · -- without an escape clause the pattern is the text itself
    have hwilds := wilds?_ends (e := none) nofun
      (fun rest => wilds?_plain rest (plain_of_likeEscape h)) before after
    rw [if_pos h, h]
    exact congrArg (Option.map _) hwilds
  · have hwilds := wilds?_ends (e := some escapeChar) (p := likeEscape s) (by decide)
      (fun rest => by rw [toList_likeEscape]; exact wilds?_escaped rest s.toList) before after
    rw [if_neg h]
    exact congrArg (Option.map _) hwilds

end Eligibility.Sql
