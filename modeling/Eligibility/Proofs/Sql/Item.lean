import Eligibility.Proofs.Sql.Writes

/-!
# Parentheses in SQL text

Tokens are grouped by their parentheses. What stands inside a pair of parentheses is one item of the
text around it.

* `Item`, `Item.tokens`, `itemTokens`;
* `nest?`: the items of tokens, none if the parentheses do not match;
* `items?`: the items of text;
* **`nest?_itemTokens`**, `nest?_tokens`: items are found again in their tokens, and only there;
* `Shows`, `Opens`: text that reads as given items, with its rules of composition;
* `IsComplete`: text whose quoted texts and parentheses are all closed.
-/

namespace Eligibility.Sql

/-- A token, or what stands in a pair of parentheses. -/
inductive Item where
  | token (t : Token)
  | group (is : List Item)

mutual

/-- The tokens of an item. -/
def Item.tokens : Item → List Token
  | .token t => [t]
  | .group is => .opening :: itemTokens is ++ [.closing]

/-- The tokens of items. -/
def itemTokens : List Item → List Token
  | [] => []
  | i :: is => i.tokens ++ itemTokens is

end

/-- The items of tokens inside the groups that `stack` leaves open, after the items `done`. -/
def nestFrom (stack : List (List Item)) (done : List Item) : List Token → Option (List Item)
  | [] => if stack = [] then some done else none
  | t :: ts =>
    if t = .opening then nestFrom (done :: stack) [] ts
    else if t = .closing then
      match stack with
      | [] => none
      | outer :: stack => nestFrom stack (outer ++ [.group done]) ts
    else nestFrom stack (done ++ [.token t]) ts

/-- The items of tokens whose parentheses match. -/
def nest? (ts : List Token) : Option (List Item) := nestFrom [] [] ts

/-- The items of SQL text. -/
def items? (s : String) : Option (List Item) := (tokens s.toList).bind nest?

@[simp] theorem itemTokens_append (is js : List Item) :
    itemTokens (is ++ js) = itemTokens is ++ itemTokens js := by
  induction is with
  | nil => rfl
  | cons i is ih => rw [List.cons_append, itemTokens, itemTokens, ih, List.append_assoc]

theorem nestFrom_opening (stack : List (List Item)) (done : List Item) (ts : List Token) :
    nestFrom stack done (.opening :: ts) = nestFrom (done :: stack) [] ts := rfl

theorem nestFrom_closing (stack : List (List Item)) (outer done : List Item) (ts : List Token) :
    nestFrom (outer :: stack) done (.closing :: ts) = nestFrom stack (outer ++ [.group done]) ts :=
  rfl

/-! ## Items from their tokens -/

mutual

/-- No token of the item is a parenthesis. -/
def Item.Plain : Item → Prop
  | .token t => t ≠ .opening ∧ t ≠ .closing
  | .group is => AllPlain is

def AllPlain : List Item → Prop
  | [] => True
  | i :: is => i.Plain ∧ AllPlain is

end

theorem allPlain_append {is js : List Item} : AllPlain (is ++ js) ↔ AllPlain is ∧ AllPlain js := by
  induction is with
  | nil => simp [AllPlain]
  | cons i is ih => simp only [List.cons_append, AllPlain, ih, and_assoc]

mutual

theorem nestFrom_item (i : Item) (h : i.Plain) (stack : List (List Item)) (done : List Item)
    (ts : List Token) : nestFrom stack done (i.tokens ++ ts) = nestFrom stack (done ++ [i]) ts := by
  match i, h with
  | .token t, h => simp only [Item.tokens, List.singleton_append, nestFrom, if_neg h.1, if_neg h.2]
  | .group is, h =>
    rw [Item.tokens, List.cons_append, List.cons_append, nestFrom_opening, List.append_assoc,
      nestFrom_items is h, List.nil_append, List.singleton_append, nestFrom_closing]

theorem nestFrom_items (is : List Item) (h : AllPlain is) (stack : List (List Item))
    (done : List Item) (ts : List Token) :
    nestFrom stack done (itemTokens is ++ ts) = nestFrom stack (done ++ is) ts := by
  match is, h with
  | [], _ => rw [itemTokens, List.nil_append, List.append_nil]
  | i :: is, h =>
    rw [itemTokens, List.append_assoc, nestFrom_item i h.1, nestFrom_items is h.2,
      List.append_assoc, List.singleton_append]

end

/-- Items are found again in their tokens. -/
theorem nest?_itemTokens {is : List Item} (h : AllPlain is) : nest? (itemTokens is) = some is := by
  have := nestFrom_items is h [] [] []
  rw [List.append_nil] at this
  rw [nest?, this, List.nil_append]
  rfl

/-! ## Tokens from their items -/

/-- The tokens read so far, given the open groups and the items after the last opening. -/
def readSoFar : List (List Item) → List Item → List Token
  | [], done => itemTokens done
  | outer :: stack, done => readSoFar stack outer ++ .opening :: itemTokens done

theorem readSoFar_append (stack : List (List Item)) (done is : List Item) :
    readSoFar stack (done ++ is) = readSoFar stack done ++ itemTokens is := by
  cases stack with
  | nil => exact itemTokens_append done is
  | cons outer stack => simp [readSoFar]

theorem nestFrom_tokens {stack : List (List Item)} {done is : List Item} {ts : List Token}
    (h : nestFrom stack done ts = some is) (hd : AllPlain done)
    (hs : ∀ outer ∈ stack, AllPlain outer) :
    itemTokens is = readSoFar stack done ++ ts ∧ AllPlain is := by
  induction ts generalizing stack done with
  | nil =>
    rw [nestFrom] at h
    split at h
    · rename_i hn; cases h; subst hn
      exact ⟨(List.append_nil _).symm, hd⟩
    · cases h
  | cons t ts ih =>
    rw [nestFrom.eq_def] at h
    dsimp only at h
    split at h
    · rename_i ht; subst ht
      obtain ⟨h1, h2⟩ := ih h trivial (List.forall_mem_cons.2 ⟨hd, hs⟩)
      refine ⟨?_, h2⟩
      rw [h1, readSoFar, itemTokens, List.append_assoc]; rfl
    split at h
    · rename_i ht; subst ht
      cases stack with
      | nil => cases h
      | cons outer stack =>
        have ho := List.forall_mem_cons.1 hs
        obtain ⟨h1, h2⟩ := ih h (allPlain_append.2 ⟨ho.1, hd, trivial⟩) ho.2
        refine ⟨?_, h2⟩
        rw [h1, readSoFar_append, readSoFar]
        simp [itemTokens, Item.tokens]
    · rename_i ho hc
      obtain ⟨h1, h2⟩ := ih h (allPlain_append.2 ⟨hd, ⟨ho, hc⟩, trivial⟩) hs
      refine ⟨?_, h2⟩
      rw [h1, readSoFar_append]
      simp [itemTokens, Item.tokens]

/-- Items that are found have the tokens that they are found in. -/
theorem nest?_tokens {ts : List Token} {is : List Item} (h : nest? ts = some is) :
    itemTokens is = ts ∧ AllPlain is := nestFrom_tokens h trivial (by simp)

/-! ## Text with given items -/

/-- The text reads as the items wherever it stands before a break. -/
def Shows (s : String) (is : List Item) : Prop := Writes s (itemTokens is) ∧ AllPlain is

/-- The text reads as the items wherever it stands. -/
def Opens (s : String) (is : List Item) : Prop := Leads s (itemTokens is) ∧ AllPlain is

section Compose

variable {a b : String} {is js : List Item}

theorem Shows.items? (h : Shows a is) : items? a = some is := by
  rw [Sql.items?, h.1.tokens, Option.bind_some, nest?_itemTokens h.2]

theorem Shows.append (ha : Shows a is) (hb : Shows b js) (h : Begins b) :
    Shows (a ++ b) (is ++ js) := by
  refine ⟨?_, allPlain_append.2 ⟨ha.2, hb.2⟩⟩
  rw [itemTokens_append]; exact ha.1.append hb.1 h

theorem Shows.opens (ha : Shows a is) (hb : Opens b js) (h : Begins b) :
    Opens (a ++ b) (is ++ js) := by
  refine ⟨?_, allPlain_append.2 ⟨ha.2, hb.2⟩⟩
  rw [itemTokens_append]; exact ha.1.leads hb.1 h

theorem Opens.shows (ha : Opens a is) (hb : Shows b js) : Shows (a ++ b) (is ++ js) := by
  refine ⟨?_, allPlain_append.2 ⟨ha.2, hb.2⟩⟩
  rw [itemTokens_append]; exact ha.1.writes hb.1

theorem Shows.cast (h : Shows a is) (ht : b.toList = a.toList) (hi : js = is) : Shows b js := by
  rwa [String.toList_inj.1 ht, hi]

theorem opens_space : Opens " " [] := ⟨leads_space, trivial⟩

theorem Shows.space (ha : Shows a is) (hb : Shows b js) : Shows (a ++ " " ++ b) (is ++ js) := by
  have := (ha.opens opens_space (by decide)).shows hb
  rwa [List.append_nil] at this

theorem Shows.group (h : Shows a is) : Shows ("(" ++ a ++ ")") [.group is] := by
  refine ⟨?_, h.2, trivial⟩
  have := (leads_opening.writes h.1).append leads_closing.toWrites (by decide)
  simpa [itemTokens, Item.tokens] using this

end Compose

/-! ## Text without parentheses -/

/-- The token stands for itself: it is no comment and no parenthesis. -/
def Token.isPlain (t : Token) : Bool := t ≠ .opening && t ≠ .closing && t ≠ .comment

/-- The item is a single token that stands for itself. -/
def Item.isPlain : Item → Bool
  | .token t => t.isPlain
  | .group _ => false

theorem itemTokens_map_token (ts : List Token) : itemTokens (ts.map .token) = ts := by
  induction ts with
  | nil => rfl
  | cons t ts ih => rw [List.map_cons, itemTokens, ih]; rfl

theorem all_isPlain_map_token {ts : List Token} (h : ∀ t ∈ ts, t.isPlain = true) :
    (ts.map Item.token).all Item.isPlain = true := by
  rw [List.all_map, List.all_eq_true]; exact h

theorem all_isPlain {is : List Item} (h : is.all Item.isPlain = true) :
    AllPlain is ∧ .comment ∉ itemTokens is := by
  induction is with
  | nil => exact ⟨trivial, by simp [itemTokens]⟩
  | cons i is ih =>
    rw [List.all_cons, Bool.and_eq_true] at h
    obtain ⟨h1, h2⟩ := ih h.2
    cases i with
    | group js => cases h.1
    | token t =>
      have ht : t.isPlain = true := h.1
      simp only [Token.isPlain, Bool.and_eq_true, decide_eq_true_eq] at ht
      refine ⟨⟨ht.1, h1⟩, ?_⟩
      simpa [itemTokens, Item.tokens, h2] using Ne.symm ht.2

theorem shows_of_tokens {s : String} {is : List Item}
    (h : tokens s.toList = some (itemTokens is) ∧ is.all Item.isPlain = true) : Shows s is :=
  ⟨writes_of_tokens h.1 (all_isPlain h.2).2, (all_isPlain h.2).1⟩

theorem opens_of_tokens {s : String} {is : List Item}
    (h : tokens s.toList.dropLast = some (itemTokens is) ∧ is.all Item.isPlain = true ∧
      s.toList.getLast? = some ' ') : Opens s is := by
  refine ⟨?_, (all_isPlain h.2.1).1⟩
  intro cs
  obtain ⟨ds, hs⟩ := List.getLast?_eq_some_iff.1 h.2.2
  have h1 := h.1
  rw [hs, List.dropLast_concat] at h1
  rw [hs, List.append_assoc, List.singleton_append,
    tokens_append h1 (all_isPlain h.2.1).2 (breaks_cons (by decide) _), tokens_cons_space rfl]

/-! ## Complete text -/

/-- The text is whole tokens whose parentheses match. -/
def IsComplete (s : String) : Prop :=
  ∃ ts, tokens s.toList = some ts ∧ .comment ∉ ts ∧ (nest? ts).isSome = true

/-- The items of complete text. -/
def textItems (s : String) : List Item := (items? s).getD []

theorem IsComplete.shows {s : String} (h : IsComplete s) : Shows s (textItems s) := by
  obtain ⟨ts, ht, hc, hn⟩ := h
  obtain ⟨is, his⟩ := Option.isSome_iff_exists.1 hn
  obtain ⟨h1, h2⟩ := nest?_tokens his
  have hs : Shows s is := ⟨by rw [h1]; exact writes_of_tokens ht hc, h2⟩
  rwa [textItems, hs.items?]

theorem isComplete_of_tokens {s : String} {ts : List Token} (h : tokens s.toList = some ts)
    (hp : ∀ t ∈ ts, t.isPlain = true) : IsComplete s := by
  obtain ⟨h1, h2⟩ := all_isPlain (all_isPlain_map_token hp)
  have := nest?_itemTokens h1
  rw [itemTokens_map_token] at this h2
  exact ⟨ts, h, h2, by rw [this]; rfl⟩

end Eligibility.Sql
