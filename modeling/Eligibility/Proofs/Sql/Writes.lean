import Eligibility.Proofs.Sql.Token
import Eligibility.Sql.Term

/-!
# Text that reads as given tokens

A piece of SQL text `Writes` its tokens when it reads as them in front of every break; it `Leads`
with them when it reads as them in front of any text at all, as a piece does that ends in a space
or a parenthesis. Pieces are put together by `Leads.writes` and `Writes.leads`.

* `Writes`, `Leads`, `Begins`, with their rules of composition;
* **`writes_of_tokens`**: text without comments reads alike alone and inside other text;
* **`writes_quote`**: a quoted text reads as the text that it quotes.
-/

namespace Eligibility.Sql

/-- The text reads as the tokens in front of every break. -/
def Writes (s : String) (ts : List Token) : Prop :=
  ∀ cs, Breaks cs → tokens (s.toList ++ cs) = (tokens cs).map (ts ++ ·)

/-- The text reads as the tokens in front of any text. -/
def Leads (s : String) (ts : List Token) : Prop :=
  ∀ cs, tokens (s.toList ++ cs) = (tokens cs).map (ts ++ ·)

/-- The text starts with a break. -/
def Begins (s : String) : Prop := s.toList ≠ [] ∧ Breaks s.toList

instance (s : String) : Decidable (Begins s) := inferInstanceAs (Decidable (_ ∧ _))

theorem Begins.append {s : String} (h : Begins s) (cs : List Char) : Breaks (s.toList ++ cs) := by
  obtain ⟨hn, hb⟩ := h
  obtain ⟨c, ds, hs⟩ := List.exists_cons_of_ne_nil hn
  rw [hs] at hb ⊢
  exact hb

theorem Begins.join {s : String} (h : Begins s) (t : String) : Begins (s ++ t) := by
  have hb := h.append t.toList
  rw [Begins, String.toList_append]
  exact ⟨List.append_ne_nil_of_left_ne_nil h.1 _, hb⟩

/-! ## Composition -/

theorem map_append_map (ts us : List Token) (o : Option (List Token)) :
    (o.map (us ++ ·)).map (ts ++ ·) = o.map (ts ++ us ++ ·) := by
  rw [Option.map_map]
  exact congrArg (Option.map · o) (funext fun vs => (List.append_assoc ts us vs).symm)

section Compose

variable {a b : String} {ts us : List Token}

theorem Leads.toWrites (h : Leads a ts) : Writes a ts := fun cs _ => h cs

theorem Leads.writes (ha : Leads a ts) (hb : Writes b us) : Writes (a ++ b) (ts ++ us) := by
  intro cs hcs
  rw [String.toList_append, List.append_assoc, ha, hb cs hcs, map_append_map]

theorem Writes.leads (ha : Writes a ts) (hb : Leads b us) (h : Begins b) :
    Leads (a ++ b) (ts ++ us) := by
  intro cs
  rw [String.toList_append, List.append_assoc, ha _ (h.append cs), hb, map_append_map]

theorem Writes.append (ha : Writes a ts) (hb : Writes b us) (h : Begins b) :
    Writes (a ++ b) (ts ++ us) := by
  intro cs hcs
  rw [String.toList_append, List.append_assoc, ha _ (h.append cs), hb cs hcs, map_append_map]

theorem Writes.tokens (h : Writes a ts) : tokens a.toList = some ts := by
  have := h [] breaks_nil
  rwa [List.append_nil, tokens_nil, Option.map_some, List.append_nil] at this

end Compose

/-! ## Pieces -/

theorem writes_token {s : String} {c : Char} {cs : List Char} {t : Token} (hs : s.toList = c :: cs)
    (hc : isSpace c = false) (h : token? c cs = some (t, [])) (ht : t ≠ .comment) :
    Writes s [t] := by
  intro ds hds
  rw [hs, List.cons_append, tokens_cons hc, token?_append h ht hds]
  rfl

/-- Text without comments reads alike alone and inside other text. -/
theorem tokens_append {cs : List Char} {ts : List Token} (h : tokens cs = some ts)
    (hc : .comment ∉ ts) {ds : List Char} (hd : Breaks ds) :
    tokens (cs ++ ds) = (tokens ds).map (ts ++ ·) := by
  induction hn : cs.length using Nat.strongRecOn generalizing cs ts with
  | _ n ih =>
    cases cs with
    | nil =>
      rw [tokens_nil] at h; cases h
      rw [List.nil_append]; exact (Option.map_id_apply ..).symm
    | cons c cs =>
      subst hn
      by_cases hs : isSpace c = true
      · rw [tokens_cons_space hs] at h
        rw [List.cons_append, tokens_cons_space hs]
        exact ih _ (Nat.lt_succ_self _) h hc rfl
      · rw [Bool.not_eq_true] at hs
        rw [tokens_cons hs] at h
        obtain ⟨⟨t, rest⟩, ht, h⟩ := Option.bind_eq_some_iff.1 h
        obtain ⟨us, hus, rfl⟩ := Option.map_eq_some_iff.1 h
        rw [List.mem_cons, not_or] at hc
        rw [List.cons_append, tokens_cons hs, token?_append ht (Ne.symm hc.1) hd, Option.bind_some,
          ih _ (Nat.lt_succ_of_le (token?_le ht)) hus hc.2 rfl]
        exact map_append_map [t] us _

theorem writes_of_tokens {s : String} {ts : List Token} (h : tokens s.toList = some ts)
    (hc : .comment ∉ ts) : Writes s ts := fun _ hd => tokens_append h hc hd

theorem leads_space : Leads " " [] := by
  intro cs
  change tokens (' ' :: cs) = _
  rw [tokens_cons_space rfl]
  exact (Option.map_id_apply ..).symm

theorem leads_opening : Leads "(" [.opening] := by
  intro cs
  change tokens ('(' :: cs) = _
  rw [tokens_cons rfl]; rfl

theorem leads_closing : Leads ")" [.closing] := by
  intro cs
  change tokens (')' :: cs) = _
  rw [tokens_cons rfl]; rfl

/-! ## Quoted text -/

theorem quoted?_doubled (q : Char) (cs ds : List Char) (hd : ds.head? ≠ some q) :
    quoted? q (cs.flatMap (fun c => if c = q then [q, q] else [c]) ++ q :: ds) = some (cs, ds) := by
  induction cs with
  | nil =>
    cases ds with
    | nil => simp [quoted?]
    | cons d ds =>
      have : d ≠ q := fun e => hd (by rw [e]; rfl)
      simp [quoted?, this]
  | cons c cs ih =>
    rw [List.flatMap_cons, List.append_assoc]
    by_cases hc : c = q
    · subst hc; simp [quoted?, ih]
    · rw [if_neg hc, List.singleton_append, quoted?_cons_of_ne hc, ih]; rfl

theorem writes_quote (s : String) : Writes (quote s) [.literal s] := by
  intro ds hds
  have hq : (quote s).toList = '\'' :: (s.toList.flatMap (fun c => if c = '\'' then ['\'', '\'']
      else [c]) ++ ['\'']) := by
    simp [quote, Text.replace]
  rw [hq, List.cons_append, List.append_assoc, List.singleton_append, tokens_cons rfl]
  simp only [token?, if_true, quoted?_doubled '\'' _ ds (hds.head?_ne (by decide)), Option.map_some,
    Option.bind_some, String.ofList_toList]
  rfl

end Eligibility.Sql
