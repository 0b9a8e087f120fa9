import Eligibility.Proofs.Script.Reader

/-!
# Readers of one token

* **`spec_expect`**, `spec_kind`: a token that has to be there;
* `option`, `judges_option`, `spec_option`: a token that may be missing, and what follows it;
* `optional_eq_none`, …: the same for a token of a given kind;
* `lines`, `spec_lines`: line breaks.
-/

namespace Eligibility

namespace Reader

variable {α β : Type} {nested : Bool} {us ts rest : List Token} {t : Token} {a : α}
  {read : Token → Option α} {p : Token → α → Prop}

/-! ## A token that has to be there -/

theorem spec_expect {e : Expected} (hread : ∀ t a, read t = some a ↔ p t a)
    (hk : ∀ t a, p t a → t.kind ≠ .newline) (hp : ∃ t a, p t a) :
    (of (expect nested read e)).Spec (fun us a => Sees nested (p · a) us) anything := by
  obtain ⟨t₀, a₀, h₀⟩ := hp
  refine ⟨?_, fun ts => ⟨?_, ?_⟩, [t₀], a₀, Sees.one h₀⟩
  · intro us a rest h _
    obtain ⟨t, ht, hpt⟩ := ahead_sees h (fun t ht => hk t a ht) rest
    obtain ⟨q, hq, rfl, hrest⟩ := next?_of_ahead_cons ht ((hread t a).2 hpt)
    rw [of, expect, hq]
    show Except.ok (q.value, q.rest) = _
    rw [hrest]
  · intro a rest h
    rw [of, expect] at h
    cases hn : next? nested read ts with
    | none => rw [hn] at h; cases h
    | some q =>
      rw [hn] at h
      cases h
      obtain ⟨t, ht, hrt⟩ := next?_eq_some_iff.1 hn
      obtain ⟨us, hts, hus⟩ := sees_of_ahead (p := (p · q.value)) ht ((hread _ _).1 hrt)
      exact ⟨us, hts, hus, trivial⟩
  · intro f h
    rw [of, expect] at h
    cases hn : next? nested read ts with
    | some q => rw [hn] at h; cases h
    | none =>
      rw [hn] at h
      cases h
      obtain ⟨bs, hbs, hnil, hts⟩ := exists_ahead nested ts
      refine ⟨bs, hts, ⟨[t₀], a₀, bs, t₀, rfl, hbs, hnil, h₀⟩, fun t ht post => ?_⟩
      obtain ⟨rest, hrest⟩ := List.head?_eq_some_iff.1 ht
      have hpost := ahead_append hbs hnil (kind_of_ahead hrest) post
      have hnone : next? nested read (bs ++ t :: post) = none := by
        rw [next?_eq_none_iff, seen_sight, hpost]
        rintro u hu
        cases hu
        rw [next?_eq_none_iff, seen_sight] at hn
        exact hn t ht
      rw [of, expect, hnone, hpost]
      rfl

theorem spec_kind {e : Expected} {k : TokenKind} (hk : k ≠ .newline) :
    (of (expect nested (Token.ofKind? k) e)).Spec (fun us _ => Sees nested (·.kind = k) us)
      anything :=
  spec_expect (fun _ _ => ofKind?_eq_some) (fun _ _ h => h ▸ hk) ⟨⟨k, "", {}⟩, (), rfl⟩

/-! ## A token that may be missing -/

/-- A reader of a token that may be missing. -/
def option (nested : Bool) (read : Token → Option α) : Reader (Option α) := fun ts =>
  match next? nested read ts with
  | some p => .ok (some p.value, p.rest)
  | none => .ok (none, ts)

section Option

variable (hread : ∀ t a, read t = some a ↔ p t a) (hk : ∀ t a, p t a → t.kind ≠ .newline)

include hread in
theorem option_eq_none (h : ∀ t ∈ (sight ts).seen nested, ∀ a, ¬ p t a) :
    option nested read ts = .ok (none, ts) := by
  have hnone : next? nested read ts = none := by
    rw [next?_eq_none_iff]
    intro t ht
    rw [Option.eq_none_iff_forall_ne_some]
    exact fun a ha => h t ht a ((hread t a).1 ha)
  rw [option, hnone]

include hread hk in
theorem option_eq_some (h : Sees nested (p · a) us) :
    option nested read (us ++ rest) = .ok (some a, rest) := by
  obtain ⟨t, ht, hpt⟩ := ahead_sees h (fun t ht => hk t a ht) rest
  obtain ⟨q, hq, rfl, hrest⟩ := next?_of_ahead_cons ht ((hread t a).2 hpt)
  rw [option, hq]
  show Except.ok (some q.value, q.rest) = _
  rw [hrest]

include hread in
/-- A token that may be missing is missing only if it is not there. -/
theorem option_cases (nested : Bool) (ts : List Token) :
    ((∀ t ∈ (sight ts).seen nested, ∀ a, ¬ p t a) ∧ option nested read ts = .ok (none, ts)) ∨
      ∃ us a rest, ts = us ++ rest ∧ Sees nested (p · a) us ∧
        option nested read ts = .ok (some a, rest) := by
  cases hn : next? nested read ts with
  | none =>
    have h : ∀ t ∈ (sight ts).seen nested, ∀ a, ¬ p t a := by
      intro t ht a hpt
      have := next?_eq_none_iff.1 hn t ht
      exact nomatch ((hread t a).2 hpt).symm.trans this
    exact .inl ⟨h, option_eq_none hread h⟩
  | some q =>
    obtain ⟨t, ht, hrt⟩ := next?_eq_some_iff.1 hn
    obtain ⟨us, hts, hus⟩ := sees_of_ahead (p := (p · q.value)) ht ((hread _ _).1 hrt)
    exact .inr ⟨us, q.value, q.rest, hts, hus, by rw [option, hn]⟩

include hread hk in
theorem judges_option {next : Option α → Reader β} {h : Sentences β} {k : Follow β}
    (hnone : (∀ t ∈ (sight ts).seen nested, ∀ a, ¬ p t a) → (next none).Judges h k ts)
    (hsome : ∀ us a mid, ts = us ++ mid → Sees nested (p · a) us →
      (next (some a)).Judges (fun ws b => h (us ++ ws) b) k mid)
    (hs : (next none).Settles fun s => ∀ t ∈ s.seen nested, ∀ a, ¬ p t a) :
    (option nested read >>= next).Judges h k ts := by
  have hgo {o : Option α} {us mid : List Token} (ho : option nested read us = .ok (o, mid)) :
      (option nested read >>= next) us = next o mid := by
    show (option nested read us >>= _) = _
    rw [ho]
    rfl
  rcases option_cases hread nested ts with ⟨hno, ho⟩ | ⟨us, a, mid, rfl, hus, ho⟩
  · refine ⟨fun b rest hb => (hnone hno).sound b rest (hgo ho ▸ hb), fun e he => ?_⟩
    obtain ⟨us, hts, hmore, hstop⟩ := (hnone hno).stops e (hgo ho ▸ he)
    refine ⟨us, hts, hmore, fun t ht post => ?_⟩
    obtain ⟨post', hpost⟩ := List.head?_eq_some_iff.1 ht
    rw [hts, hpost] at hno
    rw [hgo (option_eq_none hread (hs us _ t (hstop t ht) post' post hno))]
    exact hstop t ht post
  · refine ⟨fun b rest hb => ?_, fun e he => ?_⟩
    · obtain ⟨ws, rfl, hws, hk⟩ := (hsome us a mid rfl hus).sound b rest (hgo ho ▸ hb)
      exact ⟨us ++ ws, by rw [List.append_assoc], hws, hk⟩
    · obtain ⟨ws, rfl, ⟨more, b, hmore⟩, hstop⟩ := (hsome us a mid rfl hus).stops e (hgo ho ▸ he)
      refine ⟨us ++ ws, by rw [List.append_assoc], ⟨more, b, by rwa [List.append_assoc]⟩, ?_⟩
      intro t ht post
      rw [List.append_assoc, hgo (option_eq_some hread hk hus)]
      exact hstop t ht post

include hread hk in
theorem spec_option {next : Option α → Reader β} {g : α → Sentences β} {k : Follow β} {b₀ : β}
    (hnone : next none = pure b₀) (hsome : ∀ a, (next (some a)).Spec (g a) k)
    (hno : ∀ s, k b₀ s ↔ ∀ t ∈ s.seen nested, ∀ a, ¬ p t a) :
    (option nested read >>= next).Spec
      (fun us b => (us = [] ∧ b = b₀) ∨
        ∃ ks a ws, us = ks ++ ws ∧ Sees nested (p · a) ks ∧ g a ws b) k := by
  refine ⟨?_, fun ts => judges_option hread hk (fun h => ?_) ?_ ?_, [], b₀, .inl ⟨rfl, rfl⟩⟩
  · rintro _ b rest (⟨rfl, rfl⟩ | ⟨us, a, ws, rfl, hus, hws⟩) hb
    · refine bind_ok_iff.2 ⟨none, rest, option_eq_none hread ((hno _).1 hb), ?_⟩
      rw [hnone]
      rfl
    · rw [List.append_assoc]
      exact bind_ok_iff.2
        ⟨some a, _, option_eq_some hread hk hus, (hsome a).complete ws b rest hws hb⟩
  · rw [hnone]
    exact judges_pure (.inl ⟨rfl, rfl⟩) ((hno _).2 h)
  · intro us a mid _ hus
    exact ((hsome a).judges mid).mono (fun ws b hws => .inr ⟨us, a, ws, rfl, hus, hws⟩)
      fun _ _ _ _ _ h => h
  · rw [hnone]
    exact settles_pure _ _

/-! ### A token of a kind -/

variable {k : TokenKind}

theorem optional_eq_none (h : ∀ t ∈ (sight ts).seen nested, t.kind ≠ k) :
    option nested (Token.ofKind? k) ts = .ok (none, ts) :=
  option_eq_none (fun _ _ => ofKind?_eq_some) fun t ht _ => h t ht

theorem optional_eq_some (hk : k ≠ .newline) (h : Sees nested (·.kind = k) us) :
    option nested (Token.ofKind? k) (us ++ rest) = .ok (some (), rest) :=
  option_eq_some (fun _ _ => ofKind?_eq_some) (fun _ _ ht => ht ▸ hk) h

theorem judges_optional (hk : k ≠ .newline) {next : Option Unit → Reader β} {h : Sentences β}
    {f : Follow β}
    (hnone : (∀ t ∈ (sight ts).seen nested, t.kind ≠ k) → (next none).Judges h f ts)
    (hsome : ∀ us mid, ts = us ++ mid → Sees nested (·.kind = k) us →
      (next (some ())).Judges (fun ws b => h (us ++ ws) b) f mid)
    (hs : (next none).Settles fun s => ∀ t ∈ s.seen nested, t.kind ≠ k) :
    (option nested (Token.ofKind? k) >>= next).Judges h f ts :=
  judges_option (fun _ _ => ofKind?_eq_some) (fun _ _ ht => ht ▸ hk)
    (fun h => hnone fun t ht => h t ht ()) (fun us _ => hsome us)
    fun us e t hstop post post' h u hu _ => hs us e t hstop post post' (fun u hu => h u hu ()) u hu

theorem spec_optional (hk : k ≠ .newline) {next : Option Unit → Reader β} {g : Sentences β}
    {f : Follow β} {b₀ : β} (hnone : next none = pure b₀) (hsome : (next (some ())).Spec g f)
    (hno : ∀ s, f b₀ s ↔ ∀ t ∈ s.seen nested, t.kind ≠ k) :
    (option nested (Token.ofKind? k) >>= next).Spec
      (fun us b => (us = [] ∧ b = b₀) ∨
        ∃ ks ws, us = ks ++ ws ∧ Sees nested (·.kind = k) ks ∧ g ws b) f := by
  refine (spec_option (g := fun _ => g) (fun _ _ => ofKind?_eq_some) (fun _ _ ht => ht ▸ hk) hnone
    (fun _ => hsome) fun s => (hno s).trans ⟨fun h t ht _ => h t ht, fun h t ht => h t ht ()⟩).congr
    fun us b => or_congr Iff.rfl ?_
  exact ⟨fun ⟨ks, _, ws, h⟩ => ⟨ks, ws, h⟩, fun ⟨ks, ws, h⟩ => ⟨ks, (), ws, h⟩⟩

end Option

/-! ## Line breaks -/

/-- The reader of line breaks. -/
def lines : Reader Unit := fun ts => .ok ((), dropNewlines ts)

theorem spec_lines :
    lines.Spec (fun us _ => Lines us) (fun _ s => ∀ t ∈ s.next, t.kind ≠ .newline) := by
  refine ⟨?_, fun ts => ⟨?_, nofun⟩, [], (), nofun⟩
  · intro us _ rest h hf
    rw [lines, dropNewlines_append h]
    cases rest with
    | nil => rfl
    | cons t rest => rw [dropNewlines_cons (hf t rfl)]
  · intro _ rest h
    cases h
    obtain ⟨bs, hbs, hts⟩ := exists_lines ts
    refine ⟨bs, hts, hbs, fun t ht => ?_⟩
    exact head_dropNewlines ht

end Reader

end Eligibility
