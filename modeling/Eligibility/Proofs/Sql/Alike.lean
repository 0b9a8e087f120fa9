import Eligibility.Proofs.Sql.Text

/-!
# Predicates that differ in quoted texts

Two predicates are **alike** if they differ at most in string literals, which are listed from left
to right for both.

* `Aligned`: token sequences that differ at most in the listed string literals;
* `Term.Alike`, `Predicate.Alike`;
* **`Predicate.Alike.aligned`**: predicates that are alike have aligned tokens.
-/

namespace Eligibility.Sql

/-- The tokens are the same, save for the string literals `ss` on the one side and `us` on the
other. -/
inductive Aligned : List Token → List Token → List String → List String → Prop where
  | nil : Aligned [] [] [] []
  | same (t : Token) {ts ts' : List Token} {ss us : List String} (h : Aligned ts ts' ss us) :
    Aligned (t :: ts) (t :: ts') ss us
  | literal (s u : String) {ts ts' : List Token} {ss us : List String} (h : Aligned ts ts' ss us) :
    Aligned (.literal s :: ts) (.literal u :: ts') (s :: ss) (u :: us)

namespace Aligned

theorem refl (ts : List Token) : Aligned ts ts [] [] := by
  induction ts with
  | nil => exact .nil
  | cons t ts ih => exact .same t ih

theorem append {ts ts' rs rs' : List Token} {ss us vs ws : List String}
    (h : Aligned ts ts' ss us) (h' : Aligned rs rs' vs ws) :
    Aligned (ts ++ rs) (ts' ++ rs') (ss ++ vs) (us ++ ws) := by
  induction h with
  | nil => exact h'
  | same t _ ih => exact .same t ih
  | literal s u _ ih => exact .literal s u ih

theorem before (rs : List Token) {ts ts' : List Token} {ss us : List String}
    (h : Aligned ts ts' ss us) : Aligned (rs ++ ts) (rs ++ ts') ss us := (refl rs).append h

theorem behind (rs : List Token) {ts ts' : List Token} {ss us : List String}
    (h : Aligned ts ts' ss us) : Aligned (ts ++ rs) (ts' ++ rs) ss us := by
  have := h.append (refl rs)
  rwa [List.append_nil, List.append_nil] at this

end Aligned

/-! ## Terms -/

/-- The terms are the same, or both are string literals. -/
inductive Term.Alike : Term → Term → List String → List String → Prop where
  | same (t : Term) : Term.Alike t t [] []
  | quoted (s u : String) : Term.Alike (.quoted s) (.quoted u) [s] [u]

theorem Term.Alike.aligned {t t' : Term} {ss us : List String} (h : t.Alike t' ss us) :
    Aligned (itemTokens t.items) (itemTokens t'.items) ss us := by
  cases h with
  | same t => exact .refl _
  | quoted s u => exact .literal s u .nil

/-- The terms of two lists are alike in turn. -/
inductive Term.AllAlike : List Term → List Term → List String → List String → Prop where
  | nil : AllAlike [] [] [] []
  | cons {t t' : Term} {ts ts' : List Term} {ss us vs ws : List String} (h : t.Alike t' ss us)
    (h' : AllAlike ts ts' vs ws) : AllAlike (t :: ts) (t' :: ts') (ss ++ vs) (us ++ ws)

theorem Term.AllAlike.aligned {ts ts' : List Term} {ss us : List String}
    (h : AllAlike ts ts' ss us) :
    Aligned (itemTokens (commaItems (ts.map Term.items)))
      (itemTokens (commaItems (ts'.map Term.items))) ss us := by
  induction h with
  | nil => exact .nil
  | @cons t t' ts ts' ss us vs ws h h' ih =>
    cases h' with
    | nil =>
      rw [List.append_nil, List.append_nil]
      exact h.aligned
    | cons h1 h2 =>
      simp only [List.map_cons, commaItems, itemTokens_append]
      exact h.aligned.append (.same _ ih)

/-! ## Predicates -/

namespace Predicate

/-- The predicates differ at most in the string literals that are listed. -/
inductive Alike : Predicate → Predicate → List String → List String → Prop where
  | same (p : Predicate) : Alike p p [] []
  | compare (l : Term) (r : Relation) {t t' : Term} {ss us : List String} (h : t.Alike t' ss us) :
    Alike (.compare l r t) (.compare l r t') ss us
  | between (t : Term) {low low' high high' : Term} {ss us vs ws : List String}
    (h : low.Alike low' ss us) (h' : high.Alike high' vs ws) :
    Alike (.between t low high) (.between t low' high') (ss ++ vs) (us ++ ws)
  | isIn (t : Term) {ts ts' : List Term} {ss us : List String} (h : Term.AllAlike ts ts' ss us) :
    Alike (.isIn t ts) (.isIn t ts') ss us
  | isNotIn (t : Term) {ts ts' : List Term} {ss us : List String}
    (h : Term.AllAlike ts ts' ss us) : Alike (.isNotIn t ts) (.isNotIn t ts') ss us
  | rowExistsWhere (rows : RowSource) {p p' : Predicate} {ss us : List String}
    (h : Alike p p' ss us) : Alike (.rowExistsWhere rows p) (.rowExistsWhere rows p') ss us
  | and {p p' q q' : Predicate} {ss us vs ws : List String} (h : Alike p p' ss us)
    (h' : Alike q q' vs ws) : Alike (.and p q) (.and p' q') (ss ++ vs) (us ++ ws)
  | or {p p' q q' : Predicate} {ss us vs ws : List String} (h : Alike p p' ss us)
    (h' : Alike q q' vs ws) : Alike (.or p q) (.or p' q') (ss ++ vs) (us ++ ws)
  | not {p p' : Predicate} {ss us : List String} (h : Alike p p' ss us) :
    Alike (.not p) (.not p') ss us
  | paren {p p' : Predicate} {ss us : List String} (h : Alike p p' ss us) :
    Alike (.paren p) (.paren p') ss us

theorem Alike.negatedIf {p p' : Predicate} {ss us : List String} (h : Alike p p' ss us)
    (negated : Bool) : Alike (negatedIf negated p) (Predicate.negatedIf negated p') ss us := by
  cases negated
  · exact h
  · exact .not h

theorem aligned_group {is is' : List Item} {ss us : List String}
    (h : Aligned (itemTokens is) (itemTokens is') ss us) :
    Aligned (itemTokens [.group is]) (itemTokens [.group is']) ss us := by
  simp only [itemTokens, Item.tokens, List.append_nil]
  exact .same _ (h.behind _)

/-- Predicates that are alike have aligned tokens. -/
theorem Alike.aligned {p p' : Predicate} {ss us : List String} (h : Alike p p' ss us) :
    Aligned (itemTokens p.items) (itemTokens p'.items) ss us := by
  induction h with
  | same p => exact .refl _
  | compare l r h =>
    simp only [items, itemTokens_append]
    exact (Aligned.same _ h.aligned).before _
  | between t h h' =>
    simp only [items, itemTokens_append]
    refine (Aligned.same _ ?_).before _
    rw [itemTokens_append, itemTokens_append]
    exact h.aligned.append (.same _ h'.aligned)
  | isIn t h =>
    simp only [items, itemTokens_append]
    exact (Aligned.same _ (aligned_group h.aligned)).before _
  | isNotIn t h =>
    simp only [items, itemTokens_append]
    exact (Aligned.same _ (Aligned.same _ (aligned_group h.aligned))).before _
  | rowExistsWhere rows h ih =>
    refine Aligned.same _ (aligned_group (.same _ (.same _ ?_)))
    rw [itemTokens_append, itemTokens_append]
    exact (Aligned.same _ ih).before _
  | and h h' ih ih' =>
    simp only [items, itemTokens_append]
    exact ih.append (.same _ ih')
  | or h h' ih ih' =>
    simp only [items, itemTokens_append]
    exact ih.append (.same _ ih')
  | not h ih => exact .same _ ih
  | paren h ih => exact aligned_group ih

end Predicate

end Eligibility.Sql
