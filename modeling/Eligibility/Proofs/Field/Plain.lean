import Eligibility.Proofs.Field

/-!
# Plain and qualified names

Qualified names read character by character, and how they are put together.

* `qualifiedFrom`, `isQualifiedName_eq`: a reader that knows whether a segment has begun;
* `isQualifiedName_of_plain`, `isQualifiedName_dotted`: one segment, and one in front of others;
* **`isQualifiedName_prefixed`**: a prefix that a name may go on from, in front of a name;
* **`isQualifiedName_of_isIdentifier`**: an ASCII identifier without segments that begin with a
  digit.
-/

namespace Eligibility

open Text (pieces)

/-- Whether characters end a qualified name; `inside` tells that a segment has begun. -/
def qualifiedFrom (inside : Bool) : List Char → Bool
  | [] => inside
  | c :: cs =>
    if c == '.' then inside && qualifiedFrom false cs
    else (if inside then c.isAlphanum || c == '_' else c.isAlpha || c == '_') &&
      qualifiedFrom true cs

theorem qualifiedFrom_eq {cs p : List Char} {ps : List (List Char)}
    (h : pieces (· == '.') cs = p :: ps) :
    qualifiedFrom true cs =
        (p.all (fun c => c.isAlphanum || c == '_') && ps.all isPlainName) ∧
      qualifiedFrom false cs = (p :: ps).all isPlainName := by
  induction cs generalizing p ps with
  | nil => cases h; exact ⟨rfl, rfl⟩
  | cons c cs ih =>
    obtain ⟨q, qs, hq⟩ := List.exists_cons_of_ne_nil (pieces_ne_nil (· == '.') cs)
    obtain ⟨htrue, hfalse⟩ := ih hq
    rw [pieces, hq] at h
    unfold qualifiedFrom
    split at h
    · rename_i hc
      cases h
      rw [if_pos hc, if_pos hc, hfalse]
      exact ⟨rfl, rfl⟩
    · rename_i hc
      cases h
      rw [if_neg hc, if_neg hc, htrue]
      exact ⟨by simp [Bool.and_assoc], by simp [isPlainName, Bool.and_assoc]⟩

theorem isQualifiedName_eq (cs : List Char) : isQualifiedName cs = qualifiedFrom false cs := by
  obtain ⟨p, ps, hp⟩ := List.exists_cons_of_ne_nil (pieces_ne_nil (· == '.') cs)
  rw [isQualifiedName, hp, (qualifiedFrom_eq hp).2]

theorem isAlphanum_of_isAlpha {c : Char} (h : (c.isAlpha || c == '_') = true) :
    (c.isAlphanum || c == '_') = true := by
  rw [Char.isAlphanum, Bool.or_right_comm, h, Bool.true_or]

theorem qualifiedFrom_true {cs : List Char} (h : qualifiedFrom false cs = true) :
    qualifiedFrom true cs = true := by
  cases cs with
  | nil => cases h
  | cons c cs =>
    unfold qualifiedFrom at h ⊢
    split at h
    · cases h
    · rename_i hc
      rw [Bool.and_eq_true] at h
      rw [if_neg hc, Bool.and_eq_true]
      exact ⟨isAlphanum_of_isAlpha h.1, h.2⟩

theorem ne_dot_of_plain {c : Char} (h : (c.isAlphanum || c == '_') = true) :
    (c == '.') = false := by
  cases hc : c == '.' with
  | false => rfl
  | true => rw [eq_of_beq hc] at h; cases h

theorem qualifiedFrom_plain {a : List Char} (h : a.all (fun c => c.isAlphanum || c == '_') = true)
    (b : List Char) : qualifiedFrom true (a ++ b) = qualifiedFrom true b := by
  induction a with
  | nil => rfl
  | cons c a ih =>
    rw [List.all_cons, Bool.and_eq_true] at h
    rw [List.cons_append, qualifiedFrom, if_neg (by simp [ne_dot_of_plain h.1]), if_pos rfl, h.1,
      Bool.true_and, ih h.2]

theorem qualifiedFrom_of_plain {a : List Char} (h : isPlainName a = true) (b : List Char) :
    qualifiedFrom false (a ++ b) = qualifiedFrom true b := by
  cases a with
  | nil => cases h
  | cons c a =>
    rw [isPlainName, Bool.and_eq_true] at h
    rw [List.cons_append, qualifiedFrom,
      if_neg (by simp [ne_dot_of_plain (isAlphanum_of_isAlpha h.1)]), if_neg Bool.false_ne_true,
      h.1, Bool.true_and, qualifiedFrom_plain h.2]

theorem isQualifiedName_of_plain {a : List Char} (h : isPlainName a = true) :
    isQualifiedName a = true := by
  rw [isQualifiedName_eq, ← List.append_nil a, qualifiedFrom_of_plain h]
  rfl

theorem isQualifiedName_dotted {a b : List Char} (ha : isPlainName a = true)
    (hb : isQualifiedName b = true) : isQualifiedName (a ++ '.' :: b) = true := by
  rw [isQualifiedName_eq] at hb ⊢
  rw [qualifiedFrom_of_plain ha, qualifiedFrom, if_pos (beq_self_eq_true '.'), Bool.true_and, hb]

/-- The segment before the first dot of a qualified name is plain, and the rest is qualified. -/
theorem isQualifiedName_cut {a b : List Char} (ha : '.' ∉ a)
    (h : isQualifiedName (a ++ '.' :: b) = true) :
    isPlainName a = true ∧ isQualifiedName b = true := by
  have hpieces (a : List Char) (ha : '.' ∉ a) :
      pieces (· == '.') (a ++ '.' :: b) = a :: pieces (· == '.') b := by
    induction a with
    | nil => rfl
    | cons c a ih =>
      rw [List.mem_cons, not_or] at ha
      rw [List.cons_append, pieces, if_neg (by simpa using Ne.symm ha.1), ih ha.2]
  rwa [isQualifiedName, hpieces a ha, List.all_cons, Bool.and_eq_true] at h

/-! ## Prefixes -/

theorem qualifiedFrom_prefixed {p cs : List Char} {inside : Bool}
    (hp : qualifiedFrom inside (p ++ ['_']) = true) (hcs : qualifiedFrom false cs = true) :
    qualifiedFrom inside (p ++ cs) = true := by
  induction p generalizing inside with
  | nil =>
    -- the name begins a segment of its own, or goes on with the last one of the prefix
    cases inside with
    | false => exact hcs
    | true => exact qualifiedFrom_true hcs
  | cons c p ih =>
    rw [List.cons_append, qualifiedFrom] at hp ⊢
    split at hp
    · rename_i hc
      rw [Bool.and_eq_true] at hp
      rw [if_pos hc, hp.1, ih hp.2]
      rfl
    · rename_i hc
      rw [Bool.and_eq_true] at hp
      rw [if_neg hc, hp.1, ih hp.2]
      rfl

theorem isQualifiedName_prefixed {p cs : List Char} (hp : isQualifiedName (p ++ ['_']) = true)
    (hcs : isQualifiedName cs = true) : isQualifiedName (p ++ cs) = true := by
  rw [isQualifiedName_eq] at hp hcs ⊢
  exact qualifiedFrom_prefixed hp hcs

/-! ## ASCII identifiers -/

theorem plain_of_isWordStart {c : Char} (h : isWordStart c = true) (hc : c.val < 128) :
    (c.isAlpha || c == '_') = true := by
  rwa [isWordStart, Text.isLetter, if_pos hc] at h

theorem plain_of_isWordChar {c : Char} (h : isWordChar c = true) (hc : c.val < 128) :
    (c.isAlphanum || c == '_') = true := by
  rwa [isWordChar, Text.isLetter, Text.isNumeral, if_pos hc, if_pos hc] at h

/-- What goes on with a segment also begins one, if it begins neither with a digit nor a dot. -/
theorem qualifiedFrom_false {c : Char} {cs : List Char} (h : qualifiedFrom true (c :: cs) = true)
    (hdot : (c == '.') = false) (hdigit : c.isDigit = false) :
    qualifiedFrom false (c :: cs) = true := by
  rw [qualifiedFrom, hdot, if_neg Bool.false_ne_true, Char.isAlphanum, hdigit, Bool.or_false] at h
  rw [qualifiedFrom, hdot, if_neg Bool.false_ne_true]
  exact h

/-- Some segment behind a dot begins with a digit. -/
def hasDigitSegment : List Char → Bool
  | [] => false
  | c :: cs => c == '.' && cs.head?.any Char.isDigit || hasDigitSegment cs

theorem qualifiedFrom_of_tailWidth {cs : List Char} (h : tailWidth cs = cs.length)
    (hascii : ∀ c ∈ cs, c.val < 128) (hdigit : hasDigitSegment cs = false) :
    qualifiedFrom true cs = true := by
  induction cs with
  | nil => rfl
  | cons c cs ih =>
    rw [List.forall_mem_cons] at hascii
    rw [hasDigitSegment, Bool.or_eq_false_iff] at hdigit
    rw [tailWidth] at h
    split at h
    case isFalse => cases h
    rename_i hc
    have hrest := ih (Nat.succ.inj h) hascii.2 hdigit.2
    rw [qualifiedFrom]
    cases hdot : c == '.' with
    | false =>
      rw [hdot, Bool.false_and, Bool.or_false] at hc
      rw [if_neg Bool.false_ne_true, if_pos rfl, plain_of_isWordChar hc hascii.1, hrest]
      rfl
    | true =>
      have hword : isWordChar c = false := by rw [eq_of_beq hdot]; rfl
      rw [hword, hdot, Bool.false_or, Bool.true_and] at hc
      rw [if_pos rfl, Bool.true_and]
      cases cs with
      | nil => cases hc
      | cons d ds =>
        rw [hdot, Bool.true_and] at hdigit
        have hplain := plain_of_isWordChar hc (hascii.2 d List.mem_cons_self)
        exact qualifiedFrom_false hrest (ne_dot_of_plain hplain) hdigit.1

def isAscii (s : String) : Bool := s.toList.all (·.val < 128)

/-- **An ASCII identifier is a qualified name**, unless a segment of it begins with a digit. -/
theorem isQualifiedName_of_isIdentifier {s : String} (h : IsIdentifier s)
    (hascii : isAscii s = true) (hdigit : hasDigitSegment s.toList = false) :
    isQualifiedName s.toList = true := by
  have hascii : ∀ c ∈ s.toList, c.val < 128 := by simpa [isAscii] using hascii
  have hname := h.isName
  have hwidth := tailWidth_of_isName hname
  rw [isQualifiedName_eq]
  generalize s.toList = cs at hname hwidth hascii hdigit
  cases cs with
  | nil => cases hname
  | cons c cs =>
    have hrest := qualifiedFrom_of_tailWidth hwidth hascii hdigit
    have hplain := plain_of_isWordStart (isName_cons hname).1 (hascii c List.mem_cons_self)
    have hdot := ne_dot_of_plain (isAlphanum_of_isAlpha hplain)
    rw [qualifiedFrom, hdot, if_neg Bool.false_ne_true, Bool.and_eq_true] at hrest ⊢
    exact ⟨hplain, hrest.2⟩

end Eligibility
