import Eligibility.Proofs.Script.Alike
import Eligibility.Proofs.Script.Failure
import Eligibility.Proofs.Token.Comment

/-!
# Comments in a script

Comments at the ends of lines move the ends of these lines, and no reader asks where a line ends.

* `Token.Stays`: tokens of two texts that match;
* `warnings_respects`, `rules_respects`, `locate_respects`: what of a report does not change;
* **`Report.ofTokens_stays`**, **`Report.ofText_commented`**.
-/

namespace Eligibility

/-! ## Tokens -/

/-- A token of a text, not the one for its end, and the one that matches it. -/
def Token.Stays (t u : Token) : Prop := t.kind ≠ .eof ∧ t.Matches u

theorem Token.Stays.position {t u : Token} (h : t.Stays u) (hk : t.kind ≠ .newline) :
    t.position = u.position := by
  show Position.mk t.position.line t.position.column = u.position
  rw [h.2.line, h.2.column hk h.1]

theorem Token.Stays.alike {t u : Token} (h : t.Stays u) : t.Alike u :=
  ⟨h.2.kind, fun _ => h.2.text, h.position⟩

theorem stays_of_commented {text text' : String} (h : Commented text.toList text'.toList) :
    List.Forall₂ Token.Stays (tokenize text).tokens (tokenize text').tokens := by
  have hends : ∀ t ∈ (tokenize text).tokens, t.kind ≠ .eof := (tokensFrom_laid [] text.toList).2.2
  exact (List.forall₂_and_left _ _).2 ⟨hends, (tokensFrom_commented h .first).1⟩

/-! ## Reports -/

section Report

variable {items items' : List Item} {s s' : TokenStream}

theorem filterMap_respects {α : Type} {R : Token → Token → Prop} {f : Item → Option α}
    (hf : ∀ i j, Item.Alike R i j → f i = f j) (h : List.Forall₂ (Item.Alike R) items items') :
    items.filterMap f = items'.filterMap f := by
  induction h with
  | nil => rfl
  | cons hij h ih => rw [List.filterMap_cons, List.filterMap_cons, hf _ _ hij, ih]

/-- Stray tokens are no line breaks, and so the warnings of them stay where they are. -/
theorem warnings_respects (h : List.Forall₂ (Item.Alike Token.Stays) items items') :
    items.filterMap Item.warning? = items'.filterMap Item.warning? := by
  refine filterMap_respects (fun i j hij => ?_) h
  cases hij with
  | rule r => rfl
  | stray htu hk => rw [Item.warning?, Item.warning?, htu.position hk, htu.2.text]

theorem rules_respects {R : Token → Token → Prop}
    (h : List.Forall₂ (Item.Alike R) items items') :
    items.filterMap Item.rule? = items'.filterMap Item.rule? := by
  refine filterMap_respects (fun i j hij => ?_) h
  cases hij <;> rfl

/-- A failure is at a token or at the end of the text, whose lines stay. -/
theorem locate_respects {e f : Failure} {p q : Position} (h : e.Alike Token.Stays f)
    (hpq : p.line = q.line) :
    (Report.locate p e).cause = (Report.locate q f).cause ∧
      (Report.locate p e).position.line = (Report.locate q f).position.line := by
  obtain ⟨expected, rest⟩ := e
  obtain ⟨_, rest'⟩ := f
  obtain ⟨rfl, hrest⟩ := h
  refine ⟨rfl, ?_⟩
  cases hrest with
  | nil => exact hpq
  | cons htu _ => exact htu.2.line

/-- **Streams of tokens that stay have the same warnings,** the same rules if they have no failure,
and else the same failure on the same line. -/
theorem Report.ofTokens_stays (h : List.Forall₂ Token.Stays s.tokens s'.tokens)
    (hfinish : s.finish.line = s'.finish.line) :
    (Report.ofTokens s).warnings = (Report.ofTokens s').warnings ∧
      ((Report.ofTokens s).isValid = true → Report.ofTokens s = Report.ofTokens s') ∧
      ∀ e, (Report.ofTokens s).error? = some e →
        ∃ e', (Report.ofTokens s').error? = some e' ∧ e.cause = e'.cause ∧
          e.position.line = e'.position.line := by
  obtain ⟨hitems, hfailure⟩ := readItems_respects (fun _ _ => Token.Stays.alike) h
  rw [isValid_ofTokens, error?_ofTokens, error?_ofTokens, ofTokens, ofTokens]
  generalize readItems s.tokens = x at hitems hfailure
  generalize readItems s'.tokens = y at hitems hfailure
  obtain ⟨items, f⟩ := x
  obtain ⟨items', f'⟩ := y
  refine ⟨warnings_respects hitems, fun hvalid => ?_, fun e he => ?_⟩
  · obtain rfl : f = none := hvalid
    cases hfailure
    show Report.mk _ _ = Report.mk _ _
    rw [warnings_respects hitems, rules_respects hitems]
  · obtain ⟨g, rfl, rfl⟩ := Option.map_eq_some_iff.1 he
    cases hfailure with
    | some hg => exact ⟨_, rfl, locate_respects hg hfinish⟩

end Report

/-! ## Texts -/

theorem isBlankText_eq_false {text : String} :
    Text.isBlankText text = false ↔ ∃ c ∈ text.toList, Text.isBlank c = false := by
  rw [Text.isBlankText, List.all_eq_false]
  simp only [Bool.not_eq_true]

/-- **Comments are transparent.** They move the columns of line breaks and of the end of the text;
an error stays on its line. -/
theorem Report.ofText_commented {text text' : String} (h : Commented text.toList text'.toList)
    (hblank : ∃ c ∈ text.toList, Text.isBlank c = false) :
    List.Forall₂ Token.Matches (tokenize text).toList (tokenize text').toList ∧
      (Report.ofText text).warnings = (Report.ofText text').warnings ∧
      ((Report.ofText text).isValid = true → Report.ofText text = Report.ofText text') ∧
      ∀ e, (Report.ofText text).error? = some e →
        ∃ e', (Report.ofText text').error? = some e' ∧ e.cause = e'.cause ∧
          e.position.line = e'.position.line := by
  obtain ⟨c, hc, hcblank⟩ := hblank
  have htext : Text.isBlankText text = false := isBlankText_eq_false.2 ⟨c, hc, hcblank⟩
  have htext' : Text.isBlankText text' = false :=
    isBlankText_eq_false.2 ⟨c, h.sublist.subset hc, hcblank⟩
  rw [ofText, ofText, htext, htext', if_neg Bool.false_ne_true, if_neg Bool.false_ne_true]
  exact ⟨tokenize_commented h,
    ofTokens_stays (stays_of_commented h) (tokensFrom_commented h .first).2⟩

/-- A stray word, and a rule whose name has a sharp in it. -/
def bareScript : String := "once\nRULE \"Ana's #1\"\nWHEN age >= 18"

/-- The same script with comments that seem to open strings, rules and comments. -/
def notedScript : String := "once# \"Ana\nRULE \"Ana's #1\"\nWHEN age >= 18#AND # RULE 'x"

theorem commented_notedScript : Commented bareScript.toList notedScript.toList := by
  have hlast : Commented "WHEN age >= 18".toList
      ("WHEN age >= 18".toList ++ '#' :: "AND # RULE 'x".toList) :=
    .last (by decide +kernel) (.comment (by decide +kernel) (by decide +kernel))
  have hrule : Commented ("RULE \"Ana's #1\"".toList ++ '\n' :: _) _ :=
    .line (by decide +kernel) .nothing hlast
  have honce : Commented ("once".toList ++ '\n' :: _)
      ("once".toList ++ ('#' :: " \"Ana".toList ++ '\n' :: _)) :=
    .line (by decide +kernel) (.comment (by decide +kernel) (by decide +kernel)) hrule
  simpa [bareScript, notedScript] using honce

/-- A rule that lacks a value, and not less so with a comment. -/
theorem commented_lacking :
    Commented "RULE \"A\"\nWHEN age >=".toList "RULE \"A\"\nWHEN age >=# 18".toList := by
  have hlast : Commented "WHEN age >=".toList ("WHEN age >=".toList ++ '#' :: " 18".toList) :=
    .last (by decide +kernel) (.comment (by decide +kernel) (by decide +kernel))
  have hrule : Commented ("RULE \"A\"".toList ++ '\n' :: _) _ :=
    .line (by decide +kernel) .nothing hlast
  simpa using hrule

theorem notedScript_transparent :
    (Report.ofText bareScript).isValid = true ∧
      Report.ofText bareScript = Report.ofText notedScript ∧
      (Report.ofText notedScript).warnings = [⟨⟨1, 1⟩, .strayToken "once"⟩] ∧
      (Report.ofText "RULE \"A\"\nWHEN age >=").error? = some ⟨⟨2, 12⟩, .value⟩ ∧
      ∃ e, (Report.ofText "RULE \"A\"\nWHEN age >=# 18").error? = some e ∧
        Expected.value = e.cause ∧ 2 = e.position.line := by
  have hvalid : (Report.ofText bareScript).isValid = true := by decide +kernel
  have herror : (Report.ofText "RULE \"A\"\nWHEN age >=").error? = some ⟨⟨2, 12⟩, .value⟩ := by
    decide +kernel
  obtain ⟨-, hwarnings, hreport, -⟩ := Report.ofText_commented commented_notedScript
    ⟨'o', by decide +kernel, by decide +kernel⟩
  obtain ⟨-, -, -, hfailure⟩ := Report.ofText_commented commented_lacking
    ⟨'R', by decide +kernel, by decide +kernel⟩
  exact ⟨hvalid, hreport hvalid, hwarnings.symm.trans (by decide +kernel), herror,
    hfailure _ herror⟩

end Eligibility
