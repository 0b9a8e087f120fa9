import Eligibility.Proofs.Script.Comment
import Eligibility.Proofs.Script.Draft
import Eligibility.Proofs.Token.Case

/-!
# Letter case in a script

Scripts that differ in the case of keywords have the same report, except that a warning of a stray
keyword quotes it as it is written.

* `Token.Recased.alike`: no reader tells such keywords apart;
* `Warning.Recased`, `warnings_recased`: what changes of the warnings;
* **`Report.ofTokens_recased`**, **`Report.ofText_recased`**.
-/

namespace Eligibility

open Text

/-! ## Tokens -/

/-- Readers look at the text of no keyword. -/
theorem isKeyword_of_hasText {k : TokenKind} (h : k.hasText = true) : k.isKeyword = false := by
  cases k with
  | string | number | identifier => decide
  | _ => cases h

theorem Token.Recased.alike {t u : Token} (h : t.Recased u) : t.Alike u :=
  ⟨h.kind, fun ht => h.text (isKeyword_of_hasText ht), fun _ => h.position⟩

theorem Recased.isBlankText {text text' : String} (h : Recased text.toList text'.toList) :
    isBlankText text' = isBlankText text := by
  have hall (cs : List Char) : (cs.map Char.toUpper).all isBlank = cs.all isBlank := by
    rw [List.all_map]
    exact congrArg cs.all (funext caseless_isBlank)
  rw [Text.isBlankText, Text.isBlankText, ← hall, h.upper, hall]

/-! ## Reports -/

/-- The same warning, but for the case of the token that it quotes. -/
inductive Warning.Recased : Warning → Warning → Prop
  | strayToken {s s' : String} (h : upper s = upper s') :
      Warning.Recased (.strayToken s) (.strayToken s')
  | noCondition (rule : String) : Warning.Recased (.noCondition rule) (.noCondition rule)

/-- Warnings at the same place. -/
def Located.Recased (w w' : Located Warning) : Prop :=
  w.position = w'.position ∧ w.cause.Recased w'.cause

section Report

variable {items items' : List Item} {s s' : TokenStream}

theorem warnings_recased (h : List.Forall₂ (Item.Alike Token.Recased) items items') :
    List.Forall₂ Located.Recased (items.filterMap Item.warning?)
      (items'.filterMap Item.warning?) := by
  induction h with
  | nil => exact .nil
  | @cons i j items items' hij _ ih =>
    cases hij with
    | rule r =>
      cases hr : (Item.rule r).warning? with
      | none => rwa [List.filterMap_cons_none hr, List.filterMap_cons_none hr]
      | some w =>
        rw [List.filterMap_cons_some hr, List.filterMap_cons_some hr]
        rw [Item.warning?, Option.ite_none_right_eq_some] at hr
        obtain rfl := Option.some.inj hr.2
        exact .cons ⟨rfl, .noCondition r.name⟩ ih
    | stray htu hk => exact .cons ⟨htu.position, .strayToken htu.upper⟩ ih

theorem locate_recased {e f : Failure} (h : e.Alike Token.Recased f) (p : Position) :
    Report.locate p e = Report.locate p f := by
  obtain ⟨expected, rest⟩ := e
  obtain ⟨_, rest'⟩ := f
  obtain ⟨rfl, hrest⟩ := h
  cases hrest with
  | nil => rfl
  | cons htu _ =>
    show Located.mk _ _ = Located.mk _ _
    exact congrArg (Located.mk · expected) htu.position

/-- **Streams that differ in the case of keywords have the same outcome,** and warnings at the same
places. -/
theorem Report.ofTokens_recased (h : List.Forall₂ Token.Recased s.tokens s'.tokens)
    (hfinish : s.finish = s'.finish) :
    (Report.ofTokens s').outcome = (Report.ofTokens s).outcome ∧
      List.Forall₂ Located.Recased (Report.ofTokens s).warnings (Report.ofTokens s').warnings := by
  obtain ⟨hitems, hfailure⟩ := readItems_respects (fun _ _ => Token.Recased.alike) h
  rw [ofTokens, ofTokens]
  generalize readItems s.tokens = x at hitems hfailure
  generalize readItems s'.tokens = y at hitems hfailure
  obtain ⟨items, f⟩ := x
  obtain ⟨items', f'⟩ := y
  refine ⟨?_, warnings_recased hitems⟩
  cases hfailure with
  | none => exact congrArg Except.ok (rules_respects hitems).symm
  | some hf => exact congrArg Except.error (by rw [hfinish, locate_recased hf])

end Report

/-! ## Texts -/

/-- **The case of keywords does not matter**, save for the stray tokens that warnings quote. -/
theorem Report.ofText_recased {text text' : String} (h : Recased text.toList text'.toList) :
    List.Forall₂ Token.Recased (tokenize text).tokens (tokenize text').tokens ∧
      (tokenize text).finish = (tokenize text').finish ∧
      (ofText text').draft = { (ofText text).draft with warnings := (ofText text').warnings } ∧
      List.Forall₂ Located.Recased (ofText text).warnings (ofText text').warnings := by
  obtain ⟨htokens, hfinish⟩ := tokensFrom_recased h .first
  refine ⟨htokens, hfinish, ?_⟩
  have hreport : (ofText text').outcome = (ofText text).outcome ∧
      List.Forall₂ Located.Recased (ofText text).warnings (ofText text').warnings := by
    rw [ofText, ofText, h.isBlankText]
    split
    · exact ⟨rfl, .nil⟩
    · exact ofTokens_recased htokens hfinish
  refine ⟨?_, hreport.2⟩
  obtain ⟨houtcome, -⟩ := hreport
  generalize ofText text = r at houtcome
  generalize ofText text' = r' at houtcome
  obtain ⟨warnings, outcome⟩ := r
  obtain ⟨warnings', _⟩ := r'
  obtain rfl := houtcome
  rfl

/-- A stray keyword, and a rule with keywords in small letters whose name is one. -/
def lowerScript : String := "not\nrule 'When' when herd is  not empty"

/-- The same script with other letters. -/
def mixedScript : String := "Not\nRULE 'When' wHEN herd IS  nOT EMPTY"

theorem recased_mixedScript : Recased lowerScript.toList mixedScript.toList := by
  have hempty : Recased (" ".toList ++ ("is  not empty".toList ++ []))
      (" ".toList ++ ("IS  nOT EMPTY".toList ++ [])) :=
    .token (by decide +kernel) (by decide) (by decide +kernel) (by decide +kernel)
      (by decide +kernel) (.last rfl)
  have hfield : Recased (" ".toList ++ ("herd".toList ++ _)) (" ".toList ++ ("herd".toList ++ _)) :=
    .token (by decide +kernel) (by decide) (by decide +kernel) rfl (fun _ => rfl) hempty
  have hwhen : Recased (" ".toList ++ ("when".toList ++ _)) (" ".toList ++ ("wHEN".toList ++ _)) :=
    .token (by decide +kernel) (by decide) (by decide +kernel) (by decide +kernel)
      (by decide +kernel) hfield
  have hname : Recased (" ".toList ++ ("'When'".toList ++ _))
      (" ".toList ++ ("'When'".toList ++ _)) :=
    .token (by decide +kernel) (by decide) (by decide +kernel) rfl (fun _ => rfl) hwhen
  have hrule : Recased ([] ++ ("rule".toList ++ _)) ([] ++ ("RULE".toList ++ _)) :=
    .token (by decide +kernel) (by decide) (by decide +kernel) (by decide +kernel)
      (by decide +kernel) hname
  have hline : Recased ([] ++ ("\n".toList ++ _)) ([] ++ ("\n".toList ++ _)) :=
    .token (by decide +kernel) (by decide) (by decide +kernel) rfl (fun _ => rfl) hrule
  have hstray : Recased ([] ++ ("not".toList ++ _)) ([] ++ ("Not".toList ++ _)) :=
    .token (by decide +kernel) (by decide) (by decide +kernel) (by decide +kernel)
      (by decide +kernel) hline
  simpa [lowerScript, mixedScript] using hstray

theorem mixedScript_same :
    (Report.ofText lowerScript).isValid = true ∧
      (Report.ofText mixedScript).draft =
        { (Report.ofText lowerScript).draft with warnings := [⟨⟨1, 1⟩, .strayToken "Not"⟩] } ∧
      (Report.ofText lowerScript).warnings = [⟨⟨1, 1⟩, .strayToken "not"⟩] := by
  obtain ⟨-, -, hdraft, -⟩ := Report.ofText_recased recased_mixedScript
  have hwarnings : (Report.ofText mixedScript).warnings = [⟨⟨1, 1⟩, .strayToken "Not"⟩] := by
    decide +kernel
  rw [hwarnings] at hdraft
  exact ⟨by decide +kernel, hdraft, by decide +kernel⟩

end Eligibility
