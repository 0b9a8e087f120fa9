import Eligibility.Proofs.Script.Piece
import Eligibility.Proofs.Token.Quoted

/-!
# Quoted text in scripts

A string stands in a script between double quotes, and a text that is quotable is found again there.

* `escaped`, `quotedBy_quote`: a string as a script writes it is its text between quotes;
* **`scan_string`**, `content_string`.
-/

namespace Eligibility

open Text

/-- A text with a backslash before every quote. -/
def escaped (cs : List Char) : List Char := cs.flatMap fun c => if c = '"' then ['\\', '"'] else [c]

theorem toList_text_string (s : String) :
    (Value.string s).text.toList = '"' :: (escaped s.toList ++ ['"']) := by
  change ("\"" ++ Text.replace '"' "\\\"" s ++ "\"").toList = _
  simp only [String.toList_append, Text.replace, String.toList_ofList]
  rfl

theorem quotedBy_quote (s : String) : quotedBy '"' s = (Value.string s).text := by
  rw [← String.toList_inj, toList_text_string, toList_quotedBy]
  rfl

theorem scan_string {s : String} (h : IsQuotable s.toList) (ds : List Char) :
    scan ((Value.string s).text.toList ++ ds) = (.string, (Value.string s).text) :: scan ds := by
  have htokens := congrArg TokenStream.tokens (tokenize_quotedBy_append (.inl rfl) h (.ofList ds))
  rw [quotedBy_quote, tokenize, String.toList_append, String.toList_ofList] at htokens
  rw [scan, htokens, TokenStream.behind, List.map_append, map_piece_tokensFrom]
  rfl

/-- A string token stands for the text that it quotes. -/
theorem content_string {t : Token} (hk : t.kind = .string) {s : String}
    (ht : t.text = (Value.string s).text) (h : s.toList.getLast? ≠ some '\\') : t.content = s := by
  have hcontent := content_quotedBy (.inl rfl) s t.position
  rw [if_neg h, String.ofList_toList, quotedBy_quote] at hcontent
  rwa [Token.content, if_pos hk, ht]

end Eligibility
