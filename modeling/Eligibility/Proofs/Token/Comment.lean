import Mathlib.Data.List.Forall2
import Eligibility.Proofs.Token.Edge

/-!
# Comments in a text

* `Adds`, `Commented`: a text, and the same text with comments at the ends of some of its lines;
* `Token.Matches`: tokens that agree in all but the column of a line break or of the end;
* `tokensFrom_adds`, `tokensFrom_commented`, **`tokenize_commented`**: comments change no other
  column and no token.
-/

namespace Eligibility

/-! ## Comments at the ends of lines -/

/-- What is added at the end of a line: nothing, or a comment where no string is open. -/
inductive Adds (line : List Char) : List Char → Prop
  | nothing : Adds line []
  | comment {body : List Char} (hs : (zoneAfter .code line []).isString = false)
      (hbody : IsLine body) : Adds line ('#' :: body)

/-- The second text is the first one, which has no carriage return, with comments at the ends of
some of its lines. -/
inductive Commented : List Char → List Char → Prop
  | last {line added : List Char} (hline : IsLine line) (h : Adds line added) :
      Commented line (line ++ added)
  | line {line added text text' : List Char} (hline : IsLine line) (h : Adds line added)
      (hrest : Commented text text') :
      Commented (line ++ '\n' :: text) (line ++ (added ++ '\n' :: text'))

theorem Commented.sublist {text text' : List Char} (h : Commented text text') :
    text.Sublist text' := by
  induction h with
  | last hline h => exact List.sublist_append_left _ _
  | line hline h hrest ih =>
    exact (List.Sublist.refl _).append ((ih.cons_cons '\n').trans (List.sublist_append_right _ _))

/-! ## Tokens -/

/-- The same token, but for the column of a line break and of the end of the text. -/
structure Token.Matches (t u : Token) : Prop where
  kind : t.kind = u.kind
  text : t.text = u.text
  line : t.position.line = u.position.line
  column : t.kind ≠ .newline → t.kind ≠ .eof → t.position.column = u.position.column

theorem Token.Matches.refl (t : Token) : t.Matches t := ⟨rfl, rfl, rfl, fun _ _ => rfl⟩

theorem Token.Matches.newline {p q : Position} (h : p.line = q.line) :
    Token.Matches ⟨.newline, "\n", p⟩ ⟨.newline, "\n", q⟩ :=
  ⟨rfl, rfl, h, fun hn => absurd rfl hn⟩

theorem tokensFrom_newline (p : Position) (ds : List Char) :
    tokensFrom p ('\n' :: ds) = (tokensFrom p.nextLine ds).behind [⟨.newline, "\n", p⟩] := by
  have hahead : ('\n' :: ds).drop (gapWidth false ('\n' :: ds)) = '\n' :: ds := rfl
  rw [tokensFrom_of_cons hahead]
  rfl

theorem gapWidth_comment {body : List Char} (h : IsLine body) :
    gapWidth false ('#' :: body) = ('#' :: body).length := by
  have hbody : gapWidth true body = body.length := by
    induction body with
    | nil => rfl
    | cons c body ih =>
      have hc := h c List.mem_cons_self
      rw [gapWidth, if_pos (by simp [hc]), ih h.tail, List.length_cons]
  simp [gapWidth, isGap, isSpacing, h.closes, hbody]

/-- What is added to a line moves the end of the line, and adds no token. -/
theorem tokensFrom_adds {line added ds : List Char} (hline : IsLine line) (h : Adds line added)
    (hds : Edge ds) (hend : ds.head? ≠ some '#') (p : Position) :
    tokensFrom p (line ++ (added ++ ds)) =
      (tokensFrom (p.right (line.length + added.length)) ds).behind (tokensFrom p line).tokens := by
  cases h with
  | nothing => exact tokensFrom_line hline hds (fun hm => absurd hm hend) p
  | @comment body hs hbody =>
    have hcomment : IsLine ('#' :: body) := List.forall_mem_cons.2 ⟨by decide, hbody⟩
    have hgap := gapWidth_edge hcomment hds false
    rw [if_pos (gapWidth_comment hbody)] at hgap
    have hedge : Edge ('#' :: body ++ ds) := edge_comment hbody hds
    rw [tokensFrom_line hline hedge (fun _ => hs) p, tokensFrom_gap hgap, Position.right_right]

theorem tokensFrom_commented {text text' : List Char} (h : Commented text text') (p : Position) :
    List.Forall₂ Token.Matches (tokensFrom p text).tokens (tokensFrom p text').tokens ∧
      (tokensFrom p text).finish.line = (tokensFrom p text').finish.line := by
  have hsame (ts : List Token) : List.Forall₂ Token.Matches ts ts :=
    List.forall₂_same.2 fun t _ => .refl t
  induction h generalizing p with
  | @last line added hline h =>
    have hplain := tokensFrom_adds hline .nothing edge_nil nofun p
    have hadded := tokensFrom_adds hline h edge_nil nofun p
    rw [List.append_nil, tokensFrom_nil] at hadded
    rw [List.append_nil, List.append_nil, tokensFrom_nil] at hplain
    rw [hplain, hadded]
    exact ⟨hsame _, rfl⟩
  | @line line added text text' hline h hrest ih =>
    have hplain := tokensFrom_adds hline .nothing (edge_newline text) nofun p
    have hadded := tokensFrom_adds hline h (edge_newline text') nofun p
    rw [tokensFrom_newline, TokenStream.behind_behind] at hplain hadded
    obtain ⟨htokens, hfinish⟩ := ih p.nextLine
    rw [hadded, show tokensFrom p (line ++ '\n' :: text) = _ from hplain]
    have hbreak : List.Forall₂ Token.Matches
        [⟨.newline, "\n", p.right (line.length + 0)⟩]
        [⟨.newline, "\n", p.right (line.length + added.length)⟩] := .cons (.newline rfl) .nil
    exact ⟨List.rel_append (List.rel_append (hsame _) hbreak) htokens, hfinish⟩

/-- **Comments change no token of a text but the columns of line breaks and of its end.** -/
theorem tokenize_commented {text text' : String} (h : Commented text.toList text'.toList) :
    List.Forall₂ Token.Matches (tokenize text).toList (tokenize text').toList := by
  obtain ⟨htokens, hfinish⟩ := tokensFrom_commented h .first
  exact List.rel_append htokens (.cons ⟨rfl, rfl, hfinish, fun _ h => absurd rfl h⟩ .nil)

end Eligibility
