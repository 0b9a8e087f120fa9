import Eligibility.Proofs.Sql.Name
import Eligibility.Proofs.Sql.Numeral
import Eligibility.Sql.Predicate

/-!
# The items of terms and predicates

* `Term.items`, `Predicate.items`: the items that a tree is written with;
* `Predicate.all_of_and`, `Predicate.any_of_or`: what holds of a chain of predicates;
* `Term.Clean`, `Predicate.Clean`: names are names, and SQL text from the schema is `lit`;
* `opens_name`, `opens_between`, `opens_relation`: keywords and relations with their spaces;
* **`Term.shows`**, **`Predicate.shows`**: the text of a clean tree reads as its items, so what
  stands in a string literal never leaves it.
-/

namespace Eligibility.Sql

/-- A word of SQL text. -/
abbrev Item.word (s : String) : Item := .token (.word s)

abbrev Item.symbol (s : String) : Item := .token (.symbol s)

abbrev Item.number (s : String) : Item := .token (.number s)

abbrev Item.literal (s : String) : Item := .token (.literal s)

open Item (word symbol number literal)

/-! ## Items -/

def RowSource.items (r : RowSource) : List Item :=
  word "FROM" :: (textItems r.table ++ [word r.rowAlias, word "WHERE",
    word (r.rowAlias ++ "." ++ r.foreignKey), symbol "=", word r.baseKey])

def Aggregate.items : Aggregate → List Item
  | countRows => [word "COUNT", .group [symbol "*"]]
  | count c => [word "COUNT", .group [word c.text]]
  | sum c => [word "COALESCE",
      .group [word "SUM", .group [word c.text], symbol ",", number "0"]]
  | avg c => [word "AVG", .group [word c.text]]
  | min c => [word "MIN", .group [word c.text]]
  | max c => [word "MAX", .group [word c.text]]

/-- The items of a binary64 number. -/
def floatItems (x : Binary64) : List Item := textItems x.text

def Term.items : Term → List Item
  | column c => [word c.text]
  | name s => [word s]
  | int n => intItems n.toInt
  | float x => floatItems x
  | quoted s => [literal s]
  | verbatim s => textItems s
  | aggregate a rows => [.group (word "SELECT" :: (a.items ++ rows.items))]

/-- Lists of items with commas between them. -/
def commaItems : List (List Item) → List Item
  | [] => []
  | [is] => is
  | is :: js :: iss => is ++ symbol "," :: commaItems (js :: iss)

def likeItems (before after : Bool) (s : String) : List Item :=
  let any (b : Bool) := if b then "%" else ""
  [word "LIKE", literal (any before ++ likeEscape s ++ any after)] ++
    if likeEscape s = s then [] else [word "ESCAPE", literal "!"]

namespace Predicate

def items : Predicate → List Item
  | always => [number "1", symbol "=", number "1"]
  | never => [number "1", symbol "=", number "0"]
  | compare l r t => l.items ++ symbol r.text :: t.items
  | isNull t => t.items ++ [word "IS", word "NULL"]
  | isNotNull t => t.items ++ [word "IS", word "NOT", word "NULL"]
  | between t low high => t.items ++ word "BETWEEN" :: (low.items ++ word "AND" :: high.items)
  | isIn t ts => t.items ++ [word "IN", .group (commaItems (ts.map Term.items))]
  | isNotIn t ts => t.items ++ [word "NOT", word "IN", .group (commaItems (ts.map Term.items))]
  | like t before after s => t.items ++ likeItems before after s
  | rowExists rows => [word "EXISTS", .group (word "SELECT" :: number "1" :: rows.items)]
  | rowExistsWhere rows filter => [word "EXISTS",
      .group (word "SELECT" :: number "1" :: (rows.items ++ word "AND" :: filter.items))]
  | and p q => p.items ++ word "AND" :: q.items
  | or p q => p.items ++ word "OR" :: q.items
  | not p => word "NOT" :: p.items
  | paren p => [.group p.items]

end Predicate

/-! ## Chains -/

namespace Predicate

section Chains

variable {P : Predicate → Prop} {ps : List Predicate}

theorem all_of_and (halways : P always) (hand : ∀ p q, P p → P q → P (and p q))
    (h : ∀ p ∈ ps, P p) : P (all ps) := by
  cases ps with
  | nil => exact halways
  | cons p ps =>
    rw [List.forall_mem_cons] at h
    exact List.foldlRecOn ps and h.1 fun p hp q hq => hand p q hp (h.2 q hq)

theorem any_of_or (hnever : P never) (hor : ∀ p q, P p → P q → P (or p q))
    (h : ∀ p ∈ ps, P p) : P (any ps) := by
  cases ps with
  | nil => exact hnever
  | cons p ps =>
    rw [List.forall_mem_cons] at h
    exact List.foldlRecOn ps or h.1 fun p hp q hq => hor p q hp (h.2 q hq)

end Chains

end Predicate

/-! ## Clean trees -/

def Column.Clean (c : Column) : Prop := isName c.text.toList = true

structure RowSource.Clean (r : RowSource) : Prop where
  table : IsComplete r.table
  rowAlias : isName r.rowAlias.toList = true
  foreignKey : isName (r.rowAlias ++ "." ++ r.foreignKey).toList = true
  baseKey : isName r.baseKey.toList = true

def Aggregate.Clean : Aggregate → Prop
  | countRows => True
  | count c | sum c | avg c | min c | max c => c.Clean

/-- Names are names, and text from the schema is `lit`. -/
def Term.Clean (lit : String → Prop) : Term → Prop
  | column c => c.Clean
  | name s => IsIdentifier s
  | verbatim s => lit s
  | aggregate a rows => a.Clean ∧ rows.Clean
  | int _ | float _ | quoted _ => True

/-- The term may stand on the right-hand side of a comparison, where a name has no place. -/
def Term.CleanValue (lit : String → Prop) (t : Term) : Prop := t.Clean lit ∧ ∀ s, t ≠ .name s

def Predicate.Clean (lit : String → Prop) : Predicate → Prop
  | always | never => True
  | compare l _ t => l.Clean lit ∧ t.CleanValue lit
  | isNull t | isNotNull t | like t _ _ _ => t.Clean lit
  | between t low high => t.Clean lit ∧ low.CleanValue lit ∧ high.CleanValue lit
  | isIn t ts | isNotIn t ts => t.Clean lit ∧ ∀ v ∈ ts, v.CleanValue lit
  | rowExists rows => rows.Clean
  | rowExistsWhere rows filter => rows.Clean ∧ filter.Clean lit
  | and p q | or p q => p.Clean lit ∧ q.Clean lit
  | not p | paren p => p.Clean lit

theorem Predicate.clean_all {lit : String → Prop} {ps : List Predicate}
    (h : ∀ p ∈ ps, p.Clean lit) : (all ps).Clean lit :=
  all_of_and trivial (fun _ _ hp hq => ⟨hp, hq⟩) h

theorem Predicate.clean_any {lit : String → Prop} {ps : List Predicate}
    (h : ∀ p ∈ ps, p.Clean lit) : (any ps).Clean lit :=
  any_of_or trivial (fun _ _ hp hq => ⟨hp, hq⟩) h

section Mono

variable {lit lit' : String → Prop} (hl : ∀ s, lit s → lit' s)
include hl

theorem Term.Clean.mono {t : Term} (h : t.Clean lit) : t.Clean lit' := by
  cases t with
  | verbatim s => exact hl s h
  | _ => exact h

theorem Term.CleanValue.mono {t : Term} (h : t.CleanValue lit) : t.CleanValue lit' :=
  ⟨h.1.mono hl, h.2⟩

theorem Predicate.Clean.mono {p : Predicate} (h : p.Clean lit) : p.Clean lit' := by
  induction p with
  | always | never | rowExists => exact h
  | compare l r t => exact ⟨h.1.mono hl, h.2.mono hl⟩
  | isNull t | isNotNull t | like t => exact Term.Clean.mono hl h
  | between t low high => exact ⟨h.1.mono hl, h.2.1.mono hl, h.2.2.mono hl⟩
  | isIn t ts | isNotIn t ts => exact ⟨h.1.mono hl, fun v hv => (h.2 v hv).mono hl⟩
  | rowExistsWhere rows filter ih => exact ⟨h.1, ih h.2⟩
  | and p q ihp ihq | or p q ihp ihq => exact ⟨ihp h.1, ihq h.2⟩
  | not p ih | paren p ih => exact ih h

end Mono

/-! ## Text of terms -/

theorem opens_name {s : String} (h : isName s.toList = true) : Opens (s ++ " ") [word s] :=
  (shows_name h).opens opens_space (by decide)

theorem opens_between {s : String} (h : isName s.toList = true) :
    Opens (" " ++ s ++ " ") [word s] :=
  (opens_space.shows (shows_name h)).opens opens_space (by decide)

theorem opens_comma : Opens ", " [symbol ","] := opens_of_tokens (by decide +kernel)

theorem opens_relation (r : Relation) : Opens (" " ++ r.text ++ " ") [symbol r.text] := by
  refine opens_of_tokens ?_
  cases r <;> decide +kernel

theorem opens_select : Opens "SELECT " [word "SELECT"] := opens_name (s := "SELECT") rfl

theorem opens_where : Opens " WHERE " [word "WHERE"] := opens_between (s := "WHERE") rfl

theorem shows_quote (s : String) : Shows (quote s) [literal s] :=
  ⟨writes_quote s, by simp [AllPlain, Item.Plain]⟩

theorem RowSource.shows {r : RowSource} (h : r.Clean) : Shows r.text r.items := by
  have hfrom : Opens "FROM " [word "FROM"] := opens_name (s := "FROM") rfl
  have heq : Opens " = " [symbol "="] := opens_relation .eq
  have := (((((hfrom.shows h.table.shows).space (shows_name h.rowAlias)).opens opens_where
    (by decide)).shows (shows_name h.foreignKey)).opens heq (by decide)).shows
    (shows_name h.baseKey)
  refine this.cast ?_ (by simp [items])
  change ("FROM " ++ r.table ++ " " ++ r.rowAlias ++ " WHERE " ++ r.rowAlias ++ "." ++
    r.foreignKey ++ " = " ++ r.baseKey).toList = _
  simp

theorem shows_call {f : String} {t : Token} (hf : Shows f [.token t]) {a : String} {is : List Item}
    (ha : Shows a is) : Shows (f ++ "(" ++ a ++ ")") [.token t, .group is] := by
  have := hf.append ha.group ((Begins.join (by decide) a).join ")")
  exact this.cast (by simp) rfl

theorem Aggregate.shows {a : Aggregate} (h : a.Clean) : Shows a.text a.items := by
  have hcall {f g : String} {c : Column} (hf : isName f.toList = true) (hc : c.Clean)
      (hg : g = f ++ "(") : Shows (g ++ c.text ++ ")") [word f, .group [word c.text]] := by
    rw [hg]; exact shows_call (shows_name hf) (shows_name hc)
  cases a with
  | countRows =>
    have hcount : Shows "COUNT" [word "COUNT"] := shows_name rfl
    have hstar : Shows "*" [symbol "*"] :=
      ⟨writes_token rfl rfl rfl nofun, by simp [AllPlain, Item.Plain]⟩
    exact (shows_call hcount hstar).cast rfl rfl
  | count c =>
    exact hcall (f := "COUNT") rfl h (by decide)
  | avg c =>
    exact hcall (f := "AVG") rfl h (by decide)
  | min c =>
    exact hcall (f := "MIN") rfl h (by decide)
  | max c =>
    exact hcall (f := "MAX") rfl h (by decide)
  | sum c =>
    have hsum := hcall (f := "SUM") rfl h rfl
    have hall : Shows "COALESCE" [word "COALESCE"] := shows_name rfl
    have hzero := opens_comma.shows (shows_digits (s := "0") (by decide) rfl)
    have := shows_call hall (hsum.append hzero (by decide))
    refine this.cast ?_ rfl
    change ("COALESCE(SUM(" ++ c.text ++ "), 0)").toList = _
    simp

theorem floatItems_spec (x : Binary64) :
    Shows x.text (floatItems x) ∧ floatItems x ≠ [] ∧ ∀ i ∈ floatItems x, i.Quiet := by
  obtain ⟨is, hs, hn, hq⟩ := shows_float x
  have : floatItems x = is := by rw [floatItems, textItems, hs.items?]; rfl
  rw [this]; exact ⟨hs, hn, hq⟩

theorem Term.shows {t : Term} (h : t.Clean IsComplete) : Shows t.text t.items := by
  cases t with
  | column c => exact shows_name h
  | name s => exact shows_name (IsIdentifier.isName h)
  | int n => exact shows_int n.toInt
  | float x => exact (floatItems_spec x).1
  | quoted s => exact shows_quote s
  | verbatim s => exact IsComplete.shows h
  | aggregate a rows =>
    have := ((opens_select.shows (Aggregate.shows h.1)).space (RowSource.shows h.2)).group
    refine this.cast ?_ rfl
    change ("(SELECT " ++ a.text ++ " " ++ rows.text ++ ")").toList = _
    simp

theorem shows_list {ts : List Term} (h : ∀ t ∈ ts, t.Clean IsComplete) :
    Shows (Term.listText ts) (commaItems (ts.map Term.items)) := by
  match ts with
  | [] => exact ⟨writes_of_tokens tokens_nil List.not_mem_nil, trivial⟩
  | [t] =>
    have := Term.shows (h t List.mem_cons_self)
    simpa [Term.listText, commaItems] using this
  | t :: u :: ts =>
    have ht := Term.shows (h t List.mem_cons_self)
    have := (ht.opens opens_comma (by decide)).shows
      (shows_list fun v hv => h v (List.mem_cons_of_mem t hv))
    simpa [Term.listText, commaItems, String.append_assoc] using this

/-! ## Text of predicates -/

theorem shows_like (before after : Bool) (s : String) :
    Shows (likeText before after s) (likeItems before after s) := by
  have hlike : Opens "LIKE " [word "LIKE"] := opens_name (s := "LIKE") rfl
  have hquote : (quote "!").toList = "'!'".toList := by decide
  have hesc := ((opens_between (s := "ESCAPE") rfl).shows (shows_quote "!")).cast
    (b := " ESCAPE '!'") (by rw [String.toList_append, hquote]; rfl) rfl
  unfold likeText likeItems
  by_cases h : likeEscape s = s
  · simp only [if_pos h]
    exact hlike.shows (shows_quote _)
  · simp only [if_neg h]
    have := (hlike.shows (shows_quote ((if before then "%" else "") ++ likeEscape s ++
      if after then "%" else ""))).append hesc (by decide)
    exact this.cast (by simp [escapeChar, toString]) rfl

theorem opens_and : Opens " AND " [word "AND"] := opens_between (s := "AND") rfl

theorem shows_member {t : Term} {ts : List Term} {s : String} {ks : List Item}
    (ht : t.Clean IsComplete) (hs : Opens s ks) (hbegins : Begins s)
    (hts : ∀ v ∈ ts, v.CleanValue IsComplete) :
    Shows (t.text ++ s ++ ("(" ++ Term.listText ts ++ ")"))
      (t.items ++ ks ++ [.group (commaItems (ts.map Term.items))]) :=
  ((Term.shows ht).opens hs hbegins).shows (shows_list fun v hv => (hts v hv).1).group

theorem shows_exists {s : String} {is : List Item} (h : Shows s is) :
    Shows ("EXISTS (SELECT 1 " ++ s ++ ")")
      [word "EXISTS", .group (word "SELECT" :: number "1" :: is)] := by
  have hexists : Opens "EXISTS " [word "EXISTS"] := opens_name (s := "EXISTS") rfl
  have hone := (shows_digits (s := "1") (by decide) rfl).space h
  exact (hexists.shows (opens_select.shows hone).group).cast (by simp) rfl

namespace Predicate

/-- The text of a clean predicate reads as its items. -/
theorem shows {p : Predicate} (h : p.Clean IsComplete) : Shows p.text p.items := by
  induction p with
  | always =>
    have : Shows "1 = 1" [number "1", symbol "=", number "1"] := shows_of_tokens (by decide +kernel)
    exact this
  | never =>
    have : Shows "1 = 0" [number "1", symbol "=", number "0"] := shows_of_tokens (by decide +kernel)
    exact this
  | compare l r t =>
    have := ((Term.shows h.1).opens (opens_relation r)
      ((Begins.join (by decide) r.text).join " ")).shows (Term.shows h.2.1)
    refine this.cast ?_ (by simp [items])
    change (l.text ++ " " ++ r.text ++ " " ++ t.text).toList = _
    simp
  | isNull t =>
    have hn : Shows " IS NULL" [word "IS", word "NULL"] := shows_of_tokens (by decide +kernel)
    exact (Term.shows h).append hn (by decide)
  | isNotNull t =>
    have hn : Shows " IS NOT NULL" [word "IS", word "NOT", word "NULL"] :=
      shows_of_tokens (by decide +kernel)
    exact (Term.shows h).append hn (by decide)
  | between t low high =>
    have hb : Opens " BETWEEN " [word "BETWEEN"] := opens_between (s := "BETWEEN") rfl
    have := ((((Term.shows h.1).opens hb (by decide)).shows (Term.shows h.2.1.1)).opens opens_and
      (by decide)).shows (Term.shows h.2.2.1)
    exact this.cast rfl (by simp [items])
  | isIn t ts =>
    have hin : Opens " IN " [word "IN"] := opens_between (s := "IN") rfl
    refine (shows_member h.1 hin (by decide) h.2).cast ?_ (by simp [items])
    change (t.text ++ " IN (" ++ Term.listText ts ++ ")").toList = _
    simp
  | isNotIn t ts =>
    have hin : Opens " NOT IN " [word "NOT", word "IN"] :=
      opens_of_tokens (by decide +kernel)
    refine (shows_member h.1 hin (by decide) h.2).cast ?_ (by simp [items])
    change (t.text ++ " NOT IN (" ++ Term.listText ts ++ ")").toList = _
    simp
  | like t before after s => exact (Term.shows h).space (shows_like before after s)
  | rowExists rows => exact shows_exists (RowSource.shows h)
  | rowExistsWhere rows filter ih =>
    have hrows := ((RowSource.shows h.1).opens opens_and (by decide)).shows (ih h.2)
    refine (shows_exists hrows).cast ?_ (by simp [items])
    change ("EXISTS (SELECT 1 " ++ rows.text ++ " AND " ++ filter.text ++ ")").toList = _
    simp
  | and p q ihp ihq =>
    have := ((ihp h.1).opens opens_and (by decide)).shows (ihq h.2)
    exact this.cast rfl (by simp [items])
  | or p q ihp ihq =>
    have ho : Opens " OR " [word "OR"] := opens_between (s := "OR") rfl
    have := ((ihp h.1).opens ho (by decide)).shows (ihq h.2)
    exact this.cast rfl (by simp [items])
  | not p ih =>
    have hn : Opens "NOT " [word "NOT"] := opens_name (s := "NOT") rfl
    exact hn.shows (ih h)
  | paren p ih => exact (ih h).group

end Predicate

end Eligibility.Sql
