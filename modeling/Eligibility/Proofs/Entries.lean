import Eligibility.Text.Entries

/-!
# What a stored list holds

A stored list gives back the entries that were written into it, whichever separators, blanks and
quotes they were written with.

* `IsEntry`, `WritesEntry`, `Lists`, **`Stores`**: the texts that entries may be stored as;
* `pieces_append`, `trimChars_cons`, `trimChars_concat`, `trimChars_of_trimmed`: parts and blanks;
* `entryOf?`, `listed`: what a part holds, and what the parts of a text hold;
* `listed_separator`, `listed_blank`, `listed_part`: a stored list, from its front;
* **`entries_stores`**.
-/

namespace Eligibility

open Text

/-! ## Ways to store entries -/

/-- A text that a stored list can have as an entry. -/
structure IsEntry (e : List Char) : Prop where
  nonempty : e ≠ []
  start : e.head?.any isBlank = false
  finish : e.getLast?.any isBlank = false
  plain : ∀ c ∈ e, isSeparator c = false ∧ c ≠ '"'

instance (e : List Char) : Decidable (IsEntry e) :=
  have : Decidable (∀ c ∈ e, isSeparator c = false ∧ c ≠ '"') := List.decidableBAll _ e
  decidable_of_iff (e ≠ [] ∧ e.head?.any isBlank = false ∧ e.getLast?.any isBlank = false ∧
      ∀ c ∈ e, isSeparator c = false ∧ c ≠ '"')
    ⟨fun h => ⟨h.1, h.2.1, h.2.2.1, h.2.2.2⟩, fun h => ⟨h.nonempty, h.start, h.finish, h.plain⟩⟩

/-- An entry, bare or in double quotes, with blanks around it. -/
structure WritesEntry (e before core after : List Char) : Prop where
  blank_before : ∀ c ∈ before, isBlank c = true
  bare_or_quoted : core = e ∨ core = '"' :: (e ++ ['"'])
  blank_after : ∀ c ∈ after, isBlank c = true

/-- A text is made of entries with at least one separator between them, and maybe others at its
ends. -/
inductive Lists : List Char → List (List Char) → Prop
  | nil : Lists [] []
  | separator {c : Char} {cs : List Char} {es : List (List Char)} (hc : isSeparator c = true)
      (h : Lists cs es) : Lists (c :: cs) es
  | entry {e before core after cs : List Char} {es : List (List Char)} (he : IsEntry e)
      (hpart : WritesEntry e before core after) (hcs : cs.head?.all isSeparator = true)
      (h : Lists cs es) : Lists (before ++ (core ++ (after ++ cs))) (e :: es)

/-- A text stores entries in one pair of brackets, or with brackets at neither end. -/
def Stores (text : String) (es : List String) : Prop :=
  ∃ body, Lists body (es.map String.toList) ∧
    (text.toList = '[' :: (body ++ [']']) ∨
      text.toList = body ∧ body.head? ≠ some '[' ∧ body.getLast? ≠ some ']')

theorem unbracket_brackets (cs : List Char) : unbracket ('[' :: (cs ++ [']'])) = cs := by
  simp [unbracket]

theorem unbracket_of_ne {cs : List Char} (hhead : cs.head? ≠ some '[')
    (hlast : cs.getLast? ≠ some ']') : unbracket cs = cs := by
  simp [unbracket, hhead, hlast]

/-! ## Parts and blanks -/

section Parts

variable {isSep : Char → Bool} {c : Char} {w cs : List Char}

theorem pieces_separator (hc : isSep c = true) (cs : List Char) :
    pieces isSep (c :: cs) = [] :: pieces isSep cs :=
  if_pos hc

theorem pieces_append (hw : ∀ c ∈ w, isSep c = false) (hc : isSep c = true) (cs : List Char) :
    pieces isSep (w ++ c :: cs) = w :: pieces isSep cs := by
  induction w with
  | nil => exact pieces_separator hc cs
  | cons d w ih =>
    obtain ⟨hd, hw⟩ := List.forall_mem_cons.1 hw
    rw [List.cons_append, pieces, if_neg (by simp [hd]), ih hw]

theorem pieces_single (hw : ∀ c ∈ w, isSep c = false) : pieces isSep w = [w] := by
  induction w with
  | nil => rfl
  | cons d w ih =>
    obtain ⟨hd, hw⟩ := List.forall_mem_cons.1 hw
    rw [pieces, if_neg (by simp [hd]), ih hw]

theorem trimChars_cons (hc : isBlank c = true) (cs : List Char) :
    trimChars (c :: cs) = trimChars cs := by
  rw [trimChars, List.dropWhile_cons_of_pos hc, trimChars]

theorem trimChars_concat (cs : List Char) (hc : isBlank c = true) :
    trimChars (cs ++ [c]) = trimChars cs := by
  rw [trimChars, trimChars, List.dropWhile_append]
  by_cases hnil : cs.dropWhile isBlank = []
  · simp [hnil, hc]
  · rw [if_neg (by simpa using hnil), List.reverse_append, List.reverse_singleton,
      List.singleton_append, List.dropWhile_cons_of_pos hc]

theorem trimChars_of_trimmed (hstart : cs.head?.any isBlank = false)
    (hfinish : cs.getLast?.any isBlank = false) : trimChars cs = cs := by
  have hdrop {ds : List Char} (h : ds.head?.any isBlank = false) : ds.dropWhile isBlank = ds := by
    cases ds with
    | nil => rfl
    | cons d ds =>
      have hd : isBlank d = false := h
      simp [hd]
  rw [trimChars, hdrop hstart, hdrop (by rwa [List.head?_reverse]), List.reverse_reverse]

end Parts

/-! ## The entries of a list -/

/-- The entry that a part of a stored list holds. -/
def entryOf? (part : List Char) : Option String :=
  let entry := (trimChars part).filter (· ≠ '"')
  if entry = [] then none else some (.ofList entry)

/-- The entries of a list without its brackets. -/
def listed (cs : List Char) : List String :=
  (pieces isSeparator cs).filterMap entryOf?

theorem entries_eq_listed (s : String) : entries s = listed (unbracket s.toList) :=
  rfl

section Listed

variable {c : Char} {e w cs : List Char}

theorem listed_separator (hc : isSeparator c = true) (cs : List Char) :
    listed (c :: cs) = listed cs := by
  rw [listed, pieces_separator hc, List.filterMap_cons_none (by rfl), listed]

theorem listed_blank (hc : isBlank c = true) (cs : List Char) : listed (c :: cs) = listed cs := by
  by_cases hs : isSeparator c = true
  · exact listed_separator hs cs
  · rw [listed, listed, pieces, if_neg hs]
    cases pieces isSeparator cs with
    | nil => simp [entryOf?, trimChars, hc]
    | cons p ps =>
      have hp : entryOf? (c :: p) = entryOf? p := by rw [entryOf?, trimChars_cons hc, entryOf?]
      rw [List.filterMap_cons, List.filterMap_cons, hp]

theorem listed_blanks {before : List Char} (h : ∀ c ∈ before, isBlank c = true) (cs : List Char) :
    listed (before ++ cs) = listed cs := by
  induction before with
  | nil => rfl
  | cons c before ih =>
    obtain ⟨hc, h⟩ := List.forall_mem_cons.1 h
    rw [List.cons_append, listed_blank hc, ih h]

theorem listed_nil : listed [] = [] :=
  rfl

/-- A part that holds an entry, up to the end of the text or a separator. -/
theorem listed_part {x : String} (hw : ∀ c ∈ w, isSeparator c = false)
    (hx : entryOf? w = some x) (hcs : cs.head?.all isSeparator = true) :
    listed (w ++ cs) = x :: listed cs := by
  cases cs with
  | nil =>
    rw [List.append_nil, listed_nil, listed, pieces_single hw, List.filterMap_cons_some hx]
    rfl
  | cons c cs =>
    have hc : isSeparator c = true := hcs
    rw [listed_separator hc, listed, pieces_append hw hc, List.filterMap_cons_some hx, listed]

theorem listed_padded {x : String} {after : List Char} (hw : ∀ c ∈ w, isSeparator c = false)
    (hx : entryOf? w = some x) (hafter : ∀ c ∈ after, isBlank c = true)
    (hcs : cs.head?.all isSeparator = true) : listed (w ++ (after ++ cs)) = x :: listed cs := by
  induction after generalizing w with
  | nil => exact listed_part hw hx hcs
  | cons c after ih =>
    obtain ⟨hc, hafter⟩ := List.forall_mem_cons.1 hafter
    by_cases hs : isSeparator c = true
    · -- A line feed is a blank, and ends the entry too.
      have hstop : (c :: (after ++ cs)).head?.all isSeparator = true := hs
      rw [List.cons_append, listed_part hw hx hstop, listed_separator hs, listed_blanks hafter]
    · have hwc : ∀ d ∈ w ++ [c], isSeparator d = false := by
        simpa [or_imp, forall_and] using ⟨hw, by simpa using hs⟩
      have hxc : entryOf? (w ++ [c]) = some x := by
        rw [entryOf?, trimChars_concat w hc, ← hx, entryOf?]
      have hsplit : w ++ (c :: after ++ cs) = w ++ [c] ++ (after ++ cs) := by simp
      rw [hsplit, ih hwc hxc hafter]

/-- An entry is what is left of it without quotes. -/
theorem entryOf?_core {core : List Char} (he : IsEntry e)
    (hcore : core = e ∨ core = '"' :: (e ++ ['"'])) : entryOf? core = some (.ofList e) := by
  have hplain : e.filter (· ≠ '"') = e :=
    List.filter_eq_self.2 fun c hc => by simpa using (he.plain c hc).2
  have htrim : trimChars core = core := by
    rcases hcore with rfl | rfl
    · exact trimChars_of_trimmed he.start he.finish
    · have hlast : ('"' :: (e ++ ['"'])).getLast? = some '"' :=
        List.getLast?_concat (l := '"' :: e)
      exact trimChars_of_trimmed rfl (by rw [hlast]; rfl)
  have hfilter : core.filter (· ≠ '"') = e := by
    rcases hcore with rfl | rfl
    · exact hplain
    · simpa using hplain
  rw [entryOf?, htrim, hfilter]
  exact if_neg he.nonempty

theorem isSeparator_core {core : List Char} (he : IsEntry e)
    (hcore : core = e ∨ core = '"' :: (e ++ ['"'])) : ∀ c ∈ core, isSeparator c = false := by
  have hquote : isSeparator '"' = false := rfl
  rcases hcore with rfl | rfl
  · exact fun c hc => (he.plain c hc).1
  · simpa [hquote, or_imp, forall_and] using fun c hc => (he.plain c hc).1

theorem listed_lists {es : List (List Char)} (h : Lists cs es) :
    listed cs = es.map String.ofList := by
  induction h with
  | nil => rfl
  | separator hc _ ih => rw [listed_separator hc, ih]
  | entry he hpart hcs _ ih =>
    rw [listed_blanks hpart.blank_before, listed_padded (isSeparator_core he hpart.bare_or_quoted)
      (entryOf?_core he hpart.bare_or_quoted) hpart.blank_after hcs, ih, List.map_cons]

end Listed

/-- **A stored list gives back its entries.** -/
theorem entries_stores {text : String} {es : List String} (h : Stores text es) :
    entries text = es := by
  obtain ⟨body, hbody, htext⟩ := h
  have hunbracket : unbracket text.toList = body := by
    rcases htext with htext | ⟨htext, hhead, hlast⟩
    · rw [htext, unbracket_brackets]
    · rw [htext, unbracket_of_ne hhead hlast]
  have hofList : (String.ofList ∘ String.toList) = id := funext fun _ => String.ofList_toList
  rw [entries_eq_listed, hunbracket, listed_lists hbody, List.map_map, hofList, List.map_id]

/-- The middle entry has brackets of its own, and a line feed and two more separators before it. -/
def kindsText : String := "[\"dairy cow\" ;,\n [calf] , ox;]"

theorem kindsText_entries_stores :
    Stores kindsText ["dairy cow", "[calf]", "ox"] ∧
      entries kindsText = ["dairy cow", "[calf]", "ox"] := by
  have hnone : ∀ c ∈ [], isBlank c = true := List.forall_mem_nil _
  have hspace : ∀ c ∈ [' '], isBlank c = true := List.forall_mem_singleton.2 rfl
  have hcow : WritesEntry "dairy cow".toList [] "\"dairy cow\"".toList [' '] :=
    ⟨hnone, .inr rfl, hspace⟩
  have hcalf : WritesEntry "[calf]".toList [' '] "[calf]".toList [' '] :=
    ⟨hspace, .inl rfl, hspace⟩
  have hox : WritesEntry "ox".toList [' '] "ox".toList [] := ⟨hspace, .inl rfl, hnone⟩
  have hlists : Lists "\"dairy cow\" ;,\n [calf] , ox;".toList
      (["dairy cow", "[calf]", "ox"].map String.toList) :=
    .entry (by decide) hcow (by decide) <|
      .separator (by decide) <| .separator (by decide) <| .separator (by decide) <|
        .entry (by decide) hcalf (by decide) <|
          .separator (by decide) <|
            .entry (by decide) hox (by decide) <|
              .separator (by decide) .nil
  have hstores : Stores kindsText ["dairy cow", "[calf]", "ox"] := ⟨_, hlists, .inl rfl⟩
  exact ⟨hstores, entries_stores hstores⟩

end Eligibility
