import Eligibility.Proofs.Cursor.Block

/-!
# Reading scripts by a cursor

* `Walk.item`, `Walk.put`, `itemPass_eq`: a pass of the loop over the parts of a script reads a part
  and writes it;
* `readItem`, `length_readItem`, `Draft.read_readItem`: a report written part by part, by a reader
  of tokens;
* `answers_item`, `Passes`, `passes`: one part and one pass by a cursor;
* `Draft.close`, **`run_script`**: the report by a cursor.
-/

namespace Eligibility

open Reader

/-! ## Parts of a script -/

/-- The report with another part written. -/
def Track.written (t : Track) (f : Draft → Draft) : Track := { t with draft := f t.draft }

namespace Walk

/-- A part of a script, if there is another one. -/
def item : Walk (Option Item) := do
  skipNewlines
  let t ← peek
  if t.kind = .eof then return none
  else if t.kind = .rule then do
    let r ← block
    return some (.rule r)
  else do
    let t ← advance
    return some (.stray t)

/-- Write a part of a script. -/
def put : Option Item → Walk (Option Unit)
  | none => return none
  | some i => do
    write fun d => d.pushItem i
    return some ()

theorem run_put_some (i : Item) (t : Track) :
    run (put (some i)) t = some (.ok (some ()), t.written (·.pushItem i)) := rfl

theorem warn_pushRule (r : Rule) :
    (warn r >>= fun _ => write fun d => d.pushRule r) = write fun d => d.pushItem (.rule r) := by
  unfold warn Draft.pushItem
  by_cases hr : r.condition.isNone = true
  · simp only [if_pos hr]
    rfl
  · simp only [if_neg hr]
    rfl

theorem itemPass_eq : itemPass = item >>= put := by
  unfold itemPass item
  simp only [bind_assoc]
  refine congrArg _ (funext fun _ => congrArg _ (funext fun t => ?_))
  by_cases heof : t.kind = .eof
  · rw [if_pos heof, if_pos heof, pure_bind]
    rfl
  rw [if_neg heof, if_neg heof]
  by_cases hrule : t.kind = .rule
  · rw [if_pos hrule, if_pos hrule, rule]
    simp only [bind_assoc, pure_bind, put]
    refine congrArg _ (funext fun r => ?_)
    rw [← warn_pushRule, bind_assoc]
  · rw [if_neg hrule, if_neg hrule]
    simp only [bind_assoc, pure_bind, put, Draft.pushItem]

end Walk

/-- A part of a script as a reader of tokens. -/
def readItem : Reader (Option Item) :=
  option true some >>= fun
    | none => lines >>= fun _ => pure none
    | some u =>
      if u.kind = .rule then of (readBlock u) >>= fun r => pure (some (.rule r))
      else pure (some (.stray u))

theorem readItem_of_nil {ts : List Token} (h : dropNewlines ts = []) :
    readItem ts = .ok (none, []) := by
  have hnone : ∀ u ∈ (ahead true ts).head?, some u = none := by
    rw [show ahead true ts = [] from h]
    exact nofun
  rw [readItem, bind_of_ok (option_of_none hnone)]
  exact congrArg (fun ts => Except.ok (none, ts)) h

theorem readItem_of_cons {ts rest : List Token} {u : Token} (h : dropNewlines ts = u :: rest) :
    readItem ts = if u.kind = .rule then
      (of (readBlock u) >>= fun r => pure (some (.rule r)) : Reader (Option Item)) rest
      else .ok (some (.stray u), rest) := by
  have hread : some u = some u := rfl
  rw [readItem, bind_of_ok (option_of_cons (show ahead true ts = u :: rest from h) hread)]
  dsimp only
  split <;> rfl

theorem length_readItem {ts rest : List Token} {i : Item}
    (h : readItem ts = .ok (some i, rest)) : rest.length < (dropNewlines ts).length := by
  obtain ⟨o, mid, ho, h⟩ := bind_ok_iff.1 h
  cases o with
  | none => cases h
  | some u =>
    have hmid := length_option_ahead ho
    dsimp only at h
    split at h
    · obtain ⟨r, rest', hr, h⟩ := bind_ok_iff.1 h
      cases h
      exact Nat.lt_trans (length_lt_of hr) hmid
    · cases h
      exact hmid

theorem Draft.read_readItem (finish : Position) (d : Draft) (ts : List Token) :
    read finish d ts = match readItem ts with
      | .error f => d.fail (Report.locate finish f)
      | .ok (none, _) => d
      | .ok (some i, rest) => read finish (d.pushItem i) rest := by
  cases hts : dropNewlines ts with
  | nil =>
    have hnext : next? true some ts = none := by
      rw [next?_eq_none_iff, seen_sight, show ahead true ts = [] from hts]
      exact nofun
    rw [read, hnext, readItem_of_nil hts]
  | cons u rest =>
    have hahead : ahead true ts = u :: rest := hts
    have hread : some u = some u := rfl
    obtain ⟨⟨v, rest', hlt⟩, hq, hv, hrest⟩ := next?_of_ahead_cons hahead hread
    obtain rfl : v = u := hv
    obtain rfl : rest' = rest := hrest
    rw [read, hq, readItem_of_cons hts]
    dsimp only
    by_cases hk : v.kind = .rule
    · rw [if_pos hk, if_pos hk]
      show _ = match (readBlock v rest').outcome >>= fun q => .ok (some (Item.rule q.1), q.2) with
        | .error f => _
        | .ok (none, _) => _
        | .ok (some i, rest) => _
      cases readBlock v rest' <;> rfl
    · rw [if_neg hk, if_neg hk]

namespace Tape

variable {s : Tape} {t t' : Track} {ts : List Token}

theorem answers_item (h : s.Stands t 0 ts) : s.Answers t Walk.item 0 (readItem ts) := by
  refine (answers_skipNewlines h).goOn fun t h => answers_peek h ?_
  cases hts : dropNewlines ts with
  | nil =>
    rw [hts] at h
    have hnext : s.next 0 [] = s.last := rfl
    rw [readItem_of_nil hts, hnext, if_pos s.last_kind]
    exact answers_pure h none
  | cons u rest =>
    rw [hts] at h
    have hnext : s.next 0 (u :: rest) = u := rfl
    have hmem : u ∈ s.tokens := by
      refine List.mem_of_mem_drop (i := t.cursor.current) ?_
      rw [show s.tokens.drop t.cursor.current = u :: rest from h.left]
      exact List.mem_cons_self
    rw [readItem_of_cons hts, hnext, if_neg (s.kind_ne u hmem)]
    by_cases hk : u.kind = .rule
    · rw [if_pos hk, if_pos hk]
      exact (answers_block h hk).bind fun r rest t h _ => answers_pure h _
    · rw [if_neg hk, if_neg hk]
      exact (answers_advance h rfl).goOn fun t h => answers_pure h _

theorem Keeps.written (h : s.Keeps t t') (f : Draft → Draft) :
    s.Keeps (t.written f) (t'.written f) :=
  ⟨h.visited, congrArg f h.draft⟩

/-- What a pass of the loop over the parts of a script does. -/
inductive Passes (s : Tape) (t : Track) (ts : List Token) : Prop
  | done {t' : Track} {rest : List Token} (hread : readItem ts = .ok (none, rest))
      (hrun : Walk.itemPass.run t = some (.ok none, t')) (hkeeps : s.Keeps t t')
  | part {i : Item} {t' : Track} {rest : List Token} (hread : readItem ts = .ok (some i, rest))
      (hrun : Walk.itemPass.run t = some (.ok (some ()), t')) (hstands : s.Stands t' 0 rest)
      (hkeeps : s.Keeps (t.written (·.pushItem i)) t')
  | fails {f : Failure} {t' : Track} (hread : readItem ts = .error f)
      (hrun : Walk.itemPass.run t = some (.error (.lacks (Report.locate s.last.position f)), t'))
      (hkeeps : s.Keeps t t')

theorem passes (h : s.Stands t 0 ts) : s.Passes t ts := by
  have hitem := answers_item h
  cases hread : readItem ts with
  | error f =>
    rw [hread] at hitem
    obtain ⟨t', hrun, hkeeps⟩ := hitem
    refine .fails hread ?_ hkeeps
    rw [Walk.itemPass_eq, Walk.run_bind_error hrun]
  | ok q =>
    obtain ⟨o, rest⟩ := q
    rw [hread] at hitem
    obtain ⟨t', hrun, hstands, hkeeps⟩ := hitem
    cases o with
    | none =>
      refine .done hread ?_ hkeeps
      rw [Walk.itemPass_eq, Walk.run_bind_ok hrun]
      rfl
    | some i =>
      have hstands : s.Stands (t'.written (·.pushItem i)) 0 rest :=
        ⟨hstands.holds, hstands.depth, hstands.left⟩
      refine .part hread ?_ hstands (hkeeps.written _)
      rw [Walk.itemPass_eq, Walk.run_bind_ok hrun, Walk.run_put_some]

end Tape

/-- The report when a run has ended: an error discards the rules. -/
def Draft.close (d : Draft) : Except Halt Unit → Option Draft
  | .ok _ => some d
  | .error (.lacks e) => some (d.fail e)
  | .error _ => none

namespace Tape

/-- **A cursor reads scripts.** -/
theorem run_script {s : Tape} {t : Track} {ts : List Token} (h : s.Stands t 0 ts) :
    ∃ answer t', Walk.script.run t = some (answer, t') ∧
      (∀ c ∈ t'.visited, c ∈ t.visited ∨ s.Holds c) ∧
      t'.draft.close answer = some (Draft.read s.last.position t.draft ts) := by
  rw [Walk.script, Loop.run]
  cases passes h with
  | done hread hrun hkeeps =>
    refine ⟨_, _, Walk.run_bind_ok hrun, hkeeps.visited, ?_⟩
    rw [Draft.read_readItem, hread, hkeeps.draft]
    rfl
  | fails hread hrun hkeeps =>
    refine ⟨_, _, Walk.run_bind_error hrun, hkeeps.visited, ?_⟩
    rw [Draft.read_readItem, hread, hkeeps.draft]
    rfl
  | @part i t' rest hread hrun hstands hkeeps =>
    have := Nat.lt_of_lt_of_le (length_readItem hread) (length_dropNewlines_le ts)
    obtain ⟨answer, t'', hrun', hvisited, hdraft⟩ := run_script hstands
    refine ⟨answer, t'', (Walk.run_bind_ok hrun).trans hrun', fun c hc => ?_, ?_⟩
    · rcases hvisited c hc with hc | hc
      · exact hkeeps.visited c hc
      · exact .inr hc
    · rw [hdraft, Draft.read_readItem _ t.draft, hread, hkeeps.draft]
      rfl
termination_by ts.length

end Tape

end Eligibility
