import CommandScript.Proofs.Grammar.Postcondition

/-!
# Runs without faults

A rule accepts what stands between two cursors if it succeeds there and records no fault on
the way. Since faults are never taken back, a sequence of rules accepts what its parts
accept one after the other. This makes acceptance a relation that can be computed in both
directions: from a run one gets the tokens that were read, and from the tokens the run.

* `Rule.Accepts`: a run without faults, and its laws for each way to build a rule.
* `Cursor.Passes`: the tokens and the ids between two cursors.
-/

namespace CommandScript.Grammar

open Rule

namespace Cursor

/-- Behind the last token stands the end of the input. -/
def Bounded (cursor : Cursor) : Prop := cursor.last.kind = .endOfInput

/-- The cursor behind the next token. -/
def next (cursor : Cursor) (rest : List Token) : Cursor :=
  { cursor with rest, read := cursor.read + 1 }

/-- Consecutive ids, the first of which is given. -/
def idsFrom (first : NodeId) (count : Nat) : List NodeId :=
  (List.range count).map fun drawn => first + UInt32.ofNat drawn

/-- Between the cursors stand the tokens, and the ids have been drawn. -/
structure Passes (before after : Cursor) (tokens : List Token) (ids : List NodeId) : Prop where
  rest : before.rest = tokens ++ after.rest
  after : after = { before with
    rest := after.rest
    read := before.read + tokens.length
    drawn := before.drawn + ids.length }
  ids : ids = idsFrom before.nextId ids.length

theorem idsFrom_add (first : NodeId) (count more : Nat) :
    idsFrom first (count + more) =
      idsFrom first count ++ idsFrom (first + UInt32.ofNat count) more := by
  simp only [idsFrom, List.range_add, List.map_append, List.map_map]
  congr 2
  funext drawn
  simp [UInt32.ofNat_add, UInt32.add_assoc]

theorem length_idsFrom (first : NodeId) (count : Nat) : (idsFrom first count).length = count := by
  simp [idsFrom]

namespace Passes

variable {before middle after : Cursor} {tokens others : List Token} {ids more : List NodeId}

theorem bounded (h : before.Passes after tokens ids) (hbefore : before.Bounded) :
    after.Bounded := by
  rw [h.after]
  exact hbefore

theorem faults (h : before.Passes after tokens ids) : after.faults = before.faults := by
  rw [h.after]

theorem refl (cursor : Cursor) : cursor.Passes cursor [] [] := ⟨rfl, rfl, rfl⟩

theorem nextId_eq (h : before.Passes after tokens ids) :
    after.nextId = before.nextId + UInt32.ofNat ids.length := by
  rw [h.after]
  simp only [nextId, UInt32.ofNat_add, UInt32.add_assoc]

theorem trans (h : before.Passes middle tokens ids) (hnext : middle.Passes after others more) :
    before.Passes after (tokens ++ others) (ids ++ more) where
  rest := by rw [h.rest, hnext.rest, List.append_assoc]
  after := by
    rw [hnext.after, h.after]
    simp only [List.length_append, Nat.add_assoc]
  ids := by
    rw [List.length_append, idsFrom_add, ← h.ids, ← h.nextId_eq, ← hnext.ids]

/-- The place between two parts of what stands between two cursors. -/
theorem split (h : before.Passes after (tokens ++ others) (ids ++ more)) :
    ∃ middle, before.Passes middle tokens ids ∧ middle.Passes after others more := by
  have hids := h.ids
  rw [List.length_append, idsFrom_add] at hids
  obtain ⟨hfirst, hsecond⟩ :=
    List.append_inj hids (by rw [length_idsFrom])
  refine ⟨{ before with
    rest := others ++ after.rest
    read := before.read + tokens.length
    drawn := before.drawn + ids.length }, ⟨?_, rfl, hfirst⟩, ⟨rfl, ?_, ?_⟩⟩
  · rw [h.rest, List.append_assoc]
  · rw [h.after]
    simp only [List.length_append, Nat.add_assoc]
  · rw [hsecond, length_idsFrom]
    simp only [nextId, UInt32.ofNat_add, UInt32.add_assoc]

theorem token {token : Token} {rest : List Token} (h : before.rest = token :: rest) :
    before.Passes (before.next rest) [token] [] := ⟨h, rfl, rfl⟩

/-- The first token that stands between two cursors. -/
theorem uncons {token : Token} (h : before.Passes after (token :: tokens) ids) :
    ∃ middle, before.Passes middle [token] [] ∧ middle.Passes after tokens ids :=
  split h

/-- The first tokens that stand between two cursors, if no id is drawn with them. -/
theorem split_first (h : before.Passes after (tokens ++ others) ids) :
    ∃ middle, before.Passes middle tokens [] ∧ middle.Passes after others ids :=
  split h

/-- The last tokens that stand between two cursors, if no id is drawn with them. -/
theorem split_last (h : before.Passes after (tokens ++ others) ids) :
    ∃ middle, before.Passes middle tokens ids ∧ middle.Passes after others [] :=
  split (by rwa [List.append_nil])

theorem first_id {id : NodeId} (h : before.Passes after tokens (id :: ids)) :
    id = before.nextId := by
  have hids := h.ids
  rw [List.length_cons, Nat.add_comm, idsFrom_add] at hids
  exact (List.cons.inj hids).1.trans (UInt32.add_zero _)

theorem nextId_token {token : Token} (h : before.Passes after [token] []) :
    after.nextId = before.nextId :=
  h.nextId_eq.trans (UInt32.add_zero _)

theorem eq_of_nil (h : before.Passes after [] []) : after = before := by
  have hrest : before.rest = after.rest := h.rest
  rw [h.after, ← hrest]
  rfl

theorem peek {token : Token} (h : before.Passes after (token :: tokens) ids) :
    before.peek = token := by
  rw [Cursor.peek, h.rest]
  rfl

theorem length_lt (h : before.Passes after tokens ids) (htokens : tokens ≠ []) :
    before.read < after.read := by
  rw [h.after]
  exact Nat.lt_add_of_pos_right (List.length_pos_iff.mpr htokens)

end Passes

theorem exists_rest_of_peek {cursor : Cursor} (h : cursor.Bounded) {kind : TokenKind}
    (hkind : cursor.peek.kind = kind) (hne : kind ≠ .endOfInput) :
    ∃ rest, cursor.rest = cursor.peek :: rest := by
  cases hrest : cursor.rest with
  | nil =>
    rw [Cursor.peek, hrest] at hkind
    exact absurd (hkind.symm.trans h) hne
  | cons token rest =>
    refine ⟨rest, ?_⟩
    rw [Cursor.peek, hrest]
    rfl

end Cursor

namespace Rule

variable {α β : Type} {cursor after : Cursor}

/-- From the first cursor to the second the rule reads the result and records no fault. -/
def Accepts (rule : Rule α) (cursor : Cursor) (a : α) (after : Cursor) : Prop :=
  rule.run cursor = (.ok a, after) ∧ after.faults = cursor.faults

theorem Accepts.bounded {rule : Rule α} {a : α} (h : rule.Accepts cursor a after)
    (hcursor : cursor.Bounded) : after.Bounded := by
  rw [Cursor.Bounded, (leadsTo_of_run h.1).last]
  exact hcursor

theorem accepts_pure {a b : α} :
    (pure a : Rule α).Accepts cursor b after ↔ b = a ∧ after = cursor := by
  unfold Accepts
  rw [run_pure, Prod.mk.injEq, Except.ok.injEq]
  constructor
  · rintro ⟨⟨rfl, rfl⟩, -⟩
    exact ⟨rfl, rfl⟩
  · rintro ⟨rfl, rfl⟩
    exact ⟨⟨rfl, rfl⟩, rfl⟩

/-- Faults are never taken back, so there were none in between. -/
theorem faults_between {before middle after : Cursor} (hfirst : before.LeadsTo middle)
    (hsecond : middle.LeadsTo after) (h : after.faults = before.faults) :
    middle.faults = before.faults := by
  have hle := hfirst.faults.length_le
  have hge := hsecond.faults.length_le
  rw [h] at hge
  exact Array.toList_inj.mp (hfirst.faults.eq_of_length (Nat.le_antisymm hle hge)).symm

theorem accepts_bind {rule : Rule α} {next : α → Rule β} {b : β} :
    (rule >>= next).Accepts cursor b after ↔
      ∃ a middle, rule.Accepts cursor a middle ∧ (next a).Accepts middle b after := by
  constructor
  · rintro ⟨hrun, hfaults⟩
    obtain ⟨a, middle, hfirst, hsecond⟩ := run_bind_eq_ok hrun
    have hmiddle := faults_between (leadsTo_of_run hfirst) (leadsTo_of_run hsecond) hfaults
    exact ⟨a, middle, ⟨hfirst, hmiddle⟩, hsecond, hfaults.trans hmiddle.symm⟩
  · rintro ⟨a, middle, ⟨hfirst, hmiddle⟩, hsecond, hfaults⟩
    exact ⟨(run_bind_of_ok hfirst).trans hsecond, hfaults.trans hmiddle⟩

theorem accepts_map {rule : Rule α} {f : α → β} {b : β} :
    (f <$> rule).Accepts cursor b after ↔ ∃ a, rule.Accepts cursor a after ∧ b = f a := by
  refine accepts_bind.trans ⟨?_, ?_⟩
  · rintro ⟨a, middle, hrule, hpure⟩
    obtain ⟨rfl, rfl⟩ := accepts_pure.mp hpure
    exact ⟨a, hrule, rfl⟩
  · rintro ⟨a, hrule, rfl⟩
    exact ⟨a, after, hrule, accepts_pure.mpr ⟨rfl, rfl⟩⟩

theorem accepts_map_bind {γ : Type} {rule : Rule γ} {f : γ → α} {rest : α → Rule β} {b : β} :
    (f <$> rule >>= rest).Accepts cursor b after ↔
      (rule >>= fun c => rest (f c)).Accepts cursor b after := by
  simp only [accepts_bind, accepts_map]
  constructor
  · rintro ⟨_, middle, ⟨c, hc, rfl⟩, hrest⟩
    exact ⟨c, middle, hc, hrest⟩
  · rintro ⟨c, middle, hc, hrest⟩
    exact ⟨_, middle, ⟨c, hc, rfl⟩, hrest⟩

theorem not_accepts_fail {fault : Located ParseFault} {a : α} :
    ¬ (fail fault : Rule α).Accepts cursor a after := fun h => nomatch h.1

theorem not_accepts_record {fault : Located ParseFault} {a : Unit} :
    ¬ (record fault).Accepts cursor a after := by
  rintro ⟨hrun, hfaults⟩
  obtain ⟨-, rfl⟩ := Prod.mk.inj hrun
  exact Array.push_ne_self hfaults

theorem accepts_peek {token : Token} :
    peek.Accepts cursor token after ↔ token = cursor.peek ∧ after = cursor :=
  accepts_pure

theorem accepts_atEnd {ends : Bool} :
    atEnd.Accepts cursor ends after ↔ ends = cursor.rest.isEmpty ∧ after = cursor :=
  accepts_pure

theorem accepts_freshId {id : NodeId} :
    freshId.Accepts cursor id after ↔ id = cursor.nextId ∧ cursor.Passes after [] [id] := by
  constructor
  · rintro ⟨hrun, -⟩
    obtain ⟨hid, rfl⟩ := Prod.mk.inj hrun
    obtain rfl := Except.ok.inj hid
    exact ⟨rfl, rfl, rfl, by simp [Cursor.idsFrom]⟩
  · rintro ⟨rfl, hpasses⟩
    refine ⟨?_, hpasses.faults⟩
    have hrest : cursor.rest = after.rest := hpasses.rest
    rw [hpasses.after, ← hrest]
    rfl

theorem accepts_skip {token : Token} {rest : List Token} {a : Unit}
    (h : cursor.rest = token :: rest) :
    skip.Accepts cursor a after ↔ after = cursor.next rest := by
  have hrun : skip.run cursor = (.ok (), cursor.next rest) := by
    unfold skip
    dsimp only
    rw [h]
    rfl
  unfold Accepts
  rw [hrun, Prod.mk.injEq]
  constructor
  · rintro ⟨⟨-, rfl⟩, -⟩
    rfl
  · rintro rfl
    exact ⟨⟨rfl, rfl⟩, rfl⟩

/-- Reading the token that the cursor stands on. -/
theorem accepts_skip_peek (hcursor : cursor.Bounded) (hne : cursor.peek.kind ≠ .endOfInput)
    {a : Unit} : skip.Accepts cursor a after ↔ cursor.Passes after [cursor.peek] [] := by
  obtain ⟨rest, hcons⟩ := Cursor.exists_rest_of_peek hcursor rfl hne
  rw [accepts_skip hcons]
  constructor
  · rintro rfl
    exact .token hcons
  · intro hpasses
    rw [(List.cons.inj (hcons.symm.trans hpasses.rest)).2]
    exact hpasses.after

section Kinds

variable {kind : TokenKind}

/-- An optional token is there and is read, or is not there. -/
theorem accepts_accept? (hcursor : cursor.Bounded) (hne : kind ≠ .endOfInput)
    {found : Option Token} :
    (accept? kind).Accepts cursor found after ↔
      (∃ token, found = some token ∧ token.kind = kind ∧ cursor.Passes after [token] []) ∨
        found = none ∧ cursor.peek.kind ≠ kind ∧ after = cursor := by
  unfold accept?
  rw [accepts_bind]
  constructor
  · rintro ⟨token, middle, hpeek, hrest⟩
    obtain ⟨rfl, rfl⟩ := accepts_peek.mp hpeek
    split at hrest
    · rename_i hkind
      obtain ⟨_, later, hskip, hpure⟩ := accepts_bind.mp hrest
      obtain ⟨rfl, rfl⟩ := accepts_pure.mp hpure
      exact .inl ⟨_, rfl, hkind, (accepts_skip_peek hcursor (hkind ▸ hne)).mp hskip⟩
    · rename_i hkind
      obtain ⟨rfl, rfl⟩ := accepts_pure.mp hrest
      exact .inr ⟨rfl, hkind, rfl⟩
  · rintro (⟨token, rfl, hkind, hpasses⟩ | ⟨rfl, hkind, rfl⟩)
    · refine ⟨_, cursor, accepts_peek.mpr ⟨rfl, rfl⟩, ?_⟩
      obtain rfl := hpasses.peek
      rw [if_pos hkind]
      exact accepts_bind.mpr ⟨(), _, (accepts_skip_peek hcursor (hkind ▸ hne)).mpr hpasses,
        accepts_pure.mpr ⟨rfl, rfl⟩⟩
    · refine ⟨_, after, accepts_peek.mpr ⟨rfl, rfl⟩, ?_⟩
      rw [if_neg hkind]
      exact accepts_pure.mpr ⟨rfl, rfl⟩

theorem not_accepts_expected {what : String} {a : α} :
    ¬ (expected what : Rule α).Accepts cursor a after := by
  intro h
  obtain ⟨token, middle, -, hrest⟩ := accepts_bind.mp h
  split at hrest <;> exact not_accepts_fail hrest

theorem accepts_require (hcursor : cursor.Bounded) (hne : kind ≠ .endOfInput) {what : String}
    {token : Token} :
    (require kind what).Accepts cursor token after ↔
      token.kind = kind ∧ cursor.Passes after [token] [] := by
  refine accepts_bind.trans ⟨?_, ?_⟩
  · rintro ⟨found, middle, haccept, hrest⟩
    rcases (accepts_accept? hcursor hne).mp haccept with ⟨token, rfl, h⟩ | ⟨rfl, -⟩
    · obtain ⟨rfl, rfl⟩ := accepts_pure.mp hrest
      exact h
    · exact absurd hrest not_accepts_expected
  · intro h
    exact ⟨some token, after, (accepts_accept? hcursor hne).mpr (.inl ⟨token, rfl, h⟩),
      accepts_pure.mpr ⟨rfl, rfl⟩⟩

end Kinds

/-! ## First steps -/

section Steps

variable {rest : β → Rule α} {result : α}

theorem accepts_pure_bind {b : β} :
    (pure b >>= rest).Accepts cursor result after ↔ (rest b).Accepts cursor result after :=
  Iff.rfl

theorem accepts_peek_bind {rest : Token → Rule α} :
    (peek >>= rest).Accepts cursor result after ↔
      (rest cursor.peek).Accepts cursor result after :=
  Iff.rfl

theorem accepts_check_bind {kind : TokenKind} {rest : Bool → Rule α} :
    (check kind >>= rest).Accepts cursor result after ↔
      (rest (decide (cursor.peek.kind = kind))).Accepts cursor result after :=
  Iff.rfl

theorem accepts_atEnd_bind {rest : Bool → Rule α} :
    (atEnd >>= rest).Accepts cursor result after ↔
      (rest cursor.rest.isEmpty).Accepts cursor result after :=
  Iff.rfl

theorem accepts_skip_bind (hcursor : cursor.Bounded) (hne : cursor.peek.kind ≠ .endOfInput)
    {rest : Unit → Rule α} :
    (skip >>= rest).Accepts cursor result after ↔
      ∃ middle, middle.Bounded ∧ cursor.Passes middle [cursor.peek] [] ∧
        (rest ()).Accepts middle result after := by
  rw [accepts_bind]
  constructor
  · rintro ⟨_, middle, hskip, hrest⟩
    have hpasses := (accepts_skip_peek hcursor hne).mp hskip
    exact ⟨middle, hpasses.bounded hcursor, hpasses, hrest⟩
  · rintro ⟨middle, -, hpasses, hrest⟩
    exact ⟨(), middle, (accepts_skip_peek hcursor hne).mpr hpasses, hrest⟩

/-- A token stands for the result. -/
theorem accepts_skip_pure (hcursor : cursor.Bounded) (hne : cursor.peek.kind ≠ .endOfInput)
    {a : α} :
    (do skip; return a : Rule α).Accepts cursor result after ↔
      cursor.Passes after [cursor.peek] [] ∧ result = a := by
  rw [accepts_skip_bind hcursor hne]
  constructor
  · rintro ⟨middle, -, hpasses, hpure⟩
    obtain ⟨rfl, rfl⟩ := accepts_pure.mp hpure
    exact ⟨hpasses, rfl⟩
  · rintro ⟨hpasses, rfl⟩
    exact ⟨after, hpasses.bounded hcursor, hpasses, accepts_pure.mpr ⟨rfl, rfl⟩⟩

theorem accepts_require_bind (hcursor : cursor.Bounded) {kind : TokenKind}
    (hne : kind ≠ .endOfInput) {what : String} {rest : Token → Rule α} :
    (require kind what >>= rest).Accepts cursor result after ↔
      ∃ token middle, middle.Bounded ∧ token.kind = kind ∧ cursor.Passes middle [token] [] ∧
        (rest token).Accepts middle result after := by
  rw [accepts_bind]
  constructor
  · rintro ⟨token, middle, hrequire, hrest⟩
    obtain ⟨hkind, hpasses⟩ := (accepts_require hcursor hne).mp hrequire
    exact ⟨token, middle, hpasses.bounded hcursor, hkind, hpasses, hrest⟩
  · rintro ⟨token, middle, -, hkind, hpasses, hrest⟩
    exact ⟨token, middle, (accepts_require hcursor hne).mpr ⟨hkind, hpasses⟩, hrest⟩

theorem accepts_accept?_bind (hcursor : cursor.Bounded) {kind : TokenKind}
    (hne : kind ≠ .endOfInput) {rest : Option Token → Rule α} :
    (accept? kind >>= rest).Accepts cursor result after ↔
      (∃ token middle, middle.Bounded ∧ token.kind = kind ∧ cursor.Passes middle [token] [] ∧
        (rest (some token)).Accepts middle result after) ∨
      cursor.peek.kind ≠ kind ∧ (rest none).Accepts cursor result after := by
  rw [accepts_bind]
  constructor
  · rintro ⟨found, middle, haccept, hrest⟩
    rcases (accepts_accept? hcursor hne).mp haccept with
      ⟨token, rfl, hkind, hpasses⟩ | ⟨rfl, hkind, rfl⟩
    · exact .inl ⟨token, middle, hpasses.bounded hcursor, hkind, hpasses, hrest⟩
    · exact .inr ⟨hkind, hrest⟩
  · rintro (⟨token, middle, -, hkind, hpasses, hrest⟩ | ⟨hkind, hrest⟩)
    · exact ⟨_, middle, (accepts_accept? hcursor hne).mpr (.inl ⟨token, rfl, hkind, hpasses⟩),
        hrest⟩
    · exact ⟨_, cursor, (accepts_accept? hcursor hne).mpr (.inr ⟨rfl, hkind, rfl⟩), hrest⟩

theorem accepts_accept_bind (hcursor : cursor.Bounded) {kind : TokenKind}
    (hne : kind ≠ .endOfInput) {rest : Bool → Rule α} :
    (accept kind >>= rest).Accepts cursor result after ↔
      (∃ token middle, middle.Bounded ∧ token.kind = kind ∧ cursor.Passes middle [token] [] ∧
        (rest true).Accepts middle result after) ∨
      cursor.peek.kind ≠ kind ∧ (rest false).Accepts cursor result after := by
  have hsome : (accept kind >>= rest).Accepts cursor result after ↔
      (accept? kind >>= fun found => rest found.isSome).Accepts cursor result after := by
    simp only [accept, accepts_bind, accepts_pure]
    constructor
    · rintro ⟨_, middle, ⟨found, _, hfound, rfl, rfl⟩, hrest⟩
      exact ⟨found, _, hfound, hrest⟩
    · rintro ⟨found, middle, hfound, hrest⟩
      exact ⟨_, middle, ⟨found, middle, hfound, rfl, rfl⟩, hrest⟩
  exact hsome.trans (accepts_accept?_bind hcursor hne)

end Steps

/-! ## Repetition -/

theorem accepts_recover {rule : Rule α} {found : Option α} :
    rule.recover.Accepts cursor found after ↔
      ∃ a, found = some a ∧ rule.Accepts cursor a after := by
  unfold Accepts recover
  dsimp only
  generalize hrule : rule.run cursor = outcome
  obtain ⟨result, middle⟩ := outcome
  have hprefix := (leadsTo_of_run hrule).faults.length_le
  cases result with
  | ok a =>
    simp only [Prod.mk.injEq, Except.ok.injEq]
    constructor
    · rintro ⟨⟨rfl, rfl⟩, hfaults⟩
      exact ⟨a, rfl, ⟨rfl, rfl⟩, hfaults⟩
    · rintro ⟨_, rfl, ⟨rfl, rfl⟩, hfaults⟩
      exact ⟨⟨rfl, rfl⟩, hfaults⟩
  | error fault =>
    constructor
    · rintro ⟨hrun, hfaults⟩
      obtain ⟨-, rfl⟩ := Prod.mk.inj hrun
      have hlength := congrArg Array.size hfaults
      simp only [Array.size_push, Array.length_toList] at hlength hprefix
      omega
    · rintro ⟨_, -, hrun, -⟩
      cases hrun

theorem accepts_repeated {pass : α → Rule (Pass α)} {state final : α} :
    (repeated pass state).Accepts cursor final after ↔
      (pass state).Accepts cursor (.last final) after ∨
        ∃ next middle, (pass state).Accepts cursor (.again next) middle ∧
          if cursor.read < middle.read then (repeated pass next).Accepts middle final after
          else final = next ∧ after = middle := by
  constructor
  · rintro ⟨hrun, hfaults⟩
    rw [run_repeated] at hrun
    generalize hpass : (pass state).run cursor = outcome at hrun
    obtain ⟨result, middle⟩ := outcome
    match result with
    | .error fault => cases hrun
    | .ok (.last last) =>
      obtain ⟨hlast, rfl⟩ := Prod.mk.inj hrun
      obtain rfl := Except.ok.inj hlast
      exact .inl ⟨hpass, hfaults⟩
    | .ok (.again next) =>
      refine .inr ⟨next, middle, ?_⟩
      dsimp only at hrun
      split at hrun
      · rename_i hread
        have hmiddle := faults_between (leadsTo_of_run hpass) (leadsTo_of_run hrun) hfaults
        rw [if_pos hread]
        exact ⟨⟨hpass, hmiddle⟩, hrun, hfaults.trans hmiddle.symm⟩
      · rename_i hread
        obtain ⟨hnext, rfl⟩ := Prod.mk.inj hrun
        rw [if_neg hread]
        exact ⟨⟨hpass, hfaults⟩, (Except.ok.inj hnext).symm, rfl⟩
  · rintro (⟨hrun, hfaults⟩ | ⟨next, middle, ⟨hpass, hmiddle⟩, hrest⟩)
    · refine ⟨?_, hfaults⟩
      rw [run_repeated, hrun]
    · unfold Accepts
      rw [run_repeated, hpass]
      dsimp only
      split at hrest
      · rename_i hread
        rw [if_pos hread]
        exact ⟨hrest.1, hrest.2.trans hmiddle⟩
      · rename_i hread
        obtain ⟨rfl, rfl⟩ := hrest
        rw [if_neg hread]
        exact ⟨rfl, hmiddle⟩

/-- What holds before each pass of a repetition holds before its last pass. Every pass that
asks for another one has to read a token. -/
theorem Accepts.last_pass {pass : α → Rule (Pass α)} (holds : α → Cursor → Prop)
    (hpass : ∀ state cursor next middle, holds state cursor →
      (pass state).Accepts cursor (.again next) middle →
      cursor.read < middle.read ∧ holds next middle)
    {state final : α} (hstate : holds state cursor)
    (h : (repeated pass state).Accepts cursor final after) :
    ∃ last before, holds last before ∧ (pass last).Accepts before (.last final) after := by
  induction hlength : cursor.rest.length using Nat.strongRecOn generalizing state cursor with
  | _ length ih =>
    subst hlength
    rcases accepts_repeated.mp h with hlast | ⟨next, middle, hagain, hrest⟩
    · exact ⟨state, cursor, hstate, hlast⟩
    · obtain ⟨hread, hnext⟩ := hpass state cursor next middle hstate hagain
      rw [if_pos hread] at hrest
      exact ih _ ((leadsTo_of_run hagain.1).length_lt hread) hnext hrest rfl

theorem accepts_again {pass : α → Rule (Pass α)} {state next final : α} {middle : Cursor}
    (hpass : (pass state).Accepts cursor (.again next) middle) (hread : cursor.read < middle.read)
    (h : (repeated pass next).Accepts middle final after) :
    (repeated pass state).Accepts cursor final after := by
  refine accepts_repeated.mpr (.inr ⟨next, middle, hpass, ?_⟩)
  rwa [if_pos hread]

end Rule

end CommandScript.Grammar
