import CommandScript.Proofs.Grammar.Acceptance
import CommandScript.Proofs.Grammar.Nearsight
import CommandScript.Proofs.Grammar.Shadowing

/-!
# Rules that miss a token at the end

One rule may end where the tokens end, where another one asks for a last token. What the first
one accepts is then accepted by the second one, too, or it goes up to the end of the tokens
and is accepted once that token is supplied. In a sequence at most one rule misses the token,
since none is left behind it: the rules before it have left a token and do the same, and those
behind it have nothing to read.

* `Rule.Supplies`: the second rule accepts the same, or the same with one more token.
* `Rule.Rests`: what the rules do once the token has been read.
* `supplies_bind`, `supplies_repeated`, `supplies_recover`: how rules are put together.
-/

namespace CommandScript.Grammar

open Rule

namespace Cursor

/-- One more token comes behind those that are left. -/
def followed (mark : Token) (cursor : Cursor) : Cursor := cursor.extended [mark] cursor.last

/-- The cursor when one more token has been read. -/
def past (cursor : Cursor) : Cursor := { cursor with read := cursor.read + 1 }

variable {cursor after : Cursor}

@[simp] theorem read_past (cursor : Cursor) : cursor.past.read = cursor.read + 1 := rfl

theorem Bounded.past (h : cursor.Bounded) : cursor.past.Bounded := h

theorem Bounded.followed (h : cursor.Bounded) (mark : Token) : (cursor.followed mark).Bounded := h

/-- What stands between two cursors stands there, too, if the mark comes behind. -/
theorem Passes.followed {tokens : List Token} {ids : List NodeId}
    (h : cursor.Passes after tokens ids) (mark : Token) :
    (cursor.followed mark).Passes (after.followed mark) tokens ids := by
  obtain ⟨hrest, hafter, hids⟩ := h
  refine ⟨?_, ?_, hids⟩
  · change cursor.rest ++ [mark] = tokens ++ (after.rest ++ [mark])
    rw [hrest, List.append_assoc]
  · rw [hafter]
    rfl

/-- Behind the last of the tokens the mark is read. -/
theorem passes_followed (hempty : cursor.rest = []) (mark : Token) :
    (cursor.followed mark).Passes cursor.past [mark] [] := by
  have hrest : (cursor.followed mark).rest = [mark] := by
    unfold followed extended
    rw [hempty]
    rfl
  have hpast : (cursor.followed mark).next [] = cursor.past := by
    unfold next past
    rw [← hempty]
    rfl
  exact hpast ▸ .token hrest

/-- Where no token is left, none is left later, and none is read. -/
theorem LeadsTo.at_end (h : cursor.LeadsTo after) (hrest : cursor.rest = []) :
    after.rest = [] ∧ after.read = cursor.read := by
  obtain ⟨taken, htaken, hread⟩ := h.taken
  rw [hrest] at htaken
  obtain ⟨rfl, hafter⟩ := List.append_eq_nil_iff.mp htaken.symm
  exact ⟨hafter, hread⟩

/-- A cursor that has come to the end of the tokens has read those that were left. -/
theorem LeadsTo.read_lt (h : cursor.LeadsTo after) (hrest : cursor.rest ≠ [])
    (hend : after.rest = []) : cursor.read < after.read := by
  obtain ⟨taken, htaken, hread⟩ := h.taken
  rw [hend, List.append_nil] at htaken
  have hpos := List.length_pos_iff.mpr (htaken ▸ hrest)
  omega

end Cursor

namespace Rule

variable {α β : Type} {mark : Token} {rule other : Rule α} {next more : α → Rule β}
  {cursor after : Cursor}

/-- The other rule accepts the same as the rule, or it does so if the mark comes behind the
tokens: it reads the mark when it has read all of them. -/
def Supplies (mark : Token) (rule other : Rule α) : Prop :=
  ∀ cursor a after, cursor.Bounded → rule.Accepts cursor a after →
    other.Accepts cursor a after ∨
      cursor.rest ≠ [] ∧ after.rest = [] ∧ other.Accepts (cursor.followed mark) a after.past

/-- At the end of the tokens the other rule accepts the same as the rule, although it has read
one more. -/
def Rests (rule other : Rule α) : Prop :=
  ∀ cursor a after, cursor.Bounded → cursor.rest = [] → rule.Accepts cursor a after →
    other.Accepts cursor.past a after.past

/-! ## At the end of the tokens -/

theorem rests_pure (a : α) : (pure a : Rule α).Rests (pure a) := by
  intro cursor b after _ _ haccepts
  obtain ⟨rfl, rfl⟩ := accepts_pure.mp haccepts
  exact accepts_pure.mpr ⟨rfl, rfl⟩

/-- An optional token is not there. -/
theorem rests_accept {kind : TokenKind} (hkind : kind ≠ .endOfInput) {next more : Bool → Rule β}
    (h : (next false).Rests (more false)) :
    (accept kind >>= next).Rests (accept kind >>= more) := by
  intro cursor b after hcursor hrest haccepts
  obtain ⟨token, middle, -, -, hpasses, -⟩ | ⟨hpeek, hnone⟩ :=
    (accepts_accept_bind hcursor hkind).mp haccepts
  · rw [hpasses.rest] at hrest
    cases hrest
  · have hthere := h cursor b after hcursor hrest hnone
    exact (accepts_accept_bind hcursor.past hkind).mpr (.inr ⟨hpeek, hthere⟩)

/-- A token that is asked for is not there. -/
theorem rests_require {kind : TokenKind} (hkind : kind ≠ .endOfInput) (what : String)
    (next : Token → Rule β) (other : Rule β) : (require kind what >>= next).Rests other := by
  intro cursor b after hcursor hrest haccepts
  obtain ⟨token, middle, -, -, hpasses, -⟩ := (accepts_require_bind hcursor hkind).mp haccepts
  rw [hpasses.rest] at hrest
  cases hrest

theorem rests_repeated {pass wide : α → Rule (Pass α)}
    (h : ∀ state, (pass state).Rests (wide state)) (state : α) :
    (repeated pass state).Rests (repeated wide state) := by
  intro cursor final after hcursor hrest haccepts
  rcases accepts_repeated.mp haccepts with hlast | ⟨next, middle, hagain, hmore⟩
  · exact accepts_repeated.mpr (.inl (h state cursor _ after hcursor hrest hlast))
  · obtain ⟨-, hread⟩ := (leadsTo_of_run hagain.1).at_end hrest
    rw [if_neg (by omega)] at hmore
    obtain ⟨rfl, rfl⟩ := hmore
    refine accepts_repeated.mpr (.inr ⟨_, _, h state cursor _ _ hcursor hrest hagain, ?_⟩)
    rw [if_neg (by simp [hread])]
    exact ⟨rfl, rfl⟩

/-! ## Sequences -/

theorem supplies_refl (rule : Rule α) : rule.Supplies mark rule := fun _ _ _ _ h => .inl h

/-- A rule that leaves a token does the same if the mark comes behind. -/
theorem Accepts.followed {a : α} (h : rule.Accepts cursor a after) (hnear : rule.Nearsighted)
    (hleft : after.rest ≠ []) (mark : Token) :
    rule.Accepts (cursor.followed mark) a (after.followed mark) := by
  have hrun : rule.run (cursor.followed mark) = _ := hnear [mark] cursor.last cursor (by
    rw [h.1]
    exact hleft)
  rw [h.1] at hrun
  unfold Cursor.followed
  rw [(leadsTo_of_run h.1).last]
  exact ⟨hrun, h.2⟩

theorem supplies_after (h : rule.Nearsighted) (hnext : ∀ a, (next a).Supplies mark (more a)) :
    (rule >>= next).Supplies mark (rule >>= more) := by
  intro cursor b after hcursor haccepts
  obtain ⟨a, middle, hrule, hrest⟩ := accepts_bind.mp haccepts
  rcases hnext a middle b after (hrule.bounded hcursor) hrest with hsame | ⟨hleft, hend, hthere⟩
  · exact .inl (accepts_bind.mpr ⟨a, middle, hrule, hsame⟩)
  · have hleads := leadsTo_of_run hrule.1
    exact .inr ⟨hleads.rest_ne_nil hleft, hend,
      accepts_bind.mpr ⟨a, middle.followed mark, hrule.followed h hleft mark, hthere⟩⟩

theorem supplies_bind (h : rule.Supplies mark other) (hother : other.Nearsighted)
    (hnext : ∀ a, (next a).Supplies mark (more a)) (hend : ∀ a, (next a).Rests (more a)) :
    (rule >>= next).Supplies mark (other >>= more) := by
  intro cursor b after hcursor haccepts
  obtain ⟨a, middle, hrule, hrest⟩ := accepts_bind.mp haccepts
  rcases h cursor a middle hcursor hrule with hsame | ⟨hleft, hempty, hthere⟩
  · have hboth := accepts_bind.mpr ⟨a, middle, hsame, hrest⟩
    exact supplies_after hother hnext cursor b after hcursor hboth
  · obtain ⟨hafter, -⟩ := (leadsTo_of_run hrest.1).at_end hempty
    have hlast := hend a middle b after (hrule.bounded hcursor) hempty hrest
    exact .inr ⟨hleft, hafter, accepts_bind.mpr ⟨a, middle.past, hthere, hlast⟩⟩

/-- What comes behind the rule reads nothing. -/
theorem supplies_then (h : rule.Supplies mark other) (hnext : ∀ a, ∃ b, next a = pure b) :
    (rule >>= next).Supplies mark (other >>= next) := by
  intro cursor b after hcursor haccepts
  obtain ⟨a, middle, hrule, hpure⟩ := accepts_bind.mp haccepts
  obtain ⟨c, hc⟩ := hnext a
  obtain ⟨rfl, rfl⟩ := accepts_pure.mp (hc ▸ hpure)
  rcases h cursor a after hcursor hrule with hsame | ⟨hleft, hend, hthere⟩
  · exact .inl (accepts_bind.mpr ⟨a, after, hsame, hpure⟩)
  · have hlast : (next a).Accepts after.past b after.past := hc ▸ accepts_pure.mpr ⟨rfl, rfl⟩
    exact .inr ⟨hleft, hend, accepts_bind.mpr ⟨a, after.past, hthere, hlast⟩⟩

theorem supplies_map (h : rule.Supplies mark other) (f : α → β) :
    (f <$> rule).Supplies mark (f <$> other) :=
  supplies_then h fun a => ⟨f a, rfl⟩

theorem supplies_ite {condition : Prop} [Decidable condition] {rule other first second : Rule α}
    (h : rule.Supplies mark other) (hfirst : first.Supplies mark second) :
    (if condition then rule else first).Supplies mark (if condition then other else second) := by
  split
  · exact h
  · exact hfirst

/-- Two ways to go on that come together again. -/
theorem supplies_choice {condition : Prop} [Decidable condition] (h : rule.Nearsighted)
    (hother : other.Nearsighted) (hnext : ∀ a, (next a).Supplies mark (more a)) :
    (if condition then rule >>= next else other >>= next).Supplies mark
      (if condition then rule >>= more else other >>= more) :=
  supplies_ite (supplies_after h hnext) (supplies_after hother hnext)

/-- Nothing is recovered from where no fault is recorded. -/
theorem supplies_recover (h : rule.Supplies mark other) :
    rule.recover.Supplies mark other.recover := by
  intro cursor found after hcursor haccepts
  obtain ⟨a, rfl, hrule⟩ := accepts_recover.mp haccepts
  rcases h cursor a after hcursor hrule with hsame | ⟨hleft, hend, hthere⟩
  · exact .inl (accepts_recover.mpr ⟨a, rfl, hsame⟩)
  · exact .inr ⟨hleft, hend, accepts_recover.mpr ⟨a, rfl, hthere⟩⟩

/-! ## Repetition -/

theorem supplies_repeated {pass wide : α → Rule (Pass α)}
    (hpass : ∀ state, (pass state).Supplies mark (wide state))
    (hwide : ∀ state, (wide state).Nearsighted) (hend : ∀ state, (pass state).Rests (wide state))
    (state : α) : (repeated pass state).Supplies mark (repeated wide state) := by
  intro cursor final after hcursor haccepts
  induction hlength : cursor.rest.length using Nat.strongRecOn generalizing state cursor with
  | _ length ih =>
    subst hlength
    rcases accepts_repeated.mp haccepts with hlast | ⟨next, middle, hagain, hmore⟩
    · rcases hpass state cursor _ after hcursor hlast with hsame | ⟨hleft, hafter, hthere⟩
      · exact .inl (accepts_repeated.mpr (.inl hsame))
      · exact .inr ⟨hleft, hafter, accepts_repeated.mpr (.inl hthere)⟩
    · have hmiddle := hagain.bounded hcursor
      have hleads := leadsTo_of_run hagain.1
      rcases hpass state cursor _ middle hcursor hagain with hsame | ⟨hleft, hempty, hthere⟩
      · by_cases hread : cursor.read < middle.read
        · rw [if_pos hread] at hmore
          rcases ih _ (hleads.length_lt hread) next middle hmiddle hmore rfl with
            hlater | ⟨hleft, hafter, hlater⟩
          · exact .inl (accepts_again hsame hread hlater)
          · have hbefore := hsame.followed (hwide state) hleft mark
            exact .inr ⟨hleads.rest_ne_nil hleft, hafter, accepts_again hbefore hread hlater⟩
        · refine .inl (accepts_repeated.mpr (.inr ⟨next, middle, hsame, ?_⟩))
          rw [if_neg hread] at hmore ⊢
          exact hmore
      · -- the mark has been read, and the passes that come now have nothing to read
        have hread := hleads.read_lt hleft hempty
        rw [if_pos hread] at hmore
        obtain ⟨hafter, -⟩ := (leadsTo_of_run hmore.1).at_end hempty
        have hlast := rests_repeated hend next middle final after hmiddle hempty hmore
        exact .inr ⟨hleft, hafter, accepts_again hthere (Nat.lt_succ_of_lt hread) hlast⟩

end Rule

/-! ## Bodies -/

section Bodies

variable {mark : Token} {test : Rule Bool} {item other : Rule (Option Stmt)}

/-- A test for the end of a body holds at the end of the tokens. -/
def EndsBody (test : Rule Bool) : Prop :=
  ∀ cursor : Cursor, cursor.rest = [] → test.run cursor = (.ok true, cursor)

theorem endsBody_atEnd : EndsBody atEnd := by
  intro cursor hrest
  change (Except.ok cursor.rest.isEmpty, cursor) = _
  rw [hrest]
  rfl

theorem endsBody_atBlockEnd : EndsBody atBlockEnd := by
  intro cursor hrest
  have hcheck : (check .rightBrace).run cursor =
      (.ok (decide (cursor.peek.kind = .rightBrace)), cursor) := rfl
  rw [atBlockEnd, run_bind_of_ok hcheck, run_bind_of_ok (endsBody_atEnd cursor hrest), Bool.or_true]
  rfl

/-- At the end of the tokens a body ends, whatever its items are. -/
theorem run_bodyPass_of_nil (htest : EndsBody test) (item : Rule (Option Stmt))
    (body : Array Stmt) {cursor : Cursor} (hrest : cursor.rest = []) :
    (bodyPass test item body).run cursor = (.ok (.last body), cursor) := by
  rw [bodyPass, run_bind_of_ok (htest cursor hrest)]
  rfl

theorem rests_bodyPass (htest : EndsBody test) (item other : Rule (Option Stmt))
    (body : Array Stmt) : (bodyPass test item body).Rests (bodyPass test other body) := by
  intro cursor pass after _ hrest haccepts
  have hlast := run_bodyPass_of_nil htest item body hrest
  obtain ⟨hpass, rfl⟩ := Prod.mk.inj (hlast.symm.trans haccepts.1)
  obtain rfl := Except.ok.inj hpass
  exact ⟨run_bodyPass_of_nil htest other body hrest, rfl⟩

theorem supplies_bodyPass (htest : test.Nearsighted) (h : item.Supplies mark other)
    (body : Array Stmt) : (bodyPass test item body).Supplies mark (bodyPass test other body) := by
  refine supplies_after htest fun _ => supplies_ite (supplies_refl _) ?_
  refine supplies_then h fun found => ?_
  cases found <;> exact ⟨_, rfl⟩

end Bodies

end CommandScript.Grammar
