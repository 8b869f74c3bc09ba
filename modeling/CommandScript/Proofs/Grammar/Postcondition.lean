import CommandScript.Grammar.Program

/-!
# Postconditions of grammar rules

A rule ensures a property of its result and of the cursor behind it if the property holds
whenever the rule succeeds from a cursor with some other property. Sequences of rules are
chained through what each one ensures, and a repetition through an invariant.

* `Rule.Ensures`: the property of a rule.
* `ensures_bind`, `ensures_repeated`, `ensures_recover`: how it composes.
-/

namespace CommandScript.Grammar.Rule

variable {α β : Type}

/-- Whenever the rule succeeds from a cursor with `pre`, its result has `post`. -/
def Ensures (pre : Cursor → Prop) (rule : Rule α) (post : α → Cursor → Prop) : Prop :=
  ∀ cursor, pre cursor → ∀ a after, rule.run cursor = (.ok a, after) → post a after

variable {pre : Cursor → Prop} {rule : Rule α} {post : α → Cursor → Prop}

theorem ensures_pure {a : α} (h : ∀ cursor, pre cursor → post a cursor) :
    Ensures pre (pure a) post := by
  intro cursor hpre b after hrun
  obtain ⟨hb, rfl⟩ := Prod.mk.inj hrun
  obtain rfl := Except.ok.inj hb
  exact h cursor hpre

theorem ensures_fail (fault : Located ParseFault) : Ensures pre (fail fault : Rule α) post := by
  intro cursor _ a after hrun
  cases hrun

theorem ensures_mono {weaker : α → Cursor → Prop} (h : Ensures pre rule post)
    (hpost : ∀ a after, post a after → weaker a after) : Ensures pre rule weaker :=
  fun cursor hpre a after hrun => hpost a after (h cursor hpre a after hrun)

theorem run_bind_eq_ok {next : α → Rule β} {cursor after : Cursor} {b : β}
    (h : (rule >>= next).run cursor = (.ok b, after)) :
    ∃ a middle, rule.run cursor = (.ok a, middle) ∧ (next a).run middle = (.ok b, after) := by
  rw [run_bind] at h
  split at h
  · exact ⟨_, _, ‹_›, h⟩
  · cases h

theorem run_bind_of_ok {next : α → Rule β} {cursor after : Cursor} {a : α}
    (h : rule.run cursor = (.ok a, after)) : (rule >>= next).run cursor = (next a).run after := by
  rw [run_bind, h]

theorem leadsTo_of_run {cursor after : Cursor} {outcome : Except (Located ParseFault) α}
    (h : rule.run cursor = (outcome, after)) : cursor.LeadsTo after := by
  have hadvances := rule.advances cursor
  rwa [h] at hadvances

theorem ensures_bind {next : α → Rule β} {last : β → Cursor → Prop}
    (h : Ensures pre rule post) (hnext : ∀ a, Ensures (post a) (next a) last) :
    Ensures pre (rule >>= next) last := by
  intro cursor hpre b after hrun
  obtain ⟨a, middle, hfirst, hsecond⟩ := run_bind_eq_ok hrun
  exact hnext a middle (h cursor hpre a middle hfirst) b after hsecond

theorem ensures_map {f : α → β} {last : β → Cursor → Prop}
    (h : Ensures pre rule fun a after => last (f a) after) : Ensures pre (f <$> rule) last :=
  ensures_bind h fun _ => ensures_pure fun _ h => h

/-- What the accumulator of a repetition stands for. -/
def Pass.state {α : Type} : Pass α → α
  | .again state => state
  | .last state => state

theorem ensures_repeated {pass : α → Rule (Pass α)} (invariant : α → Cursor → Prop)
    (hpass : ∀ state, Ensures (invariant state) (pass state)
      fun result after => invariant result.state after) (state : α) :
    Ensures (invariant state) (repeated pass state) invariant := by
  intro cursor hinvariant final after hrun
  induction hlength : cursor.rest.length using Nat.strongRecOn generalizing state cursor with
  | _ length ih =>
    subst hlength
    rw [run_repeated] at hrun
    have hresult := hpass state cursor hinvariant
    have hadvances := (pass state).advances cursor
    revert hrun hresult hadvances
    generalize (pass state).run cursor = outcome
    intro hrun hresult hadvances
    obtain ⟨result, middle⟩ := outcome
    match result with
    | .error fault => cases hrun
    | .ok (.last state) =>
      obtain ⟨hstate, rfl⟩ := Prod.mk.inj hrun
      obtain rfl := Except.ok.inj hstate
      exact hresult _ _ rfl
    | .ok (.again state) =>
      have hnext : invariant state middle := hresult _ _ rfl
      dsimp only at hrun
      split at hrun
      · rename_i hread
        exact ih _ (hadvances.length_lt hread) state middle hnext hrun rfl
      · obtain ⟨hstate, rfl⟩ := Prod.mk.inj hrun
        obtain rfl := Except.ok.inj hstate
        exact hnext

/-- After a fault nothing is left but that the cursor has moved forward. -/
theorem ensures_recover {last : Option α → Cursor → Prop}
    (h : Ensures pre rule fun a after => last (some a) after)
    (hnone : ∀ cursor after, pre cursor → cursor.LeadsTo after → last none after) :
    Ensures pre rule.recover last := by
  intro cursor hpre a after hrun
  have hadvances := rule.recover.advances cursor
  rw [hrun] at hadvances
  simp only [recover] at hrun
  split at hrun
  · rename_i found middle hfound
    obtain ⟨ha, rfl⟩ := Prod.mk.inj hrun
    obtain rfl := Except.ok.inj ha
    exact h cursor hpre found middle hfound
  · obtain ⟨ha, -⟩ := Prod.mk.inj hrun
    obtain rfl := Except.ok.inj ha
    exact hnone cursor after hpre hadvances

end CommandScript.Grammar.Rule
