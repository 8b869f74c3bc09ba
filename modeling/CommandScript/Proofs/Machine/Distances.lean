import CommandScript.Proofs.Machine.Extension
import CommandScript.Proofs.Machine.Tracking

/-!
# References with other distances

A name that no scope of a program has declared is looked up in the global scope. The same
scope is found if the distance of the top level is recorded for it, because every chain of
scopes that fits a context is as long as the context and ends with the global scope.

So a machine takes the same steps with another table of distances if the table has, for
every accepted reference, either its distance or that of the top level.

* `Occurrence.FoundBy`: what a table has to record for an occurrence.
* `Interpreter.target?_withTable`: a reference means the same scope with both tables.
* `Machine.Tracked.sameTargets`: so do the references that a tracked machine comes to.
-/

namespace CommandScript

open Std (HashMap)

/-- The table has the distance of the reference, or that of the top level for a name that
no scope has declared. -/
def Occurrence.FoundBy (table : HashMap NodeId Nat) (occurrence : Occurrence) : Prop :=
  ∀ reference, occurrence.reference? = some reference →
    table[reference.id]? = distance? occurrence.context.scopes reference.name ∨
      distance? occurrence.context.scopes reference.name = none ∧
        table[reference.id]? = some (occurrence.context.length - 1)

namespace Layout

variable {layout : Layout} {scopes : Scopes}

/-- The chain of a scope that fits ends with the global scope. -/
theorem Fits.ancestor_top {id : ScopeId} {context : Context} (h : layout.Fits scopes id context) :
    scopes.ancestor? id (context.length - 1) = some layout.globals := by
  induction h with
  | top => rfl
  | @inner id parent level outer _ _ _ hparent houter ih =>
    have hpositive : 0 < outer.length := by
      cases houter <;> exact Nat.succ_pos _
    obtain ⟨distance, hdistance⟩ := Nat.exists_eq_succ_of_ne_zero (Nat.pos_iff_ne_zero.mp hpositive)
    rw [List.length_cons, Nat.add_sub_cancel, hdistance, Scopes.ancestor?, hparent,
      Option.bind_some]
    rw [hdistance] at ih
    exact ih

/-- In the global scope a name is found there or nowhere. -/
theorem Sound.nearest?_globals (h : layout.Sound scopes) (name : String) :
    scopes.nearest? layout.globals name =
      (some layout.globals).filter fun scope => (scopes.local? scope name).isSome := by
  rw [Scopes.nearest?_eq_ite, h.root, Option.filter]
  split <;> rfl

end Layout

section Targets

variable {table : HashMap NodeId Nat}

theorem Interpreter.target?_withTable {layout : Layout} {state : Interpreter}
    (hglobals : state.globals = layout.globals) (hsound : layout.Sound state.scopes)
    (hlinked : layout.Linked state.distances) {context : Context} {reference : Reference}
    (hfits : layout.Fits state.scopes state.current context)
    (hknown : layout.known ⟨context, .mention reference⟩)
    (hfound : Occurrence.FoundBy table ⟨context, .mention reference⟩) :
    (state.withTable table).target? .resolved reference.id reference.name =
      state.target? .resolved reference.id reference.name := by
  have hrecorded := hlinked context reference hknown
  have htable := hfound reference rfl
  unfold Interpreter.target?
  rw [hrecorded]
  rcases htable with hsame | ⟨hnone, htop⟩
  · simp only [withTable, hsame]
  · simp only [withTable, htop]
    rw [hnone, hfits.ancestor_top, hglobals, hsound.nearest?_globals]

theorem Interpreter.Reaches.target?_withTable {chronicle : Chronicle}
    (hfound : ∀ occurrence, chronicle.accepted occurrence → occurrence.FoundBy table)
    {state : Interpreter} {reference : Reference} (h : state.Reaches chronicle reference) :
    (state.withTable table).target? .resolved reference.id reference.name =
      state.target? .resolved reference.id reference.name := by
  obtain ⟨live, twin, layout, context, hagree, hcovers, hfits, hknown⟩ := h
  have hagree' : (state.withTable table).AgreeOn live (twin.withTable table) := by
    obtain ⟨houtside, hs, hg, hc⟩ := hagree
    rw [houtside]
    exact ⟨rfl, hs, hg, hc⟩
  rw [hagree.target?_eq, hagree'.target?_eq]
  exact Interpreter.target?_withTable hcovers.globals hcovers.store hcovers.legit.linked hfits
    hknown (hfound _ (hcovers.legit.accepted _ hknown))

theorem Machine.Tracked.sameTargets {chronicle : Chronicle}
    (hfound : ∀ occurrence, chronicle.accepted occurrence → occurrence.FoundBy table)
    {machine : Machine} (h : machine.Tracked chronicle) :
    machine.SameTargets .resolved table := by
  obtain ⟨control, frames, state⟩ := machine
  refine ⟨?_, ?_⟩
  · rintro id name line rfl
    exact h.reaches_read.target?_withTable hfound
  · rintro value id name line rest rfl rfl
    exact h.reaches_write.target?_withTable hfound

end Targets

/-! ## What is accepted -/

/-- What was accepted so far is known to have its distance in the table, so one may accept
by that. -/
theorem Interpreter.Tracked.accepting {chronicle : Chronicle} {state : Interpreter}
    (h : state.Tracked chronicle) {accepted : Occurrence → Prop}
    (haccepted : ∀ occurrence, chronicle.accepted occurrence →
      (∀ reference, occurrence.reference? = some reference →
        reference.id.toNat < chronicle.handedOut ∧
          state.distances[reference.id]? =
            distance? occurrence.context.scopes reference.name) →
      accepted occurrence) :
    state.Tracked { chronicle with accepted } := by
  obtain ⟨live, twin, layout, hagree, hcovers, hcurrent⟩ := h
  refine ⟨live, twin, layout, hagree, ⟨hcovers.globals, hcovers.store, ?_, hcovers.traces⟩,
    hcurrent⟩
  have hdistances : twin.distances = state.distances := by
    rw [hagree.outside]
  refine { hcovers.legit with accepted := fun occurrence hknown => ?_ }
  refine haccepted occurrence (hcovers.legit.accepted occurrence hknown) ?_
  obtain ⟨context, use⟩ := occurrence
  rintro reference hreference
  match use, hreference with
  | .mention _, rfl =>
    refine ⟨hcovers.legit.ids context reference hknown, ?_⟩
    rw [← hdistances]
    exact hcovers.legit.linked context reference hknown

end CommandScript
