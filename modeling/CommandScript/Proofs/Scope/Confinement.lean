import CommandScript.Proofs.Scope.Agreement
import CommandScript.Proofs.Scope.Cycles

/-!
# Changes that are confined to a set of scopes

Suppose that no link leads out of a set of scopes, other than to scopes that are newer than
all of an earlier store. What is looked up from a scope of the set is found in the set. So
changes that start from there stay there: the old scopes outside of the set keep their
bindings and their parent, and still no link leads out of the set.

* `Scopes.reaches_nearest?`, `reaches_ancestor?`: what is looked up is reached by links.
* `Scopes.Room`: a scope of the set, or a newer one.
* `Scopes.Confined`: what has changed since the earlier store is confined to the set.
* `Confined.define`, `Confined.add`: changes that go on to be confined.
-/

namespace CommandScript.Scopes

open Relation

/-! ## Looking up along links -/

theorem reaches_nearest? {scopes : Scopes} {id found : ScopeId} {name : String}
    (h : scopes.nearest? id name = some found) : ReflTransGen scopes.Links id found := by
  fun_induction nearest? scopes id name with
  | case1 id _ =>
    obtain rfl := Option.some.inj h
    exact .refl
  | case2 id _ parent hparent ih => exact .head (mem_links_iff.mpr (.inl hparent)) (ih h)
  | case3 => cases h

theorem reaches_ancestor? {scopes : Scopes} {id found : ScopeId} {distance : Nat}
    (h : scopes.ancestor? id distance = some found) : ReflTransGen scopes.Links id found := by
  induction distance generalizing id with
  | zero =>
    obtain rfl := Option.some.inj h
    exact .refl
  | succ distance ih =>
    obtain ⟨parent, hparent, hfound⟩ := Option.bind_eq_some_iff.mp h
    exact .head (mem_links_iff.mpr (.inl hparent)) (ih hfound)

/-! ## Confinement -/

/-- The scope is one of the set, or it is newer than the store. -/
def Room (before : Scopes) (inside : ScopeId → Prop) (id : ScopeId) : Prop :=
  inside id ∨ before.nextId ≤ id

/-- Since the earlier store only scopes of the set have changed and new ones were added, and
all that these link to is of the set or new. -/
structure Confined (before : Scopes) (inside : ScopeId → Prop) (after : Scopes) : Prop where
  grown : before.nextId ≤ after.nextId
  kept : ∀ id, ¬ Room before inside id → after.find id = before.find id
  closed : ∀ id, Room before inside id → ∀ linked, after.Links id linked →
    Room before inside linked

/-- At first nothing has changed. A scope that is not in the store has no link. -/
theorem Confined.start {before : Scopes} {inside : ScopeId → Prop}
    (h : ∀ id, inside id → ∀ linked, before.Links id linked → inside linked) :
    Confined before inside before where
  grown := Nat.le_refl _
  kept _ _ := rfl
  closed id hid linked hlink :=
    .inl (h id (hid.resolve_right (Nat.not_le.mpr hlink.lt_nextId)) linked hlink)

namespace Confined

variable {before after : Scopes} {inside : ScopeId → Prop} {id : ScopeId}

theorem room_of_reaches (h : Confined before inside after) (hid : Room before inside id)
    {found : ScopeId} (hfound : ReflTransGen after.Links id found) : Room before inside found :=
  closed_reachable h.closed hid hfound

theorem within_of_binds (h : Confined before inside after) (hid : Room before inside id)
    {name : String} {value : Value} (hbinds : after.Binds id name value) :
    value.Within (Room before inside) :=
  fun closure hclosure =>
    h.closed id hid closure (mem_links_iff.mpr (.inr ⟨name, value, hbinds, hclosure⟩))

theorem define (h : Confined before inside after) (hid : Room before inside id) (name : String)
    {value : Value} (hvalue : value.Within (Room before inside)) :
    Confined before inside (after.define id name value) where
  grown := by rw [nextId_define]; exact h.grown
  kept other hother := by
    have hne : other ≠ id := fun he => hother (he ▸ hid)
    rw [find_define, if_neg hne, h.kept other hother]
  closed other hother linked hlink := by
    rcases mem_links_iff.mp hlink with hparent | ⟨key, held, hbinds, hclosure⟩
    · rw [parent?_define] at hparent
      exact h.closed other hother linked (mem_links_iff.mpr (.inl hparent))
    · rcases hbinds.of_define with hold | ⟨-, -, rfl⟩
      · exact h.within_of_binds hother hold linked hclosure
      · exact hvalue linked hclosure

theorem add (h : Confined before inside after) {parent : ScopeId}
    (hparent : Room before inside parent) :
    Confined before inside (after.add (some parent)) where
  grown := by rw [nextId_add]; exact Nat.le_succ_of_le h.grown
  kept other hother := by
    have hne : other ≠ after.nextId := by
      rintro rfl
      exact hother (.inr h.grown)
    rw [find_add, if_neg hne, h.kept other hother]
  closed other hother linked hlink := by
    rcases mem_links_iff.mp hlink with hlinked | ⟨key, held, hbinds, hclosure⟩
    · by_cases hnew : other = after.nextId
      · rw [parent?, find_add, if_pos hnew, Option.bind_some] at hlinked
        have hfilter : (some parent).filter (· < after.nextId) = some linked := hlinked
        obtain rfl := Option.some.inj (Option.filter_eq_some_iff.mp hfilter).1
        exact hparent
      · rw [parent?, find_add, if_neg hnew] at hlinked
        exact h.closed other hother linked (mem_links_iff.mpr (.inl hlinked))
    · exact h.within_of_binds hother hbinds.of_add linked hclosure

/-- The new scope is newer than the earlier store. -/
theorem room_new (h : Confined before inside after) : Room before inside after.nextId :=
  .inr h.grown

end Confined

end CommandScript.Scopes
