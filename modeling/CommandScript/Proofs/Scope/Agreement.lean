import CommandScript.Proofs.Scope.Marking

/-!
# Stores that agree on the scopes in use

Two stores agree on a set of scopes if these are the same in both and what they link to
belongs to the set again. Looking a name up from a scope of the set never leaves it, so
both stores give the same answer; and the same change on both sides keeps the agreement.

* `Scopes.AgreeOn`: agreement on a set of scopes that is closed under links.
* `AgreeOn.nearest?_eq`, `AgreeOn.ancestor?_eq`: the two ways of finding a scope.
* `AgreeOn.define`, `AgreeOn.add`, `AgreeOn.collect`: changes that keep the agreement.
-/

namespace CommandScript

/-- Every scope that the value keeps is in `live`. -/
def Value.Within (live : ScopeId → Prop) (value : Value) : Prop :=
  ∀ closure, value.closure? = some closure → live closure

namespace Scopes

structure AgreeOn (live : ScopeId → Prop) (left right : Scopes) : Prop where
  nextId_eq : left.nextId = right.nextId
  find_eq : ∀ id, live id → left.find id = right.find id
  lt_nextId : ∀ id, live id → id < left.nextId
  closed : ∀ id, live id → ∀ linked ∈ left.links id, live linked

namespace AgreeOn

variable {live : ScopeId → Prop} {left right : Scopes}

theorem local?_eq (h : AgreeOn live left right) {id : ScopeId} (hid : live id) (name : String) :
    left.local? id name = right.local? id name := by
  rw [local?, local?, h.find_eq id hid]

theorem parent?_eq (h : AgreeOn live left right) {id : ScopeId} (hid : live id) :
    left.parent? id = right.parent? id := by
  rw [parent?, parent?, h.find_eq id hid]

theorem live_parent (h : AgreeOn live left right) {id parent : ScopeId} (hid : live id)
    (hp : left.parent? id = some parent) : live parent :=
  h.closed id hid parent (mem_links_iff.mpr (.inl hp))

theorem binds_within (h : AgreeOn live left right) {id : ScopeId} (hid : live id)
    {name : String} {value : Value} (hv : left.Binds id name value) : value.Within live :=
  fun closure hc => h.closed id hid closure (mem_links_iff.mpr (.inr ⟨name, value, hv, hc⟩))

/-! ## Finding a scope -/

theorem nearest?_eq (h : AgreeOn live left right) {id : ScopeId} (hid : live id)
    (name : String) : left.nearest? id name = right.nearest? id name := by
  induction id using Nat.strongRecOn with
  | ind id ih =>
    rw [nearest?_eq_ite, nearest?_eq_ite right, h.local?_eq hid, ← h.parent?_eq hid]
    cases hp : left.parent? id with
    | none => rfl
    | some parent =>
      rw [Option.bind_some, Option.bind_some, ih parent (parent_lt hp) (h.live_parent hid hp)]

theorem live_nearest? (h : AgreeOn live left right) {id found : ScopeId} {name : String}
    (hid : live id) (hfound : left.nearest? id name = some found) : live found := by
  induction id using Nat.strongRecOn with
  | ind id ih =>
    rw [nearest?_eq_ite] at hfound
    split at hfound
    · exact Option.some.inj hfound ▸ hid
    · obtain ⟨parent, hp, hfound⟩ := Option.bind_eq_some_iff.mp hfound
      exact ih parent (parent_lt hp) (h.live_parent hid hp) hfound

theorem ancestor?_eq (h : AgreeOn live left right) {id : ScopeId} (hid : live id)
    (distance : Nat) : left.ancestor? id distance = right.ancestor? id distance := by
  induction distance generalizing id with
  | zero => rfl
  | succ distance ih =>
    rw [ancestor?, ancestor?, ← h.parent?_eq hid]
    cases hp : left.parent? id with
    | none => rfl
    | some parent => exact ih (h.live_parent hid hp)

theorem live_ancestor? (h : AgreeOn live left right) {id found : ScopeId} {distance : Nat}
    (hid : live id) (hfound : left.ancestor? id distance = some found) : live found := by
  induction distance generalizing id with
  | zero => exact Option.some.inj hfound ▸ hid
  | succ distance ih =>
    obtain ⟨parent, hp, hfound⟩ := Option.bind_eq_some_iff.mp hfound
    exact ih (h.live_parent hid hp) hfound

/-! ## Changes -/

theorem define (h : AgreeOn live left right) (id : ScopeId) (name : String) {value : Value}
    (hv : value.Within live) :
    AgreeOn live (left.define id name value) (right.define id name value) where
  nextId_eq := by simpa using h.nextId_eq
  find_eq other ho := by rw [find_define, find_define, h.find_eq other ho]
  lt_nextId other ho := by simpa using h.lt_nextId other ho
  closed other ho linked hl := by
    rcases mem_links_iff.mp hl with hp | ⟨key, held, hb, hc⟩
    · exact h.live_parent ho (by simpa using hp)
    · rcases hb.of_define with hb | ⟨_, _, rfl⟩
      · exact h.binds_within ho hb linked hc
      · exact hv linked hc

theorem add (h : AgreeOn live left right) {parent : ScopeId} (hp : live parent) :
    AgreeOn (fun id => live id ∨ id = left.nextId) (left.add (some parent))
      (right.add (some parent)) where
  nextId_eq := by simpa using h.nextId_eq
  find_eq id hid := by
    rw [find_add, find_add, ← h.nextId_eq]
    split
    · rfl
    · rename_i hne
      exact h.find_eq id (hid.resolve_right hne)
  lt_nextId id hid := by
    rw [nextId_add]
    rcases hid with hid | rfl
    · exact Nat.lt_succ_of_lt (h.lt_nextId id hid)
    · exact Nat.lt_succ_self _
  closed id hid linked hl := by
    by_cases hnew : id = left.nextId
    · subst hnew
      rcases mem_links_iff.mp hl with hl | ⟨key, held, hb, _⟩
      · rw [parent?_add_new (h.lt_nextId parent hp)] at hl
        exact .inl (Option.some.inj hl ▸ hp)
      · exact absurd hb.of_add.local?_isSome fun hs => Nat.lt_irrefl _ (lt_of_local? hs)
    · have hlive := hid.resolve_right hnew
      refine .inl (h.closed id hlive linked ?_)
      rwa [links, find_add, if_neg hnew] at hl

/-- A collection on one side keeps the agreement on what the roots reach. -/
theorem collect (h : AgreeOn live left right) (captured : Captured) (minimum : Nat)
    (roots : List ScopeId) :
    AgreeOn (fun id => live id ∧ Marked (left.reachable roots) id)
      (captured.collect minimum left roots).scopes right where
  nextId_eq := by rw [nextId_collect, h.nextId_eq]
  find_eq id hid := by rw [find_collect_of_marked hid.2, h.find_eq id hid.1]
  lt_nextId id hid := by simpa [nextId_collect] using h.lt_nextId id hid.1
  closed id hid linked hl := by
    rw [links, find_collect_of_marked hid.2] at hl
    have hlive := h.closed id hid.1 linked hl
    exact ⟨hlive, marked_link hid.2 hl (h.lt_nextId linked hlive)⟩

end AgreeOn

end Scopes

end CommandScript
