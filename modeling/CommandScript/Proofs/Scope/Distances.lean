import CommandScript.Proofs.Scope.Views
import Mathlib.Logic.Relation
import Mathlib.Order.Bounds.Basic

/-!
# Chains and distances

A name is looked up along the chain of scopes or at a distance, but there is only one store
behind both. What counts along the chain is what is found at the least distance at which a
scope binds the name, and to assign there is the same change. The change touches one binding
of one scope. Scopes are shared, so it is seen from every chain on which that binding is the
nearest one of its name, and from no other. Every scope is made inside an older one or inside
none, so no chain comes back to where it was.

* `Scopes.OnChain`: the scopes around a scope; `Scopes.distances`: where they bind a name.
* `nearest?_eq_some_iff`: the nearest scope stands at the least distance.
* `Scopes.Rebinds`: one binding has another value, and nothing else has changed.
* `Rebinds.get?_eq`: what is seen of this along any chain.
* `chain_and_distances`: both ways of looking up and assigning.
-/

namespace CommandScript.Scopes

open Relation

variable {scopes after : Scopes} {id outer owner : ScopeId} {name : String} {value : Value}
  {distance : Nat}

/-! ## Distances on a chain -/

/-- The scope `outer` is `id`, or it encloses a scope on the chain of `id`. -/
def OnChain (scopes : Scopes) (id outer : ScopeId) : Prop :=
  ReflTransGen (fun inner parent => scopes.parent? inner = some parent) id outer

/-- The distances at which a scope of the chain binds the name. -/
def distances (scopes : Scopes) (id : ScopeId) (name : String) : Set Nat :=
  {distance | ∃ outer, scopes.ancestor? id distance = some outer ∧
    (scopes.local? outer name).isSome}

theorem onChain_iff :
    scopes.OnChain id outer ↔ ∃ distance, scopes.ancestor? id distance = some outer := by
  constructor
  · intro h
    induction h using ReflTransGen.head_induction_on with
    | refl => exact ⟨0, rfl⟩
    | head hparent _ ih =>
      obtain ⟨distance, hdistance⟩ := ih
      refine ⟨distance + 1, ?_⟩
      simpa [ancestor?, hparent] using hdistance
  · rintro ⟨distance, h⟩
    induction distance generalizing id with
    | zero =>
      obtain rfl := Option.some.inj h
      exact .refl
    | succ distance ih =>
      obtain ⟨parent, hparent, hrest⟩ := Option.bind_eq_some_iff.mp h
      exact .head hparent (ih hrest)

theorem zero_mem_distances : 0 ∈ scopes.distances id name ↔ (scopes.local? id name).isSome := by
  simp [distances, ancestor?]

theorem succ_mem_distances :
    distance + 1 ∈ scopes.distances id name ↔
      ∃ parent, scopes.parent? id = some parent ∧ distance ∈ scopes.distances parent name := by
  change (∃ outer, _ ∧ _) ↔ ∃ parent, _ ∧ ∃ outer, _ ∧ _
  simp only [ancestor?, Option.bind_eq_some_iff]
  constructor
  · rintro ⟨outer, ⟨parent, hparent, hrest⟩, hbinds⟩
    exact ⟨parent, hparent, outer, hrest, hbinds⟩
  · rintro ⟨parent, hparent, outer, hrest, hbinds⟩
    exact ⟨outer, ⟨parent, hparent, hrest⟩, hbinds⟩

/-- The nearest scope that binds a name stands at the least distance at which one does. -/
theorem exists_isLeast_of_nearest? (h : scopes.nearest? id name = some owner) :
    ∃ distance, IsLeast (scopes.distances id name) distance ∧
      scopes.ancestor? id distance = some owner := by
  fun_induction nearest? scopes id name with
  | case1 id hbinds =>
    obtain rfl := Option.some.inj h
    exact ⟨0, ⟨zero_mem_distances.mpr hbinds, fun _ _ => Nat.zero_le _⟩, rfl⟩
  | case2 id hunbound parent hparent ih =>
    obtain ⟨distance, ⟨hmem, hleast⟩, hancestor⟩ := ih h
    refine ⟨distance + 1, ⟨succ_mem_distances.mpr ⟨parent, hparent, hmem⟩, ?_⟩, ?_⟩
    · intro other hother
      cases other with
      | zero => exact absurd (zero_mem_distances.mp hother) hunbound
      | succ other =>
        obtain ⟨_, hsame, hrest⟩ := succ_mem_distances.mp hother
        obtain rfl := Option.some.inj (hparent.symm.trans hsame)
        exact Nat.succ_le_succ (hleast hrest)
    · simpa [ancestor?, hparent] using hancestor
  | case3 => cases h

theorem notMem_distances_of_nearest? (h : scopes.nearest? id name = none) (distance : Nat) :
    distance ∉ scopes.distances id name := by
  induction distance generalizing id with
  | zero =>
    rw [nearest?_eq_ite] at h
    intro hmem
    rw [if_pos (zero_mem_distances.mp hmem)] at h
    cases h
  | succ distance ih =>
    intro hmem
    obtain ⟨parent, hparent, hrest⟩ := succ_mem_distances.mp hmem
    rw [nearest?_eq_ite] at h
    split at h
    · cases h
    · rw [hparent] at h
      exact ih h hrest

theorem nearest?_eq_some_iff :
    scopes.nearest? id name = some owner ↔
      ∃ distance, IsLeast (scopes.distances id name) distance ∧
        scopes.ancestor? id distance = some owner := by
  constructor
  · exact exists_isLeast_of_nearest?
  · rintro ⟨distance, hleast, hancestor⟩
    cases hnearest : scopes.nearest? id name with
    | none => exact absurd hleast.1 (notMem_distances_of_nearest? hnearest distance)
    | some found =>
      obtain ⟨other, hother, hfound⟩ := exists_isLeast_of_nearest? hnearest
      rw [hother.unique hleast, hancestor] at hfound
      exact hfound.symm

/-! ## The two ways agree -/

theorem isSome_get? : (scopes.get? id name).isSome = (scopes.nearest? id name).isSome := by
  unfold get?
  cases h : scopes.nearest? id name with
  | none => rfl
  | some owner => exact local?_of_nearest? h

theorem get?_isSome_iff :
    (scopes.get? id name).isSome ↔
      ∃ outer, scopes.OnChain id outer ∧ (scopes.local? outer name).isSome := by
  rw [isSome_get?, Option.isSome_iff_exists]
  constructor
  · rintro ⟨owner, howner⟩
    obtain ⟨distance, -, hancestor⟩ := exists_isLeast_of_nearest? howner
    exact ⟨owner, onChain_iff.mpr ⟨distance, hancestor⟩, local?_of_nearest? howner⟩
  · rintro ⟨outer, hchain, hbinds⟩
    obtain ⟨distance, hancestor⟩ := onChain_iff.mp hchain
    have hmem : distance ∈ scopes.distances id name := ⟨outer, hancestor, hbinds⟩
    apply Option.ne_none_iff_exists'.mp
    exact fun hnone => notMem_distances_of_nearest? hnone distance hmem

theorem get?_eq_getAt? (h : IsLeast (scopes.distances id name) distance) :
    scopes.get? id name = scopes.getAt? id distance name := by
  obtain ⟨outer, hancestor, -⟩ := h.1
  rw [get?, nearest?_eq_some_iff.mpr ⟨distance, h, hancestor⟩, getAt?, hancestor]

theorem assign?_eq_assignAt? (h : IsLeast (scopes.distances id name) distance) (value : Value) :
    scopes.assign? id name value = scopes.assignAt? id distance name value := by
  obtain ⟨outer, hancestor, hbinds⟩ := h.1
  rw [assign?, nearest?_eq_some_iff.mpr ⟨distance, h, hancestor⟩, assignAt?, hancestor]
  simp [hbinds]

theorem getAt?_eq_none_iff :
    scopes.getAt? id distance name = none ↔
      scopes.ancestor? id distance = none ∨
        ∃ outer, scopes.ancestor? id distance = some outer ∧ scopes.local? outer name = none := by
  unfold getAt?
  cases scopes.ancestor? id distance <;> simp

theorem assignAt?_eq_none_iff :
    scopes.assignAt? id distance name value = none ↔ scopes.getAt? id distance name = none := by
  unfold assignAt? getAt?
  cases scopes.ancestor? id distance with
  | none => simp
  | some outer => cases h : scopes.local? outer name <;> simp [h]

theorem assign?_eq_none_iff :
    scopes.assign? id name value = none ↔ scopes.get? id name = none := by
  rw [← Option.not_isSome_iff_eq_none (o := scopes.get? id name), isSome_get?,
    Option.not_isSome_iff_eq_none, assign?, Option.map_eq_none_iff]

/-! ## What an assignment changes -/

/-- The binding of the name that the scope `owner` has gets the value. No other binding is
changed, none is made, and no scope is moved. -/
structure Rebinds (scopes after : Scopes) (owner : ScopeId) (name : String) (value : Value) :
    Prop where
  bound : (scopes.local? owner name).isSome
  nextId : after.nextId = scopes.nextId
  parent : ∀ other, after.parent? other = scopes.parent? other
  bindings : ∀ other asked, after.local? other asked =
    if other = owner ∧ asked = name then some value else scopes.local? other asked

/-- What is seen of such a change: the same names are bound in the same scopes, and along a
chain the value is read where the changed binding is the nearest one. -/
structure Shows (scopes after : Scopes) (owner : ScopeId) (name : String) (value : Value) :
    Prop where
  bound : ∀ other asked, (after.local? other asked).isSome = (scopes.local? other asked).isSome
  read : ∀ other asked, after.get? other asked =
    if asked = name ∧ scopes.nearest? other asked = some owner then some value
    else scopes.get? other asked

theorem rebinds_define (h : (scopes.local? owner name).isSome) (value : Value) :
    scopes.Rebinds (scopes.define owner name value) owner name value where
  bound := h
  nextId := nextId_define scopes owner name value
  parent other := parent?_define scopes owner other name value
  bindings other asked := local?_define (lt_of_local? h) other name asked value

theorem rebinds_of_assign? (h : scopes.assign? id name value = some after) :
    ∃ owner, scopes.nearest? id name = some owner ∧ scopes.Rebinds after owner name value := by
  obtain ⟨owner, howner, rfl⟩ := Option.map_eq_some_iff.mp h
  exact ⟨owner, howner, rebinds_define (local?_of_nearest? howner) value⟩

theorem rebinds_of_assignAt? (h : scopes.assignAt? id distance name value = some after) :
    ∃ owner, scopes.ancestor? id distance = some owner ∧
      scopes.Rebinds after owner name value := by
  obtain ⟨owner, howner, hchanged⟩ := Option.bind_eq_some_iff.mp h
  split at hchanged
  · rename_i hbound
    obtain rfl := Option.some.inj hchanged
    exact ⟨owner, howner, rebinds_define hbound value⟩
  · cases hchanged

namespace Rebinds

variable (h : scopes.Rebinds after owner name value)

include h

theorem isSome_eq (other : ScopeId) (asked : String) :
    (after.local? other asked).isSome = (scopes.local? other asked).isSome := by
  rw [h.bindings]
  split
  · rename_i hsame
    obtain ⟨rfl, rfl⟩ := hsame
    exact h.bound.symm
  · rfl

/-- Since the same names are bound, the same scope is the nearest one. -/
theorem nearest?_eq (other : ScopeId) (asked : String) :
    after.nearest? other asked = scopes.nearest? other asked := by
  induction other using Nat.strongRecOn with
  | ind other ih =>
    rw [nearest?_eq_ite, nearest?_eq_ite, h.isSome_eq, h.parent]
    split
    · rfl
    · cases hparent : scopes.parent? other with
      | none => rfl
      | some parent => exact ih parent (parent_lt hparent)

theorem shows : scopes.Shows after owner name value where
  bound := h.isSome_eq
  read other asked := by
    unfold get?
    rw [h.nearest?_eq]
    cases hnearest : scopes.nearest? other asked with
    | none => simp
    | some found => simp [h.bindings, and_comm]

end Rebinds

/-- **Chains and distances see one store.** A name is found along the chain of a scope exactly
if some scope of the chain binds it, and then at the least distance at which one does: reading
and assigning there are the same as along the chain. An assignment fails exactly if reading
fails, at a distance because the chain is too short or because the scope there does not bind
the name, and there is no other store then. Otherwise one binding of one scope gets the value:
that of the nearest scope along the chain, or of the scope at the distance. Nothing else
changes, no binding is made, and from any scope exactly those names are read with the new
value whose nearest binding is the changed one. -/
theorem chain_and_distances (scopes : Scopes) (id : ScopeId) (name : String) (value : Value) :
    ((scopes.get? id name).isSome ↔
      ∃ outer, scopes.OnChain id outer ∧ (scopes.local? outer name).isSome) ∧
    ((scopes.get? id name).isSome → ∃ distance, IsLeast (scopes.distances id name) distance) ∧
    (∀ distance, IsLeast (scopes.distances id name) distance →
      scopes.get? id name = scopes.getAt? id distance name ∧
        scopes.assign? id name value = scopes.assignAt? id distance name value) ∧
    (scopes.assign? id name value = none ↔ scopes.get? id name = none) ∧
    (∀ distance,
      (scopes.assignAt? id distance name value = none ↔ scopes.getAt? id distance name = none) ∧
        (scopes.getAt? id distance name = none ↔ scopes.ancestor? id distance = none ∨
          ∃ outer, scopes.ancestor? id distance = some outer ∧ scopes.local? outer name = none)) ∧
    (∀ after, scopes.assign? id name value = some after →
      ∃ owner, scopes.nearest? id name = some owner ∧ scopes.Rebinds after owner name value ∧
        scopes.Shows after owner name value) ∧
    ∀ distance after, scopes.assignAt? id distance name value = some after →
      ∃ owner, scopes.ancestor? id distance = some owner ∧
        scopes.Rebinds after owner name value ∧ scopes.Shows after owner name value := by
  refine ⟨get?_isSome_iff, ?_, ?_, assign?_eq_none_iff, ?_, ?_, ?_⟩
  · intro hfound
    rw [isSome_get?, Option.isSome_iff_exists] at hfound
    obtain ⟨owner, howner⟩ := hfound
    obtain ⟨distance, hleast, -⟩ := exists_isLeast_of_nearest? howner
    exact ⟨distance, hleast⟩
  · intro distance hleast
    exact ⟨get?_eq_getAt? hleast, assign?_eq_assignAt? hleast value⟩
  · intro distance
    exact ⟨assignAt?_eq_none_iff, getAt?_eq_none_iff⟩
  · intro after hafter
    obtain ⟨owner, howner, hchange⟩ := rebinds_of_assign? hafter
    exact ⟨owner, howner, hchange, hchange.shows⟩
  · intro distance after hafter
    obtain ⟨owner, howner, hchange⟩ := rebinds_of_assignAt? hafter
    exact ⟨owner, howner, hchange, hchange.shows⟩

/-- The innermost of three scopes shadows what the outermost binds. The scope between them
assigns to the outer binding, which the innermost one does not see. -/
theorem chain_and_distances_of_shadowed :
    let chain := ((Scopes.empty.add none).add (some 0)).add (some 1)
    let scopes := (chain.define 0 "a" (.bool true)).define 2 "a" (.bool false)
    IsLeast (scopes.distances 1 "a") 1 ∧ scopes.get? 1 "a" = some (.bool true) ∧
      ∃ after, scopes.assign? 1 "a" .null = some after ∧ after.get? 1 "a" = some .null ∧
        after.get? 2 "a" = some (.bool false) := by
  intro chain scopes
  have hleast : IsLeast (scopes.distances 1 "a") 1 := by
    refine ⟨⟨0, rfl, rfl⟩, fun distance hmem => ?_⟩
    apply Nat.one_le_iff_ne_zero.mpr
    rintro rfl
    exact absurd (zero_mem_distances.mp hmem) (by decide)
  obtain ⟨-, -, hsame, -, -, hchange, -⟩ := chain_and_distances scopes 1 "a" .null
  obtain ⟨hget, hassign⟩ := hsame 1 hleast
  have houter : scopes.nearest? 1 "a" = some 0 :=
    nearest?_eq_some_iff.mpr ⟨1, hleast, rfl⟩
  have hinner : scopes.nearest? 2 "a" = some 2 := by
    rw [nearest?_eq_ite]
    rfl
  have hshadow : scopes.get? 2 "a" = some (.bool false) := by
    rw [get?, hinner]
    rfl
  obtain ⟨after, hafter⟩ : ∃ after, scopes.assign? 1 "a" .null = some after :=
    ⟨_, hassign.trans rfl⟩
  obtain ⟨owner, howner, -, hshows⟩ := hchange after hafter
  obtain rfl : 0 = owner := Option.some.inj (houter.symm.trans howner)
  refine ⟨hleast, hget.trans rfl, after, hafter, ?_, ?_⟩
  · rw [hshows.read, if_pos ⟨rfl, houter⟩]
  · rw [hshows.read, hinner, hshadow]
    rfl

end CommandScript.Scopes
