import CommandScript.Proofs.Scope.Marking
import Mathlib.Logic.Relation

/-!
# Cycles of links

A scope links to its parent, which is older, and to the closures of the functions that it
binds. So a cycle of links never gets by without a closure. A collection adds no link, it
leaves the scopes that the roots reach as they were, and it leaves no link to a tracked
scope that the roots do not reach with a link of its own.

* `Scopes.Links`: one scope links to another.
* `closure_of_cycle`: on every cycle there is a closure.
* `marked_reachable`: marking marks nothing but what the roots reach.
* `links_collect`, `links_collect_of_marked`, `links_collect_of_unmarked`: the links after a
  collection.
* `keepOnce_eq`: the handles that stay tracked.
-/

namespace CommandScript.Scopes

open Relation

/-- The parent of a scope and the closures that it binds. -/
def Links (scopes : Scopes) (id linked : ScopeId) : Prop := linked ∈ scopes.links id

/-- The scope binds a function that keeps the other one. -/
def Closes (scopes : Scopes) (id closure : ScopeId) : Prop :=
  ∃ name value, scopes.Binds id name value ∧ value.closure? = some closure

variable {scopes : Scopes} {id linked : ScopeId}

theorem Closes.links (h : scopes.Closes id linked) : scopes.Links id linked :=
  mem_links_iff.mpr (.inr h)

theorem Links.lt_nextId (h : scopes.Links id linked) : id < scopes.nextId := by
  rcases mem_links_iff.mp h with hparent | ⟨name, value, ⟨scope, hscope, -⟩, -⟩
  · obtain ⟨scope, hscope, -⟩ := Option.bind_eq_some_iff.mp hparent
    exact lt_of_find hscope
  · exact lt_of_find hscope

/-- A way along links goes through a closure, unless it ends at an older scope. -/
theorem closure_or_lt (h : TransGen scopes.Links id linked) :
    (∃ binder closure, ReflTransGen scopes.Links id binder ∧ scopes.Closes binder closure ∧
      ReflTransGen scopes.Links closure linked) ∨ linked < id := by
  induction h with
  | single hlink =>
    rcases mem_links_iff.mp hlink with hparent | hcloses
    · exact .inr (parent_lt hparent)
    · exact .inl ⟨id, _, .refl, hcloses, .refl⟩
  | tail hway hlink ih =>
    rcases ih with ⟨binder, closure, hbinder, hcloses, hclosure⟩ | hlt
    · exact .inl ⟨binder, closure, hbinder, hcloses, hclosure.tail hlink⟩
    · rcases mem_links_iff.mp hlink with hparent | hcloses
      · exact .inr (Nat.lt_trans (parent_lt hparent) hlt)
      · exact .inl ⟨_, _, hway.to_reflTransGen, hcloses, .refl⟩

theorem closure_of_cycle (h : TransGen scopes.Links id id) :
    ∃ binder closure, ReflTransGen scopes.Links id binder ∧ scopes.Closes binder closure ∧
      ReflTransGen scopes.Links closure id :=
  (closure_or_lt h).resolve_right (Nat.lt_irrefl id)

/-- What is on a cycle is reached from everywhere on it, in at least one step. -/
theorem cycle_of_between {between : ScopeId} (h : TransGen scopes.Links id id)
    (hto : ReflTransGen scopes.Links id between) (hback : ReflTransGen scopes.Links between id) :
    TransGen scopes.Links between between :=
  (TransGen.trans_right hback h).trans_left hto

theorem closed_reachable {live : ScopeId → Prop}
    (hclosed : ∀ id, live id → ∀ linked, scopes.Links id linked → live linked) (hid : live id)
    (h : ReflTransGen scopes.Links id linked) : live linked := by
  induction h with
  | refl => exact hid
  | tail _ hlink ih => exact hclosed _ ih _ hlink

/-! ## Marks -/

theorem marked_of_mark {pending : List ScopeId} {marks : Array Bool} (live : ScopeId → Prop)
    (hclosed : ∀ id, live id → ∀ linked, scopes.Links id linked → live linked)
    (hpending : ∀ id ∈ pending, live id) (hmarks : ∀ id, Marked marks id → live id)
    (h : Marked (scopes.mark pending marks) id) : live id := by
  fun_induction mark scopes pending marks with
  | case1 => exact hmarks id h
  | case2 marks first rest _ _ ih => exact ih (List.forall_mem_cons.mp hpending).2 hmarks h
  | case3 marks first rest hfirst _ ih =>
    obtain ⟨hlive, hrest⟩ := List.forall_mem_cons.mp hpending
    refine ih (List.forall_mem_append.mpr ⟨hclosed _ hlive, hrest⟩) (fun other hother => ?_) h
    rcases (marked_set hfirst).mp hother with rfl | hother
    · exact hlive
    · exact hmarks other hother
  | case4 marks first rest _ ih => exact ih (List.forall_mem_cons.mp hpending).2 hmarks h

theorem marked_reachable {roots : List ScopeId} (h : Marked (scopes.reachable roots) id) :
    ∃ root ∈ roots, ReflTransGen scopes.Links root id :=
  marked_of_mark (fun id => ∃ root ∈ roots, ReflTransGen scopes.Links root id)
    (fun _ ⟨root, hroot, hway⟩ _ hlink => ⟨root, hroot, hway.tail hlink⟩)
    (fun root hroot => ⟨root, hroot, .refl⟩)
    (fun other hother => absurd hother (not_marked_replicate _ other)) h

/-! ## Links after a collection -/

theorem find_foldl_sever_of_mem {ids : List ScopeId} (h : id ∈ ids) (scopes : Scopes) :
    (ids.foldl sever scopes).find id = (scopes.find id).map fun _ => ⟨[], none⟩ := by
  induction ids generalizing scopes with
  | nil => cases h
  | cons severed rest ih =>
    rw [List.foldl_cons]
    by_cases hrest : id ∈ rest
    · rw [ih hrest, find_sever]
      split
      · rw [Option.map_map]
        rfl
      · rfl
    · obtain rfl := (List.mem_cons.mp h).resolve_right hrest
      rw [find_foldl_sever_of_not_mem hrest, find_sever, if_pos rfl]

variable {captured : Captured} {roots : List ScopeId} (minimum : Nat)

theorem find_collect_of_unmarked (h : id ∈ captured.handles)
    (hmark : ¬ Marked (scopes.reachable roots) id) :
    (captured.collect minimum scopes roots).scopes.find id =
      (scopes.find id).map fun _ => ⟨[], none⟩ := by
  refine find_foldl_sever_of_mem (List.mem_filter.mpr ⟨Array.mem_toList_iff.mpr h, ?_⟩) scopes
  rw [Marked, Bool.not_eq_true] at hmark
  rw [hmark]
  rfl

/-- A collection leaves a scope as it was, or without any link. -/
theorem find_collect (captured : Captured) (minimum : Nat) (scopes : Scopes)
    (roots : List ScopeId) (id : ScopeId) :
    (captured.collect minimum scopes roots).scopes.find id = scopes.find id ∨
      (captured.collect minimum scopes roots).scopes.find id =
        (scopes.find id).map fun _ => ⟨[], none⟩ := by
  by_cases hmem : id ∈ captured.handles
  · by_cases hmark : Marked (scopes.reachable roots) id
    · exact .inl (find_collect_of_marked hmark)
    · exact .inr (find_collect_of_unmarked minimum hmem hmark)
  · refine .inl (find_foldl_sever_of_not_mem (fun hgarbage => hmem ?_) scopes)
    exact Array.mem_toList_iff.mp (List.mem_filter.mp hgarbage).1

/-- What is bound after a collection was bound before. -/
theorem binds_collect {name : String} {value : Value}
    (h : (captured.collect minimum scopes roots).scopes.Binds id name value) :
    scopes.Binds id name value := by
  obtain ⟨scope, hscope, hmem⟩ := h
  rcases find_collect captured minimum scopes roots id with hsame | hsevered
  · exact ⟨scope, hsame ▸ hscope, hmem⟩
  · rw [hsevered] at hscope
    obtain ⟨_, -, rfl⟩ := Option.map_eq_some_iff.mp hscope
    cases hmem

theorem links_collect (h : (captured.collect minimum scopes roots).scopes.Links id linked) :
    scopes.Links id linked := by
  rcases mem_links_iff.mp h with hparent | ⟨name, value, hbinds, hclosure⟩
  · refine mem_links_iff.mpr (.inl ?_)
    rcases find_collect captured minimum scopes roots id with hsame | hsevered
    · rwa [parent?, hsame] at hparent
    · rw [parent?, hsevered] at hparent
      cases hfind : scopes.find id <;> rw [hfind] at hparent <;> cases hparent
  · exact mem_links_iff.mpr (.inr ⟨name, value, binds_collect minimum hbinds, hclosure⟩)

theorem links_collect_of_marked (h : Marked (scopes.reachable roots) id) :
    (captured.collect minimum scopes roots).scopes.links id = scopes.links id := by
  rw [links, find_collect_of_marked h, links]

theorem links_collect_of_unmarked (hmem : id ∈ captured.handles)
    (hmark : ¬ Marked (scopes.reachable roots) id) :
    (captured.collect minimum scopes roots).scopes.links id = [] := by
  rw [links, find_collect_of_unmarked minimum hmem hmark]
  cases scopes.find id <;> rfl

/-- The marked ones are kept, each where it stands first. -/
theorem keepOnce_eq (ids : List ScopeId) (marks : Array Bool) :
    Captured.keepOnce ids marks = (ids.filter fun id => marks.getD id false).eraseDups := by
  induction ids generalizing marks with
  | nil => rfl
  | cons first rest ih =>
    unfold Captured.keepOnce
    by_cases hfirst : marks.getD first false = true
    · have hcleared : (fun id => (marks.setIfInBounds first false).getD id false) =
          fun id => (!id == first) && marks.getD id false := by
        funext id
        simp only [Array.getD_eq_getD_getElem?, Array.getElem?_setIfInBounds]
        by_cases hid : first = id
        · subst hid
          simp
          split <;> rfl
        · simp [hid, Ne.symm hid]
      rw [if_pos hfirst, ih, List.filter_cons, if_pos hfirst, List.eraseDups_cons, hcleared,
        List.filter_filter]
    · rw [if_neg hfirst, ih, List.filter_cons, if_neg hfirst]

theorem mem_keepOnce {ids : List ScopeId} {marks : Array Bool} :
    id ∈ Captured.keepOnce ids marks ↔ id ∈ ids ∧ Marked marks id := by
  rw [keepOnce_eq, List.mem_eraseDups, List.mem_filter, Marked]

/-- What stays tracked after a collection is what the roots reach. -/
theorem mem_handles_collect :
    id ∈ (captured.collect minimum scopes roots).captured.handles ↔
      id ∈ captured.handles ∧ Marked (scopes.reachable roots) id := by
  rw [Captured.collect, ← Array.mem_toList_iff, List.toList_toArray, mem_keepOnce,
    Array.mem_toList_iff]

end CommandScript.Scopes
