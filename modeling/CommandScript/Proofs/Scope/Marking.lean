import CommandScript.Proofs.Scope.Views

/-!
# What marking marks

Marking works off a list of pending scopes. It never takes a mark away, it marks every
pending scope, and it keeps the following invariant: what a marked scope links to is
marked or still pending. When nothing is pending any more, the marks are closed under
links; this is why a collection leaves everything that the roots reach as it was.

* `marked_of_pending`, `marked_closed`: the marks hold the roots and are closed.
* `find_collect_of_marked`: a collection does not change a marked scope.
-/

namespace CommandScript.Scopes

/-- The scope has a mark. -/
def Marked (marks : Array Bool) (id : ScopeId) : Prop := marks.getD id false = true

theorem marked_set {marks : Array Bool} {id other : ScopeId} (h : id < marks.size) :
    Marked (marks.set id true) other ↔ other = id ∨ Marked marks other := by
  simp only [Marked, Array.getD_eq_getD_getElem?, Array.getElem?_set]
  by_cases ho : id = other
  · simp [ho]
  · simp [ho, Ne.symm ho]

theorem marked_iff {marks : Array Bool} {id : ScopeId} (h : id < marks.size) :
    Marked marks id ↔ marks[id] = true := by
  simp [Marked, Array.getD_eq_getD_getElem?, h]

theorem size_mark (scopes : Scopes) (pending : List ScopeId) (marks : Array Bool) :
    (scopes.mark pending marks).size = marks.size := by
  fun_induction mark scopes pending marks with
  | case1 => rfl
  | case2 _ _ _ _ _ ih => exact ih
  | case3 _ _ _ _ _ ih => simpa using ih
  | case4 _ _ _ _ ih => exact ih

theorem marked_mono {scopes : Scopes} {pending : List ScopeId} {marks : Array Bool}
    {id : ScopeId} (h : Marked marks id) : Marked (scopes.mark pending marks) id := by
  fun_induction mark scopes pending marks with
  | case1 => exact h
  | case2 _ _ _ _ _ ih => exact ih h
  | case3 _ _ _ hlt _ ih => exact ih ((marked_set hlt).mpr (.inr h))
  | case4 _ _ _ _ ih => exact ih h

theorem marked_of_pending {scopes : Scopes} {pending : List ScopeId} {marks : Array Bool}
    {id : ScopeId} (hlt : id < marks.size) (h : id ∈ pending) :
    Marked (scopes.mark pending marks) id := by
  fun_induction mark scopes pending marks with
  | case1 => cases h
  | case2 marks first rest hfirst hmark ih =>
    rcases List.mem_cons.mp h with rfl | h
    · exact marked_mono ((marked_iff hfirst).mpr hmark)
    · exact ih hlt h
  | case3 marks first rest hfirst _ ih =>
    rcases List.mem_cons.mp h with rfl | h
    · exact marked_mono ((marked_set hfirst).mpr (.inl rfl))
    · exact ih (by simpa using hlt) (List.mem_append_right _ h)
  | case4 marks first rest hfirst ih =>
    rcases List.mem_cons.mp h with rfl | h
    · exact absurd hlt hfirst
    · exact ih hlt h

/-- Every link of a marked scope leads to a marked or pending scope. -/
def ClosedUpTo (scopes : Scopes) (pending : List ScopeId) (marks : Array Bool) : Prop :=
  ∀ id, Marked marks id → ∀ linked ∈ scopes.links id, linked < marks.size →
    Marked marks linked ∨ linked ∈ pending

theorem marked_closed {scopes : Scopes} {pending : List ScopeId} {marks : Array Bool}
    (h : scopes.ClosedUpTo pending marks) :
    scopes.ClosedUpTo [] (scopes.mark pending marks) := by
  fun_induction mark scopes pending marks with
  | case1 => exact h
  | case2 marks first rest hfirst hmark ih =>
    refine ih fun id hid linked hlinked hlt => ?_
    rcases h id hid linked hlinked hlt with hm | hp
    · exact .inl hm
    · rcases List.mem_cons.mp hp with rfl | hp
      · exact .inl ((marked_iff hfirst).mpr hmark)
      · exact .inr hp
  | case3 marks first rest hfirst _ ih =>
    refine ih fun id hid linked hlinked hlt => ?_
    rcases (marked_set hfirst).mp hid with rfl | hid
    · exact .inr (List.mem_append_left _ hlinked)
    · rcases h id hid linked hlinked (by simpa using hlt) with hm | hp
      · exact .inl ((marked_set hfirst).mpr (.inr hm))
      · rcases List.mem_cons.mp hp with rfl | hp
        · exact .inl ((marked_set hfirst).mpr (.inl rfl))
        · exact .inr (List.mem_append_right _ hp)
  | case4 marks first rest hfirst ih =>
    refine ih fun id hid linked hlinked hlt => ?_
    rcases h id hid linked hlinked hlt with hm | hp
    · exact .inl hm
    · rcases List.mem_cons.mp hp with rfl | hp
      · exact absurd hlt hfirst
      · exact .inr hp

/-! ## Reachable scopes -/

theorem size_reachable (scopes : Scopes) (roots : List ScopeId) :
    (scopes.reachable roots).size = scopes.nextId := by
  simp [reachable, size_mark, nextId]

theorem not_marked_replicate (n : Nat) (id : ScopeId) :
    ¬ Marked (Array.replicate n false) id := by
  simp only [Marked, Array.getD_eq_getD_getElem?, Array.getElem?_replicate]
  split <;> simp

theorem marked_root {scopes : Scopes} {roots : List ScopeId} {id : ScopeId}
    (hlt : id < scopes.nextId) (h : id ∈ roots) : Marked (scopes.reachable roots) id :=
  marked_of_pending (by simpa [nextId] using hlt) h

theorem marked_link {scopes : Scopes} {roots : List ScopeId} {id linked : ScopeId}
    (h : Marked (scopes.reachable roots) id) (hlink : linked ∈ scopes.links id)
    (hlt : linked < scopes.nextId) : Marked (scopes.reachable roots) linked := by
  have hclosed : scopes.ClosedUpTo [] (scopes.reachable roots) :=
    marked_closed fun other hother => absurd hother (not_marked_replicate _ other)
  have hsize : linked < (scopes.reachable roots).size := by rwa [size_reachable]
  rcases hclosed id h linked hlink hsize with hm | hp
  · exact hm
  · cases hp

/-! ## The store after a collection -/

theorem nextId_collect (captured : Captured) (minimum : Nat) (scopes : Scopes)
    (roots : List ScopeId) :
    (captured.collect minimum scopes roots).scopes.nextId = scopes.nextId := by
  simp [Captured.collect]

theorem find_collect_of_marked {captured : Captured} {minimum : Nat} {scopes : Scopes}
    {roots : List ScopeId} {id : ScopeId} (h : Marked (scopes.reachable roots) id) :
    (captured.collect minimum scopes roots).scopes.find id = scopes.find id := by
  refine find_foldl_sever_of_not_mem (fun hmem => ?_) scopes
  have hunmarked := (List.mem_filter.mp hmem).2
  rw [Marked] at h
  simp [h] at hunmarked

end CommandScript.Scopes
