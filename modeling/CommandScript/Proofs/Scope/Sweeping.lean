import CommandScript.Proofs.Scope.Cycles
import Mathlib.Algebra.Order.BigOperators.Group.Finset

/-!
# What a collection frees

Marking is a loop over pending scopes. A pass takes the first of them and, if it had no
mark, puts its links in front of the rest. Every scope gets its mark once, so its links are
put in front once; this bounds the passes by the roots and the links of all scopes, however
the links run. The marks are then on exactly the scopes that the roots reach.

Severing starts when marking has ended. It takes away no link of a reached scope, so after
the collection the roots reach what they reached before, and a second one finds nothing to
sever.

* `Scopes.Reaches`: a way along links leads from the roots to a scope.
* `Scopes.markPass`, `exists_passes`: marking ends after boundedly many passes.
* `marked_iff_reaches`: the marks are on what the roots reach.
* `reaches_collect_iff`: a collection does not change what the roots reach.
* `collect_frees_unreached`: a collection frees the tracked scopes that the roots do not
  reach, and nothing else.
-/

namespace CommandScript.Scopes

open Relation

/-- A way along links leads from one of the roots to the scope. -/
def Reaches (scopes : Scopes) (roots : List ScopeId) (id : ScopeId) : Prop :=
  ∃ root ∈ roots, ReflTransGen scopes.Links root id

variable {scopes : Scopes} {roots : List ScopeId} {id : ScopeId}

theorem marked_of_reaches (hlt : id < scopes.nextId) (h : scopes.Reaches roots id) :
    Marked (scopes.reachable roots) id := by
  obtain ⟨root, hroot, hway⟩ := h
  induction hway with
  | refl => exact marked_root hlt hroot
  | tail _ hlink ih => exact marked_link (ih hlink.lt_nextId) hlink hlt

theorem marked_iff_reaches (hlt : id < scopes.nextId) :
    Marked (scopes.reachable roots) id ↔ scopes.Reaches roots id :=
  ⟨marked_reachable, marked_of_reaches hlt⟩

/-! ## Passes of the marking loop -/

/-- Takes the first pending scope. Without a mark it gets one, and its links are pending. -/
def markPass (scopes : Scopes) : List ScopeId × Array Bool → List ScopeId × Array Bool
  | ([], marks) => ([], marks)
  | (id :: rest, marks) =>
    if h : id < marks.size then
      if marks[id] then (rest, marks) else (scopes.links id ++ rest, marks.set id true)
    else (rest, marks)

/-- The number of links that marking can still make pending. -/
def unmarkedLinks (scopes : Scopes) (marks : Array Bool) : Nat :=
  ∑ id ∈ Finset.range marks.size with marks.getD id false = false, (scopes.links id).length

theorem unmarkedLinks_set {marks : Array Bool} (h : id < marks.size) (hmark : ¬ marks[id] = true) :
    scopes.unmarkedLinks (marks.set id true) + (scopes.links id).length =
      scopes.unmarkedLinks marks := by
  have hmem : id ∈ {other ∈ Finset.range marks.size | marks.getD other false = false} := by
    simpa [h] using hmark
  have herase : {other ∈ Finset.range (marks.set id true).size |
        (marks.set id true).getD other false = false} =
      {other ∈ Finset.range marks.size | marks.getD other false = false}.erase id := by
    ext other
    have hset : Marked (marks.set id true) other ↔ other = id ∨ Marked marks other := marked_set h
    simp only [Marked] at hset
    rw [Finset.mem_erase, Finset.mem_filter, Finset.mem_filter, Array.size_set,
      ← Bool.not_eq_true, hset, ← Bool.not_eq_true]
    tauto
  rw [unmarkedLinks, herase, Finset.sum_erase_add _ _ hmem, unmarkedLinks]

theorem exists_passes_mark (scopes : Scopes) (pending : List ScopeId) (marks : Array Bool) :
    ∃ passes ≤ pending.length + scopes.unmarkedLinks marks,
      scopes.markPass^[passes] (pending, marks) = ([], scopes.mark pending marks) := by
  fun_induction mark scopes pending marks with
  | case1 marks => exact ⟨0, Nat.zero_le _, rfl⟩
  | case2 first rest marks hfirst hmark ih =>
    obtain ⟨passes, hle, hpasses⟩ := ih
    refine ⟨passes + 1, by rw [List.length_cons]; omega, ?_⟩
    rw [Function.iterate_succ_apply, markPass, dif_pos hfirst, if_pos hmark, hpasses]
  | case3 first rest marks hfirst hmark ih =>
    obtain ⟨passes, hle, hpasses⟩ := ih
    have hlinks : scopes.unmarkedLinks (marks.set first true) + (scopes.links first).length =
        scopes.unmarkedLinks marks := unmarkedLinks_set hfirst hmark
    refine ⟨passes + 1, by rw [List.length_append] at hle; rw [List.length_cons]; omega, ?_⟩
    rw [Function.iterate_succ_apply, markPass, dif_pos hfirst, if_neg hmark, hpasses]
  | case4 first rest marks hfirst ih =>
    obtain ⟨passes, hle, hpasses⟩ := ih
    refine ⟨passes + 1, by rw [List.length_cons]; omega, ?_⟩
    rw [Function.iterate_succ_apply, markPass, dif_neg hfirst, hpasses]

/-- Marking takes at most one pass for every root and for every link of a scope. -/
theorem exists_passes (scopes : Scopes) (roots : List ScopeId) :
    ∃ passes ≤ roots.length + ∑ id ∈ Finset.range scopes.nextId, (scopes.links id).length,
      scopes.markPass^[passes] (roots, Array.replicate scopes.nextId false) =
        ([], scopes.reachable roots) := by
  obtain ⟨passes, hle, hpasses⟩ :=
    exists_passes_mark scopes roots (Array.replicate scopes.nextId false)
  refine ⟨passes, hle.trans (Nat.add_le_add_left ?_ _), hpasses⟩
  rw [unmarkedLinks, Array.size_replicate]
  exact Finset.sum_le_sum_of_subset (Finset.filter_subset _ _)

/-! ## Handles that stay tracked -/

theorem eraseDups_eraseDups (ids : List ScopeId) : ids.eraseDups.eraseDups = ids.eraseDups := by
  induction hlength : ids.length using Nat.strong_induction_on generalizing ids with
  | _ length ih =>
    subst hlength
    cases ids with
    | nil => rfl
    | cons first rest =>
      have hshorter : (rest.filter fun other => !other == first).length < rest.length + 1 :=
        Nat.lt_succ_of_le (List.length_filter_le _ _)
      -- nothing equal to the first is left behind it
      have hothers : (rest.filter fun other => !other == first).eraseDups.filter
          (fun other => !other == first) = (rest.filter fun other => !other == first).eraseDups :=
        List.filter_eq_self.mpr fun other hother =>
          (List.mem_filter.mp (List.mem_eraseDups.mp hother)).2
      rw [List.eraseDups_cons, List.eraseDups_cons, hothers, ih _ hshorter _ rfl]

/-! ## The collection -/

variable {captured : Captured} {minimum : Nat}

/-- A reached scope keeps its bindings and its parent. -/
theorem find_collect_of_reaches (h : scopes.Reaches roots id) :
    (captured.collect minimum scopes roots).scopes.find id = scopes.find id := by
  by_cases hlt : id < scopes.nextId
  · exact find_collect_of_marked (marked_of_reaches hlt h)
  · have hnone : scopes.find id = none :=
      Option.not_isSome_iff_eq_none.mp fun hsome => hlt (find_isSome_iff.mp hsome)
    rcases find_collect captured minimum scopes roots id with hsame | hsevered
    · exact hsame
    · rw [hsevered, hnone, Option.map_none]

theorem reaches_collect_iff :
    (captured.collect minimum scopes roots).scopes.Reaches roots id ↔
      scopes.Reaches roots id := by
  constructor
  · rintro ⟨root, hroot, hway⟩
    exact ⟨root, hroot, ReflTransGen.mono (fun _ _ => links_collect minimum) root id hway⟩
  · rintro ⟨root, hroot, hway⟩
    refine ⟨root, hroot, ?_⟩
    induction hway with
    | refl => exact .refl
    | tail hway hlink ih =>
      -- the scope before the link is reached as well, and so keeps the link
      refine ih.tail ?_
      rw [Links, links, find_collect_of_reaches ⟨root, hroot, hway⟩]
      exact hlink

open Classical in
theorem getD_reachable_eq (hlive : ∀ id ∈ captured.handles, id < scopes.nextId)
    (hid : id ∈ captured.handles.toList) :
    (scopes.reachable roots).getD id false = decide (scopes.Reaches roots id) :=
  Bool.eq_iff_iff.mpr ((marked_iff_reaches (hlive id (Array.mem_toList_iff.mp hid))).trans
    decide_eq_true_iff.symm)

theorem isDue_collect (hminimum : 0 < minimum) :
    (captured.collect minimum scopes roots).captured.isDue = false := by
  simp only [Captured.isDue, Captured.collect, List.size_toArray, decide_eq_false_iff_not]
  omega

/-- What stays tracked is reached, so another collection keeps all of it and severs nothing. -/
theorem collect_collect (hlive : ∀ id ∈ captured.handles, id < scopes.nextId) :
    (captured.collect minimum scopes roots).captured.collect minimum
        (captured.collect minimum scopes roots).scopes roots =
      ⟨(captured.collect minimum scopes roots).scopes,
        (captured.collect minimum scopes roots).captured, 0⟩ := by
  generalize hcollected : captured.collect minimum scopes roots = collected
  have hkept : collected.captured.handles.toList =
      Captured.keepOnce captured.handles.toList (scopes.reachable roots) := by
    rw [← hcollected, Captured.collect, List.toList_toArray]
  have hlimit : collected.captured.limit =
      max (2 * collected.captured.handles.toList.length) minimum := by
    rw [hkept, ← hcollected, Captured.collect]
  have hmarked : ∀ id ∈ collected.captured.handles.toList,
      (collected.scopes.reachable roots).getD id false = true := by
    subst hcollected
    intro id hid
    rw [hkept, mem_keepOnce] at hid
    obtain ⟨htracked, hmark⟩ := hid
    have hlt := hlive id (Array.mem_toList_iff.mp htracked)
    refine marked_of_reaches (by rwa [nextId_collect]) ?_
    exact reaches_collect_iff.mpr (marked_reachable hmark)
  have hgarbage : (collected.captured.handles.toList.filter fun id =>
      !(collected.scopes.reachable roots).getD id false) = [] :=
    List.filter_eq_nil_iff.mpr fun id hid => by rw [hmarked id hid]; decide
  have hagain : Captured.keepOnce collected.captured.handles.toList
      (collected.scopes.reachable roots) = collected.captured.handles.toList := by
    rw [keepOnce_eq, List.filter_eq_self.mpr hmarked, hkept, keepOnce_eq, eraseDups_eraseDups]
  rw [Captured.collect, hgarbage, hagain, ← hlimit]
  rfl

open Classical in
/-- **A collection frees exactly what the roots do not reach.** Marking ends, after no more
passes than there are roots and links. What the roots reach and what is not tracked keeps
its bindings and its parent; the other tracked scopes lose both. The reached handles stay
tracked, each where it stood first, the severed ones are counted, no collection is due, and
another one with the same roots does nothing. -/
theorem collect_frees_unreached (hminimum : 0 < minimum)
    (hlive : ∀ id ∈ captured.handles, id < scopes.nextId) :
    let collected := captured.collect minimum scopes roots
    (∃ passes ≤ roots.length + ∑ id ∈ Finset.range scopes.nextId, (scopes.links id).length,
      scopes.markPass^[passes] (roots, Array.replicate scopes.nextId false) =
        ([], scopes.reachable roots)) ∧
    (∀ id, scopes.Reaches roots id → collected.scopes.find id = scopes.find id) ∧
    (∀ id ∈ captured.handles, ¬ scopes.Reaches roots id →
      collected.scopes.find id = some ⟨[], none⟩) ∧
    (∀ id, id ∉ captured.handles → collected.scopes.find id = scopes.find id) ∧
    collected.captured.handles.toList =
      (captured.handles.toList.filter (scopes.Reaches roots ·)).eraseDups ∧
    collected.severed =
      (captured.handles.toList.filter (¬ scopes.Reaches roots ·)).length ∧
    collected.captured.isDue = false ∧
    collected.captured.collect minimum collected.scopes roots =
      ⟨collected.scopes, collected.captured, 0⟩ := by
  refine ⟨exists_passes scopes roots, fun id => find_collect_of_reaches, ?freed, ?untracked,
    ?handles, ?severed, isDue_collect hminimum, collect_collect hlive⟩
  case freed =>
    intro id hid hreaches
    obtain ⟨scope, hscope⟩ := exists_find (hlive id hid)
    have hmark := mt (marked_iff_reaches (hlive id hid)).mp hreaches
    rw [find_collect_of_unmarked minimum hid hmark, hscope, Option.map_some]
  case untracked =>
    intro id hid
    refine find_foldl_sever_of_not_mem (fun hgarbage => hid ?_) scopes
    exact Array.mem_toList_iff.mp (List.mem_filter.mp hgarbage).1
  case handles =>
    rw [Captured.collect, List.toList_toArray, keepOnce_eq]
    exact congrArg List.eraseDups
      (List.filter_congr fun id hid => getD_reachable_eq hlive hid)
  case severed =>
    refine congrArg List.length (List.filter_congr fun id hid => ?_)
    rw [getD_reachable_eq hlive hid, decide_not]

/-- Of two scopes with a function of their own, the global scope keeps one; both are tracked
twice. -/
theorem collect_frees_unreached_of_twice_tracked :
    let closure (id : ScopeId) : Value := .function ⟨"f", [], []⟩ id id
    let children := ((empty.add none).add (some 0)).add (some 0)
    let scopes := ((children.define 1 "f" (closure 1)).define 2 "f" (closure 2)).define 0 "keep"
      (closure 1)
    let captured : Captured := ⟨#[2, 1, 2, 1], 4⟩
    let collected := captured.collect 256 scopes [0]
    (∀ id ∈ captured.handles, id < scopes.nextId) ∧ scopes.Reaches [0] 1 ∧
      ¬ scopes.Reaches [0] 2 ∧ collected.scopes.find 1 = scopes.find 1 ∧
      collected.scopes.find 2 = some ⟨[], none⟩ ∧ collected.captured.handles.toList = [1] ∧
      collected.severed = 2 ∧
      collected.captured.collect 256 collected.scopes [0] =
        ⟨collected.scopes, collected.captured, 0⟩ := by
  intro closure children scopes captured collected
  have hlive : ∀ id ∈ captured.handles, id < scopes.nextId := by decide
  have hone : scopes.Reaches [0] 1 :=
    ⟨0, List.mem_singleton_self 0, .single (List.mem_singleton_self 1)⟩
  have htwo : ¬ scopes.Reaches [0] 2 := by
    rintro ⟨root, hroot, hway⟩
    obtain rfl := List.mem_singleton.mp hroot
    have hclosed : ∀ id, id = 0 ∨ id = 1 → ∀ linked, scopes.Links id linked →
        linked = 0 ∨ linked = 1 := by
      rintro id (rfl | rfl) linked hlinked
      · exact .inr (List.mem_singleton.mp hlinked)
      · rcases List.mem_cons.mp hlinked with rfl | hlinked
        · exact .inl rfl
        · exact .inr (List.mem_singleton.mp hlinked)
    rcases closed_reachable hclosed (.inl rfl) hway with h | h <;> cases h
  obtain ⟨-, hreached, hfreed, -, hhandles, hsevered, -, hagain⟩ :=
    @collect_frees_unreached scopes [0] captured 256 (Nat.zero_lt_succ 255) hlive
  refine ⟨hlive, hone, htwo, hreached 1 hone,
    hfreed 2 (Array.mem_toList_iff.mp List.mem_cons_self) htwo, ?_, ?_, hagain⟩
  · rw [hhandles]
    simp [captured, hone, htwo]
    rfl
  · rw [hsevered]
    simp [captured, hone, htwo]

end CommandScript.Scopes
