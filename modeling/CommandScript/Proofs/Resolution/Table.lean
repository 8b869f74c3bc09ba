import CommandScript.Proofs.Resolution.Context
import Mathlib.Algebra.Group.Nat.Defs
import Mathlib.Data.List.Nodup
import Mathlib.Data.List.Pairwise
import Mathlib.Data.List.Perm.Subperm
import Std.Data.HashMap

/-!
# The table of distances

The distances of a program are added to those of earlier programs. If its references have
distinct ids that were not used before, then afterwards the table gives each of them its
distance, and to all others what it gave before.

* `DistinctIds`: occurrences whose references have distinct ids.
* `nodup_of_drawn`: ids from a counter are distinct and new.
* `getElem?_insertMany_recorded`: the table for the references of a program.
* `getElem?_insertMany_other`: the table for other ids.
* `lookup_recorded`: the distances of a program by themselves.
-/

namespace CommandScript

/-- The references among the occurrences have distinct ids. -/
def DistinctIds (occurrences : List Occurrence) : Prop :=
  occurrences.Pairwise fun first second =>
    ∀ reference, first.reference? = some reference →
      ∀ other, second.reference? = some other → reference.id ≠ other.id

theorem distinctIds_of_nodup {occurrences : List Occurrence}
    (h : ((occurrences.filterMap Occurrence.reference?).map Reference.id).Nodup) :
    DistinctIds occurrences := by
  have hpairs := List.pairwise_map.mp h
  exact List.pairwise_filterMap.mp hpairs

theorem Occurrence.recorded?_eq_some {occurrence : Occurrence} {id : NodeId} {distance : Nat} :
    occurrence.recorded? = some (id, distance) ↔
      ∃ reference, occurrence.reference? = some reference ∧ reference.id = id ∧
        distance? occurrence.context.scopes reference.name = some distance := by
  simp only [recorded?, Option.bind_eq_some_iff, Option.map_eq_some_iff, Prod.mk.injEq]
  constructor
  · rintro ⟨reference, hreference, found, hfound, hid, rfl⟩
    exact ⟨reference, hreference, hid, hfound⟩
  · rintro ⟨reference, hreference, hid, hfound⟩
    exact ⟨reference, hreference, distance, hfound, hid, rfl⟩

theorem DistinctIds.eq_of_id_eq {occurrences : List Occurrence} (h : DistinctIds occurrences)
    {first second : Occurrence} (hfirst : first ∈ occurrences) (hsecond : second ∈ occurrences)
    {reference other : Reference} (hreference : first.reference? = some reference)
    (hother : second.reference? = some other) (hid : reference.id = other.id) :
    first = second := by
  have hall : ∀ first ∈ occurrences, ∀ second ∈ occurrences,
      ∀ reference, first.reference? = some reference →
        ∀ other, second.reference? = some other → reference.id = other.id → first = second := by
    refine List.Pairwise.forall_of_forall_of_flip (fun _ _ _ _ _ _ _ => rfl) (h.imp ?_) (h.imp ?_)
    · exact fun hne reference hreference other hother hid =>
        absurd hid (hne reference hreference other hother)
    · exact fun hne reference hreference other hother hid =>
        absurd hid.symm (hne other hother reference hreference)
  exact hall first hfirst second hsecond reference hreference other hother hid

theorem DistinctIds.recorded {occurrences : List Occurrence} (h : DistinctIds occurrences) :
    (occurrences.filterMap Occurrence.recorded?).Pairwise fun first second =>
      (first.1 == second.1) = false := by
  refine List.pairwise_filterMap.mpr (h.imp fun {first second} hdistinct => ?_)
  rintro ⟨id, distance⟩ hfirst ⟨other, further⟩ hsecond
  obtain ⟨reference, hreference, rfl, -⟩ := Occurrence.recorded?_eq_some.mp hfirst
  obtain ⟨reference', hreference', rfl, -⟩ := Occurrence.recorded?_eq_some.mp hsecond
  exact beq_false_of_ne (hdistinct reference hreference reference' hreference')

/-- Ids drawn from a counter that has not come around are distinct, and none was drawn
before. -/
theorem nodup_of_drawn {ids : List NodeId} {total drawn : Nat}
    (h : ids.Subperm ((List.range drawn).map fun count => UInt32.ofNat total + UInt32.ofNat count))
    (hsmall : total + drawn < 2 ^ 32) :
    ids.Nodup ∧ ∀ id ∈ ids, total ≤ id.toNat ∧ id.toNat < total + drawn := by
  have hvalue : ∀ count < drawn,
      (UInt32.ofNat total + UInt32.ofNat count).toNat = total + count := by
    intro count hcount
    rw [UInt32.toNat_add, UInt32.toNat_ofNat', UInt32.toNat_ofNat']
    omega
  constructor
  · obtain ⟨permuted, hperm, hsub⟩ := h
    refine hperm.nodup_iff.mp (hsub.nodup (List.Nodup.map_on ?_ List.nodup_range))
    intro first hfirst second hsecond heq
    have := congrArg UInt32.toNat heq
    rw [hvalue first (List.mem_range.mp hfirst), hvalue second (List.mem_range.mp hsecond)] at this
    omega
  · intro id hid
    obtain ⟨count, hcount, rfl⟩ := List.mem_map.mp (h.subset hid)
    have hlt := List.mem_range.mp hcount
    rw [hvalue count hlt]
    omega

variable {distances : Std.HashMap NodeId Nat} {occurrences : List Occurrence}

theorem getElem?_insertMany_other {id : NodeId}
    (h : ∀ occurrence ∈ occurrences, ∀ reference, occurrence.reference? = some reference →
      reference.id ≠ id) :
    (distances.insertMany (occurrences.filterMap Occurrence.recorded?))[id]? =
      distances[id]? := by
  refine Std.HashMap.getElem?_insertMany_list_of_contains_eq_false ?_
  rw [List.contains_eq_mem, decide_eq_false_iff_not]
  intro hmem
  obtain ⟨⟨_, distance⟩, hrecorded, rfl⟩ := List.mem_map.mp hmem
  obtain ⟨occurrence, hoccurrence, hsome⟩ := List.mem_filterMap.mp hrecorded
  obtain ⟨reference, hreference, hid, -⟩ := Occurrence.recorded?_eq_some.mp hsome
  exact h occurrence hoccurrence reference hreference hid

theorem getElem?_insertMany_recorded (hdistinct : DistinctIds occurrences)
    {context : Context} {reference : Reference}
    (hmem : ⟨context, .mention reference⟩ ∈ occurrences)
    (hfresh : distances[reference.id]? = none) :
    (distances.insertMany (occurrences.filterMap Occurrence.recorded?))[reference.id]? =
      distance? context.scopes reference.name := by
  cases hdistance : distance? context.scopes reference.name with
  | some distance =>
    refine Std.HashMap.getElem?_insertMany_list_of_mem (BEq.refl _) hdistinct.recorded ?_
    exact List.mem_filterMap.mpr
      ⟨_, hmem, Occurrence.recorded?_eq_some.mpr ⟨reference, rfl, rfl, hdistance⟩⟩
  | none =>
    refine (Std.HashMap.getElem?_insertMany_list_of_contains_eq_false ?_).trans hfresh
    rw [List.contains_eq_mem, decide_eq_false_iff_not]
    intro hid
    obtain ⟨⟨_, distance⟩, hrecorded, hsame⟩ := List.mem_map.mp hid
    obtain ⟨occurrence, hoccurrence, hsome⟩ := List.mem_filterMap.mp hrecorded
    obtain ⟨other, hother, rfl, hfound⟩ := Occurrence.recorded?_eq_some.mp hsome
    obtain rfl := hdistinct.eq_of_id_eq hoccurrence hmem hother rfl hsame
    obtain rfl := Option.some.inj hother
    rw [hdistance] at hfound
    cases hfound

/-- The list of distances has the distance of each reference. -/
theorem lookup_recorded (hdistinct : DistinctIds occurrences) {context : Context}
    {reference : Reference} (hmem : ⟨context, .mention reference⟩ ∈ occurrences) :
    (occurrences.filterMap Occurrence.recorded?).lookup reference.id =
      distance? context.scopes reference.name := by
  cases hdistance : distance? context.scopes reference.name with
  | some distance =>
    have hrecorded : (reference.id, distance) ∈ occurrences.filterMap Occurrence.recorded? :=
      List.mem_filterMap.mpr
        ⟨_, hmem, Occurrence.recorded?_eq_some.mpr ⟨reference, rfl, rfl, hdistance⟩⟩
    obtain ⟨before, after, hsplit⟩ := List.append_of_mem hrecorded
    have hpairs := hdistinct.recorded
    rw [hsplit] at hpairs
    refine List.lookup_eq_some_iff.mpr ⟨before, after, hsplit, fun entry hentry => ?_⟩
    have hne := (List.pairwise_append.mp hpairs).2.2 entry hentry _ List.mem_cons_self
    exact bne_iff_ne.mpr (Ne.symm (ne_of_beq_false hne))
  | none =>
    refine List.lookup_eq_none_iff.mpr fun entry hentry => ?_
    obtain ⟨occurrence, hoccurrence, hsome⟩ := List.mem_filterMap.mp hentry
    obtain ⟨other, hother, hid, hfound⟩ := Occurrence.recorded?_eq_some.mp hsome
    refine bne_iff_ne.mpr fun hsame => ?_
    obtain rfl := hdistinct.eq_of_id_eq hoccurrence hmem hother rfl (hid.trans hsame.symm)
    obtain rfl := Option.some.inj hother
    rw [hdistance] at hfound
    cases hfound

end CommandScript
