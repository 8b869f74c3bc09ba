import CommandScript.Proofs.Machine.Constant
import CommandScript.Proofs.Machine.Lookup
import CommandScript.Proofs.Resolution.Table

/-!
# Machines whose scopes are tracked to their origins

Beside a machine that collects scopes stands one that never does and agrees with it on the
scopes in use. In the store of the second every scope is an instance of what opened it, and
all values are admitted; so whatever the first one reads and binds fits the program that it
comes from.

What is known to a layout comes from accepted programs. The ids of their references were
drawn one after the other, so the table still has the distances of all of them.

* `Chronicle`: what has been opened, accepted and handed out.
* `Layout.Covers`: a layout explains a state by what a chronicle says.
* `Machine.Tracked.step`: a step keeps a machine tracked.
* `Layout.Covers.adding`: the state in which one more program is known.
* `Machine.Tracked.reaches_read`, `reaches_write`: what is read or assigned is a known
  reference in a context that fits.
-/

namespace CommandScript

structure Chronicle where
  /-- What the scopes were opened for. -/
  opened : ScopeId → Origin → Prop
  /-- The occurrences of the programs that were run. -/
  accepted : Occurrence → Prop
  /-- The number of ids that were handed out. -/
  handedOut : Nat

namespace Chronicle

/-- A chronicle that admits anything and only counts ids. -/
def counting (handedOut : Nat) : Chronicle := ⟨fun _ _ => True, fun _ => True, handedOut⟩

/-- The same chronicle after more ids were handed out. -/
def drawing (chronicle : Chronicle) (count : Nat) : Chronicle :=
  { chronicle with handedOut := chronicle.handedOut + count }

theorem drawing_add (chronicle : Chronicle) (first second : Nat) :
    chronicle.drawing (first + second) = (chronicle.drawing first).drawing second :=
  congrArg (Chronicle.mk _ _) (Nat.add_assoc _ _ _).symm

end Chronicle

namespace Layout

/-- All that is known was accepted, and the table has the distances of its references.
Its ids are among those that were handed out. -/
structure Legit (chronicle : Chronicle) (layout : Layout) (distances : Std.HashMap NodeId Nat) :
    Prop where
  placed : ∀ occurrence, layout.known occurrence → occurrence.WellPlaced
  permitted : ∀ occurrence, layout.known occurrence → occurrence.Permitted
  accepted : ∀ occurrence, layout.known occurrence → chronicle.accepted occurrence
  linked : layout.Linked distances
  ids : ∀ context reference, layout.known ⟨context, .mention reference⟩ →
    reference.id.toNat < chronicle.handedOut
  keys : ∀ (id : NodeId) distance, distances[id]? = some distance →
    id.toNat < chronicle.handedOut

/-- Every scope but the global one was opened for what the layout says. -/
def Traces (chronicle : Chronicle) (layout : Layout) (scopes : Scopes) : Prop :=
  ∀ id, id < scopes.nextId → id = layout.globals ∨ chronicle.opened id (layout.origin id)

/-- The layout explains the state by what has happened. -/
structure Covers (chronicle : Chronicle) (layout : Layout) (state : Interpreter) : Prop where
  globals : state.globals = layout.globals
  store : layout.Sound state.scopes
  legit : layout.Legit chronicle state.distances
  traces : layout.Traces chronicle state.scopes

end Layout

/-- The interpreter is between two programs, and agrees with one that has never collected
scopes and whose scopes fit. -/
def Interpreter.Tracked (chronicle : Chronicle) (state : Interpreter) : Prop :=
  ∃ (live : ScopeId → Prop) (twin : Interpreter) (layout : Layout),
    state.AgreeOn live twin ∧ layout.Covers chronicle twin ∧ state.current = state.globals

/-- The machine agrees with one that never collects scopes and stands in its program. -/
def Machine.Tracked (chronicle : Chronicle) (machine : Machine) : Prop :=
  ∃ (live : ScopeId → Prop) (twin : Machine) (layout : Layout),
    machine.AgreeOn live twin ∧ twin.Sound layout ∧ layout.Covers chronicle twin.state

variable {chronicle : Chronicle} {layout later : Layout}

/-! ## Steps -/

theorem Layout.Legit.of_known {distances : Std.HashMap NodeId Nat}
    (h : layout.Legit chronicle distances) (hknown : later.known = layout.known) :
    later.Legit chronicle distances where
  placed := by rw [hknown]; exact h.placed
  permitted := by rw [hknown]; exact h.permitted
  accepted := by rw [hknown]; exact h.accepted
  linked := by rw [Layout.Linked, hknown]; exact h.linked
  ids := by rw [hknown]; exact h.ids
  keys := h.keys

namespace Machine

variable {setting : Setting} {machine : Machine}

theorem AgreeOn.opens?_eq {live : ScopeId → Prop} {twin : Machine}
    (h : machine.AgreeOn live twin) : twin.opens? = machine.opens? := by
  unfold opens?
  rw [h.control_eq, h.frames_eq, h.state.callDepth_eq]

namespace Tracked

theorem step (hnative : setting.NativesMakeNoFunctions) (h : machine.Tracked chronicle)
    (hopened : ∀ origin, machine.opens? = some origin →
      chronicle.opened machine.state.scopes.nextId origin) :
    (machine.step setting).Tracked chronicle := by
  obtain ⟨live, twin, layout, hagree, hsound, hcovers⟩ := h
  obtain ⟨later, hcontinues, hlater⟩ := hsound.step hnative hcovers.legit.placed
  obtain ⟨reached, hstep⟩ := hagree.step hnative
  have hdistances := (conserves_step setting.keeping twin).distances
  refine ⟨reached, _, later, hstep, hlater, hlater.globals, hlater.store, ?_, fun id hid => ?_⟩
  · rw [hdistances]
    exact hcovers.legit.of_known hcontinues.known
  · by_cases hold : id < twin.state.scopes.nextId
    · rw [hcontinues.grows.globals, hcontinues.grows.origin id hold]
      exact hcovers.traces id hold
    · obtain ⟨rfl, horigin⟩ := hcontinues.opened id (Nat.not_lt.mp hold) hid
      rw [hagree.opens?_eq] at horigin
      rw [← hagree.state.scopes.nextId_eq] at horigin ⊢
      exact .inr (hopened _ horigin)

theorem after (hnative : setting.NativesMakeNoFunctions) (h : machine.Tracked chronicle) {n : Nat}
    (hopened : ∀ k < n, ∀ origin, (machine.after setting k).opens? = some origin →
      chronicle.opened (machine.after setting k).state.scopes.nextId origin) :
    (machine.after setting n).Tracked chronicle := by
  induction n with
  | zero => exact h
  | succ n ih =>
    rw [after_succ]
    exact (ih fun k hk => hopened k (Nat.lt_succ_of_lt hk)).step hnative
      (hopened n (Nat.lt_succ_self n))

/-- A machine that has come to rest leaves the interpreter between two programs. -/
theorem collectAtEnd (h : machine.Tracked chronicle)
    (hcurrent : machine.state.current = machine.state.globals) :
    (machine.state.collectAtEnd setting).Tracked chronicle := by
  obtain ⟨live, twin, layout, hagree, -, hcovers⟩ := h
  obtain ⟨reached, hcollected⟩ := hagree.state.collectAtEnd setting
  refine ⟨reached, _, layout, hcollected, hcovers, ?_⟩
  unfold Interpreter.collectAtEnd
  split
  · split <;> exact hcurrent
  · exact hcurrent

end Tracked

end Machine

/-! ## One more program -/

namespace Layout

/-- The layout in which a program is known, too. -/
def adding (layout : Layout) (program : List Stmt) : Layout :=
  { layout with
    known := fun occurrence =>
      layout.known occurrence ∨ occurrence ∈ Stmt.occurrencesAll program .top }

theorem Grows.adding (layout : Layout) (program : List Stmt) (scopes : Scopes) :
    layout.Grows scopes (layout.adding program) scopes :=
  { Grows.refl layout scopes with known := fun _ => .inl }

theorem Sound.adding {scopes : Scopes} (h : layout.Sound scopes) (program : List Stmt) :
    (layout.adding program).Sound scopes where
  lt := h.lt
  root := h.root
  top := h.top
  bindings id name value hbinds :=
    (h.bindings id name value hbinds).imp_left (·.mono (.adding layout program scopes))

/-- The ids of a program were drawn after those of all programs before. -/
structure Drawn (program : List Stmt) (first count : Nat) : Prop where
  nodup : ((Stmt.referencesAll program).map Reference.id).Nodup
  within : ∀ reference ∈ Stmt.referencesAll program,
    first ≤ reference.id.toNat ∧ reference.id.toNat < first + count

section Drawn

variable {program : List Stmt} {first count : Nat} {occurrences : List Occurrence}

/-- Occurrences with the references of the program have distinct ids. -/
theorem Drawn.distinctIds (h : Drawn program first count)
    (hreferences : occurrences.filterMap Occurrence.reference? = Stmt.referencesAll program) :
    DistinctIds occurrences := by
  refine distinctIds_of_nodup ?_
  rw [hreferences]
  exact h.nodup

theorem Drawn.of_mem (h : Drawn program first count)
    (hreferences : occurrences.filterMap Occurrence.reference? = Stmt.referencesAll program)
    {occurrence : Occurrence} (hmem : occurrence ∈ occurrences) {reference : Reference}
    (hreference : occurrence.reference? = some reference) :
    first ≤ reference.id.toNat ∧ reference.id.toNat < first + count := by
  refine h.within reference ?_
  rw [← hreferences]
  exact List.mem_filterMap.mpr ⟨occurrence, hmem, hreference⟩

theorem Drawn.occurrence (h : Drawn program first count) {occurrence : Occurrence}
    (hmem : occurrence ∈ Stmt.occurrencesAll program .top)
    {reference : Reference} (hreference : occurrence.reference? = some reference) :
    first ≤ reference.id.toNat ∧ reference.id.toNat < first + count :=
  h.of_mem (Stmt.filterMap_referenceAll? program .top) hmem hreference

end Drawn

theorem Legit.adding {distances : Std.HashMap NodeId Nat}
    (h : layout.Legit chronicle distances) {program : List Stmt}
    (hprogram : Stmt.Accepted program)
    (hknown : ∀ occurrence ∈ Stmt.occurrencesAll program .top, chronicle.accepted occurrence)
    {count : Nat} (hdrawn : Drawn program chronicle.handedOut count) :
    (layout.adding program).Legit (chronicle.drawing count)
      (distances.insertMany
        ((Stmt.occurrencesAll program .top).filterMap Occurrence.recorded?)) := by
  have hdistinct := hdrawn.distinctIds (Stmt.filterMap_referenceAll? program .top)
  -- an id that was handed out before is no id of the program
  have hother : ∀ id : NodeId, id.toNat < chronicle.handedOut →
      ∀ occurrence ∈ Stmt.occurrencesAll program .top, ∀ reference,
        occurrence.reference? = some reference → reference.id ≠ id := by
    rintro id hid occurrence hmem reference hreference rfl
    exact absurd hid (Nat.not_lt.mpr (hdrawn.occurrence hmem hreference).1)
  refine ⟨?_, ?_, ?_, ?_, ?_, ?_⟩
  · exact fun occurrence => Or.rec (h.placed occurrence) (hprogram.wellPlaced occurrence)
  · exact fun occurrence => Or.rec (h.permitted occurrence) (hprogram.permitted occurrence)
  · exact fun occurrence => Or.rec (h.accepted occurrence) (hknown occurrence)
  · intro context reference hreference
    rcases hreference with hold | hnew
    · rw [getElem?_insertMany_other (hother _ (h.ids context reference hold))]
      exact h.linked context reference hold
    · refine getElem?_insertMany_recorded hdistinct hnew ?_
      refine Option.eq_none_iff_forall_ne_some.mpr fun distance hfound => ?_
      exact absurd (h.keys _ distance hfound)
        (Nat.not_lt.mpr (hdrawn.occurrence hnew rfl).1)
  · intro context reference hreference
    rcases hreference with hold | hnew
    · exact Nat.lt_add_right count (h.ids context reference hold)
    · exact (hdrawn.occurrence hnew rfl).2
  · intro id distance hfound
    by_cases hnew : ∃ occurrence ∈ Stmt.occurrencesAll program .top, ∃ reference,
        occurrence.reference? = some reference ∧ reference.id = id
    · obtain ⟨occurrence, hmem, reference, hreference, rfl⟩ := hnew
      exact (hdrawn.occurrence hmem hreference).2
    · rw [getElem?_insertMany_other fun occurrence hmem reference hreference hid =>
        hnew ⟨occurrence, hmem, reference, hreference, hid⟩] at hfound
      exact Nat.lt_add_right count (h.keys id distance hfound)

theorem Legit.drawing {distances : Std.HashMap NodeId Nat}
    (h : layout.Legit chronicle distances) (count : Nat) :
    layout.Legit (chronicle.drawing count) distances :=
  { h with
    ids := fun context reference hknown =>
      Nat.lt_add_right count (h.ids context reference hknown)
    keys := fun id distance hfound => Nat.lt_add_right count (h.keys id distance hfound) }

theorem Covers.drawing {state : Interpreter} (h : layout.Covers chronicle state) (count : Nat) :
    layout.Covers (chronicle.drawing count) state :=
  ⟨h.globals, h.store, h.legit.drawing count, h.traces⟩

theorem Covers.adding {state : Interpreter} (h : layout.Covers chronicle state)
    {program : List Stmt} (hprogram : Stmt.Accepted program)
    (hknown : ∀ occurrence ∈ Stmt.occurrencesAll program .top, chronicle.accepted occurrence)
    {count : Nat} (hdrawn : Drawn program chronicle.handedOut count) :
    (layout.adding program).Covers (chronicle.drawing count)
      (state.addDistances
        ((Stmt.occurrencesAll program .top).filterMap Occurrence.recorded?)) :=
  ⟨h.globals, h.store.adding program, h.legit.adding hprogram hknown hdrawn, h.traces⟩

end Layout

namespace Interpreter

/-- A machine that is about to run a known program stands at its first statement. -/
theorem sound_start {state : Interpreter} (hglobals : state.globals = layout.globals)
    (hstore : layout.Sound state.scopes) (hcurrent : state.current = layout.globals)
    {program : List Stmt} (hprogram : layout.PlacesAll .top program) :
    (state.start program).Sound layout := by
  have hfits : layout.Fits state.scopes state.current .top := by
    rw [hcurrent]
    exact .top rfl fun name hready => by cases hready
  cases program with
  | nil =>
    exact ⟨hglobals, hstore, ⟨trivial, fun _ hnil => by cases hnil⟩, .done hfits .rest⟩
  | cons stmt rest =>
    obtain ⟨hstmt, hrest⟩ := hprogram.cons
    refine ⟨hglobals, hstore, ⟨trivial, fun frame hframe => ?_⟩,
      .exec hfits hstmt (.program hrest)⟩
    obtain rfl := List.mem_singleton.mp hframe
    exact trivial

theorem Tracked.launch {state : Interpreter} (h : state.Tracked chronicle)
    {program : List Stmt} (hprogram : Stmt.Accepted program)
    (hknown : ∀ occurrence ∈ Stmt.occurrencesAll program .top, chronicle.accepted occurrence)
    {count : Nat} (hdrawn : Layout.Drawn program chronicle.handedOut count) :
    ((state.addDistances
        ((Stmt.occurrencesAll program .top).filterMap Occurrence.recorded?)).start
      program).Tracked (chronicle.drawing count) := by
  obtain ⟨live, twin, layout, hagree, hcovers, hcurrent⟩ := h
  have hadding := hcovers.adding hprogram hknown hdrawn
  have hcurrent : twin.current = twin.globals := by
    rw [hagree.outside]
    exact hcurrent
  refine ⟨live, _, layout.adding program, Machine.agreeOn_start (hagree.addDistances _) program,
    ?_, ?_⟩
  · exact sound_start hadding.globals hadding.store (hcurrent.trans hadding.globals)
      ⟨hprogram.structured, fun _ => .inr⟩
  · cases program <;> exact hadding

end Interpreter

theorem Interpreter.Tracked.keys {state : Interpreter} (h : state.Tracked chronicle) {id : NodeId}
    {distance : Nat} (hfound : state.distances[id]? = some distance) :
    id.toNat < chronicle.handedOut := by
  obtain ⟨live, twin, layout, hagree, hcovers, -⟩ := h
  have hdistances : twin.distances = state.distances := by rw [hagree.outside]
  refine hcovers.legit.keys id distance ?_
  rw [hdistances, hfound]

/-! ## References -/

/-- The interpreter comes to a reference that is known, in a context that fits. -/
def Interpreter.Reaches (chronicle : Chronicle) (state : Interpreter) (reference : Reference) :
    Prop :=
  ∃ (live : ScopeId → Prop) (twin : Interpreter) (layout : Layout) (context : Context),
    state.AgreeOn live twin ∧ layout.Covers chronicle twin ∧
    layout.Fits twin.scopes twin.current context ∧ layout.known ⟨context, .mention reference⟩

namespace Machine.Tracked

variable {frames : List Frame} {state : Interpreter} {id : NodeId} {name : String} {line : Nat}

theorem reaches_read (h : Tracked chronicle ⟨.eval (.variable id name line), frames, state⟩) :
    state.Reaches chronicle ⟨id, name, .read⟩ := by
  obtain ⟨live, ⟨control, frames', twin⟩, layout, hagree, hsound, hcovers⟩ := h
  obtain rfl : .eval (.variable id name line) = control := hagree.control_eq
  have hstands := hsound.stands
  cases hstands with
  | @eval _ _ _ context hfits hknows _ =>
    exact ⟨live, twin, layout, context, hagree.state, hcovers, hfits,
      hknows _ List.mem_cons_self⟩

theorem reaches_write {value : Value}
    (h : Tracked chronicle ⟨.value value, .assign id name line :: frames, state⟩) :
    state.Reaches chronicle ⟨id, name, .write⟩ := by
  obtain ⟨live, ⟨control, frames', twin⟩, layout, hagree, hsound, hcovers⟩ := h
  obtain rfl : .value value = control := hagree.control_eq
  obtain rfl : .assign id name line :: frames = frames' := hagree.frames_eq
  have hstands := hsound.stands
  cases hstands with
  | @value _ _ _ context hfits hframes =>
    cases hframes with
    | assign hwrite _ =>
      exact ⟨live, twin, layout, context, hagree.state, hcovers, hfits, hwrite⟩

end Machine.Tracked

end CommandScript
