import CommandScript.Proofs.Machine.Agreement
import CommandScript.Proofs.Scope.Cycles

/-!
# Tracked closures

A function is declared in the global scope or in one that is tracked from then on. So
every function value that is held or bound keeps the global scope or a tracked one, apart
from those bound in scopes that were out of reach at some collection. Nothing leads back to
these lost scopes and nothing changes them any more, and the collection has left no cycle
among them.

* `Interpreter.Guarded`: the invariant, given the lost scopes.
* `Interpreter.Extends`: what a step may do to the scopes; `Guarded.extend`: it keeps the
  invariant.
* `Guarded.collect`: a collection keeps the invariant, and all that it does not reach is lost.
* `Machine.Guarded.step`, `Machine.Guarded.after`: a step and a run keep the invariant.
-/

namespace CommandScript

open Relation

namespace Interpreter

/-- A scope of the store that is not lost. -/
def Kept (lost : ScopeId → Prop) (state : Interpreter) (id : ScopeId) : Prop :=
  id < state.scopes.nextId ∧ ¬ lost id

/-- What a function value keeps is the global scope or tracked, and not lost. -/
def Guards (lost : ScopeId → Prop) (state : Interpreter) (value : Value) : Prop :=
  ∀ closure, value.closure? = some closure →
    state.Kept lost closure ∧ (closure = state.globals ∨ closure ∈ state.captured.handles)

structure Guarded (lost : ScopeId → Prop) (state : Interpreter) : Prop where
  known : ∀ id, lost id → id < state.scopes.nextId
  globals : state.Kept lost state.globals
  current : state.Kept lost state.current
  parents : ∀ id parent, ¬ lost id → state.scopes.parent? id = some parent → ¬ lost parent
  closures : ∀ id name value, ¬ lost id → state.scopes.Binds id name value →
    state.Guards lost value
  acyclic : ∀ id, lost id → ¬ TransGen state.scopes.Links id id

/-- Later the state has more scopes, more of them tracked, and other bindings in scopes that
are not lost. -/
structure Extends (lost : ScopeId → Prop) (before after : Interpreter) : Prop where
  globals_eq : after.globals = before.globals
  current : after.Kept lost after.current
  handles : ∀ id ∈ before.captured.handles, id ∈ after.captured.handles
  nextId_le : before.scopes.nextId ≤ after.scopes.nextId
  find_eq : ∀ id, lost id → after.scopes.find id = before.scopes.find id
  parents : ∀ id parent, after.scopes.parent? id = some parent →
    before.scopes.parent? id = some parent ∨ ¬ lost parent
  binds : ∀ id name value, after.scopes.Binds id name value →
    before.scopes.Binds id name value ∨ after.Guards lost value

theorem guards_of_plain (lost : ScopeId → Prop) (state : Interpreter) {value : Value}
    (h : value.closure? = none) : state.Guards lost value := by
  intro closure hc
  rw [h] at hc
  cases hc

variable {lost : ScopeId → Prop} {before state after : Interpreter}

theorem Extends.kept (h : Extends lost before after) {id : ScopeId} (hid : before.Kept lost id) :
    after.Kept lost id :=
  ⟨Nat.lt_of_lt_of_le hid.1 h.nextId_le, hid.2⟩

theorem Extends.guards (h : Extends lost before after) {value : Value}
    (hv : before.Guards lost value) : after.Guards lost value := by
  intro closure hc
  obtain ⟨hkept, hanchor⟩ := hv closure hc
  rw [h.globals_eq]
  exact ⟨h.kept hkept, hanchor.imp_right (h.handles closure)⟩

theorem Extends.trans (h : Extends lost before state) (hnext : Extends lost state after) :
    Extends lost before after where
  globals_eq := hnext.globals_eq.trans h.globals_eq
  current := hnext.current
  handles id hid := hnext.handles id (h.handles id hid)
  nextId_le := Nat.le_trans h.nextId_le hnext.nextId_le
  find_eq id hid := (hnext.find_eq id hid).trans (h.find_eq id hid)
  parents id parent hparent := (hnext.parents id parent hparent).elim (h.parents id parent) .inr
  binds id name value hbinds :=
    (hnext.binds id name value hbinds).elim
      (fun hbound => (h.binds id name value hbound).imp_right hnext.guards) .inr

/-- The scopes and what is tracked stay as they are. -/
theorem Extends.of_eq (hglobals : after.globals = state.globals)
    (hscopes : after.scopes = state.scopes) (hcaptured : after.captured = state.captured)
    (hcurrent : state.Kept lost after.current) : Extends lost state after :=
  ⟨hglobals, ⟨hscopes.symm ▸ hcurrent.1, hcurrent.2⟩, fun _ hid => hcaptured.symm ▸ hid,
    hscopes ▸ Nat.le_refl _, fun _ _ => hscopes ▸ rfl, fun _ _ hparent => .inl (hscopes ▸ hparent),
    fun _ _ _ hbinds => .inl (hscopes ▸ hbinds)⟩

/-- If only lost scopes link to lost ones, a way to one of them is as old as it is. -/
theorem Extends.way_of_lost (h : Extends lost before after)
    (hsource : ∀ source linked, after.scopes.Links source linked → lost linked → lost source)
    {start goal : ScopeId} (hway : TransGen after.scopes.Links start goal) (hgoal : lost goal) :
    TransGen before.scopes.Links start goal ∧ lost start := by
  have hsame : ∀ source linked, lost source → after.scopes.Links source linked →
      before.scopes.Links source linked := by
    intro source linked hlost hlink
    rwa [Scopes.Links, Scopes.links, h.find_eq source hlost] at hlink
  induction hway using TransGen.head_induction_on with
  | single hlink =>
    have hstart := hsource _ _ hlink hgoal
    exact ⟨.single (hsame _ _ hstart hlink), hstart⟩
  | head hlink _ ih =>
    have hstart := hsource _ _ hlink ih.2
    exact ⟨ih.1.head (hsame _ _ hstart hlink), hstart⟩

/-! ## The invariant -/

namespace Guarded

/-- The scopes that are not lost are closed under links. -/
theorem agreeOn (h : state.Guarded lost) : state.AgreeOn (state.Kept lost) state where
  outside := rfl
  scopes :=
    { nextId_eq := rfl
      find_eq := fun _ _ => rfl
      lt_nextId := fun _ hid => hid.1
      closed := fun id hid linked hlink => by
        rcases Scopes.mem_links_iff.mp hlink with hparent | ⟨name, value, hbinds, hclosure⟩
        · exact ⟨Nat.lt_trans (Scopes.parent_lt hparent) hid.1, h.parents id linked hid.2 hparent⟩
        · exact (h.closures id name value hid.2 hbinds linked hclosure).1 }
  globals := h.globals
  current := h.current

theorem kept_of_links (h : state.Guarded lost) (id : ScopeId) (hid : state.Kept lost id)
    (linked : ScopeId) (hlink : state.scopes.Links id linked) : state.Kept lost linked :=
  h.agreeOn.scopes.closed id hid linked hlink

theorem guards_of_lookUp? (h : state.Guarded lost) {rule : LookupRule} {id : NodeId}
    {name : String} {value : Value} (hread : state.lookUp? rule id name = some value) :
    state.Guards lost value := by
  obtain ⟨found, hfound, hvalue⟩ := Option.bind_eq_some_iff.mp hread
  exact h.closures found name value (h.agreeOn.live_target? hfound).2
    (Scopes.binds_of_local? hvalue)

theorem extend (h : state.Guarded lost) (hnext : Extends lost state after) :
    after.Guarded lost := by
  have hparents : ∀ id parent, ¬ lost id → after.scopes.parent? id = some parent →
      ¬ lost parent := fun id parent hid hparent =>
    (hnext.parents id parent hparent).elim (h.parents id parent hid) fun hkept => hkept
  have hclosures : ∀ id name value, ¬ lost id → after.scopes.Binds id name value →
      after.Guards lost value := fun id name value hid hbinds =>
    (hnext.binds id name value hbinds).elim
      (fun hbound => hnext.guards (h.closures id name value hid hbound)) fun hguards => hguards
  refine ⟨fun id hid => Nat.lt_of_lt_of_le (h.known id hid) hnext.nextId_le, ?_, hnext.current,
    hparents, hclosures, fun id hid hcycle => h.acyclic id hid ?_⟩
  · rw [hnext.globals_eq]
    exact hnext.kept h.globals
  · refine (hnext.way_of_lost (fun source linked hlink hlinked => ?_) hcycle hid).1
    refine Classical.byContradiction fun hsource => ?_
    rcases Scopes.mem_links_iff.mp hlink with hparent | ⟨name, value, hbinds, hclosure⟩
    · exact hparents source linked hsource hparent hlinked
    · exact (hclosures source name value hsource hbinds linked hclosure).1.2 hlinked

/-- Every cycle lies among the scopes that the global scope reaches, if that is so for the
tracked scopes. -/
theorem cycle_reachable (h : state.Guarded lost)
    (htracked : ∀ id ∈ state.captured.handles,
      ReflTransGen state.scopes.Links state.globals id)
    {id : ScopeId} (hcycle : TransGen state.scopes.Links id id) :
    ReflTransGen state.scopes.Links state.globals id := by
  obtain ⟨binder, closure, hbinder, hcloses, hclosure⟩ := Scopes.closure_of_cycle hcycle
  have hid : id < state.scopes.nextId := by
    obtain ⟨_, hlink, -⟩ := TransGen.head'_iff.mp hcycle
    exact Scopes.Links.lt_nextId hlink
  have hkept : state.Kept lost id := ⟨hid, fun hlost => h.acyclic id hlost hcycle⟩
  have hkept' := Scopes.closed_reachable h.kept_of_links hkept hbinder
  obtain ⟨name, value, hbinds, hvalue⟩ := hcloses
  rcases (h.closures binder name value hkept'.2 hbinds closure hvalue).2 with rfl | hmem
  · exact hclosure
  · exact (htracked closure hmem).trans hclosure

/-! ## Collections -/

theorem not_lost_of_marked (h : state.Guarded lost) {id : ScopeId}
    (hmark : Scopes.Marked (state.scopes.reachable [state.globals, state.current]) id) :
    state.Kept lost id := by
  obtain ⟨root, hroot, hway⟩ := Scopes.marked_reachable hmark
  refine Scopes.closed_reachable h.kept_of_links ?_ hway
  rcases List.mem_cons.mp hroot with rfl | hroot
  · exact h.globals
  · exact List.mem_singleton.mp hroot ▸ h.current

theorem marked_of_links (h : state.Guarded lost) {id linked : ScopeId}
    (hmark : Scopes.Marked (state.scopes.reachable [state.globals, state.current]) id)
    (hlink : state.scopes.Links id linked) :
    Scopes.Marked (state.scopes.reachable [state.globals, state.current]) linked :=
  Scopes.marked_link hmark hlink (h.kept_of_links id (h.not_lost_of_marked hmark) linked hlink).1

theorem collect (h : state.Guarded lost) (minimum : Nat) :
    (state.collect minimum).Guarded fun id => id < state.scopes.nextId ∧
      ¬ Scopes.Marked (state.scopes.reachable [state.globals, state.current]) id := by
  let marks := state.scopes.reachable [state.globals, state.current]
  have hnextId : (state.collect minimum).scopes.nextId = state.scopes.nextId :=
    Scopes.nextId_collect state.captured minimum state.scopes [state.globals, state.current]
  have hkept : ∀ id, id < state.scopes.nextId → Scopes.Marked marks id →
      (state.collect minimum).Kept (fun id => id < state.scopes.nextId ∧
        ¬ Scopes.Marked marks id) id :=
    fun id hlt hmark => ⟨hnextId.symm ▸ hlt, fun hlost => hlost.2 hmark⟩
  have hglobals : Scopes.Marked marks state.globals :=
    Scopes.marked_root h.globals.1 List.mem_cons_self
  have hcurrent : Scopes.Marked marks state.current :=
    Scopes.marked_root h.current.1 (List.mem_cons_of_mem _ List.mem_cons_self)
  -- a link from a scope that is not lost was there before, and its source is marked
  have hsource : ∀ id linked, ¬ (id < state.scopes.nextId ∧ ¬ Scopes.Marked marks id) →
      (state.collect minimum).scopes.Links id linked →
      Scopes.Marked marks id ∧ state.scopes.Links id linked := by
    intro id linked hid hlink
    have hbefore : state.scopes.Links id linked := Scopes.links_collect minimum hlink
    exact ⟨Classical.byContradiction fun hmark => hid ⟨hbefore.lt_nextId, hmark⟩, hbefore⟩
  refine ⟨fun id hid => hnextId.symm ▸ hid.1, hkept _ h.globals.1 hglobals,
    hkept _ h.current.1 hcurrent, ?_, ?_, ?_⟩
  · intro id parent hid hparent hlost
    obtain ⟨hmark, hlink⟩ := hsource id parent hid (Scopes.mem_links_iff.mpr (.inl hparent))
    exact hlost.2 (h.marked_of_links hmark hlink)
  · intro id name value hid hbinds closure hclosure
    obtain ⟨hmark, hlink⟩ := hsource id closure hid
      (Scopes.mem_links_iff.mpr (.inr ⟨name, value, hbinds, hclosure⟩))
    have hmarked := h.marked_of_links hmark hlink
    have hlive := h.not_lost_of_marked hmark
    refine ⟨hkept closure (h.kept_of_links id hlive closure hlink).1 hmarked, ?_⟩
    have hbound : state.scopes.Binds id name value := Scopes.binds_collect minimum hbinds
    exact (h.closures id name value hlive.2 hbound closure hclosure).2.imp_right fun hmem =>
      (Scopes.mem_handles_collect minimum).mpr ⟨hmem, hmarked⟩
  · intro id hid hcycle
    have hlinks : (state.collect minimum).scopes.Links ≤ state.scopes.Links :=
      fun _ _ hlink => Scopes.links_collect minimum hlink
    have hbefore := ReflTransGen.mono hlinks
    by_cases hlost : lost id
    · exact h.acyclic id hlost (TransGen.mono hlinks id id hcycle)
    · obtain ⟨binder, closure, hbinder, hcloses, hclosure⟩ := Scopes.closure_of_cycle hcycle
      have hlive := Scopes.closed_reachable h.kept_of_links ⟨hid.1, hlost⟩ (hbefore _ _ hbinder)
      obtain ⟨name, value, hbinds, hvalue⟩ := hcloses
      have hbound : state.scopes.Binds binder name value := Scopes.binds_collect minimum hbinds
      have hmarks : ∀ id, Scopes.Marked marks id → ∀ linked, state.scopes.Links id linked →
          Scopes.Marked marks linked := fun _ hmark _ hlink => h.marked_of_links hmark hlink
      have hunmarked : ¬ Scopes.Marked marks closure := fun hmark =>
        hid.2 (Scopes.closed_reachable hmarks hmark (hbefore _ _ hclosure))
      rcases (h.closures binder name value hlive.2 hbound closure hvalue).2 with rfl | hmem
      · exact hunmarked hglobals
      · -- the closure was severed, so the cycle cannot go on from it
        have hway := hbinder.tail (Scopes.Closes.links ⟨name, value, hbinds, hvalue⟩)
        obtain ⟨_, hlink, -⟩ :=
          TransGen.head'_iff.mp (Scopes.cycle_of_between hcycle hway hclosure)
        have hnone : (state.collect minimum).scopes.links closure = [] :=
          Scopes.links_collect_of_unmarked minimum hmem hunmarked
        rw [Scopes.Links, hnone] at hlink
        cases hlink

/-- After a collection everything that is tracked is reached from a root. -/
theorem reachable_of_collect (h : state.Guarded lost) {minimum : Nat} {id : ScopeId}
    (hmem : id ∈ (state.collect minimum).captured.handles) :
    ∃ root ∈ [state.globals, state.current],
      ReflTransGen (state.collect minimum).scopes.Links root id := by
  obtain ⟨root, hroot, hway⟩ :=
    Scopes.marked_reachable ((Scopes.mem_handles_collect minimum).mp hmem).2
  have hstart : Scopes.Marked (state.scopes.reachable [state.globals, state.current]) root := by
    refine Scopes.marked_root ?_ hroot
    rcases List.mem_cons.mp hroot with rfl | hroot
    · exact h.globals.1
    · exact List.mem_singleton.mp hroot ▸ h.current.1
  refine ⟨root, hroot, ?_⟩
  have hboth : Scopes.Marked (state.scopes.reachable [state.globals, state.current]) id ∧
      ReflTransGen (state.collect minimum).scopes.Links root id := by
    clear hmem
    induction hway with
    | refl => exact ⟨hstart, .refl⟩
    | tail _ hlink ih =>
      refine ⟨h.marked_of_links ih.1 hlink, ih.2.tail ?_⟩
      have hlinks : (state.collect minimum).scopes.links _ = _ :=
        Scopes.links_collect_of_marked minimum ih.1
      rw [Scopes.Links, hlinks]
      exact hlink
  exact hboth.2

theorem collectIfDue (h : state.Guarded lost) (setting : Setting) :
    ∃ lost, (state.collectIfDue setting).Guarded lost := by
  unfold Interpreter.collectIfDue
  split
  · split
    · exact ⟨_, h.collect _⟩
    · exact ⟨lost, h⟩
  · exact ⟨lost, h⟩

end Guarded

/-! ## Changes of the state -/

namespace Guarded

theorem extends_refl (h : state.Guarded lost) : Extends lost state state :=
  ⟨rfl, h.current, fun _ hid => hid, Nat.le_refl _, fun _ _ => rfl, fun _ _ => .inl,
    fun _ _ _ => .inl⟩

theorem extends_define (h : state.Guarded lost) {id : ScopeId} (hid : ¬ lost id) (name : String)
    {value : Value} (hv : state.Guards lost value) :
    Extends lost state (state.define id name value) := by
  have hguards : (state.define id name value).Guards lost value := fun closure hc =>
    ⟨⟨(Scopes.nextId_define ..).symm ▸ (hv closure hc).1.1, (hv closure hc).1.2⟩, (hv closure hc).2⟩
  refine ⟨rfl, ⟨(Scopes.nextId_define ..).symm ▸ h.current.1, h.current.2⟩, fun _ hid => hid,
    Nat.le_of_eq (Scopes.nextId_define ..).symm, fun other hother => ?_, fun other parent hp => ?_,
    fun other key held hbinds => ?_⟩
  · have hne : other ≠ id := fun hsame => hid (hsame ▸ hother)
    exact (Scopes.find_define ..).trans (if_neg hne)
  · exact .inl ((Scopes.parent?_define ..).symm.trans hp)
  · rcases Scopes.Binds.of_define hbinds with hbound | ⟨-, -, rfl⟩
    · exact .inl hbound
    · exact .inr hguards

theorem extends_enter (h : state.Guarded lost) {parent : ScopeId} (hp : ¬ lost parent) :
    Extends lost state (state.enter parent) := by
  have hnew : ¬ lost state.scopes.nextId := fun hlost => Nat.lt_irrefl _ (h.known _ hlost)
  have hnextId : (state.enter parent).scopes.nextId = state.scopes.nextId + 1 :=
    Scopes.nextId_add ..
  refine ⟨rfl, ⟨hnextId.symm ▸ Nat.lt_succ_self _, hnew⟩, fun _ hid => hid,
    hnextId.symm ▸ Nat.le_succ _, fun other hother => ?_, fun other found hfound => ?_,
    fun other key held hbinds => .inl hbinds.of_add⟩
  · exact Scopes.find_add_of_lt (h.known other hother) _
  · obtain ⟨scope, hscope, hparent⟩ := Option.bind_eq_some_iff.mp hfound
    change (state.scopes.add (some parent)).find other = some scope at hscope
    rw [Scopes.find_add] at hscope
    split at hscope
    · obtain rfl := Option.some.inj hscope
      have hfilter : (some parent).filter (· < state.scopes.nextId) = some found := hparent
      obtain ⟨hsome, -⟩ := Option.filter_eq_some_iff.mp hfilter
      exact .inr (Option.some.inj hsome ▸ hp)
    · exact .inl (Option.bind_eq_some_iff.mpr ⟨scope, hscope, hparent⟩)

theorem extends_bindAll (h : state.Guarded lost) {id : ScopeId} (hid : ¬ lost id)
    (names : List String) {values : List Value} (hv : ∀ value ∈ values, state.Guards lost value) :
    Extends lost state (state.bindAll id names values) := by
  induction names generalizing state values with
  | nil => cases values <;> exact h.extends_refl
  | cons name names ih =>
    cases values with
    | nil => exact h.extends_refl
    | cons value values =>
      obtain ⟨hvalue, hvalues⟩ := List.forall_mem_cons.mp hv
      have hfirst := h.extends_define hid name hvalue
      exact hfirst.trans (ih (h.extend hfirst) fun other hother =>
        hfirst.guards (hvalues other hother))

/-- A declared function keeps the scope that is tracked for it. -/
theorem extends_declareFunction (h : state.Guarded lost) (decl : FunctionDecl) :
    Extends lost state (state.declareFunction decl) := by
  let tracked := state.trackCurrent.advanceIdentity
  have hscopes : tracked.scopes = state.scopes := by
    simp only [tracked, Interpreter.trackCurrent]
    split <;> rfl
  have hglobals : tracked.globals = state.globals := by
    simp only [tracked, Interpreter.trackCurrent]
    split <;> rfl
  have hcurrent : tracked.current = state.current := by
    simp only [tracked, Interpreter.trackCurrent]
    split <;> rfl
  have hhandles : (∀ id ∈ state.captured.handles, id ∈ tracked.captured.handles) ∧
      (state.current = state.globals ∨ state.current ∈ tracked.captured.handles) := by
    simp only [tracked, Interpreter.trackCurrent, Interpreter.advanceIdentity]
    split
    · rename_i hsame
      exact ⟨fun _ hid => hid, .inl hsame⟩
    · simp only [Captured.track]
      split
      · rename_i hlast
        exact ⟨fun _ hid => hid, .inr (Array.mem_of_back? hlast)⟩
      · exact ⟨fun _ hid => Array.mem_push_of_mem _ hid, .inr Array.mem_push_self⟩
  have hfirst : Extends lost state tracked :=
    ⟨hglobals, ⟨hscopes ▸ hcurrent ▸ h.current.1, hcurrent ▸ h.current.2⟩, hhandles.1,
      hscopes ▸ Nat.le_refl _, fun _ _ => hscopes ▸ rfl, fun _ _ hp => .inl (hscopes ▸ hp),
      fun _ _ _ hb => .inl (hscopes ▸ hb)⟩
  refine hfirst.trans ((h.extend hfirst).extends_define h.current.2 decl.name ?_)
  rintro closure hc
  obtain rfl := Option.some.inj hc
  exact ⟨hfirst.kept h.current, hglobals ▸ hhandles.2⟩

end Guarded

end Interpreter

namespace Machine

/-- The state and everything that the machine holds is guarded. -/
structure Guarded (lost : ScopeId → Prop) (machine : Machine) : Prop where
  state : machine.state.Guarded lost
  holds : machine.Holds (machine.state.Guards lost) (machine.state.Kept lost)
  grounded : Grounded machine.frames

section Steps

open Interpreter

variable {setting : Setting} {lost : ScopeId → Prop} {state : Interpreter} {frames : List Frame}

theorem extends_enterBody (h : state.Guarded lost) (decl : FunctionDecl) {closure : ScopeId}
    (hclosure : ¬ lost closure) {args : List Value} (hargs : ∀ arg ∈ args, state.Guards lost arg)
    (frames : List Frame) :
    Extends lost state (enterBody decl closure args frames state).state := by
  have hentered := h.extends_enter hclosure
  have hguarded := h.extend hentered
  exact hentered.trans (hguarded.extends_bindAll hguarded.current.2 decl.params
    fun arg harg => hentered.guards (hargs arg harg))

theorem extends_call (h : state.Guarded lost) {callee : Value}
    (hcallee : state.Guards lost callee) {args : List Value}
    (hargs : ∀ arg ∈ args, state.Guards lost arg) (line : Nat) :
    Extends lost state (call setting callee args line frames state).state := by
  have hrefl := h.extends_refl
  unfold call
  split
  · rename_i decl closure identity
    split
    · exact hrefl
    · split
      · exact hrefl
      · have hdeeper : Extends lost state { state with callDepth := state.callDepth + 1 } :=
          Extends.of_eq rfl rfl rfl h.current
        exact hdeeper.trans (extends_enterBody (h.extend hdeeper) decl (hcallee closure rfl).1.2
          (fun arg harg => hdeeper.guards (hargs arg harg)) _)
  · split
    · exact hrefl
    · split
      · exact hrefl
      · unfold answer
        split <;> exact hrefl
  · exact hrefl

theorem extends_nextArgument (h : state.Guarded lost) {callee : Value}
    (hcallee : state.Guards lost callee) {before : List Value}
    (hbefore : ∀ arg ∈ before, state.Guards lost arg) (rest : List Expr) (line : Nat) :
    Extends lost state (nextArgument setting callee before rest line frames state).state := by
  unfold nextArgument
  split
  · exact extends_call h hcallee (fun arg harg => hbefore arg (List.mem_reverse.mp harg)) line
  · exact h.extends_refl

theorem extends_stepEval (h : state.Guarded lost) (expr : Expr) :
    Extends lost state (stepEval setting expr frames state).state := by
  unfold stepEval
  split
  case h_6 => split <;> exact h.extends_refl
  all_goals exact h.extends_refl

theorem extends_stepExec (h : state.Guarded lost) (stmt : Stmt) :
    Extends lost state (stepExec stmt frames state).state := by
  unfold stepExec
  split
  case h_1 => exact h.extends_enter h.current.2
  case h_9 name _ => exact h.extends_define h.current.2 name (guards_of_plain lost state rfl)
  case h_10 => exact h.extends_declareFunction _
  case h_12 =>
    split
    · rename_i carried _ hcarried
      obtain rfl : (state.carryOut _).1 = carried := congrArg Prod.fst hcarried
      exact Extends.of_eq rfl rfl rfl h.current
    · rename_i carried hcarried
      obtain rfl : (state.carryOut _).1 = carried := congrArg Prod.fst hcarried
      exact Extends.of_eq rfl rfl rfl h.current
  all_goals exact h.extends_refl

theorem extends_stepGather (h : state.Guarded lost) (gathering : Gathering) :
    Extends lost state (stepGather gathering frames state).state := by
  unfold stepGather
  split
  · split <;> exact h.extends_refl
  · split
    case h_1 => exact Extends.of_eq rfl rfl rfl h.current
    all_goals exact h.extends_refl

theorem extends_stepValue (h : state.Guarded lost) {value : Value} (hv : state.Guards lost value)
    {frame : Frame} (hframe : frame.Holds (state.Guards lost) (state.Kept lost)) :
    Extends lost state (stepValue setting value frame frames state).state := by
  have hrefl := h.extends_refl
  have hdeliver : ∀ outcome line, Extends lost state (deliver outcome line frames state).state := by
    intro outcome line
    cases outcome <;> exact hrefl
  unfold stepValue
  split
  case h_1 => exact hdeliver _ _
  case h_3 => exact hdeliver _ _
  case h_4 => split <;> exact hrefl
  case h_5 name _ =>
    split
    · rename_i found hfound
      exact h.extends_define (h.agreeOn.live_target? hfound).2 name hv
    · exact hrefl
  case h_6 => exact extends_nextArgument h hv (fun _ hnil => by cases hnil) _ _
  case h_7 =>
    exact extends_nextArgument h hframe.1 (List.forall_mem_cons.mpr ⟨hv, hframe.2⟩) _ _
  case h_9 =>
    split
    · rename_i written hwritten
      obtain rfl : (state.write _).1 = written := congrArg Prod.fst hwritten
      exact Extends.of_eq rfl rfl rfl h.current
    · rename_i written hwritten
      obtain rfl : (state.write _).1 = written := congrArg Prod.fst hwritten
      exact Extends.of_eq rfl rfl rfl h.current
  case h_10 name => exact h.extends_define h.current.2 name hv
  case h_12 =>
    split
    · exact hrefl
    · split <;> exact hrefl
  case h_13 => split <;> exact hrefl
  all_goals exact hrefl

theorem extends_stepDone (h : state.Guarded lost) {frame : Frame}
    (hframe : frame.Holds (state.Guards lost) (state.Kept lost))
    (hprogram : ∀ rest, frame ≠ .program rest) :
    Extends lost state (stepDone setting frame frames state).state := by
  unfold stepDone
  split
  case h_3 => exact Extends.of_eq rfl rfl rfl hframe
  case h_4 => exact Extends.of_eq rfl rfl rfl h.current
  case h_6 => exact absurd rfl (hprogram _)
  case h_7 => exact absurd rfl (hprogram _)
  all_goals exact h.extends_refl

theorem extends_stepReturning (h : state.Guarded lost) (value : Value) {frame : Frame}
    (hframe : frame.Holds (state.Guards lost) (state.Kept lost)) :
    Extends lost state (stepReturning value frame frames state).state := by
  unfold stepReturning
  split
  case h_1 => exact Extends.of_eq rfl rfl rfl hframe
  case h_2 => exact Extends.of_eq rfl rfl rfl h.current
  all_goals exact h.extends_refl

theorem extends_stepHalting (h : state.Guarded lost) (halt : Halt) {frame : Frame}
    (hframe : frame.Holds (state.Guards lost) (state.Kept lost)) :
    Extends lost state (stepHalting halt frame frames state).state := by
  unfold stepHalting
  split
  · exact Extends.of_eq rfl rfl rfl hframe
  · exact Extends.of_eq rfl rfl rfl h.current
  · exact h.extends_refl

end Steps

namespace Guarded

variable {setting : Setting} {lost : ScopeId → Prop} {machine : Machine}

open Interpreter

theorem supplies (hnative : setting.NativesMakeNoFunctions) (h : machine.Guarded lost)
    {after : Interpreter} (hnext : Extends lost machine.state after) :
    Supplies setting (after.Guards lost) (after.Kept lost) machine.state where
  plain _ hplain := guards_of_plain lost after hplain
  read _ _ _ hread := hnext.guards (h.state.guards_of_lookUp? hread)
  native native args line value hargs hok :=
    (hnative native args line value hok).elim (guards_of_plain lost after) (hargs value)
  current := hnext.kept h.state.current

theorem of_extends (hnative : setting.NativesMakeNoFunctions) (h : machine.Guarded lost)
    (hnext : Extends lost machine.state (machine.step setting).state) :
    (machine.step setting).Guarded lost where
  state := h.state.extend hnext
  holds := (h.holds.mono (fun _ hv => hnext.guards hv) fun _ hid => hnext.kept hid).step
    (h.supplies hnative hnext)
  grounded := h.grounded.step

/-- Between the statements of a program no frame and no value keeps a scope. -/
theorem step_program (h : machine.Guarded lost) (hdone : machine.control = .done)
    {rest : List Stmt} (hframes : machine.frames = [.program rest]) :
    ∃ lost, (machine.step setting).Guarded lost := by
  obtain ⟨control, frames, state⟩ := machine
  obtain rfl : control = .done := hdone
  obtain rfl : frames = [.program rest] := hframes
  obtain ⟨lost, hstate⟩ := h.state.collectIfDue setting
  refine ⟨lost, ?_⟩
  cases rest with
  | nil => exact ⟨hstate, ⟨trivial, fun _ hnil => by cases hnil⟩, trivial⟩
  | cons stmt rest =>
    refine ⟨hstate, ⟨trivial, fun frame hframe => ?_⟩, rfl⟩
    obtain rfl := List.mem_singleton.mp hframe
    exact trivial

theorem step (hnative : setting.NativesMakeNoFunctions) (h : machine.Guarded lost) :
    ∃ lost, (machine.step setting).Guarded lost := by
  have hwhole := h
  obtain ⟨control, frames, state⟩ := machine
  obtain ⟨hstate, ⟨hcontrol, hheld⟩, hgrounded⟩ := h
  cases control with
  | eval expr => exact ⟨lost, of_extends hnative hwhole (extends_stepEval hstate expr)⟩
  | exec stmt => exact ⟨lost, of_extends hnative hwhole (extends_stepExec hstate stmt)⟩
  | gather gathering =>
    exact ⟨lost, of_extends hnative hwhole (extends_stepGather hstate gathering)⟩
  | value value =>
    cases frames with
    | nil => exact ⟨lost, hwhole⟩
    | cons frame rest =>
      have hframe := hheld frame List.mem_cons_self
      exact ⟨lost, of_extends hnative hwhole (extends_stepValue hstate hcontrol hframe)⟩
  | done =>
    cases frames with
    | nil => exact ⟨lost, hwhole⟩
    | cons frame rest =>
      by_cases hprogram : ∃ stmts, frame = .program stmts
      · obtain ⟨stmts, rfl⟩ := hprogram
        obtain rfl : rest = [] := hgrounded
        exact step_program hwhole rfl rfl
      · have hframe := hheld frame List.mem_cons_self
        exact ⟨lost, of_extends hnative hwhole
          (extends_stepDone hstate hframe fun stmts he => hprogram ⟨stmts, he⟩)⟩
  | returning value =>
    cases frames with
    | nil => exact ⟨lost, hwhole⟩
    | cons frame rest =>
      have hframe := hheld frame List.mem_cons_self
      exact ⟨lost, of_extends hnative hwhole (extends_stepReturning hstate value hframe)⟩
  | halting halt =>
    cases frames with
    | nil => exact ⟨lost, hwhole⟩
    | cons frame rest =>
      have hframe := hheld frame List.mem_cons_self
      exact ⟨lost, of_extends hnative hwhole (extends_stepHalting hstate halt hframe)⟩

theorem after (hnative : setting.NativesMakeNoFunctions) (h : machine.Guarded lost) (n : Nat) :
    ∃ lost, (machine.after setting n).Guarded lost :=
  after_induction (P := fun machine => ∃ lost, machine.Guarded lost)
    (fun _ ⟨_, hmachine⟩ => hmachine.step hnative) ⟨lost, h⟩ n

end Guarded

end Machine

end CommandScript
