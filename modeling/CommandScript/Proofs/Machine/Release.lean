import CommandScript.Proofs.Machine.Constant
import CommandScript.Proofs.Machine.Guarding

/-!
# No cycle outlives its use

Between the runs of programs a host may make distances known, bind globals to values that
are no declared functions, and change the modules. After every run the interpreter collects
once more. Then all tracked scopes are in reach of the global scope, and with them every
cycle of links in the store, that is, among all scopes that were ever created.

* `Interpreter.perform`: what a host does with an interpreter.
* `cycle_of_interpret`: the cycles after a run.
-/

namespace CommandScript

open Relation

/-- What a host does with an interpreter; it makes no function values. -/
inductive HostWork where
  | interpret (program : List Stmt) (budget : Nat)
  | resolve (distances : List (NodeId × Nat))
  | define (name : String) (value : Value) (plain : value.closure? = none)
  | modules (registry : Registry)

namespace Interpreter

def perform (setting : Setting) (state : Interpreter) : HostWork → Option Interpreter
  | .interpret program budget => (state.interpret setting budget program).map Prod.snd
  | .resolve distances => some (state.addDistances distances)
  | .define name value _ => some (state.define state.globals name value)
  | .modules registry => some { state with registry }

/-- One piece of work after the other; there is no answer if a budget does not suffice. -/
def performAll (setting : Setting) (state : Interpreter) (works : List HostWork) :
    Option Interpreter :=
  works.foldlM (perform setting) state

variable {setting : Setting} {state after : Interpreter}

/-- The interpreter between two pieces of work. -/
def Settled (state : Interpreter) : Prop :=
  state.current = state.globals ∧ ∃ lost, state.Guarded lost

theorem Guarded.start {lost : ScopeId → Prop} (h : state.Guarded lost) (program : List Stmt) :
    (state.start program).Guarded lost := by
  cases program with
  | nil => exact ⟨h, ⟨trivial, fun _ hnil => by cases hnil⟩, trivial⟩
  | cons stmt rest =>
    refine ⟨h, ⟨trivial, fun frame hframe => ?_⟩, rfl⟩
    obtain rfl := List.mem_singleton.mp hframe
    exact trivial

/-- When a run has ended, the global scope is the current one again, and the store is
guarded up to the collection that is still to come. -/
theorem Settled.run (hnative : setting.NativesMakeNoFunctions) (h : state.Settled)
    {program : List Stmt} {budget : Nat} {result : Except (Located RuntimeFault) Status}
    (hrun : state.interpret setting budget program = some (result, after)) :
    ∃ final : Interpreter, final.Settled ∧ after = final.collectAtEnd setting := by
  obtain ⟨hcurrent, lost, hguarded⟩ := h
  obtain ⟨machine, hmachine, hresult⟩ := Option.map_eq_some_iff.mp hrun
  obtain ⟨hafter, hrest⟩ := Machine.run_eq_some_iff.mp hmachine
  obtain ⟨reached, hreached⟩ := (hguarded.start program).after hnative budget
  have hhome : Machine.home (state.start program).frames (state.start program).state.current =
      state.globals := by
    cases program <;> exact hcurrent
  have hglobals : (state.start program).state.globals = state.globals := by
    cases program <;> rfl
  have hconserved := Machine.conserves_after setting budget (state.start program)
  refine ⟨machine.state, ⟨?_, reached, hafter ▸ hreached.state⟩, (congrArg Prod.snd hresult).symm⟩
  rw [← hafter, Machine.current_of_atRest (hafter.symm ▸ hrest), hconserved.globals, hhome,
    hglobals]

theorem Settled.collectAtEnd (h : state.Settled) (setting : Setting) :
    (state.collectAtEnd setting).Settled := by
  unfold Interpreter.collectAtEnd
  split
  · split
    · exact h
    · obtain ⟨hcurrent, lost, hguarded⟩ := h
      exact ⟨hcurrent, _, hguarded.collect _⟩
  · exact h

theorem Settled.perform (hnative : setting.NativesMakeNoFunctions) (h : state.Settled)
    {work : HostWork} (hwork : state.perform setting work = some after) : after.Settled := by
  cases work with
  | interpret program budget =>
    obtain ⟨⟨result, found⟩, hrun, rfl⟩ := Option.map_eq_some_iff.mp hwork
    obtain ⟨final, hfinal, hafter⟩ := h.run hnative hrun
    rw [hafter]
    exact hfinal.collectAtEnd setting
  | resolve distances =>
    obtain rfl := Option.some.inj hwork
    obtain ⟨hcurrent, lost, hguarded⟩ := h
    exact ⟨hcurrent, lost, hguarded.extend (.of_eq rfl rfl rfl hguarded.current)⟩
  | define name value plain =>
    obtain rfl := Option.some.inj hwork
    obtain ⟨hcurrent, lost, hguarded⟩ := h
    exact ⟨hcurrent, lost, hguarded.extend
      (hguarded.extends_define hguarded.globals.2 name (guards_of_plain lost state plain))⟩
  | modules registry =>
    obtain rfl := Option.some.inj hwork
    obtain ⟨hcurrent, lost, hguarded⟩ := h
    exact ⟨hcurrent, lost, hguarded.extend (.of_eq rfl rfl rfl hguarded.current)⟩

theorem Settled.performAll (hnative : setting.NativesMakeNoFunctions) (h : state.Settled)
    {works : List HostWork} (hworks : state.performAll setting works = some after) :
    after.Settled := by
  induction works generalizing state with
  | nil =>
    obtain rfl := Option.some.inj hworks
    exact h
  | cons work rest ih =>
    obtain ⟨next, hnext, hrest⟩ := Option.bind_eq_some_iff.mp hworks
    exact ih (h.perform hnative hnext) hrest

theorem settled_initial (setting : Setting) (registry : Registry) (sink : Sink) :
    (initial setting registry sink).Settled := by
  have hempty : ∀ id parent, (Scopes.empty.add none).parent? id ≠ some parent := by
    intro id parent hparent
    obtain ⟨scope, hscope, hp⟩ := Option.bind_eq_some_iff.mp hparent
    rw [Scopes.find_add] at hscope
    split at hscope
    · obtain rfl := Option.some.inj hscope
      cases hp
    · cases hscope
  refine ⟨rfl, fun _ => False, fun _ hlost => hlost.elim, ⟨Nat.zero_lt_one, id⟩,
    ⟨Nat.zero_lt_one, id⟩, ?_, ?_, fun _ hlost => hlost.elim⟩
  · intro id parent _ hparent
    exact absurd ((Scopes.parent?_define ..).symm.trans hparent) (hempty id parent)
  · intro id name value _ hbinds
    rcases Scopes.Binds.of_define hbinds with hbound | ⟨-, -, rfl⟩
    · obtain ⟨scope, hscope, -⟩ := hbound.of_add
      cases hscope
    · exact guards_of_plain _ _ rfl

/-- After the collection at the end of a run the global scope reaches whatever is tracked. -/
theorem Settled.tracked_reachable (h : state.Settled) {minimum : Nat}
    (hcollect : setting.collectFrom = some minimum) {id : ScopeId}
    (hmem : id ∈ (state.collectAtEnd setting).captured.handles) :
    ReflTransGen (state.collectAtEnd setting).scopes.Links (state.collectAtEnd setting).globals
      id := by
  unfold Interpreter.collectAtEnd at hmem ⊢
  simp only [hcollect] at hmem ⊢
  by_cases hempty : state.captured.handles.isEmpty = true
  · rw [if_pos hempty, Array.isEmpty_iff.mp hempty] at hmem
    exact absurd hmem (Array.not_mem_empty id)
  · rw [if_neg hempty] at hmem ⊢
    obtain ⟨hcurrent, lost, hguarded⟩ := h
    obtain ⟨root, hroot, hway⟩ := hguarded.reachable_of_collect hmem
    obtain rfl : root = state.globals := by
      rw [hcurrent] at hroot
      simpa using hroot
    exact hway

/-- **No cycle outlives its use.** Whenever a run has ended, whichever way it ended, the
global scope reaches every scope that lies on a cycle of links. -/
theorem cycle_of_interpret {minimum : Nat} (hcollect : setting.collectFrom = some minimum)
    (hnative : setting.NativesMakeNoFunctions) (registry : Registry) (sink : Sink)
    {works : List HostWork} (hworks : (initial setting registry sink).performAll setting works =
      some state)
    {program : List Stmt} {budget : Nat} {result : Except (Located RuntimeFault) Status}
    (hrun : state.interpret setting budget program = some (result, after)) {id : ScopeId}
    (hcycle : TransGen after.scopes.Links id id) :
    ReflTransGen after.scopes.Links after.globals id := by
  have hsettled := (settled_initial setting registry sink).performAll hnative hworks
  obtain ⟨final, hfinal, rfl⟩ := hsettled.run hnative hrun
  obtain ⟨-, lost, hguarded⟩ := hfinal.collectAtEnd setting
  exact hguarded.cycle_reachable (fun _ hmem => hfinal.tracked_reachable hcollect hmem) hcycle

/-- A global keeps a function of a block, which keeps the block, which binds the function. -/
theorem cycle_of_interpret_of_block :
    let setting : Setting := ⟨.byName, some usualCollectFrom, fun _ _ _ => .ok .null⟩
    let works : List HostWork := [.interpret [.declare "keep" none 1] 5]
    let program : List Stmt := [.block [.function "f" [] [] 1,
      .expression (.assign 0 "keep" (.variable 1 "f" 1) 1) 1]]
    setting.collectFrom = some usualCollectFrom ∧ setting.NativesMakeNoFunctions ∧
      ∃ state result after, (initial setting Registry.empty .unlimited).performAll setting works =
          some state ∧
        state.interpret setting 20 program = some (result, after) ∧
        TransGen after.scopes.Links 1 1 ∧ ReflTransGen after.scopes.Links after.globals 1 := by
  intro setting works program
  have hnative : setting.NativesMakeNoFunctions := by
    intro native args line value h
    cases h
    exact .inl rfl
  have hruns : (match (initial setting Registry.empty .unlimited).performAll setting works with
      | some state =>
        match (state.start program).run setting 20 with
        | some ⟨_, _, final⟩ => (!final.captured.handles.isEmpty && decide (final.globals = 0) &&
            decide (1 < final.scopes.nextId) && decide (1 ∈ final.scopes.links 0) &&
            decide (1 ∈ final.scopes.links 1))
        | none => false
      | none => false) = true := by decide +kernel
  split at hruns
  · rename_i state hworks
    split at hruns
    · rename_i control frames final hfinal
      simp only [Bool.and_eq_true, decide_eq_true_eq, Bool.not_eq_true', ← Bool.not_eq_true]
        at hruns
      obtain ⟨⟨⟨⟨htracked, hglobals⟩, hlt⟩, hkeeps⟩, hbinds⟩ := hruns
      have hrun : state.interpret setting 20 program =
          some (outcome control final.sink.flushFails, final.collectAtEnd setting) := by
        rw [interpret, hfinal]
        rfl
      -- the block is marked from the global scope on, so the collection leaves its links
      have hroot : Scopes.Marked (final.scopes.reachable [final.globals, final.current]) 0 :=
        Scopes.marked_root (Nat.lt_trans Nat.zero_lt_one hlt) (hglobals ▸ List.mem_cons_self)
      have hmarked := Scopes.marked_link hroot hkeeps hlt
      have hcycle : TransGen (final.collectAtEnd setting).scopes.Links 1 1 := by
        have hcollected : final.collectAtEnd setting = final.collect usualCollectFrom :=
          if_neg htracked
        have hlinks : (final.collect usualCollectFrom).scopes.links 1 = final.scopes.links 1 :=
          Scopes.links_collect_of_marked usualCollectFrom hmarked
        refine .single ?_
        rw [hcollected, Scopes.Links, hlinks]
        exact hbinds
      exact ⟨rfl, hnative, state, _, _, hworks, hrun, hcycle,
        cycle_of_interpret rfl hnative Registry.empty .unlimited hworks hrun hcycle⟩
    · cases hruns
  · cases hruns

end Interpreter

end CommandScript
