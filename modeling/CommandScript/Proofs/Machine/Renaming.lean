import CommandScript.Proofs.Machine.Agreement
import CommandScript.Proofs.Machine.Constant
import CommandScript.Proofs.Scope.Renaming

/-!
# Machines that differ in the name of a local declaration

The states of a program and of its renaming differ in the name that instances of the renamed
scope bind, and in the bodies of functions. A reference finds the same scope in both, under
the name that it gets at its place. From outside, the effects are the same: of a function one
sees its name, the number of its parameters and its identity.

The machines do the same next, with the same frames, where the names of references follow the
place of the scope in which they are evaluated.

* `Interpreter.Aligned`: states that differ in the name.
* `Interpreter.Aligned.target?_eq`, `lookUp?_rel`: references find the same.
* `Frames.Aligned`, `Machine.Aligned`: frames and machines that differ in the name.
* `Effect.outline`: what can be seen of an effect from outside.
* `Setting.NativesSeeOutlines`: natives see of a function no more than that.
-/

namespace CommandScript

/-! ## What can be seen from outside -/

/-- The same command for the same receiver, whatever it answers. -/
def Delivery.outline (delivery : Delivery) : Delivery where
  receiver := delivery.receiver
  command := delivery.command
  map := delivery.map.mapValues Value.outline
  reception := .accepted

def Effect.outline : Effect → Effect
  | .wrote bytes => .wrote bytes
  | .delivered delivery => .delivered delivery.outline

theorem Registry.deliver_outline (registry : Registry) (command : String) {map other : CommandMap}
    (h : other.mapValues Value.outline = map.mapValues Value.outline) :
    (registry.deliver command other).map Delivery.outline =
      (registry.deliver command map).map Delivery.outline := by
  simp only [deliver, List.map_map]
  refine List.map_congr_left fun entry _ => ?_
  simp only [Function.comp_apply, Delivery.outline, h]

/-- Answers of a native to two lists of arguments: the same fault, the same value that is no
declared function, or the argument at the same position. -/
inductive SameAnswer (args others : List Value) :
    (answer answer' : Except (Located RuntimeFault) Value) → Prop where
  | fault {fault : Located RuntimeFault} : SameAnswer args others (.error fault) (.error fault)
  | plain {value : Value} : value.closure? = none → SameAnswer args others (.ok value) (.ok value)
  | argument {position : Nat} {value other : Value} : args[position]? = some value →
      others[position]? = some other → SameAnswer args others (.ok value) (.ok other)

/-- A native sees of a declared function its name, the number of its parameters and its
identity, and it makes no function value. -/
def Setting.NativesSeeOutlines (setting : Setting) : Prop :=
  ∀ native args others line, args.map Value.outline = others.map Value.outline →
    SameAnswer args others (setting.native native args line) (setting.native native others line)

theorem Setting.NativesSeeOutlines.makeNoFunctions {setting : Setting}
    (h : setting.NativesSeeOutlines) : setting.NativesMakeNoFunctions := by
  intro native args line value hanswer
  have hsame := h native args args line rfl
  rw [hanswer] at hsame
  cases hsame with
  | plain hplain => exact .inl hplain
  | argument hvalue _ => exact .inr (List.mem_of_getElem? hvalue)

/-! ## Interpreters -/

theorem Interpreter.current_declareFunction (state : Interpreter) (decl : FunctionDecl) :
    (state.declareFunction decl).current = state.current := by
  unfold declareFunction trackCurrent
  dsimp only
  split <;> rfl

structure Interpreter.Aligned (r : Renaming) (fits : Reference → Prop) (places : ScopePlaces)
    (left right : Interpreter) : Prop where
  outside : right = { left with scopes := right.scopes, effects := right.effects }
  effects : right.effects.map Effect.outline = left.effects.map Effect.outline
  scopes : left.scopes.Aligned r fits places right.scopes
  globals : places[left.globals]? = some none
  /-- The table has the distances that the renaming goes by. -/
  linked (reference : Reference) : fits reference →
    left.distances[reference.id]? = r.recorded reference.id

namespace Interpreter.Aligned

variable {r : Renaming} {fits : Reference → Prop} {places : ScopePlaces} {place : Option Nat}
  {left right : Interpreter} {id : NodeId} {name : String} {access : Access}

theorem current_eq (h : left.Aligned r fits places right) : right.current = left.current := by
  rw [h.outside]

theorem globals_eq (h : left.Aligned r fits places right) : right.globals = left.globals := by
  rw [h.outside]

theorem distances_eq (h : left.Aligned r fits places right) : right.distances = left.distances := by
  rw [h.outside]

theorem callDepth_eq (h : left.Aligned r fits places right) : right.callDepth = left.callDepth := by
  rw [h.outside]

/-- A reference has the name that fits the distance in the table. -/
theorem reference_eq (h : left.Aligned r fits places right)
    (hfits : r.Fits fits place [⟨id, name, access⟩]) :
    r.reference place id name = r.bound place left.distances[id]? name := by
  cases place with
  | none => rfl
  | some depth =>
    have hlinked := h.linked _ (hfits rfl _ List.mem_cons_self).2
    rw [Renaming.reference, hlinked]

/-- A reference means the same scope on both sides, which binds it under the name that it has
there. -/
theorem target?_eq (h : left.Aligned r fits places right)
    (hplace : places[left.current]? = some place)
    (hfits : r.Fits fits place [⟨id, name, access⟩]) :
    right.target? .resolved id (r.reference place id name) = left.target? .resolved id name ∧
      ∀ found, left.target? .resolved id name = some found →
        ∃ outer, places[found]? = some outer ∧ r.Fresh outer name ∧
          r.reference place id name = r.declared outer name := by
  have hfresh : r.Fresh place name := fun hsome => (hfits hsome _ List.mem_cons_self).1
  rw [h.reference_eq hfits]
  simp only [target?, h.distances_eq, h.current_eq, h.globals_eq]
  cases left.distances[id]? with
  | none =>
    have hbound : r.bound place none name = name := by
      cases place with
      | none => rfl
      | some depth => exact if_neg fun hsame => absurd hsame.2 (Option.some_ne_none depth).symm
    rw [hbound]
    obtain ⟨hnearest, hfound⟩ := h.scopes.nearest?_eq h.globals name
    exact ⟨hnearest, fun found hname => ⟨none, hfound found hname, r.fresh_none name, rfl⟩⟩
  | some distance =>
    simp only [h.scopes.ancestor?_eq]
    cases hancestor : left.scopes.ancestor? left.current distance with
    | none => exact ⟨rfl, fun found hfound => by cases hfound⟩
    | some scope =>
      obtain ⟨outer, houter, hbound, hinner⟩ := h.scopes.ancestor?_place hplace hancestor
      have hsome := h.scopes.isSome_eq houter (hinner name hfresh)
      rw [hbound]
      simp only [Option.filter, hsome, true_and]
      refine fun found hfound => ⟨outer, ?_, hinner name hfresh, rfl⟩
      split at hfound
      · obtain rfl := Option.some.inj hfound
        exact houter
      · cases hfound

theorem lookUp?_rel (h : left.Aligned r fits places right)
    (hplace : places[left.current]? = some place)
    (hfits : r.Fits fits place [⟨id, name, access⟩]) :
    Option.Rel (Value.Aligned r fits places) (left.lookUp? .resolved id name)
      (right.lookUp? .resolved id (r.reference place id name)) := by
  obtain ⟨htarget, hfound⟩ := h.target?_eq hplace hfits
  rw [lookUp?, lookUp?, htarget]
  cases hscope : left.target? .resolved id name with
  | none => exact .none
  | some scope =>
    obtain ⟨outer, houter, hfresh, hname⟩ := hfound scope hscope
    rw [Option.bind_some, Option.bind_some, hname]
    exact h.scopes.binds houter hfresh

/-! ## Changes of the state -/

theorem withCurrent (h : left.Aligned r fits places right) (current : ScopeId) :
    Interpreter.Aligned r fits places { left with current := current }
      { right with current := current } where
  outside := by rw [h.outside]
  effects := h.effects
  scopes := h.scopes
  globals := h.globals
  linked := h.linked

theorem withDepth (h : left.Aligned r fits places right) (depth : Nat) :
    Interpreter.Aligned r fits places { left with callDepth := depth }
      { right with callDepth := depth } where
  outside := by rw [h.outside]
  effects := h.effects
  scopes := h.scopes
  globals := h.globals
  linked := h.linked

theorem define (h : left.Aligned r fits places right) {scope : ScopeId}
    (hplace : places[scope]? = some place) (hname : r.Fresh place name) {value other : Value}
    (hvalue : value.Aligned r fits places other) :
    (left.define scope name value).Aligned r fits places
      (right.define scope (r.declared place name) other) where
  outside := by rw [h.outside]; rfl
  effects := h.effects
  scopes := h.scopes.define hplace hname hvalue
  globals := h.globals
  linked := h.linked

theorem bindAll (h : left.Aligned r fits places right) {scope : ScopeId}
    (hplace : places[scope]? = some place) {names : List String}
    (hnames : ∀ name ∈ names, r.Fresh place name) {values others : List Value}
    (hvalues : List.Forall₂ (Value.Aligned r fits places) values others) :
    (left.bindAll scope names values).Aligned r fits places
      (right.bindAll scope (names.map (r.declared place)) others) := by
  induction names generalizing left right values others with
  | nil => exact h
  | cons name names ih =>
    obtain ⟨hname, hnames⟩ := List.forall_mem_cons.mp hnames
    cases hvalues with
    | nil => exact h
    | cons hvalue hvalues => exact ih (h.define hplace hname hvalue) hnames hvalues

/-- A scope that is opened within another one gets its place by that. -/
theorem enter (h : left.Aligned r fits places right) {parent : ScopeId} {inner : Option Nat}
    (hparent : places[parent]? = some place) (henters : Enters place inner) :
    (left.enter parent).Aligned r fits (places ++ [inner]) (right.enter parent) ∧
      (places ++ [inner])[left.scopes.nextId]? = some inner := by
  refine ⟨⟨?_, h.effects, h.scopes.add hparent henters,
    ScopePlaces.of_prefix (List.prefix_append _ _) h.globals, h.linked⟩, ?_⟩
  · rw [h.outside]
    simp only [Interpreter.enter, h.scopes.nextId_eq]
  · rw [← h.scopes.length, List.getElem?_concat_length]

theorem declareFunction (h : left.Aligned r fits places right)
    (hplace : places[left.current]? = some place) (hname : r.Fresh place name)
    (hold : place = some 0 → name ≠ r.old) {inner : Option Nat} (henters : Enters place inner)
    {params : List String} (hparams : ∀ param ∈ params, r.Fresh inner param)
    {body other : List Stmt} (hbody : Stmt.AlignedAll r fits inner body other) :
    (left.declareFunction ⟨name, params, body⟩).Aligned r fits places
      (right.declareFunction ⟨name, params.map (r.declared inner), other⟩) := by
  have hidentity : right.nextIdentity = left.nextIdentity := by rw [h.outside]
  have hadvanced : left.trackCurrent.advanceIdentity.Aligned r fits places
      right.trackCurrent.advanceIdentity := by
    obtain ⟨outside, heffects, hscopes, hglobals, hlinked⟩ := h
    rw [outside]
    unfold trackCurrent
    dsimp only
    split <;> exact ⟨rfl, heffects, hscopes, hglobals, hlinked⟩
  have hvalue : Value.Aligned r fits places (.function ⟨name, params, body⟩ left.current
      left.nextIdentity) (.function ⟨name, params.map (r.declared inner), other⟩ left.current
      left.nextIdentity) :=
    .function hplace henters hparams hbody
  have hdefined := hadvanced.define hplace hname hvalue
  rw [r.declared_of_ne hold] at hdefined
  unfold Interpreter.declareFunction
  rw [h.current_eq, hidentity]
  exact hdefined

theorem write (h : left.Aligned r fits places right) (text : String) :
    (left.write text).1.Aligned r fits places (right.write text).1 ∧
      (right.write text).2 = (left.write text).2 := by
  have hsink : right.sink = left.sink := by rw [h.outside]
  refine ⟨⟨?_, ?_, h.scopes, h.globals, h.linked⟩, ?_⟩
  · simp only [Interpreter.write, hsink]
    rw [h.outside]
  · simp only [Interpreter.write, hsink, Array.map_push, h.effects]
  · simp only [Interpreter.write, hsink]

/-- Requests that have the same effects from outside are carried out alike. -/
theorem carryOut (h : left.Aligned r fits places right) {request other : Request}
    (hsink : (left.registry.carryOut left.sink other).sink =
      (left.registry.carryOut left.sink request).sink)
    (heffects : (left.registry.carryOut left.sink other).effects.map Effect.outline =
      (left.registry.carryOut left.sink request).effects.map Effect.outline) :
    (left.carryOut request).1.Aligned r fits places (right.carryOut other).1 := by
  have hregistry : right.registry = left.registry := by rw [h.outside]
  have hbefore : right.sink = left.sink := by rw [h.outside]
  refine ⟨?_, ?_, h.scopes, h.globals, h.linked⟩
  · simp only [Interpreter.carryOut, hregistry, hbefore, hsink]
    rw [h.outside]
  · simp only [Interpreter.carryOut, hregistry, hbefore, Array.map_append, List.map_toArray,
      heffects, h.effects]

theorem carryOut_help (h : left.Aligned r fits places right) (topic : Option String) :
    (left.carryOut (.help topic)).1.Aligned r fits places (right.carryOut (.help topic)).1 ∧
      (right.carryOut (.help topic)).2 = (left.carryOut (.help topic)).2 := by
  refine ⟨h.carryOut rfl rfl, ?_⟩
  rw [h.outside]
  rfl

theorem carryOut_run (h : left.Aligned r fits places right) (command : String)
    {map other : CommandMap} (hmap : other.mapValues Value.outline = map.mapValues Value.outline) :
    (left.carryOut (.run command map)).1.Aligned r fits places
      (right.carryOut (.run command other)).1 := by
  refine h.carryOut rfl ?_
  have hdeliver := congrArg (List.map Effect.delivered)
    (left.registry.deliver_outline command hmap)
  simp only [List.map_map] at hdeliver
  simp only [Registry.carryOut, List.map_map]
  exact hdeliver

end Interpreter.Aligned

/-! ## Frames and controls -/

section Relations

variable (r : Renaming) (fits : Reference → Prop) (places : ScopePlaces) (raised : Nat → Prop)

inductive Gathering.Aligned (place : Option Nat) : Gathering → Gathering → Prop where
  | between {word : String} {line : Nat} {map other : CommandMap} {rest : List Arg} :
      other.mapValues Value.outline = map.mapValues Value.outline →
      r.Fits fits place (rest.flatMap Arg.references) →
      Aligned place ⟨word, line, map, none, rest⟩
        ⟨word, line, other, none, rest.map (·.mapNames (r.reference place))⟩
  | within {word : String} {line : Nat} {map other : CommandMap} {name : String}
      {values others : List Value} {pending : List ArgValue} {rest : List Arg} :
      other.mapValues Value.outline = map.mapValues Value.outline →
      others.map Value.outline = values.map Value.outline →
      r.Fits fits place (pending.flatMap ArgValue.references) →
      r.Fits fits place (rest.flatMap Arg.references) →
      Aligned place ⟨word, line, map, some ⟨name, values, pending⟩, rest⟩
        ⟨word, line, other,
          some ⟨name, others, pending.map (·.mapNames (r.reference place))⟩,
          rest.map (·.mapNames (r.reference place))⟩

/-- Frames other than those of entered blocks. -/
inductive Frame.Aligned (place : Option Nat) : Frame → Frame → Prop where
  | unary {op : UnaryOp} {line : Nat} : Aligned place (.unary op line) (.unary op line)
  | left {op : BinaryOp} {right : Expr} {line : Nat} : r.Fits fits place right.references →
      Aligned place (.left op right line) (.left op (right.mapNames (r.reference place)) line)
  | right {op : BinaryOp} {held other : Value} {line : Nat} : held.Aligned r fits places other →
      Aligned place (.right op held line) (.right op other line)
  | logical {op : LogicalOp} {right : Expr} : r.Fits fits place right.references →
      Aligned place (.logical op right) (.logical op (right.mapNames (r.reference place)))
  | assign {id : NodeId} {name : String} {line : Nat} : r.Fits fits place [⟨id, name, .write⟩] →
      Aligned place (.assign id name line) (.assign id (r.reference place id name) line)
  | callee {args : List Expr} {line : Nat} : r.Fits fits place (Expr.referencesAll args) →
      Aligned place (.callee args line)
        (.callee (Expr.mapNamesAll (r.reference place) args) line)
  | argument {callee callee' : Value} {before before' : List Value} {rest : List Expr}
      {line : Nat} : callee.Aligned r fits places callee' →
      List.Forall₂ (Value.Aligned r fits places) before before' →
      r.Fits fits place (Expr.referencesAll rest) →
      Aligned place (.argument callee before rest line)
        (.argument callee' before' (Expr.mapNamesAll (r.reference place) rest) line)
  | call : Aligned place .call .call
  | hostCall : Aligned place .hostCall .hostCall
  | discard : Aligned place .discard .discard
  | print {line : Nat} : Aligned place (.print line) (.print line)
  | declare {name : String} : r.Fresh place name →
      Aligned place (.declare name) (.declare (r.declared place name))
  | giveBack : Aligned place .giveBack .giveBack
  | branch {thenBranch other : Stmt} : thenBranch.Aligned r fits place other →
      Aligned place (.branch thenBranch none) (.branch other none)
  | choice {thenBranch elseBranch other other' : Stmt} :
      thenBranch.Aligned r fits place other → elseBranch.Aligned r fits place other' →
      Aligned place (.branch thenBranch (some elseBranch)) (.branch other (some other'))
  | loopTest {condition : Expr} {body other : Stmt} : r.Fits fits place condition.references →
      body.Aligned r fits place other →
      Aligned place (.loopTest condition body)
        (.loopTest (condition.mapNames (r.reference place)) other)
  | loopBody {condition : Expr} {body other : Stmt} : r.Fits fits place condition.references →
      body.Aligned r fits place other →
      Aligned place (.loopBody condition body)
        (.loopBody (condition.mapNames (r.reference place)) other)
  | gather {gathering other : Gathering} : gathering.Aligned r fits place other →
      Aligned place (.gather gathering) (.gather other)
  | program {rest others : List Stmt} : Stmt.AlignedAll r fits place rest others →
      Aligned place (.program rest) (.program others)

/-- Frames at the place of the current scope; a frame of an entered block leads back to the
place of the scope outside. -/
inductive Frames.Aligned : (place : Option Nat) → List Frame → List Frame → Prop where
  | nil {place : Option Nat} : Aligned place [] []
  | cons {place : Option Nat} {frame other : Frame} {rest others : List Frame} :
      frame.Aligned r fits places place other → Aligned place rest others →
      Aligned place (frame :: rest) (other :: others)
  | block {place outside : Option Nat} {body other : List Stmt} {outer : ScopeId}
      {rest others : List Frame} : Stmt.AlignedAll r fits place body other →
      places[outer]? = some outside → Aligned outside rest others →
      Aligned place (.block body outer :: rest) (.block other outer :: others)

inductive Control.Aligned (place : Option Nat) : Control → Control → Prop where
  | eval {expr : Expr} : r.Fits fits place expr.references →
      Aligned place (.eval expr) (.eval (expr.mapNames (r.reference place)))
  | exec {stmt other : Stmt} : stmt.Aligned r fits place other →
      Aligned place (.exec stmt) (.exec other)
  | gather {gathering other : Gathering} : gathering.Aligned r fits place other →
      Aligned place (.gather gathering) (.gather other)
  | value {held other : Value} : held.Aligned r fits places other →
      Aligned place (.value held) (.value other)
  | done : Aligned place .done .done
  | returning {held other : Value} : held.Aligned r fits places other →
      Aligned place (.returning held) (.returning other)
  | halting {halt : Halt} : Aligned place (.halting halt) (.halting halt)
  /-- The fault was raised at a renamed reference. -/
  | renamed {line : Nat} : raised line →
      Aligned place (.halting (.fault ⟨.undefinedVariable r.old, line⟩))
        (.halting (.fault ⟨.undefinedVariable r.new, line⟩))

/-- The machines do the same next, at a place, in states that differ in the name. -/
structure Machine.AlignedAt (place : Option Nat) (machine other : Machine) : Prop where
  here : places[machine.state.current]? = some place
  control : machine.control.Aligned r fits places raised place other.control
  frames : Frames.Aligned r fits places place machine.frames other.frames
  state : machine.state.Aligned r fits places other.state

end Relations

def Machine.Aligned (r : Renaming) (fits : Reference → Prop) (raised : Nat → Prop)
    (machine other : Machine) : Prop :=
  ∃ places place, machine.AlignedAt r fits places raised place other

section Mono

variable {r : Renaming} {fits : Reference → Prop} {places wider : ScopePlaces} {place : Option Nat}

theorem forall_mono {values others : List Value}
    (h : List.Forall₂ (Value.Aligned r fits places) values others) (hmore : places <+: wider) :
    List.Forall₂ (Value.Aligned r fits wider) values others :=
  h.imp fun _ _ hvalue => hvalue.mono hmore

theorem Frame.Aligned.mono {frame other : Frame} (h : frame.Aligned r fits places place other)
    (hmore : places <+: wider) : frame.Aligned r fits wider place other := by
  cases h with
  | unary => exact .unary
  | left hfits => exact .left hfits
  | right hheld => exact .right (hheld.mono hmore)
  | logical hfits => exact .logical hfits
  | assign hfits => exact .assign hfits
  | callee hfits => exact .callee hfits
  | argument hcallee hbefore hfits =>
    exact .argument (hcallee.mono hmore) (forall_mono hbefore hmore) hfits
  | call => exact .call
  | hostCall => exact .hostCall
  | discard => exact .discard
  | print => exact .print
  | declare hname => exact .declare hname
  | giveBack => exact .giveBack
  | branch hthen => exact .branch hthen
  | choice hthen helse => exact .choice hthen helse
  | loopTest hfits hbody => exact .loopTest hfits hbody
  | loopBody hfits hbody => exact .loopBody hfits hbody
  | gather hgathering => exact .gather hgathering
  | program hrest => exact .program hrest

theorem Frames.Aligned.mono {frames others : List Frame}
    (h : Frames.Aligned r fits places place frames others) (hmore : places <+: wider) :
    Frames.Aligned r fits wider place frames others := by
  induction h with
  | nil => exact .nil
  | cons hframe _ ih => exact .cons (hframe.mono hmore) ih
  | block hbody houter _ ih => exact .block hbody (ScopePlaces.of_prefix hmore houter) ih

end Mono

end CommandScript
