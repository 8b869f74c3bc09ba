import CommandScript.Proofs.Machine.Renaming

/-!
# A program and its renaming in lockstep

Machines that differ in the name of a local declaration do so after a step. A reference fails
on both sides or on none; if it fails, the fault has the name that the reference has in each of
the programs.

* `Machine.Raises`: a machine stands at a reference that is about to fail.
* `Machine.Aligned.step`, `Machine.Aligned.after`: machines stay aligned.
* `Machine.Aligned.raises`: a reference fails on both sides.
-/

namespace CommandScript

/-- The reference that the machine comes to in its next step. -/
def Machine.reference? : Machine → Option Reference
  | ⟨.eval (.variable id name _), _, _⟩ => some ⟨id, name, .read⟩
  | ⟨.value _, .assign id name _ :: _, _⟩ => some ⟨id, name, .write⟩
  | _ => none

/-- The machine stands at a reference, and its next step fails because no variable of that
name is defined. -/
def Machine.Raises (setting : Setting) (machine : Machine) (reference : Reference) (line : Nat) :
    Prop :=
  machine.reference? = some reference ∧
    (machine.step setting).control = .halting (.fault ⟨.undefinedVariable reference.name, line⟩)

namespace Machine

/-! ## Steps -/

section Steps

variable {r : Renaming} {fits : Reference → Prop} {places : ScopePlaces} {raised : Nat → Prop}
  {place : Option Nat} {left right : Interpreter} {frames others : List Frame}
  {setting : Setting}

theorem aligned_of (hstate : left.Aligned r fits places right)
    (hhere : places[left.current]? = some place)
    (hframes : Frames.Aligned r fits places place frames others) {control other : Control}
    (hcontrol : control.Aligned r fits places raised place other) :
    Machine.Aligned r fits raised ⟨control, frames, left⟩ ⟨other, others, right⟩ :=
  ⟨places, place, hhere, hcontrol, hframes, hstate⟩

theorem aligned_raise (hstate : left.Aligned r fits places right)
    (hhere : places[left.current]? = some place)
    (hframes : Frames.Aligned r fits places place frames others) (fault : RuntimeFault)
    (line : Nat) :
    Machine.Aligned r fits raised (raise fault line frames left) (raise fault line others right) :=
  aligned_of hstate hhere hframes .halting

/-- A reference that is not bound fails under the name that it has. -/
theorem aligned_unbound (hstate : left.Aligned r fits places right)
    (hhere : places[left.current]? = some place)
    (hframes : Frames.Aligned r fits places place frames others) {id : NodeId} {name : String}
    {line : Nat} (hraised : name = r.old → r.reference place id name = r.new → raised line) :
    Machine.Aligned r fits raised (raise (.undefinedVariable name) line frames left)
      (raise (.undefinedVariable (r.reference place id name)) line others right) := by
  rcases r.reference_cases place id name with hsame | ⟨hold, hnew⟩
  · rw [hsame]
    exact aligned_raise hstate hhere hframes _ _
  · have hline := hraised hold hnew
    rw [hold] at hnew ⊢
    rw [hnew]
    exact aligned_of hstate hhere hframes (.renamed hline)

theorem aligned_deliver (hstate : left.Aligned r fits places right)
    (hhere : places[left.current]? = some place)
    (hframes : Frames.Aligned r fits places place frames others)
    {outcome : Except RuntimeFault Value}
    (hplain : ∀ value, outcome = .ok value → value.closure? = none) (line : Nat) :
    Machine.Aligned r fits raised (deliver outcome line frames left)
      (deliver outcome line others right) := by
  cases outcome with
  | ok value => exact aligned_of hstate hhere hframes (.value (.plain (hplain value rfl)))
  | error fault => exact aligned_raise hstate hhere hframes fault line

/-! ## Calls -/

theorem forall_getElem? {values others : List Value} {R : Value → Value → Prop}
    (h : List.Forall₂ R values others) {position : Nat} {value other : Value}
    (hvalue : values[position]? = some value) (hother : others[position]? = some other) :
    R value other := by
  induction h generalizing position with
  | nil => cases hvalue
  | cons hfirst _ ih =>
    cases position with
    | zero =>
      obtain rfl := Option.some.inj hvalue
      obtain rfl := Option.some.inj hother
      exact hfirst
    | succ position => exact ih hvalue hother

theorem aligned_answer (hstate : left.Aligned r fits places right)
    (hhere : places[left.current]? = some place)
    (hframes : Frames.Aligned r fits places place frames others) {args args' : List Value}
    (hargs : List.Forall₂ (Value.Aligned r fits places) args args')
    {outcome outcome' : Except (Located RuntimeFault) Value}
    (hanswer : SameAnswer args args' outcome outcome') :
    Machine.Aligned r fits raised (answer outcome frames left) (answer outcome' others right) := by
  cases hanswer with
  | fault => exact aligned_of hstate hhere hframes .halting
  | plain hplain => exact aligned_of hstate hhere hframes (.value (.plain hplain))
  | argument hvalue hother =>
    exact aligned_of hstate hhere hframes (.value (forall_getElem? hargs hvalue hother))

theorem aligned_enterBody (hstate : left.Aligned r fits places right)
    (hhere : places[left.current]? = some place)
    (hframes : Frames.Aligned r fits places place frames others) {name : String}
    {params : List String} {body other : List Stmt} {closure : ScopeId}
    {outer inner : Option Nat} (hclosure : places[closure]? = some outer)
    (henters : Enters outer inner) (hparams : ∀ param ∈ params, r.Fresh inner param)
    (hbody : Stmt.AlignedAll r fits inner body other) {args args' : List Value}
    (hargs : List.Forall₂ (Value.Aligned r fits places) args args') :
    Machine.Aligned r fits raised (enterBody ⟨name, params, body⟩ closure args frames left)
      (enterBody ⟨name, params.map (r.declared inner), other⟩ closure args' others right) := by
  have hmore : places <+: places ++ [inner] := List.prefix_append _ _
  obtain ⟨hentered, hnew⟩ := hstate.enter hclosure henters
  have hbound := hentered.bindAll hnew hparams (forall_mono hargs hmore)
  have hcurrent := (bindAll_eq (left.enter closure) left.scopes.nextId params args).2.2.2.2
  refine ⟨places ++ [inner], inner, ?_, .done, ?_, ?_⟩
  · exact (congrArg ((places ++ [inner])[·]?) hcurrent).trans hnew
  · simp only [enterBody, hstate.current_eq]
    exact .block hbody (ScopePlaces.of_prefix hmore hhere) (hframes.mono hmore)
  · simp only [enterBody, Interpreter.enter, hstate.scopes.nextId_eq] at hbound ⊢
    exact hbound

theorem aligned_call (hnatives : setting.NativesSeeOutlines)
    (hstate : left.Aligned r fits places right) (hhere : places[left.current]? = some place)
    (hframes : Frames.Aligned r fits places place frames others) {callee callee' : Value}
    (hcallee : callee.Aligned r fits places callee') {args args' : List Value}
    (hargs : List.Forall₂ (Value.Aligned r fits places) args args') (line : Nat) :
    Machine.Aligned r fits raised (call setting.keeping callee args line frames left)
      (call setting.keeping callee' args' line others right) := by
  have hlength : args'.length = args.length := hargs.length_eq.symm
  cases hcallee with
  | function hclosure henters hparams hbody =>
    simp only [call, List.length_map, hlength, hstate.callDepth_eq]
    split
    · exact aligned_raise hstate hhere hframes _ _
    · split
      · exact aligned_raise hstate hhere hframes _ _
      · have hdeeper := hstate.withDepth (left.callDepth + 1)
        exact aligned_enterBody hdeeper hhere (.cons .call hframes) hclosure henters hparams hbody
          hargs
  | plain hplain =>
    cases callee with
    | function => cases hplain
    | native native identity =>
      simp only [call, hlength, hstate.callDepth_eq]
      split
      · exact aligned_raise hstate hhere hframes _ _
      · split
        · exact aligned_raise hstate hhere hframes _ _
        · exact aligned_answer hstate hhere hframes hargs
            (hnatives native args args' line (Value.outlines_eq hargs).symm)
    | _ => exact aligned_raise hstate hhere hframes _ _

theorem aligned_nextArgument (hnatives : setting.NativesSeeOutlines)
    (hstate : left.Aligned r fits places right) (hhere : places[left.current]? = some place)
    (hframes : Frames.Aligned r fits places place frames others) {callee callee' : Value}
    (hcallee : callee.Aligned r fits places callee') {before before' : List Value}
    (hbefore : List.Forall₂ (Value.Aligned r fits places) before before') {rest : List Expr}
    (hfits : r.Fits fits place (Expr.referencesAll rest)) (line : Nat) :
    Machine.Aligned r fits raised
      (nextArgument setting.keeping callee before rest line frames left)
      (nextArgument setting.keeping callee' before'
        (Expr.mapNamesAll (r.reference place) rest) line others right) := by
  cases rest with
  | nil =>
    exact aligned_call hnatives hstate hhere hframes hcallee
      (List.forall₂_reverse_iff.mpr hbefore) line
  | cons arg more =>
    obtain ⟨harg, hmore⟩ := Renaming.fits_append.mp hfits
    exact aligned_of hstate hhere (.cons (.argument hcallee hbefore hmore) hframes) (.eval harg)

/-! ## The steps by control -/

theorem raises_read_iff (hrule : setting.lookup = .resolved) {state : Interpreter} {id : NodeId}
    {name : String} {line : Nat} {frames : List Frame} {reference : Reference} {row : Nat} :
    Raises setting.keeping ⟨.eval (.variable id name line), frames, state⟩ reference row ↔
      reference = ⟨id, name, .read⟩ ∧ row = line ∧ state.lookUp? .resolved id name = none := by
  simp only [Raises, reference?, step, stepEval, Setting.keeping, hrule, Option.some.injEq]
  constructor
  · rintro ⟨rfl, hcontrol⟩
    cases hfound : state.lookUp? .resolved id name with
    | some value =>
      rw [hfound] at hcontrol
      cases hcontrol
    | none =>
      rw [hfound] at hcontrol
      cases hcontrol
      exact ⟨rfl, rfl, rfl⟩
  · rintro ⟨rfl, rfl, hfound⟩
    rw [hfound]
    exact ⟨rfl, rfl⟩

theorem raises_write_iff (hrule : setting.lookup = .resolved) {state : Interpreter} {id : NodeId}
    {name : String} {line : Nat} {value : Value} {frames : List Frame} {reference : Reference}
    {row : Nat} :
    Raises setting.keeping ⟨.value value, .assign id name line :: frames, state⟩ reference row ↔
      reference = ⟨id, name, .write⟩ ∧ row = line ∧ state.target? .resolved id name = none := by
  simp only [Raises, reference?, step, stepValue, Setting.keeping, hrule, Option.some.injEq]
  constructor
  · rintro ⟨rfl, hcontrol⟩
    cases hfound : state.target? .resolved id name with
    | some scope =>
      rw [hfound] at hcontrol
      cases hcontrol
    | none =>
      rw [hfound] at hcontrol
      cases hcontrol
      exact ⟨rfl, rfl, rfl⟩
  · rintro ⟨rfl, rfl, hfound⟩
    rw [hfound]
    exact ⟨rfl, rfl⟩

theorem aligned_stepEval (hrule : setting.lookup = .resolved)
    (hstate : left.Aligned r fits places right) (hhere : places[left.current]? = some place)
    (hframes : Frames.Aligned r fits places place frames others) {expr : Expr}
    (hfits : r.Fits fits place expr.references)
    (hraised : ∀ id access line,
      Raises setting.keeping ⟨.eval expr, frames, left⟩ ⟨id, r.old, access⟩ line →
      Raises setting.keeping ⟨.eval (expr.mapNames (r.reference place)), others, right⟩
        ⟨id, r.new, access⟩ line → raised line) :
    Machine.Aligned r fits raised (stepEval setting.keeping expr frames left)
      (stepEval setting.keeping (expr.mapNames (r.reference place)) others right) := by
  match expr with
  | .literal value line =>
    exact aligned_of hstate hhere hframes (.value (.plain (Value.closure?_ofLiteral value)))
  | .grouping inner line => exact aligned_of hstate hhere hframes (.eval hfits)
  | .unary op operand line => exact aligned_of hstate hhere (.cons .unary hframes) (.eval hfits)
  | .binary op first second line =>
    obtain ⟨hfirst, hsecond⟩ := Renaming.fits_append.mp hfits
    exact aligned_of hstate hhere (.cons (.left hsecond) hframes) (.eval hfirst)
  | .logical op first second line =>
    obtain ⟨hfirst, hsecond⟩ := Renaming.fits_append.mp hfits
    exact aligned_of hstate hhere (.cons (.logical hsecond) hframes) (.eval hfirst)
  | .variable id name line =>
    have hread := hstate.lookUp?_rel hhere hfits
    cases hleft : left.lookUp? .resolved id name with
    | some value =>
      cases hright : right.lookUp? .resolved id (r.reference place id name) with
      | some other =>
        rw [hleft, hright] at hread
        cases hread with
        | some hvalue =>
          simp only [stepEval, Expr.mapNames, Setting.keeping, hrule, hleft, hright]
          exact aligned_of hstate hhere hframes (.value hvalue)
      | none =>
        rw [hleft, hright] at hread
        cases hread
    | none =>
      cases hright : right.lookUp? .resolved id (r.reference place id name) with
      | some other =>
        rw [hleft, hright] at hread
        cases hread
      | none =>
        simp only [stepEval, Expr.mapNames, Setting.keeping, hrule, hleft, hright]
        refine aligned_unbound hstate hhere hframes fun hold hnew => ?_
        rw [Expr.mapNames, hnew] at hraised
        rw [hnew] at hright
        subst hold
        exact hraised id .read line ((raises_read_iff hrule).mpr ⟨rfl, rfl, hleft⟩)
          ((raises_read_iff hrule).mpr ⟨rfl, rfl, hright⟩)
  | .assign id name value line =>
    obtain ⟨hvalue, hname⟩ := Renaming.fits_append.mp hfits
    exact aligned_of hstate hhere (.cons (.assign hname) hframes) (.eval hvalue)
  | .call callee args line =>
    obtain ⟨hcallee, hargs⟩ := Renaming.fits_append.mp hfits
    exact aligned_of hstate hhere (.cons (.callee hargs) hframes) (.eval hcallee)
  | .commandRef name line => exact aligned_of hstate hhere hframes (.value (.plain rfl))

theorem aligned_stepExec (hstate : left.Aligned r fits places right)
    (hhere : places[left.current]? = some place)
    (hframes : Frames.Aligned r fits places place frames others) {stmt other : Stmt}
    (hstmt : stmt.Aligned r fits place other) :
    Machine.Aligned r fits raised (stepExec stmt frames left) (stepExec other others right) := by
  cases hstmt with
  | @block _ inner _ _ henters hbody =>
    have hmore : places <+: places ++ [inner] := List.prefix_append _ _
    obtain ⟨hentered, hnew⟩ := hstate.enter hhere henters
    simp only [stepExec, hstate.current_eq]
    exact aligned_of hentered hnew
      (.block hbody (ScopePlaces.of_prefix hmore hhere) (hframes.mono hmore)) .done
  | expression hfits => exact aligned_of hstate hhere (.cons .discard hframes) (.eval hfits)
  | branch hfits hthen =>
    exact aligned_of hstate hhere (.cons (.branch hthen) hframes) (.eval hfits)
  | choice hfits hthen helse =>
    exact aligned_of hstate hhere (.cons (.choice hthen helse) hframes) (.eval hfits)
  | loop hfits hbody =>
    exact aligned_of hstate hhere (.cons (.loopTest hfits hbody) hframes) (.eval hfits)
  | print hfits => exact aligned_of hstate hhere (.cons .print hframes) (.eval hfits)
  | @«return» _ value _ hfits =>
    cases value with
    | none => exact aligned_of hstate hhere hframes (.returning (.plain rfl))
    | some value => exact aligned_of hstate hhere (.cons .giveBack hframes) (.eval hfits)
  | @declare _ name initializer _ hname hfits =>
    cases initializer with
    | none =>
      simp only [stepExec, Option.map_none, hstate.current_eq]
      exact aligned_of (hstate.define hhere hname (.plain rfl)) hhere hframes .done
    | some initializer =>
      exact aligned_of hstate hhere (.cons (.declare hname) hframes) (.eval hfits)
  | function hname hold henters hparams hbody =>
    simp only [stepExec, r.names_parameter]
    have hdeclared := hstate.declareFunction hhere hname hold henters hparams hbody
    refine aligned_of hdeclared ?_ hframes .done
    rwa [Interpreter.current_declareFunction]
  | @command _ action hfits =>
    cases action with
    | deliver word args line => exact aligned_of hstate hhere hframes (.gather (.between rfl hfits))
    | help topic line =>
      obtain ⟨hcarried, hstatus⟩ := hstate.carryOut_help topic
      have hcurrent : places[(left.carryOut (.help topic)).1.current]? = some place := hhere
      simp only [stepExec, Command.mapNames]
      revert hcarried hstatus hcurrent
      generalize left.carryOut (.help topic) = carried
      generalize right.carryOut (.help topic) = carried'
      obtain ⟨_, status⟩ := carried
      obtain ⟨_, status'⟩ := carried'
      rintro hcarried (rfl : status' = status) hcurrent
      cases status' with
      | some _ => exact aligned_of hcarried hcurrent hframes .done
      | none => exact aligned_raise hcarried hcurrent hframes _ _
    | exit line => exact aligned_of hstate hhere hframes .halting

theorem aligned_stepGather (hstate : left.Aligned r fits places right)
    (hhere : places[left.current]? = some place)
    (hframes : Frames.Aligned r fits places place frames others) {gathering other : Gathering}
    (h : gathering.Aligned r fits place other) :
    Machine.Aligned r fits raised (stepGather gathering frames left)
      (stepGather other others right) := by
  cases h with
  | @within word line map other name values values' pending rest hmap hvalues hpending hrest =>
    match pending with
    | [] =>
      have hextended : (other.extendParameter name values').mapValues Value.outline =
          (map.extendParameter name values).mapValues Value.outline := by
        simp only [CommandMap.extendParameter, CommandMap.mapValues_append, hmap, hvalues]
      exact aligned_of hstate hhere hframes (.gather (.between hextended hrest))
    | .word text :: more =>
      refine aligned_of hstate hhere hframes (.gather (.within hmap ?_ hpending hrest))
      rw [List.map_append, List.map_append, hvalues]
    | .expr expr :: more =>
      obtain ⟨hexpr, hmore⟩ := Renaming.fits_append.mp hpending
      exact aligned_of hstate hhere (.cons (.gather (.within hmap hvalues hmore hrest)) hframes)
        (.eval hexpr)
  | @between word line map other rest hmap hrest =>
    match rest with
    | [] => exact aligned_of (hstate.carryOut_run word hmap) hhere hframes .done
    | .flag name :: more =>
      refine aligned_of hstate hhere hframes (.gather (.between ?_ hrest))
      simp only [CommandMap.pushFlag, CommandMap.mapValues_append, hmap]
    | .positional (.word text) :: more =>
      refine aligned_of hstate hhere hframes (.gather (.between ?_ hrest))
      simp only [CommandMap.pushArgument, CommandMap.mapValues_append, hmap]
    | .positional (.expr expr) :: more =>
      obtain ⟨hexpr, hmore⟩ := Renaming.fits_append.mp hrest
      exact aligned_of hstate hhere (.cons (.gather (.between hmap hmore)) hframes) (.eval hexpr)
    | .parameter name values :: more =>
      obtain ⟨hvalues, hmore⟩ := Renaming.fits_append.mp hrest
      exact aligned_of hstate hhere hframes (.gather (.within hmap rfl hvalues hmore))

/-- A value that a command receives shows its outline only. -/
theorem aligned_receive {gathering other : Gathering} (h : gathering.Aligned r fits place other)
    {value value' : Value} (hvalue : value.Aligned r fits places value') :
    (Gathering.receive gathering value).Aligned r fits place (Gathering.receive other value') := by
  cases h with
  | between hmap hrest =>
    refine .between ?_ hrest
    simp only [CommandMap.pushArgument, CommandMap.mapValues_append, hmap, List.map_cons,
      List.map_nil, hvalue.outline_eq]
  | within hmap hvalues hpending hrest =>
    refine .within hmap ?_ hpending hrest
    rw [List.map_append, List.map_append, hvalues, List.map_singleton, List.map_singleton,
      hvalue.outline_eq]

theorem aligned_stepDone (hstate : left.Aligned r fits places right)
    (hhere : places[left.current]? = some place) {frame other : Frame}
    (h : Frames.Aligned r fits places place (frame :: frames) (other :: others)) :
    Machine.Aligned r fits raised (stepDone setting.keeping frame frames left)
      (stepDone setting.keeping other others right) := by
  cases h with
  | block hbody houter hframes =>
    cases hbody with
    | nil => exact aligned_of (hstate.withCurrent _) houter hframes .done
    | cons hstmt hrest => exact aligned_of hstate hhere (.block hrest houter hframes) (.exec hstmt)
  | cons hframe hframes =>
    cases hframe with
    | loopBody hfits hbody =>
      exact aligned_of hstate hhere (.cons (.loopTest hfits hbody) hframes) (.eval hfits)
    | call =>
      simp only [stepDone, hstate.callDepth_eq]
      exact aligned_of (hstate.withDepth (left.callDepth - 1)) hhere hframes (.value (.plain rfl))
    | hostCall => exact aligned_of hstate hhere hframes (.value (.plain rfl))
    | program hrest =>
      cases hrest with
      | nil => exact aligned_of hstate hhere hframes .done
      | cons hstmt hrest =>
        exact aligned_of hstate hhere (.cons (.program hrest) hframes) (.exec hstmt)
    | _ => exact aligned_of hstate hhere hframes .done

theorem aligned_stepReturning (hstate : left.Aligned r fits places right)
    (hhere : places[left.current]? = some place) {frame other : Frame}
    (h : Frames.Aligned r fits places place (frame :: frames) (other :: others))
    {value value' : Value} (hvalue : value.Aligned r fits places value') :
    Machine.Aligned r fits raised (stepReturning value frame frames left)
      (stepReturning value' other others right) := by
  cases h with
  | block hbody houter hframes =>
    exact aligned_of (hstate.withCurrent _) houter hframes (.returning hvalue)
  | cons hframe hframes =>
    cases hframe with
    | call =>
      simp only [stepReturning, hstate.callDepth_eq]
      exact aligned_of (hstate.withDepth (left.callDepth - 1)) hhere hframes (.value hvalue)
    | hostCall => exact aligned_of hstate hhere hframes (.value hvalue)
    | program hrest => exact aligned_of hstate hhere (.cons (.program hrest) hframes) .done
    | _ => exact aligned_of hstate hhere hframes (.returning hvalue)

theorem aligned_stepHalting (hstate : left.Aligned r fits places right)
    (hhere : places[left.current]? = some place) {frame other : Frame}
    (h : Frames.Aligned r fits places place (frame :: frames) (other :: others))
    {halt halt' : Halt}
    (hhalt : Control.Aligned r fits places raised place (.halting halt) (.halting halt')) :
    Machine.Aligned r fits raised (stepHalting halt frame frames left)
      (stepHalting halt' other others right) := by
  -- a halt does not depend on the place
  have hanywhere : ∀ place,
      Control.Aligned r fits places raised place (.halting halt) (.halting halt') := by
    intro place
    cases hhalt with
    | halting => exact .halting
    | renamed hline => exact .renamed hline
  cases h with
  | block hbody houter hframes =>
    exact aligned_of (hstate.withCurrent _) houter hframes (hanywhere _)
  | cons hframe hframes =>
    cases hframe with
    | call =>
      simp only [stepHalting, hstate.callDepth_eq]
      exact aligned_of (hstate.withDepth (left.callDepth - 1)) hhere hframes (hanywhere _)
    | _ => exact aligned_of hstate hhere hframes (hanywhere _)

theorem unary_eq {value other : Value} (h : value.Aligned r fits places other) (op : UnaryOp) :
    op.apply other = op.apply value := by
  cases h with
  | plain => rfl
  | function => cases op <;> rfl

theorem binary_eq {first first' second second' : Value}
    (hfirst : first.Aligned r fits places first')
    (hsecond : second.Aligned r fits places second') (op : BinaryOp) :
    op.apply first' second' = op.apply first second := by
  cases hfirst with
  | plain =>
    cases hsecond with
    | plain => rfl
    | function => cases op <;> cases first <;> rfl
  | function =>
    cases hsecond with
    | plain => cases op <;> cases second <;> rfl
    | function => cases op <;> rfl

theorem aligned_assign (hrule : setting.lookup = .resolved)
    (hstate : left.Aligned r fits places right) (hhere : places[left.current]? = some place)
    (hframes : Frames.Aligned r fits places place frames others) {id : NodeId} {name : String}
    {line : Nat} (hfits : r.Fits fits place [⟨id, name, .write⟩]) {value other : Value}
    (hvalue : value.Aligned r fits places other)
    (hraised : ∀ node access there,
      Raises setting.keeping ⟨.value value, .assign id name line :: frames, left⟩
        ⟨node, r.old, access⟩ there →
      Raises setting.keeping
        ⟨.value other, .assign id (r.reference place id name) line :: others, right⟩
        ⟨node, r.new, access⟩ there → raised there) :
    Machine.Aligned r fits raised
      (stepValue setting.keeping value (.assign id name line) frames left)
      (stepValue setting.keeping other (.assign id (r.reference place id name) line) others
        right) := by
  obtain ⟨htarget, hfound⟩ := hstate.target?_eq hhere hfits
  cases hleft : left.target? .resolved id name with
  | some scope =>
    obtain ⟨outer, houter, hfresh, hname⟩ := hfound scope hleft
    rw [hleft] at htarget
    simp only [stepValue, Setting.keeping, hrule, hleft, htarget]
    rw [hname]
    exact aligned_of (hstate.define houter hfresh hvalue) hhere hframes (.value hvalue)
  | none =>
    rw [hleft] at htarget
    simp only [stepValue, Setting.keeping, hrule, hleft, htarget]
    refine aligned_unbound hstate hhere hframes fun hold hnew => ?_
    rw [hnew] at htarget hraised
    subst hold
    exact hraised id .write line ((raises_write_iff hrule).mpr ⟨rfl, rfl, hleft⟩)
      ((raises_write_iff hrule).mpr ⟨rfl, rfl, htarget⟩)

/-- A frame other than that of an assignment takes a value. -/
theorem aligned_stepValue (hrule : setting.lookup = .resolved)
    (hnatives : setting.NativesSeeOutlines) (hstate : left.Aligned r fits places right)
    (hhere : places[left.current]? = some place) {frame other : Frame}
    (h : Frames.Aligned r fits places place (frame :: frames) (other :: others))
    {value value' : Value} (hvalue : value.Aligned r fits places value')
    (hraised : ∀ id access line,
      Raises setting.keeping ⟨.value value, frame :: frames, left⟩ ⟨id, r.old, access⟩ line →
      Raises setting.keeping ⟨.value value', other :: others, right⟩ ⟨id, r.new, access⟩ line →
      raised line) :
    Machine.Aligned r fits raised (stepValue setting.keeping value frame frames left)
      (stepValue setting.keeping value' other others right) := by
  cases h with
  | block hbody houter hframes => exact aligned_of hstate hhere (.block hbody houter hframes) .done
  | cons hframe hframes =>
    cases hframe with
    | unary =>
      simp only [stepValue, unary_eq hvalue]
      exact aligned_deliver hstate hhere hframes (fun _ => UnaryOp.closure?_apply) _
    | left hfits => exact aligned_of hstate hhere (.cons (.right hvalue) hframes) (.eval hfits)
    | right hheld =>
      simp only [stepValue, binary_eq hheld hvalue]
      exact aligned_deliver hstate hhere hframes (fun _ => BinaryOp.closure?_apply) _
    | @logical op _ hfits =>
      have hdecides : op.decides value' = op.decides value := by
        cases op <;> simp only [LogicalOp.decides, hvalue.truthy_eq]
      simp only [stepValue, hdecides]
      split
      · exact aligned_of hstate hhere hframes (.value hvalue)
      · exact aligned_of hstate hhere hframes (.eval hfits)
    | assign hfits => exact aligned_assign hrule hstate hhere hframes hfits hvalue hraised
    | callee hfits => exact aligned_nextArgument hnatives hstate hhere hframes hvalue .nil hfits _
    | argument hcallee hbefore hfits =>
      exact aligned_nextArgument hnatives hstate hhere hframes hcallee
        (.cons hvalue hbefore) hfits _
    | discard => exact aligned_of hstate hhere hframes .done
    | print =>
      obtain ⟨hwritten, hcomplete⟩ := hstate.write (value.text ++ "\n")
      have hcurrent : places[(left.write (value.text ++ "\n")).1.current]? = some place := hhere
      simp only [stepValue, hvalue.text_eq]
      revert hwritten hcomplete hcurrent
      generalize left.write (value.text ++ "\n") = written
      generalize right.write (value.text ++ "\n") = written'
      obtain ⟨_, complete⟩ := written
      obtain ⟨_, complete'⟩ := written'
      rintro hwritten (rfl : complete' = complete) hcurrent
      cases complete' with
      | true => exact aligned_of hwritten hcurrent hframes .done
      | false => exact aligned_raise hwritten hcurrent hframes _ _
    | declare hname =>
      simp only [stepValue, hstate.current_eq]
      exact aligned_of (hstate.define hhere hname hvalue) hhere hframes .done
    | giveBack => exact aligned_of hstate hhere hframes (.returning hvalue)
    | branch hthen =>
      simp only [stepValue, hvalue.truthy_eq]
      split
      · exact aligned_of hstate hhere hframes (.exec hthen)
      · exact aligned_of hstate hhere hframes .done
    | choice hthen helse =>
      simp only [stepValue, hvalue.truthy_eq]
      split
      · exact aligned_of hstate hhere hframes (.exec hthen)
      · exact aligned_of hstate hhere hframes (.exec helse)
    | loopTest hfits hbody =>
      simp only [stepValue, hvalue.truthy_eq]
      split
      · exact aligned_of hstate hhere (.cons (.loopBody hfits hbody) hframes) (.exec hbody)
      · exact aligned_of hstate hhere hframes .done
    | gather hgathering =>
      exact aligned_of hstate hhere hframes (.gather (aligned_receive hgathering hvalue))
    | call => exact aligned_of hstate hhere (.cons .call hframes) .done
    | hostCall => exact aligned_of hstate hhere (.cons .hostCall hframes) .done
    | loopBody hfits hbody =>
      exact aligned_of hstate hhere (.cons (.loopBody hfits hbody) hframes) .done
    | program hrest => exact aligned_of hstate hhere (.cons (.program hrest) hframes) .done

end Steps

namespace Aligned

variable {r : Renaming} {fits : Reference → Prop} {raised : Nat → Prop} {setting : Setting}
  {machine other : Machine}

theorem step (hrule : setting.lookup = .resolved) (hnatives : setting.NativesSeeOutlines)
    (h : machine.Aligned r fits raised other)
    (hraised : ∀ id access line, machine.Raises setting.keeping ⟨id, r.old, access⟩ line →
      other.Raises setting.keeping ⟨id, r.new, access⟩ line → raised line) :
    (machine.step setting.keeping).Aligned r fits raised (other.step setting.keeping) := by
  have hwhole := h
  obtain ⟨places, place, hhere, hcontrol, hframes, hstate⟩ := h
  obtain ⟨control, frames, state⟩ := machine
  obtain ⟨control', frames', state'⟩ := other
  cases hcontrol with
  | eval hfits => exact aligned_stepEval hrule hstate hhere hframes hfits hraised
  | exec hstmt => exact aligned_stepExec hstate hhere hframes hstmt
  | gather hgathering => exact aligned_stepGather hstate hhere hframes hgathering
  | value hvalue =>
    cases frames with
    | nil => cases hframes; exact hwhole
    | cons frame rest =>
      cases frames' with
      | nil => cases hframes
      | cons frame' rest' =>
        exact aligned_stepValue hrule hnatives hstate hhere hframes hvalue hraised
  | done =>
    cases frames with
    | nil => cases hframes; exact hwhole
    | cons frame rest =>
      cases frames' with
      | nil => cases hframes
      | cons frame' rest' => exact aligned_stepDone hstate hhere hframes
  | returning hvalue =>
    cases frames with
    | nil => cases hframes; exact hwhole
    | cons frame rest =>
      cases frames' with
      | nil => cases hframes
      | cons frame' rest' => exact aligned_stepReturning hstate hhere hframes hvalue
  | halting =>
    cases frames with
    | nil => cases hframes; exact hwhole
    | cons frame rest =>
      cases frames' with
      | nil => cases hframes
      | cons frame' rest' => exact aligned_stepHalting hstate hhere hframes .halting
  | renamed hline =>
    cases frames with
    | nil => cases hframes; exact hwhole
    | cons frame rest =>
      cases frames' with
      | nil => cases hframes
      | cons frame' rest' => exact aligned_stepHalting hstate hhere hframes (.renamed hline)

/-- A reference that fails does so in both programs, under the name that it has there. -/
theorem raises (hrule : setting.lookup = .resolved) (h : machine.Aligned r fits raised other)
    {reference : Reference} {line : Nat}
    (hraises : machine.Raises setting.keeping reference line) :
    ∃ place, other.Raises setting.keeping (reference.mapName (r.reference place)) line := by
  obtain ⟨places, place, hhere, hcontrol, hframes, hstate⟩ := h
  obtain ⟨control, frames, state⟩ := machine
  obtain ⟨control', frames', state'⟩ := other
  refine ⟨place, ?_⟩
  have hreference := hraises.1
  unfold reference? at hreference
  split at hreference
  case h_1 id name row rest found hmachine =>
    cases hmachine
    cases hcontrol with
    | eval hfits =>
      obtain ⟨rfl, rfl, hnone⟩ := (raises_read_iff hrule).mp hraises
      have hread := isSome_eq_of_rel (hstate.lookUp?_rel hhere hfits)
      rw [hnone] at hread
      exact (raises_read_iff hrule).mpr
        ⟨rfl, rfl, Option.isNone_iff_eq_none.mp (Option.isSome_eq_false_iff.mp hread)⟩
  case h_2 value id name row rest found hmachine =>
    cases hmachine
    cases hcontrol with
    | value hvalue =>
      cases hframes with
      | cons hframe hframes =>
        cases hframe with
        | assign hfits =>
          obtain ⟨rfl, rfl, hnone⟩ := (raises_write_iff hrule).mp hraises
          have htarget := (hstate.target?_eq hhere hfits).1
          rw [hnone] at htarget
          exact (raises_write_iff hrule).mpr ⟨rfl, rfl, htarget⟩
  case h_3 => cases hreference

theorem after (hrule : setting.lookup = .resolved) (hnatives : setting.NativesSeeOutlines)
    (h : machine.Aligned r fits raised other)
    (hraised : ∀ n id access line,
      (machine.after setting.keeping n).Raises setting.keeping ⟨id, r.old, access⟩ line →
      (other.after setting.keeping n).Raises setting.keeping ⟨id, r.new, access⟩ line →
      raised line) (n : Nat) :
    (machine.after setting.keeping n).Aligned r fits raised (other.after setting.keeping n) := by
  induction n generalizing machine other with
  | zero => exact h
  | succ n ih =>
    refine ih (h.step hrule hnatives (hraised 0)) fun k id access line hfirst hsecond => ?_
    exact hraised (k + 1) id access line hfirst hsecond

end Aligned

end Machine

end CommandScript
