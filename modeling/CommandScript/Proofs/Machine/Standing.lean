import CommandScript.Proofs.Machine.Agreement
import CommandScript.Proofs.Machine.Scoping

/-!
# Machines that stand in their programs

A machine stands at a point of a program if the current scope fits the context of what it
does next, and the frames go on in contexts that fit their scopes. No step leaves the
program: a step goes on in the same context, enters a block or function in a new scope
that is an instance of it, or goes back to where it came from.

A `return` skips the rest of blocks and functions but never a declaration of a scope in
which the machine goes on, because the branches of an `if` and the bodies of loops are no
declarations.

* `Layout.Resumes`: frames that wait for a value or for an end.
* `Machine.Stands`: the machine stands at a point of a program.
* `Machine.opens?`: what the next step opens a scope for.
* `Machine.Sound.step`: a step preserves that the machine stands, the scopes fit and all
  values are admitted.
-/

namespace CommandScript

/-- The references of the arguments that are still to be evaluated. -/
def Gathering.references (gathering : Gathering) : List Reference :=
  gathering.parameter.toList.flatMap (fun parameter =>
    parameter.rest.flatMap ArgValue.references) ++ gathering.rest.flatMap Arg.references

/-- What a stack of frames waits for. -/
inductive Awaited where
  | value
  | finish

namespace Layout

/-- The frames go on from the scope in the context. -/
inductive Resumes (layout : Layout) (scopes : Scopes) :
    Awaited → ScopeId → Context → List Frame → Prop where
  | unary {id context frames op line} :
    Resumes layout scopes .value id context frames →
    Resumes layout scopes .value id context (.unary op line :: frames)
  | left {id context frames op right line} :
    layout.Knows (context.occurrences right.references) →
    Resumes layout scopes .value id context frames →
    Resumes layout scopes .value id context (.left op right line :: frames)
  | right {id context frames op held line} :
    Resumes layout scopes .value id context frames →
    Resumes layout scopes .value id context (.right op held line :: frames)
  | logical {id context frames op right} :
    layout.Knows (context.occurrences right.references) →
    Resumes layout scopes .value id context frames →
    Resumes layout scopes .value id context (.logical op right :: frames)
  | assign {id context frames node name line} :
    layout.known ⟨context, .mention ⟨node, name, .write⟩⟩ →
    Resumes layout scopes .value id context frames →
    Resumes layout scopes .value id context (.assign node name line :: frames)
  | callee {id context frames args line} :
    layout.Knows (context.occurrences (Expr.referencesAll args)) →
    Resumes layout scopes .value id context frames →
    Resumes layout scopes .value id context (.callee args line :: frames)
  | argument {id context frames callee before rest line} :
    layout.Knows (context.occurrences (Expr.referencesAll rest)) →
    Resumes layout scopes .value id context frames →
    Resumes layout scopes .value id context (.argument callee before rest line :: frames)
  | discard {id context frames} :
    Resumes layout scopes .finish id context frames →
    Resumes layout scopes .value id context (.discard :: frames)
  | print {id context frames line} :
    Resumes layout scopes .finish id context frames →
    Resumes layout scopes .value id context (.print line :: frames)
  | declare {id context frames name} :
    layout.known ⟨context, .declare name⟩ →
    Resumes layout scopes .finish id ((context.declare name).define name) frames →
    Resumes layout scopes .value id (context.declare name) (.declare name :: frames)
  | giveBack {id context frames} :
    Resumes layout scopes .finish id context frames →
    Resumes layout scopes .value id context (.giveBack :: frames)
  | branch {id context frames thenBranch elseBranch} :
    (∀ stmt ∈ thenBranch :: Option.toList elseBranch,
      stmt.declared? = none ∧ layout.Places context stmt) →
    Resumes layout scopes .finish id context frames →
    Resumes layout scopes .value id context (.branch thenBranch elseBranch :: frames)
  | loopTest {id context frames condition body} :
    layout.Places context (.loop condition body 0) →
    Resumes layout scopes .finish id context frames →
    Resumes layout scopes .value id context (.loopTest condition body :: frames)
  | gather {id context frames gathering} :
    layout.Knows (context.occurrences (Gathering.references gathering)) →
    Resumes layout scopes .finish id context frames →
    Resumes layout scopes .value id context (.gather gathering :: frames)
  | loopBody {id context frames condition body} :
    layout.Places context (.loop condition body 0) →
    Resumes layout scopes .finish id context frames →
    Resumes layout scopes .finish id context (.loopBody condition body :: frames)
  | block {id context frames rest outer} {surrounding : Context} :
    layout.PlacesAll context rest → layout.Fits scopes outer surrounding →
    Resumes layout scopes .finish outer surrounding frames →
    Resumes layout scopes .finish id context (.block rest outer :: frames)
  | call {id context frames} :
    Resumes layout scopes .value id context frames →
    Resumes layout scopes .finish id context (.call :: frames)
  | program {id context rest} :
    layout.PlacesAll context rest → Resumes layout scopes .finish id context [.program rest]
  | rest {id context} : Resumes layout scopes .finish id context []

variable {layout later : Layout} {scopes grown : Scopes}

theorem exists_cons {id : ScopeId} {context : Context} {name : String}
    (h : layout.Fits scopes id (context.declare name)) :
    ∃ level outer, context = level :: outer := by
  cases context with
  | nil =>
    obtain ⟨_, _, hnil, _⟩ := h.head
    cases hnil
  | cons level outer => exact ⟨level, outer, rfl⟩

/-- The parts of a branch. -/
theorem Places.branch {context : Context} {condition : Expr} {thenBranch : Stmt}
    {elseBranch : Option Stmt} {line : Nat}
    (h : layout.Places context (.branch condition thenBranch elseBranch line)) :
    layout.Knows (context.occurrences condition.references) ∧
      ∀ stmt ∈ thenBranch :: Option.toList elseBranch,
        stmt.declared? = none ∧ layout.Places context stmt := by
  obtain ⟨hstructured, hknows⟩ := h
  cases elseBranch with
  | none =>
    obtain ⟨hcondition, hthen⟩ := List.forall_mem_append.mp hknows
    refine ⟨hcondition, List.forall_mem_cons.mpr ⟨?_, fun _ hnil => by cases hnil⟩⟩
    exact ⟨hstructured.1, hstructured.2, hthen⟩
  | some other =>
    obtain ⟨hfirst, helse⟩ := List.forall_mem_append.mp hknows
    obtain ⟨hcondition, hthen⟩ := List.forall_mem_append.mp hfirst
    obtain ⟨⟨hthenPlain, hthenBody⟩, helsePlain, helseBody⟩ := hstructured
    refine ⟨hcondition, List.forall_mem_cons.mpr ⟨⟨hthenPlain, hthenBody, hthen⟩, ?_⟩⟩
    exact List.forall_mem_cons.mpr ⟨⟨helsePlain, helseBody, helse⟩, fun _ hnil => by cases hnil⟩

theorem knows_append {context : Context} {first second : List Reference} :
    layout.Knows (context.occurrences (first ++ second)) ↔
      layout.Knows (context.occurrences first) ∧ layout.Knows (context.occurrences second) := by
  rw [Context.occurrences_append]
  exact List.forall_mem_append

theorem Grows.knows (h : layout.Grows scopes later grown) {occurrences : List Occurrence}
    (hknows : layout.Knows occurrences) : later.Knows occurrences :=
  fun occurrence hmem => h.known occurrence (hknows occurrence hmem)

theorem Grows.places (h : layout.Grows scopes later grown) {context : Context} {stmt : Stmt}
    (hplaces : layout.Places context stmt) : later.Places context stmt :=
  ⟨hplaces.structured, h.knows hplaces.knows⟩

theorem Grows.placesAll (h : layout.Grows scopes later grown) {context : Context}
    {body : List Stmt} (hplaces : layout.PlacesAll context body) :
    later.PlacesAll context body :=
  ⟨hplaces.structured, h.knows hplaces.knows⟩

theorem Resumes.mono {awaited : Awaited} {id : ScopeId} {context : Context}
    {frames : List Frame} (h : layout.Resumes scopes awaited id context frames)
    (hgrows : layout.Grows scopes later grown) :
    later.Resumes grown awaited id context frames := by
  have hknown := hgrows.known
  induction h with
  | unary _ ih => exact .unary ih
  | left hright _ ih => exact .left (hgrows.knows hright) ih
  | right _ ih => exact .right ih
  | logical hright _ ih => exact .logical (hgrows.knows hright) ih
  | assign hwrite _ ih => exact .assign (hknown _ hwrite) ih
  | callee hargs _ ih => exact .callee (hgrows.knows hargs) ih
  | argument hrest _ ih => exact .argument (hgrows.knows hrest) ih
  | discard _ ih => exact .discard ih
  | print _ ih => exact .print ih
  | declare hname _ ih => exact .declare (hknown _ hname) ih
  | giveBack _ ih => exact .giveBack ih
  | branch hbranches _ ih =>
    exact .branch (fun stmt hstmt => (hbranches stmt hstmt).imp_right hgrows.places) ih
  | loopTest hloop _ ih => exact .loopTest (hgrows.places hloop) ih
  | gather hargs _ ih => exact .gather (hgrows.knows hargs) ih
  | loopBody hloop _ ih => exact .loopBody (hgrows.places hloop) ih
  | block hrest hfits _ ih => exact .block (hgrows.placesAll hrest) (hfits.mono hgrows) ih
  | call _ ih => exact .call ih
  | program hrest => exact .program (hgrows.placesAll hrest)
  | rest => exact .rest

end Layout

namespace Machine

/-- The machine stands at a point of a program. -/
inductive Stands (layout : Layout) : Machine → Prop where
  | eval {expr frames state} {context : Context} :
    layout.Fits state.scopes state.current context →
    layout.Knows (context.occurrences (Expr.references expr)) →
    layout.Resumes state.scopes .value state.current context frames →
    Stands layout ⟨.eval expr, frames, state⟩
  | exec {stmt frames state} {context : Context} :
    layout.Fits state.scopes state.current context → layout.Places context stmt →
    layout.Resumes state.scopes .finish state.current (stmt.after context) frames →
    Stands layout ⟨.exec stmt, frames, state⟩
  | gather {gathering frames state} {context : Context} :
    layout.Fits state.scopes state.current context →
    layout.Knows (context.occurrences (Gathering.references gathering)) →
    layout.Resumes state.scopes .finish state.current context frames →
    Stands layout ⟨.gather gathering, frames, state⟩
  | value {held frames state} {context : Context} :
    layout.Fits state.scopes state.current context →
    layout.Resumes state.scopes .value state.current context frames →
    Stands layout ⟨.value held, frames, state⟩
  | done {frames state} {context : Context} :
    layout.Fits state.scopes state.current context →
    layout.Resumes state.scopes .finish state.current context frames →
    Stands layout ⟨.done, frames, state⟩
  | returning {held frames state} {context : Context} :
    layout.Fits state.scopes state.current context →
    layout.Resumes state.scopes .finish state.current context frames →
    Stands layout ⟨.returning held, frames, state⟩
  | halting {halt frames state} : Stands layout ⟨.halting halt, frames, state⟩

theorem Stands.doneAt {layout : Layout} {state : Interpreter} {frames : List Frame}
    {context : Context} {id : ScopeId} (hat : state.current = id)
    (hfits : layout.Fits state.scopes id context)
    (hframes : layout.Resumes state.scopes .finish id context frames) :
    Stands layout ⟨.done, frames, state⟩ := by
  subst hat
  exact .done hfits hframes

theorem Stands.returningAt {layout : Layout} {held : Value} {state : Interpreter}
    {frames : List Frame} {context : Context} {id : ScopeId} (hat : state.current = id)
    (hfits : layout.Fits state.scopes id context)
    (hframes : layout.Resumes state.scopes .finish id context frames) :
    Stands layout ⟨.returning held, frames, state⟩ := by
  subst hat
  exact .returning hfits hframes

/-- What a call opens a scope for. -/
def callOpens (callee : Value) (args : List Value) (depth : Nat) : Option Origin :=
  match callee with
  | .function decl _ _ =>
    if args.length = decl.params.length ∧ depth < maxCallDepth then some (.function decl)
    else none
  | _ => none

/-- What the next step opens a scope for. -/
def opens? (machine : Machine) : Option Origin :=
  match machine.control, machine.frames with
  | .exec (.block body), _ => some (.block body)
  | .value callee, .callee [] _ :: _ => callOpens callee [] machine.state.callDepth
  | .value last, .argument callee before [] _ :: _ =>
    callOpens callee (last :: before).reverse machine.state.callDepth
  | _, _ => none

/-- From a state, a machine has come to stand in a store that has grown by the scope that
was opened. -/
structure Continues (layout : Layout) (before : Interpreter) (opened : Option Origin)
    (later : Layout) (next : Machine) : Prop where
  grows : layout.Grows before.scopes later next.state.scopes
  known : later.known = layout.known
  globals : next.state.globals = before.globals
  opened : ∀ id, before.scopes.nextId ≤ id → id < next.state.scopes.nextId →
    id = before.scopes.nextId ∧ opened = some (later.origin id)
  sound : later.Sound next.state.scopes
  stands : Stands later next

/-- A step to a machine that stands, as far as scopes are concerned. -/
def Proceeds (layout : Layout) (before : Interpreter) (opened : Option Origin)
    (next : Machine) : Prop :=
  ∃ later, Continues layout before opened later next

section Steps

variable {setting : Setting} {layout : Layout} {state : Interpreter} {frames : List Frame}
  {opened : Option Origin}

/-- A step that does not change the store. -/
theorem Proceeds.same {next : Machine} (hsound : layout.Sound state.scopes)
    (hscopes : next.state.scopes = state.scopes) (hglobals : next.state.globals = state.globals)
    (hstands : Stands layout next) : Proceeds layout state opened next := by
  refine ⟨layout, ?_, rfl, hglobals, fun id hle hlt => ?_, ?_, hstands⟩
  · rw [hscopes]
    exact .refl _ _
  · rw [hscopes] at hlt
    exact absurd hlt (Nat.not_lt.mpr hle)
  · rwa [hscopes]

/-- A step that binds a name. -/
theorem Proceeds.define {next : Machine} (hsound : layout.Sound state.scopes) {id : ScopeId}
    {name : String} {value : Value}
    (hscopes : next.state.scopes = state.scopes.define id name value)
    (hglobals : next.state.globals = state.globals)
    (hvalue : layout.Admits next.state.scopes value)
    (hname : (layout.origin id).Declares name)
    (hstands : Stands layout next) : Proceeds layout state opened next := by
  refine ⟨layout, ?_, rfl, hglobals, fun id hle hlt => ?_, ?_, hstands⟩
  · rw [hscopes]
    exact .define _ _ _ _ _
  · rw [hscopes, Scopes.nextId_define] at hlt
    exact absurd hlt (Nat.not_lt.mpr hle)
  · rw [hscopes] at hvalue ⊢
    exact hsound.define hvalue hname

theorem proceeds_raise (hsound : layout.Sound state.scopes) (fault : RuntimeFault) (line : Nat) :
    Proceeds layout state opened (raise fault line frames state) :=
  .same hsound rfl rfl .halting

/-! ## Expressions and statements -/

theorem proceeds_stepEval (hsound : layout.Sound state.scopes) {expr : Expr}
    {context : Context} (hfits : layout.Fits state.scopes state.current context)
    (hknows : layout.Knows (context.occurrences expr.references))
    (hframes : layout.Resumes state.scopes .value state.current context frames) :
    Proceeds layout state opened (stepEval setting expr frames state) := by
  have hvalue : ∀ held, Proceeds layout state opened ⟨.value held, frames, state⟩ :=
    fun held => .same hsound rfl rfl (.value hfits hframes)
  cases expr with
  | literal value line => exact hvalue _
  | commandRef name line => exact hvalue _
  | grouping inner line => exact .same hsound rfl rfl (.eval hfits hknows hframes)
  | unary op operand line => exact .same hsound rfl rfl (.eval hfits hknows hframes.unary)
  | binary op left right line =>
    obtain ⟨hleft, hright⟩ := Layout.knows_append.mp hknows
    exact .same hsound rfl rfl (.eval hfits hleft (hframes.left hright))
  | logical op left right line =>
    obtain ⟨hleft, hright⟩ := Layout.knows_append.mp hknows
    exact .same hsound rfl rfl (.eval hfits hleft (hframes.logical hright))
  | «variable» id name line =>
    simp only [stepEval]
    split
    · exact hvalue _
    · exact proceeds_raise hsound _ _
  | assign id name value line =>
    obtain ⟨hread, hwrite⟩ := Layout.knows_append.mp hknows
    exact .same hsound rfl rfl (.eval hfits hread (hframes.assign (hwrite _ List.mem_cons_self)))
  | call callee args line =>
    obtain ⟨hcallee, hargs⟩ := Layout.knows_append.mp hknows
    exact .same hsound rfl rfl (.eval hfits hcallee (hframes.callee hargs))

theorem proceeds_block (hsound : layout.Sound state.scopes) {body : List Stmt}
    {context : Context} (hfits : layout.Fits state.scopes state.current context)
    (hplaces : layout.Places context (.block body))
    (hframes : layout.Resumes state.scopes .finish state.current context frames) :
    Proceeds layout state (some (.block body))
      ⟨.done, .block body state.current :: frames, state.enter state.current⟩ := by
  have hgrows := Layout.Grows.add layout state.scopes (some state.current) (.block body)
  have hinner : (layout.opening state.scopes.nextId (.block body)).Fits
      (state.scopes.add (some state.current)) state.scopes.nextId (.ofBlock body :: context) := by
    refine .inner (by simp [Level.ofBlock]) (if_pos rfl) (fun name hready => ?_)
      (Scopes.parent?_add_new (hfits.lt hsound)) (hfits.mono hgrows)
    exact absurd hready Level.not_ready_ofBlock
  refine ⟨_, hgrows, rfl, rfl, fun id hle hlt => ?_, hsound.add _ _, .done hinner ?_⟩
  · have hnext : id < state.scopes.nextId + 1 := (Scopes.nextId_add _ _) ▸ hlt
    have hid : id = state.scopes.nextId := Nat.le_antisymm (Nat.lt_succ_iff.mp hnext) hle
    exact ⟨hid, congrArg some (if_pos hid).symm⟩
  · exact .block ⟨hplaces.structured, hgrows.knows hplaces.knows⟩ (hfits.mono hgrows)
      (hframes.mono hgrows)

/-- A declaration binds its name in the current scope. -/
theorem proceeds_declaration (hsound : layout.Sound state.scopes)
    (hregular : ∀ occurrence, layout.known occurrence → occurrence.WellPlaced)
    {context : Context} {name : String}
    (hfits : layout.Fits state.scopes state.current (context.declare name))
    (hname : layout.known ⟨context, .declare name⟩)
    (hframes : layout.Resumes state.scopes .finish state.current
      ((context.declare name).define name) frames)
    {next : Interpreter} {value : Value}
    (hscopes : next.scopes = state.scopes.define state.current name value)
    (hglobals : next.globals = state.globals) (hcurrent : next.current = state.current)
    (hvalue : layout.Fits next.scopes state.current ((context.declare name).define name) →
      layout.Admits next.scopes value) :
    Proceeds layout state opened ⟨.done, frames, next⟩ := by
  have hgrows : layout.Grows state.scopes layout next.scopes := hscopes ▸ .define _ _ _ _ _
  have hbound : (next.scopes.local? state.current name).isSome := by
    rw [hscopes, Scopes.local?_define (hfits.lt hsound), if_pos ⟨rfl, rfl⟩]
    rfl
  have hafter := (hfits.mono hgrows).define hbound
  have hdeclares : (layout.origin state.current).Declares name := by
    obtain ⟨level, outer, rfl⟩ := Layout.exists_cons hfits
    have horigin : (level.declare name).origin = level.origin := Level.origin_after level name
    rw [hfits.origin_eq hsound, horigin]
    exact ((hregular _ hname).head level rfl).2 name rfl
  have hvalue := hvalue hafter
  have hlater := hframes.mono hgrows
  rw [← hcurrent] at hafter hlater
  exact .define hsound hscopes hglobals hvalue hdeclares (.done hafter hlater)

theorem proceeds_stepExec (hsound : layout.Sound state.scopes)
    (hregular : ∀ occurrence, layout.known occurrence → occurrence.WellPlaced) {stmt : Stmt}
    {context : Context} (hfits : layout.Fits state.scopes state.current context)
    (hplaces : layout.Places context stmt)
    (hframes : layout.Resumes state.scopes .finish state.current (stmt.after context) frames) :
    Proceeds layout state (opens? ⟨.exec stmt, frames, state⟩) (stepExec stmt frames state) := by
  have hknows := hplaces.knows
  cases stmt with
  | block body => exact proceeds_block hsound hfits hplaces hframes
  | expression expr line => exact .same hsound rfl rfl (.eval hfits hknows hframes.discard)
  | branch condition thenBranch elseBranch line =>
    obtain ⟨hcondition, hbranches⟩ := hplaces.branch
    exact .same hsound rfl rfl (.eval hfits hcondition (hframes.branch hbranches))
  | loop condition body line =>
    obtain ⟨hcondition, -⟩ := List.forall_mem_append.mp hknows
    have hloop : layout.Places context (.loop condition body 0) := ⟨hplaces.structured, hknows⟩
    exact .same hsound rfl rfl (.eval hfits hcondition (hframes.loopTest hloop))
  | print expr line => exact .same hsound rfl rfl (.eval hfits hknows hframes.print)
  | «return» value line =>
    cases value with
    | none => exact .same hsound rfl rfl (.returning hfits hframes)
    | some value =>
      obtain ⟨-, hvalue⟩ := List.forall_mem_cons.mp hknows
      exact .same hsound rfl rfl (.eval hfits hvalue hframes.giveBack)
  | declare name initializer line =>
    obtain ⟨hname, hinitializer⟩ := List.forall_mem_cons.mp hknows
    have hdeclared := hfits.declare name
    cases initializer with
    | none =>
      exact proceeds_declaration hsound hregular hdeclared hname hframes rfl rfl rfl
        fun _ => trivial
    | some initializer =>
      exact .same hsound rfl rfl (.eval hdeclared hinitializer (hframes.declare hname))
  | function name params body line =>
    obtain ⟨hname, hrest⟩ := List.forall_mem_cons.mp hknows
    obtain ⟨-, hbody⟩ := List.forall_mem_append.mp hrest
    have htrack : state.trackCurrent.scopes = state.scopes ∧
        state.trackCurrent.globals = state.globals ∧
        state.trackCurrent.current = state.current := by
      unfold Interpreter.trackCurrent
      split <;> exact ⟨rfl, rfl, rfl⟩
    obtain ⟨hscopes, hglobals, hcurrent⟩ := htrack
    refine proceeds_declaration hsound hregular (hfits.declare name) hname hframes
      (congrArg (Scopes.define · state.current name _) hscopes) hglobals hcurrent
      fun hafter => ⟨_, hafter, hplaces.structured, hbody⟩
  | command action =>
    cases action with
    | deliver word args line => exact .same hsound rfl rfl (.gather hfits hknows hframes)
    | help topic line =>
      simp only [stepExec]
      split
      · rename_i carried _ hcarried
        obtain rfl : (state.carryOut (.help topic)).1 = carried := congrArg Prod.fst hcarried
        exact .same hsound rfl rfl (.done hfits hframes)
      · rename_i carried hcarried
        obtain rfl : (state.carryOut (.help topic)).1 = carried := congrArg Prod.fst hcarried
        exact .same hsound rfl rfl .halting
    | exit line => exact .same hsound rfl rfl .halting

theorem proceeds_stepGather (hsound : layout.Sound state.scopes) {gathering : Gathering}
    {context : Context} (hfits : layout.Fits state.scopes state.current context)
    (hknows : layout.Knows (context.occurrences gathering.references))
    (hframes : layout.Resumes state.scopes .finish state.current context frames) :
    Proceeds layout state opened (stepGather gathering frames state) := by
  obtain ⟨word, line, map, parameter, rest⟩ := gathering
  cases parameter with
  | some parameter =>
    obtain ⟨name, values, pending⟩ := parameter
    cases pending with
    | nil => exact .same hsound rfl rfl (.gather hfits hknows hframes)
    | cons value more =>
      cases value with
      | word text => exact .same hsound rfl rfl (.gather hfits hknows hframes)
      | expr expr =>
        have hsplit : Gathering.references
            ⟨word, line, map, some ⟨name, values, .expr expr :: more⟩, rest⟩ =
            expr.references ++
              Gathering.references ⟨word, line, map, some ⟨name, values, more⟩, rest⟩ := by
          simp [Gathering.references, ArgValue.references]
        rw [hsplit] at hknows
        obtain ⟨hexpr, hlater⟩ := Layout.knows_append.mp hknows
        exact .same hsound rfl rfl (.eval hfits hexpr (hframes.gather hlater))
  | none =>
    cases rest with
    | nil => exact .same hsound rfl rfl (.done hfits hframes)
    | cons arg more =>
      cases arg with
      | flag name => exact .same hsound rfl rfl (.gather hfits hknows hframes)
      | parameter name values =>
        have hsame : Gathering.references ⟨word, line, map, some ⟨name, [], values⟩, more⟩ =
            Gathering.references ⟨word, line, map, none, .parameter name values :: more⟩ := by
          simp [Gathering.references, Arg.references]
        rw [← hsame] at hknows
        exact .same hsound rfl rfl (.gather hfits hknows hframes)
      | positional value =>
        cases value with
        | word text => exact .same hsound rfl rfl (.gather hfits hknows hframes)
        | expr expr =>
          have hsplit : Gathering.references
              ⟨word, line, map, none, .positional (.expr expr) :: more⟩ =
              expr.references ++ Gathering.references ⟨word, line, map, none, more⟩ := rfl
          rw [hsplit] at hknows
          obtain ⟨hexpr, hlater⟩ := Layout.knows_append.mp hknows
          exact .same hsound rfl rfl (.eval hfits hexpr (hframes.gather hlater))

/-! ## Calls -/

/-- Binding parameters of a new scope. -/
theorem bindAll_spec (id : ScopeId) {later : Layout} {params : List String} {args : List Value}
    {entered : Interpreter} (hsound : later.Sound entered.scopes)
    (hid : id < entered.scopes.nextId)
    (hargs : ∀ arg ∈ args, later.Admits entered.scopes arg)
    (hparams : ∀ name ∈ params, (later.origin id).Declares name) :
    later.Sound (entered.bindAll id params args).scopes ∧
      later.Grows entered.scopes later (entered.bindAll id params args).scopes ∧
      (entered.bindAll id params args).scopes.nextId = entered.scopes.nextId ∧
      (entered.bindAll id params args).globals = entered.globals ∧
      (entered.bindAll id params args).current = entered.current ∧
      (args.length = params.length → ∀ name ∈ params,
        ((entered.bindAll id params args).scopes.local? id name).isSome) := by
  induction params generalizing entered args with
  | nil =>
    cases args <;> exact ⟨hsound, .refl _ _, rfl, rfl, rfl, fun _ _ hnil => by cases hnil⟩
  | cons name rest ih =>
    cases args with
    | nil => exact ⟨hsound, .refl _ _, rfl, rfl, rfl, fun hlength => by cases hlength⟩
    | cons arg more =>
      have hgrows := Layout.Grows.define later entered.scopes id name arg
      obtain ⟨hname, hrest⟩ := List.forall_mem_cons.mp hparams
      obtain ⟨harg, hmore⟩ := List.forall_mem_cons.mp hargs
      have hnext : (entered.scopes.define id name arg).nextId = entered.scopes.nextId :=
        Scopes.nextId_define _ _ _ _
      have hdefined : later.Sound (entered.define id name arg).scopes :=
        hsound.define (harg.mono hgrows) hname
      obtain ⟨hfinal, hlater, hsame, hglobals, hcurrent, hbound⟩ := ih hdefined
        (hnext.symm ▸ hid) (fun arg harg => (hmore arg harg).mono hgrows) hrest
      refine ⟨hfinal, hgrows.trans hlater, hsame.trans hnext, hglobals, hcurrent, ?_⟩
      intro hlength
      have hlengths : more.length = rest.length := Nat.succ.inj hlength
      refine List.forall_mem_cons.mpr ⟨?_, hbound hlengths⟩
      refine hlater.local? id name ?_
      show ((entered.scopes.define id name arg).local? id name).isSome
      rw [Scopes.local?_define hid, if_pos ⟨rfl, rfl⟩]
      rfl

theorem proceeds_enterBody (state : Interpreter) (hsound : layout.Sound state.scopes)
    {decl : FunctionDecl}
    {closure : ScopeId} {identity : Nat}
    (hcallee : layout.Admits state.scopes (.function decl closure identity)) {args : List Value}
    (hargs : ∀ arg ∈ args, layout.Admits state.scopes arg)
    (hlength : args.length = decl.params.length) {context : Context}
    (hfits : layout.Fits state.scopes state.current context)
    (hframes : layout.Resumes state.scopes .finish state.current context frames) :
    Proceeds layout state (some (.function decl))
      (enterBody decl closure args frames state) := by
  obtain ⟨surrounding, hclosure, hbody⟩ := hcallee
  have hadd := Layout.Grows.add layout state.scopes (some closure) (.function decl)
  have hid : state.scopes.nextId < (state.scopes.add (some closure)).nextId := by
    rw [Scopes.nextId_add]
    exact Nat.lt_succ_self _
  have horigin : (layout.opening state.scopes.nextId (.function decl)).origin
      state.scopes.nextId = .function decl := if_pos rfl
  have hentered : (layout.opening state.scopes.nextId (.function decl)).Sound
      (state.enter closure).scopes := hsound.add _ _
  have hparams : ∀ name ∈ decl.params, ((layout.opening state.scopes.nextId
      (.function decl)).origin state.scopes.nextId).Declares name := by
    intro name hname
    rw [horigin]
    exact .inl hname
  obtain ⟨hfinal, hbind, hsame, hglobals, hcurrent, hbound⟩ := bindAll_spec state.scopes.nextId
    hentered hid (fun arg harg => (hargs arg harg).mono hadd) hparams
  have hgrows := hadd.trans hbind
  have hparent := (hbind.parent? _ hid).trans (Scopes.parent?_add_new (hclosure.lt hsound))
  have hnext := hsame.trans (Scopes.nextId_add state.scopes (some closure))
  have hunfold : enterBody decl closure args frames state =
      ⟨.done, .block decl.body state.current :: frames,
        (state.enter closure).bindAll state.scopes.nextId decl.params args⟩ := rfl
  rw [hunfold]
  generalize (state.enter closure).bindAll state.scopes.nextId decl.params args = final at *
  have hinner : (layout.opening state.scopes.nextId (.function decl)).Fits final.scopes
      state.scopes.nextId (.ofFunction decl :: surrounding) := by
    refine .inner ?_ ?_ (fun name hready => ?_) hparent (hclosure.mono hgrows)
    · rw [Level.origin_ofFunction]
      exact fun h => by cases h
    · rw [Level.origin_ofFunction, horigin]
    · exact hbound hlength name (Level.ready_ofFunction.mp hready)
  have hresumes : (layout.opening state.scopes.nextId (.function decl)).Resumes final.scopes
      .finish state.scopes.nextId (.ofFunction decl :: surrounding)
      (.block decl.body state.current :: frames) :=
    .block (hgrows.placesAll hbody) (hfits.mono hgrows) (hframes.mono hgrows)
  refine ⟨_, hgrows, rfl, hglobals, fun id hle hlt => ?_, hfinal, .doneAt hcurrent hinner hresumes⟩
  rw [hnext] at hlt
  have heq : id = state.scopes.nextId := Nat.le_antisymm (Nat.lt_succ_iff.mp hlt) hle
  rw [heq, horigin]
  exact ⟨rfl, rfl⟩

theorem proceeds_call (hsound : layout.Sound state.scopes) {callee : Value} {args : List Value}
    (hcallee : layout.Admits state.scopes callee)
    (hargs : ∀ arg ∈ args, layout.Admits state.scopes arg) {context : Context}
    (hfits : layout.Fits state.scopes state.current context)
    (hframes : layout.Resumes state.scopes .value state.current context frames) (line : Nat) :
    Proceeds layout state (callOpens callee args state.callDepth)
      (call setting callee args line frames state) := by
  cases callee with
  | function decl closure identity =>
    simp only [call, callOpens]
    by_cases hlength : args.length = decl.params.length
    · by_cases hdepth : maxCallDepth ≤ state.callDepth
      · rw [if_neg (not_not_intro hlength), if_pos hdepth]
        exact proceeds_raise hsound _ _
      · rw [if_neg (not_not_intro hlength), if_neg hdepth,
          if_pos ⟨hlength, Nat.not_le.mp hdepth⟩]
        obtain ⟨later, ⟨hgrows, hknown, hglobals, hopened, hfinal, hstands⟩⟩ :=
          proceeds_enterBody { state with callDepth := state.callDepth + 1 } hsound hcallee hargs
            hlength hfits hframes.call
        exact ⟨later, ⟨hgrows, hknown, hglobals, hopened, hfinal, hstands⟩⟩
    · rw [if_pos hlength]
      exact proceeds_raise hsound _ _
  | native native identity =>
    simp only [call]
    split
    · exact proceeds_raise hsound _ _
    · split
      · exact proceeds_raise hsound _ _
      · unfold answer
        split
        · exact .same hsound rfl rfl (.value hfits hframes)
        · exact .same hsound rfl rfl .halting
  | _ => exact proceeds_raise hsound _ _

theorem proceeds_nextArgument (hsound : layout.Sound state.scopes) {callee : Value}
    {before : List Value}
    (hcallee : layout.Admits state.scopes callee)
    (hbefore : ∀ arg ∈ before, layout.Admits state.scopes arg) {rest : List Expr}
    {context : Context} (hfits : layout.Fits state.scopes state.current context)
    (hknows : layout.Knows (context.occurrences (Expr.referencesAll rest)))
    (hframes : layout.Resumes state.scopes .value state.current context frames) (line : Nat)
    (hopened : rest = [] → opened = callOpens callee before.reverse state.callDepth) :
    Proceeds layout state opened
      (nextArgument setting callee before rest line frames state) := by
  cases rest with
  | nil =>
    rw [hopened rfl]
    exact proceeds_call hsound hcallee
      (fun arg harg => hbefore arg (List.mem_reverse.mp harg)) hfits hframes line
  | cons arg more =>
    obtain ⟨harg, hmore⟩ := Layout.knows_append.mp hknows
    exact .same hsound rfl rfl (.eval hfits harg (hframes.argument hmore))

/-! ## Values, ends and what breaks off -/

theorem proceeds_deliver (hsound : layout.Sound state.scopes) {context : Context}
    (hfits : layout.Fits state.scopes state.current context)
    (hframes : layout.Resumes state.scopes .value state.current context frames)
    (outcome : Except RuntimeFault Value) (line : Nat) :
    Proceeds layout state opened (deliver outcome line frames state) := by
  cases outcome with
  | ok value => exact .same hsound rfl rfl (.value hfits hframes)
  | error fault => exact proceeds_raise hsound _ _

/-- A value that joins a command leaves the pending arguments as they are. -/
theorem Gathering.references_receive (gathering : CommandScript.Gathering) (value : Value) :
    (Gathering.receive gathering value).references = gathering.references := by
  obtain ⟨word, line, map, parameter, rest⟩ := gathering
  cases parameter <;> rfl

theorem proceeds_stepValue (hsound : layout.Sound state.scopes)
    (hregular : ∀ occurrence, layout.known occurrence → occurrence.WellPlaced)
    {value : Value} (hvalue : layout.Admits state.scopes value) {frame : Frame}
    (hframe : frame.Holds (layout.Admits state.scopes) fun _ => True)
    {context : Context} (hfits : layout.Fits state.scopes state.current context)
    (hframes : layout.Resumes state.scopes .value state.current context (frame :: frames)) :
    Proceeds layout state (opens? ⟨.value value, frame :: frames, state⟩)
      (stepValue setting value frame frames state) := by
  cases hframes with
  | unary hrest => exact proceeds_deliver hsound hfits hrest _ _
  | left hright hrest => exact .same hsound rfl rfl (.eval hfits hright hrest.right)
  | right hrest => exact proceeds_deliver hsound hfits hrest _ _
  | logical hright hrest =>
    simp only [stepValue]
    split
    · exact .same hsound rfl rfl (.value hfits hrest)
    · exact .same hsound rfl rfl (.eval hfits hright hrest)
  | assign hwrite hrest =>
    rename_i node name line
    simp only [stepValue]
    split
    · rename_i scope htarget
      have hbound := state.local?_of_target? htarget
      obtain ⟨old, hold⟩ := Option.isSome_iff_exists.mp hbound
      obtain ⟨-, hdeclares⟩ := hsound.bindings scope _ old (Scopes.binds_of_local? hold)
      have hgrows : layout.Grows state.scopes layout (state.define scope name value).scopes :=
        .define _ _ _ _ _
      exact .define hsound rfl rfl (hvalue.mono hgrows) hdeclares
        (.value (hfits.mono hgrows) (hrest.mono hgrows))
    · exact proceeds_raise hsound _ _
  | callee hargs hrest =>
    refine proceeds_nextArgument hsound hvalue (fun _ hnil => by cases hnil) hfits hargs hrest _ ?_
    rintro rfl
    rfl
  | argument hargs hrest =>
    refine proceeds_nextArgument hsound hframe.1 (List.forall_mem_cons.mpr ⟨hvalue, hframe.2⟩)
      hfits hargs hrest _ ?_
    rintro rfl
    rfl
  | discard hrest => exact .same hsound rfl rfl (.done hfits hrest)
  | print hrest =>
    simp only [stepValue]
    split
    · rename_i written hwritten
      obtain rfl : (state.write (value.text ++ "\n")).1 = written := congrArg Prod.fst hwritten
      exact .same hsound rfl rfl (.done hfits hrest)
    · rename_i written hwritten
      obtain rfl : (state.write (value.text ++ "\n")).1 = written := congrArg Prod.fst hwritten
      exact .same hsound rfl rfl .halting
  | declare hname hrest =>
    exact proceeds_declaration hsound hregular hfits hname hrest rfl rfl rfl
      fun _ => hvalue.mono (.define _ _ _ _ _)
  | giveBack hrest => exact .same hsound rfl rfl (.returning hfits hrest)
  | branch hbranches hrest =>
    rename_i thenBranch elseBranch
    have hexec : ∀ stmt ∈ thenBranch :: Option.toList elseBranch,
        Proceeds layout state none ⟨.exec stmt, frames, state⟩ := by
      intro stmt hstmt
      obtain ⟨hplain, hplaces⟩ := hbranches stmt hstmt
      rw [← Stmt.after_of_not_declared hplain context] at hrest
      exact .same hsound rfl rfl (.exec hfits hplaces hrest)
    simp only [stepValue]
    split
    · exact hexec _ List.mem_cons_self
    · split
      · exact hexec _ (List.mem_cons_of_mem _ List.mem_cons_self)
      · exact .same hsound rfl rfl (.done hfits hrest)
  | loopTest hloop hrest =>
    have hagain := hrest.loopBody hloop
    obtain ⟨⟨hplain, hbody⟩, hknows⟩ := hloop
    obtain ⟨-, hplaces⟩ := List.forall_mem_append.mp hknows
    simp only [stepValue]
    split
    · rw [← Stmt.after_of_not_declared hplain context] at hagain
      exact .same hsound rfl rfl (.exec hfits ⟨hbody, hplaces⟩ hagain)
    · exact .same hsound rfl rfl (.done hfits hrest)
  | gather hargs hrest =>
    refine .same hsound rfl rfl (.gather hfits ?_ hrest)
    rwa [Gathering.references_receive]

theorem proceeds_stepDone (hsound : layout.Sound state.scopes) {frame : Frame}
    {context : Context} (hfits : layout.Fits state.scopes state.current context)
    (hframes : layout.Resumes state.scopes .finish state.current context (frame :: frames)) :
    Proceeds layout state opened (stepDone setting.keeping frame frames state) := by
  cases hframes with
  | loopBody hloop hrest =>
    obtain ⟨hcondition, -⟩ := List.forall_mem_append.mp hloop.knows
    exact .same hsound rfl rfl (.eval hfits hcondition (hrest.loopTest hloop))
  | block hbody houter hrest =>
    rename_i rest outer surrounding
    cases rest with
    | nil => exact .same hsound rfl rfl (.doneAt rfl houter hrest)
    | cons stmt more =>
      obtain ⟨hstmt, hmore⟩ := hbody.cons
      exact .same hsound rfl rfl (.exec hfits hstmt (.block hmore houter hrest))
  | call hrest => exact .same hsound rfl rfl (.value hfits hrest)
  | program hbody =>
    rename_i rest
    cases rest with
    | nil => exact .same hsound rfl rfl (.done hfits .rest)
    | cons stmt more =>
      obtain ⟨hstmt, hmore⟩ := hbody.cons
      exact .same hsound rfl rfl (.exec hfits hstmt (.program hmore))

theorem proceeds_stepReturning (hsound : layout.Sound state.scopes) (value : Value)
    {frame : Frame} {context : Context}
    (hfits : layout.Fits state.scopes state.current context)
    (hframes : layout.Resumes state.scopes .finish state.current context (frame :: frames)) :
    Proceeds layout state opened (stepReturning value frame frames state) := by
  cases hframes with
  | loopBody hloop hrest => exact .same hsound rfl rfl (.returning hfits hrest)
  | block hbody houter hrest =>
    exact .same hsound rfl rfl (.returningAt rfl houter hrest)
  | call hrest => exact .same hsound rfl rfl (.value hfits hrest)
  | program hbody => exact .same hsound rfl rfl (.done hfits (.program hbody))

theorem proceeds_stepHalting (hsound : layout.Sound state.scopes) (halt : Halt)
    (frame : Frame) : Proceeds layout state opened (stepHalting halt frame frames state) := by
  unfold stepHalting
  split <;> exact .same hsound rfl rfl .halting

end Steps

/-- The scopes of a machine fit, it stands, and the values it holds are admitted. -/
structure Sound (layout : Layout) (machine : Machine) : Prop where
  globals : machine.state.globals = layout.globals
  store : layout.Sound machine.state.scopes
  holds : machine.Holds (layout.Admits machine.state.scopes) fun _ => True
  stands : Stands layout machine

/-- What programs read and what natives answer is admitted. -/
theorem supplies {setting : Setting} (hnative : setting.NativesMakeNoFunctions)
    {layout : Layout} {state : Interpreter} (h : layout.Sound state.scopes) :
    Supplies setting.keeping (layout.Admits state.scopes) (fun _ => True) state where
  plain _ hplain := Layout.admits_of_plain hplain
  read id name value hread := by
    obtain ⟨scope, -, hvalue⟩ := Option.bind_eq_some_iff.mp hread
    exact (h.bindings scope name value (Scopes.binds_of_local? hvalue)).1
  native native args line value hargs hanswer :=
    (hnative native args line value hanswer).elim Layout.admits_of_plain (hargs value)
  current := trivial

/-- A step of a machine that does not collect scopes keeps it sound. -/
theorem Sound.step {setting : Setting} (hnative : setting.NativesMakeNoFunctions)
    {layout : Layout} (hregular : ∀ occurrence, layout.known occurrence → occurrence.WellPlaced)
    {machine : Machine} (h : machine.Sound layout) :
    ∃ later, Continues layout machine.state machine.opens? later (machine.step setting.keeping) ∧
      (machine.step setting.keeping).Sound later := by
  obtain ⟨hglobals, hstore, hholds, hstands⟩ := h
  have hproceeds : Proceeds layout machine.state machine.opens?
      (machine.step setting.keeping) := by
    cases hstands with
    | eval hfits hknows hframes => exact proceeds_stepEval hstore hfits hknows hframes
    | exec hfits hplaces hframes => exact proceeds_stepExec hstore hregular hfits hplaces hframes
    | gather hfits hknows hframes => exact proceeds_stepGather hstore hfits hknows hframes
    | value hfits hframes =>
      rename_i held frames state context
      cases frames with
      | nil => cases hframes
      | cons frame rest =>
        have hframe := hholds.frames frame List.mem_cons_self
        exact proceeds_stepValue hstore hregular hholds.control hframe hfits hframes
    | done hfits hframes =>
      rename_i frames state context
      cases frames with
      | nil => exact .same hstore rfl rfl (.done hfits hframes)
      | cons frame rest => exact proceeds_stepDone hstore hfits hframes
    | returning hfits hframes =>
      rename_i held frames state context
      cases frames with
      | nil => exact .same hstore rfl rfl (.returning hfits hframes)
      | cons frame rest => exact proceeds_stepReturning hstore held hfits hframes
    | halting =>
      rename_i halt frames state
      cases frames with
      | nil => exact .same hstore rfl rfl .halting
      | cons frame rest => exact proceeds_stepHalting hstore halt frame
  obtain ⟨later, hcontinues⟩ := hproceeds
  refine ⟨later, hcontinues, ?_, hcontinues.sound, ?_, hcontinues.stands⟩
  · exact hcontinues.globals.trans (hglobals.trans hcontinues.grows.globals.symm)
  · refine (hholds.step (supplies hnative hstore)).mono (fun value hvalue => ?_) fun _ h => h
    exact hvalue.mono hcontinues.grows

end Machine

end CommandScript
