import CommandScript.Proofs.Resolution.Placement
import CommandScript.Proofs.Resolution.Recording
import CommandScript.Proofs.Syntax.Lines
import Mathlib.Data.List.Forall2

/-!
# Programs after other programs

A program may be resolved by itself or after another program in the same top level. In the
second case the top level has declared some names earlier. All other levels are the same,
so a name is found at the same distance, unless only the top level declares it, and only
earlier. Whatever is permitted after the other program is permitted without it.

* `Context.Over`: two contexts, the second of which has earlier names at the top.
* `Context.Over.distance?_eq`: the distances of a name in both.
* `Stmt.occurrencesAll_over`: the occurrences of a program by itself and after another one,
  in which it may stand on other lines.
* `Stmt.Accepted.of_append`: the parts of an accepted program.
-/

namespace CommandScript

/-! ## References -/

section References

variable (f : Nat → Nat)

mutual

theorem Expr.references_mapLines (expr : Expr) :
    (expr.mapLines f).references = expr.references := by
  match expr with
  | .literal .. | .variable .. | .commandRef .. => rfl
  | .grouping inner _ | .unary _ inner _ =>
    simp only [Expr.mapLines, Expr.references, inner.references_mapLines]
  | .assign id name value _ =>
    simp only [Expr.mapLines, Expr.references, value.references_mapLines]
  | .binary _ left right _ | .logical _ left right _ =>
    simp only [Expr.mapLines, Expr.references, left.references_mapLines,
      right.references_mapLines]
  | .call callee args _ =>
    simp only [Expr.mapLines, Expr.references, callee.references_mapLines,
      Expr.referencesAll_mapLines args]

theorem Expr.referencesAll_mapLines (exprs : List Expr) :
    Expr.referencesAll (Expr.mapLinesAll f exprs) = Expr.referencesAll exprs := by
  match exprs with
  | [] => rfl
  | expr :: rest =>
    simp only [Expr.mapLinesAll, Expr.referencesAll, expr.references_mapLines,
      Expr.referencesAll_mapLines rest]

end

theorem Expr.referencesOption_mapLines (expr : Option Expr) :
    Expr.referencesOption (expr.map (·.mapLines f)) = Expr.referencesOption expr := by
  cases expr with
  | none => rfl
  | some expr => exact expr.references_mapLines f

theorem ArgValue.references_mapLines (value : ArgValue) :
    (value.mapLines f).references = value.references := by
  cases value with
  | word text => rfl
  | expr value => exact value.references_mapLines f

theorem Arg.references_mapLines (arg : Arg) : (arg.mapLines f).references = arg.references := by
  cases arg with
  | positional value => exact value.references_mapLines f
  | flag name => rfl
  | parameter name values =>
    simp only [Arg.mapLines, Arg.references, List.flatMap_map, ArgValue.references_mapLines]

theorem Command.references_mapLines (action : Command) :
    (action.mapLines f).references = action.references := by
  cases action with
  | deliver word args line =>
    simp only [Command.mapLines, Command.references, List.flatMap_map, Arg.references_mapLines]
  | help topic line => rfl
  | exit line => rfl

theorem Stmt.declared?_mapLines (stmt : Stmt) : (stmt.mapLines f).declared? = stmt.declared? := by
  match stmt with
  | .branch _ _ none _ | .branch _ _ (some _) _ => rfl
  | .block _ | .expression .. | .loop .. | .print .. | .return .. | .declare .. |
    .function .. | .command _ => rfl

end References

/-! ## Contexts -/

theorem StaticScope.declares_append (scope other : StaticScope) (name : String) :
    StaticScope.declares (scope ++ other) name = (scope.declares name || other.declares name) :=
  List.any_append

theorem StaticScope.isPending_append (scope other : StaticScope) (name : String) :
    StaticScope.isPending (scope ++ other) name =
      (scope.isPending name || other.isPending name) :=
  List.any_append

theorem StaticScope.markReady_of_not_declares {scope : StaticScope} {name : String}
    (h : scope.declares name = false) : scope.markReady name = scope := by
  refine (List.map_congr_left fun declared hmem => ?_).trans (List.map_id scope)
  refine if_neg fun hname => ?_
  have hdeclares : scope.declares name = true := declares_iff.mpr ⟨declared, hmem, hname⟩
  rw [h] at hdeclares
  cases hdeclares

/-- The second level has the names of the first, and others that were declared earlier. -/
structure Level.Above (level : Level) (earlier : StaticScope) (later : Level) : Prop where
  names : later.names = level.names ++ earlier
  isFunction : later.origin.isFunction = level.origin.isFunction

namespace Level.Above

variable {level later : Level} {earlier : StaticScope} {name : String}

theorem of_names (h : later.names = level.names)
    (horigin : later.origin.isFunction = level.origin.isFunction) : level.Above [] later :=
  ⟨h.trans (List.append_nil _).symm, horigin⟩

/-- What is free in the second level is free in the first. -/
theorem not_declares (h : level.Above earlier later) (hfree : later.names.declares name = false) :
    level.names.declares name = false ∧ earlier.declares name = false := by
  rw [h.names, StaticScope.declares_append, Bool.or_eq_false_iff] at hfree
  exact hfree

theorem declare (h : level.Above earlier later) (hfree : later.names.declares name = false) :
    (level.declare name).Above earlier (later.declare name) := by
  unfold Level.declare
  rw [hfree, (h.not_declares hfree).1]
  exact ⟨congrArg (_ :: ·) h.names, h.isFunction⟩

theorem passed (h : level.Above earlier later) (hfree : later.names.declares name = false) :
    ((level.declare name).define name).Above earlier ((later.declare name).define name) := by
  refine ⟨?_, (h.declare hfree).isFunction⟩
  have hready := StaticScope.markReady_of_not_declares (h.not_declares hfree).2
  simp only [Level.define, (h.declare hfree).names]
  rw [StaticScope.markReady, List.map_append]
  exact congrArg (_ ++ ·) hready

end Level.Above

namespace Context

/-- The second context has the levels of the first, but names were declared at the top
earlier. -/
inductive Over (earlier : StaticScope) : Context → Context → Prop where
  | top {level later : Level} : level.Above earlier later → Over earlier [level] [later]
  | inner {level later : Level} {outer other : Context} :
    level.Above [] later → Over earlier outer other →
    Over earlier (level :: outer) (later :: other)

namespace Over

variable {earlier : StaticScope} {context later : Context} {name : String}

theorem inFunction_eq (h : Over earlier context later) :
    later.inFunction = context.inFunction := by
  induction h with
  | top hlevel => simp only [Context.inFunction, List.any_cons, hlevel.isFunction, List.any_nil]
  | inner hlevel _ ih =>
    simp only [Context.inFunction, List.any_cons, hlevel.isFunction] at ih ⊢
    rw [ih]

/-- A name is found at the same distance, or nowhere but at the top, where it was declared
earlier. -/
theorem distance?_eq (h : Over earlier context later) (name : String) :
    distance? later.scopes name = distance? context.scopes name ∨
      distance? context.scopes name = none ∧
        distance? later.scopes name = some (context.length - 1) := by
  induction h with
  | @top level later hlevel =>
    simp only [Context.scopes, List.map_cons, List.map_nil, distance?, List.findIdx?_cons,
      hlevel.names, StaticScope.declares_append]
    cases level.names.declares name <;> cases earlier.declares name <;> simp
  | @inner level later outer other hlevel hover ih =>
    have hpositive : 0 < outer.length := by
      cases hover <;> exact Nat.succ_pos _
    simp only [Context.scopes, List.map_cons, distance?, List.findIdx?_cons, hlevel.names,
      List.append_nil] at ih ⊢
    cases level.names.declares name with
    | true => exact .inl rfl
    | false =>
      simp only [Bool.false_eq_true, if_false]
      rcases ih with hsame | ⟨hnone, hsome⟩
      · exact .inl (by rw [hsame])
      · refine .inr ⟨by rw [hnone]; rfl, ?_⟩
        rw [hsome, Option.map_some, List.length_cons]
        exact congrArg some (by omega)

/-- The innermost level is the only one that a declaration changes. -/
theorem mapHead (h : Over earlier context later) {f : Level → Level}
    (hf : ∀ {names : StaticScope} {level other : Level}, level.Above names other →
      other ∈ later.head? → (f level).Above names (f other)) :
    Over earlier (context.mapHead f) (later.mapHead f) := by
  cases h with
  | top hlevel => exact .top (hf hlevel rfl)
  | inner hlevel hover => exact .inner (hf hlevel rfl) hover

theorem declare (h : Over earlier context later)
    (hfree : Occurrence.Permitted ⟨later, .declare name⟩) :
    Over earlier (context.declare name) (later.declare name) := by
  refine h.mapHead fun {names level other} hlevel hother => hlevel.declare ?_
  obtain ⟨rest, rfl⟩ := List.head?_eq_some_iff.mp (Option.mem_def.mp hother)
  exact hfree

theorem passed (h : Over earlier context later)
    (hfree : Occurrence.Permitted ⟨later, .declare name⟩) :
    Over earlier ((context.declare name).define name) ((later.declare name).define name) := by
  have hboth : ∀ context : Context, (context.declare name).define name =
      context.mapHead fun level => (level.declare name).define name := by
    intro context
    cases context <;> rfl
  rw [hboth, hboth]
  refine h.mapHead fun {names level other} hlevel hother => hlevel.passed ?_
  obtain ⟨rest, rfl⟩ := List.head?_eq_some_iff.mp (Option.mem_def.mp hother)
  exact hfree

end Over

end Context

/-! ## Occurrences -/

/-- The same use in two contexts, the second of which has earlier names at the top. -/
structure Occurrence.Over (earlier : StaticScope) (occurrence later : Occurrence) : Prop where
  use : later.use = occurrence.use
  context : occurrence.context.Over earlier later.context

theorem Occurrence.Over.exists_of_mem {earlier : StaticScope} {occurrences others : List Occurrence}
    (h : List.Forall₂ (Occurrence.Over earlier) occurrences others) {occurrence : Occurrence}
    (hmem : occurrence ∈ occurrences) : ∃ later ∈ others, occurrence.Over earlier later := by
  induction h with
  | nil => cases hmem
  | cons hfirst _ ih =>
    rcases List.mem_cons.mp hmem with rfl | hrest
    · exact ⟨_, List.mem_cons_self, hfirst⟩
    · obtain ⟨later, hlater, hover⟩ := ih hrest
      exact ⟨later, List.mem_cons_of_mem _ hlater, hover⟩

theorem Occurrence.Over.filterMap_reference? {earlier : StaticScope}
    {occurrences others : List Occurrence}
    (h : List.Forall₂ (Occurrence.Over earlier) occurrences others) :
    others.filterMap Occurrence.reference? = occurrences.filterMap Occurrence.reference? := by
  induction h with
  | nil => rfl
  | @cons first later _ _ hfirst _ ih =>
    have hsame : later.reference? = first.reference? := by
      obtain ⟨context, use⟩ := first
      obtain ⟨other, use'⟩ := later
      obtain rfl : use' = use := hfirst.use
      cases use' <;> rfl
    rw [List.filterMap_cons, List.filterMap_cons, hsame, ih]

theorem Occurrence.Over.permitted {earlier : StaticScope} {occurrence later : Occurrence}
    (h : occurrence.Over earlier later) (hpermitted : later.Permitted) : occurrence.Permitted := by
  obtain ⟨context, use⟩ := occurrence
  obtain ⟨other, use'⟩ := later
  obtain ⟨rfl, hcontext⟩ := h
  have hinside := hcontext.inFunction_eq
  obtain ⟨names, level, outer, later, rest, rfl, rfl, hlevel⟩ :
      ∃ names level outer later rest, context = level :: outer ∧ other = later :: rest ∧
        Level.Above level names later := by
    cases hcontext with
    | top hlevel => exact ⟨_, _, _, _, _, rfl, rfl, hlevel⟩
    | inner hlevel _ => exact ⟨_, _, _, _, _, rfl, rfl, hlevel⟩
  match use' with
  | .mention ⟨id, name, .read⟩ =>
    have hready : later.names.isPending name = false := hpermitted
    rw [hlevel.names, StaticScope.isPending_append, Bool.or_eq_false_iff] at hready
    exact hready.1
  | .mention ⟨id, name, .write⟩ => trivial
  | .declare name => exact (hlevel.not_declares hpermitted).1
  | .leave => exact hinside.symm.trans hpermitted

theorem Context.Over.occurrences {earlier : StaticScope} {context later : Context}
    (h : context.Over earlier later) (references : List Reference) :
    List.Forall₂ (Occurrence.Over earlier) (context.occurrences references)
      (later.occurrences references) := by
  refine List.forall₂_map_left_iff.mpr (List.forall₂_map_right_iff.mpr ?_)
  exact List.forall₂_same.mpr fun _ _ => ⟨rfl, h⟩

theorem Level.paramOccurrences_over {earlier : StaticScope} {outer other : Context}
    (h : outer.Over earlier other) {level later : Level} (hlevel : level.Above [] later)
    {params : List String}
    (hpermitted : ∀ occurrence ∈ later.paramOccurrences other params, occurrence.Permitted) :
    List.Forall₂ (Occurrence.Over earlier) (level.paramOccurrences outer params)
        (later.paramOccurrences other params) ∧
      (level.withParams params).Above [] (later.withParams params) := by
  induction params generalizing level later with
  | nil => exact ⟨.nil, hlevel⟩
  | cons name rest ih =>
    obtain ⟨hfirst, hrest⟩ := List.forall_mem_cons.mp hpermitted
    obtain ⟨hparams, hlast⟩ := ih (hlevel.passed hfirst) hrest
    exact ⟨.cons ⟨rfl, .inner hlevel h⟩ hparams, hlast⟩

theorem Stmt.declare_mem_occurrences {stmt : Stmt} {name : String}
    (h : stmt.declared? = some name) (context : Context) :
    ⟨context, .declare name⟩ ∈ stmt.occurrences context := by
  cases stmt with
  | declare declared initializer line =>
    obtain rfl := Option.some.inj h
    exact List.mem_cons_self
  | function declared params body line =>
    obtain rfl := Option.some.inj h
    exact List.mem_cons_self
  | _ => cases h

section Statements

variable {earlier : StaticScope} {f : Nat → Nat}

theorem Stmt.after_over {stmt : Stmt} {context later : Context} (h : context.Over earlier later)
    (hpermitted : ∀ occurrence ∈ (stmt.mapLines f).occurrences later, occurrence.Permitted) :
    (stmt.after context).Over earlier ((stmt.mapLines f).after later) := by
  have hdeclared := stmt.declared?_mapLines f
  cases hname : stmt.declared? with
  | none =>
    rw [Stmt.after_of_not_declared hname, Stmt.after_of_not_declared (hdeclared.trans hname)]
    exact h
  | some name =>
    rw [Stmt.after_of_declared hname, Stmt.after_of_declared (hdeclared.trans hname)]
    exact h.passed (hpermitted _ (Stmt.declare_mem_occurrences (hdeclared.trans hname) later))

mutual

/-- The occurrences of a statement by itself and after another program. -/
theorem Stmt.occurrences_over (stmt : Stmt) {context later : Context}
    (h : context.Over earlier later)
    (hpermitted : ∀ occurrence ∈ (stmt.mapLines f).occurrences later, occurrence.Permitted) :
    List.Forall₂ (Occurrence.Over earlier) (stmt.occurrences context)
      ((stmt.mapLines f).occurrences later) := by
  match stmt with
  | .block body =>
    exact Stmt.occurrencesAll_over body (.inner (.of_names rfl rfl) h) hpermitted
  | .expression expr _ | .print expr _ =>
    simp only [Stmt.mapLines, Stmt.occurrences, expr.references_mapLines]
    exact h.occurrences _
  | .command action =>
    simp only [Stmt.mapLines, Stmt.occurrences, action.references_mapLines]
    exact h.occurrences _
  | .branch condition thenBranch none _ =>
    simp only [Stmt.mapLines, Stmt.occurrences, condition.references_mapLines] at hpermitted ⊢
    obtain ⟨-, hthen⟩ := List.forall_mem_append.mp hpermitted
    exact List.rel_append (h.occurrences _) (thenBranch.occurrences_over h hthen)
  | .branch condition thenBranch (some elseBranch) _ =>
    simp only [Stmt.mapLines, Stmt.occurrences, condition.references_mapLines] at hpermitted ⊢
    obtain ⟨hfirst, helse⟩ := List.forall_mem_append.mp hpermitted
    obtain ⟨-, hthen⟩ := List.forall_mem_append.mp hfirst
    exact List.rel_append (List.rel_append (h.occurrences _) (thenBranch.occurrences_over h hthen))
      (elseBranch.occurrences_over h helse)
  | .loop condition body _ =>
    simp only [Stmt.mapLines, Stmt.occurrences, condition.references_mapLines] at hpermitted ⊢
    obtain ⟨-, hbody⟩ := List.forall_mem_append.mp hpermitted
    exact List.rel_append (h.occurrences _) (body.occurrences_over h hbody)
  | .return value _ =>
    simp only [Stmt.mapLines, Stmt.occurrences, Expr.referencesOption_mapLines]
    exact .cons ⟨rfl, h⟩ (h.occurrences _)
  | .declare name initializer _ =>
    simp only [Stmt.mapLines, Stmt.occurrences, Expr.referencesOption_mapLines] at hpermitted ⊢
    obtain ⟨hfree, -⟩ := List.forall_mem_cons.mp hpermitted
    exact .cons ⟨rfl, h⟩ ((h.declare hfree).occurrences _)
  | .function name params body _ =>
    have hparams : (params.map (·.mapLines f)).map Parameter.name = params.map Parameter.name := by
      rw [List.map_map]
      rfl
    have habove : ∀ decl : FunctionDecl, Level.Above ⟨.function ⟨name, decl.params, body⟩, []⟩ []
        ⟨.function decl, []⟩ := fun _ => .of_names rfl rfl
    simp only [Stmt.mapLines, Stmt.occurrences, hparams] at hpermitted ⊢
    obtain ⟨hfree, hrest⟩ := List.forall_mem_cons.mp hpermitted
    obtain ⟨hparams, hbody⟩ := List.forall_mem_append.mp hrest
    have houter := h.passed hfree
    obtain ⟨hdeclared, hlevel⟩ :=
      Level.paramOccurrences_over houter (habove _) hparams
    exact .cons ⟨rfl, h⟩ (List.rel_append hdeclared
      (Stmt.occurrencesAll_over body (.inner hlevel houter) hbody))

theorem Stmt.occurrencesAll_over (body : List Stmt) {context later : Context}
    (h : context.Over earlier later)
    (hpermitted : ∀ occurrence ∈ Stmt.occurrencesAll (Stmt.mapLinesAll f body) later,
      occurrence.Permitted) :
    List.Forall₂ (Occurrence.Over earlier) (Stmt.occurrencesAll body context)
      (Stmt.occurrencesAll (Stmt.mapLinesAll f body) later) := by
  match body with
  | [] => exact .nil
  | stmt :: rest =>
    obtain ⟨hstmt, hrest⟩ := List.forall_mem_append.mp hpermitted
    exact List.rel_append (stmt.occurrences_over h hstmt)
      (Stmt.occurrencesAll_over rest (Stmt.after_over h hstmt) hrest)

end

end Statements

/-! ## Programs -/

/-- The top level after a program is over the top level before any. -/
theorem Stmt.afterAll_over (program : List Stmt) :
    ∃ earlier, Context.top.Over earlier (Stmt.afterAll program .top) := by
  obtain ⟨level, hafter, horigin⟩ := Stmt.afterAll_cons program ⟨.top, []⟩ []
  refine ⟨level.names, ?_⟩
  rw [Context.top, hafter]
  exact .top ⟨rfl, congrArg Origin.isFunction horigin⟩

section Programs

variable {first second : List Stmt} {f : Nat → Nat}

theorem Stmt.Accepted.of_append
    (h : Stmt.Accepted (first ++ Stmt.mapLinesAll f second))
    (hstructured : Stmt.StructuredAll second) :
    Stmt.Accepted first ∧ Stmt.Accepted second ∧
      ∃ earlier, List.Forall₂ (Occurrence.Over earlier) (Stmt.occurrencesAll second .top)
        (Stmt.occurrencesAll (Stmt.mapLinesAll f second) (Stmt.afterAll first .top)) := by
  have hpermitted := h.permitted
  rw [Stmt.occurrencesAll_append] at hpermitted
  obtain ⟨hfirst, hsecond⟩ := List.forall_mem_append.mp hpermitted
  obtain ⟨earlier, hover⟩ := Stmt.afterAll_over first
  have hpairs := Stmt.occurrencesAll_over second hover hsecond
  refine ⟨⟨(Stmt.structuredAll_append.mp h.structured).1, hfirst⟩, ⟨hstructured, ?_⟩,
    earlier, hpairs⟩
  intro occurrence hmem
  obtain ⟨later, hlater, hboth⟩ := Occurrence.Over.exists_of_mem hpairs hmem
  exact hboth.permitted (hsecond later hlater)

end Programs

end CommandScript
