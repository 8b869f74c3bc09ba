import CommandScript.Resolution

/-!
# Contexts of references

At any point of a program some scopes are open. A context lists them, innermost first,
each with what opened it and the names that it has declared up to that point. In its
context, a point of a program may read or assign a name, declare a name in the innermost
scope, or leave a function.

The occurrences of a program are all these points in the order in which resolution comes
past them. They say, without any state, which distances resolution records and which
faults it finds.

* `Origin`, `Level`, `Context`: what opens a scope, an open scope, all open scopes.
* `Stmt.after`: the context after a statement.
* `Stmt.occurrences`, `Stmt.references`: the occurrences and references within a statement.
* `Occurrence.recorded?`, `Occurrence.Permitted`: what resolution makes of one.
-/

namespace CommandScript

/-! ## Open scopes -/

/-- The name that a statement declares in the scope it stands in. -/
def Stmt.declared? : Stmt → Option String
  | .declare name _ _ => some name
  | .function name _ _ _ => some name
  | _ => none

def Stmt.declaredNames (body : List Stmt) : List String := body.filterMap Stmt.declared?

/-- What opens a scope: the program, a block, or the call of a function. -/
inductive Origin where
  | top
  | block (body : List Stmt)
  | function (decl : FunctionDecl)

namespace Origin

/-- The scope declares the name somewhere. The top level may declare any name, since it
lives on from program to program. -/
def Declares : Origin → String → Prop
  | .top, _ => True
  | .block body, name => name ∈ Stmt.declaredNames body
  | .function decl, name => name ∈ decl.params ∨ name ∈ Stmt.declaredNames decl.body

def isFunction : Origin → Bool
  | .function _ => true
  | _ => false

end Origin

structure Level where
  origin : Origin
  names : StaticScope

namespace Level

/-- Declares a name, unless it is declared already. -/
def declare (level : Level) (name : String) : Level :=
  if level.names.declares name then level else { level with names := ⟨name, false⟩ :: level.names }

def define (level : Level) (name : String) : Level :=
  { level with names := level.names.markReady name }

/-- Declares parameters one after the other. -/
def withParams (level : Level) : List String → Level
  | [] => level
  | name :: rest => ((level.declare name).define name).withParams rest

def ofBlock (body : List Stmt) : Level := ⟨.block body, []⟩

def ofFunction (decl : FunctionDecl) : Level := withParams ⟨.function decl, []⟩ decl.params

/-- The name is declared, and its initializer has been passed. -/
def Ready (level : Level) (name : String) : Prop := ⟨name, true⟩ ∈ level.names

end Level

/-- The open scopes, innermost first. -/
abbrev Context := List Level

namespace Context

def top : Context := [⟨.top, []⟩]

def scopes (context : Context) : List StaticScope := context.map Level.names

/-- Changes the innermost level. -/
def mapHead (f : Level → Level) : Context → Context
  | [] => []
  | level :: outer => f level :: outer

def declare (context : Context) (name : String) : Context := context.mapHead (·.declare name)

def define (context : Context) (name : String) : Context := context.mapHead (·.define name)

def inFunction (context : Context) : Bool := context.any (·.origin.isFunction)

end Context

/-- The context after a statement that stands in the given one. -/
def Stmt.after (stmt : Stmt) (context : Context) : Context :=
  match stmt.declared? with
  | some name => (context.declare name).define name
  | none => context

def Stmt.afterAll : List Stmt → Context → Context
  | [], context => context
  | stmt :: rest, context => Stmt.afterAll rest (stmt.after context)

/-! ## Occurrences -/

inductive Access where
  | read
  | write

/-- A variable that is read or assigned. -/
structure Reference where
  id : NodeId
  name : String
  access : Access

/-- What happens at a point of a program; to leave a function is to return from it. -/
inductive Use where
  | mention (reference : Reference)
  | declare (name : String)
  | leave

structure Occurrence where
  context : Context
  use : Use

namespace Occurrence

/-- The reference that an occurrence is, if it is one. -/
def reference? : Occurrence → Option Reference
  | ⟨_, .mention reference⟩ => some reference
  | _ => none

/-- The distance that is recorded for a reference. -/
def recorded? (occurrence : Occurrence) : Option (NodeId × Nat) :=
  occurrence.reference?.bind fun reference =>
    (distance? occurrence.context.scopes reference.name).map (reference.id, ·)

/-- There is no fault at this point. -/
def Permitted : Occurrence → Prop
  | ⟨level :: _, .mention ⟨_, name, .read⟩⟩ => level.names.isPending name = false
  | ⟨level :: _, .declare name⟩ => level.names.declares name = false
  | ⟨context, .leave⟩ => context.inFunction = true
  | _ => True

end Occurrence

mutual

/-- The references of an expression, in the order of evaluation. -/
def Expr.references : Expr → List Reference
  | .literal _ _ => []
  | .commandRef _ _ => []
  | .grouping inner _ => inner.references
  | .unary _ operand _ => operand.references
  | .binary _ left right _ => left.references ++ right.references
  | .logical _ left right _ => left.references ++ right.references
  | .variable id name _ => [⟨id, name, .read⟩]
  | .assign id name value _ => value.references ++ [⟨id, name, .write⟩]
  | .call callee args _ => callee.references ++ Expr.referencesAll args

def Expr.referencesAll : List Expr → List Reference
  | [] => []
  | expr :: rest => expr.references ++ Expr.referencesAll rest

end

def ArgValue.references : ArgValue → List Reference
  | .word _ => []
  | .expr value => value.references

def Arg.references : Arg → List Reference
  | .positional value => value.references
  | .flag _ => []
  | .parameter _ values => values.flatMap ArgValue.references

def Command.references : Command → List Reference
  | .deliver _ args _ => args.flatMap Arg.references
  | .help _ _ => []
  | .exit _ => []

def Expr.referencesOption : Option Expr → List Reference
  | none => []
  | some expr => expr.references

mutual

/-- All references within a statement, at any depth. -/
def Stmt.references : Stmt → List Reference
  | .block body => Stmt.referencesAll body
  | .expression expr _ => expr.references
  | .branch condition thenBranch none _ => condition.references ++ thenBranch.references
  | .branch condition thenBranch (some elseBranch) _ =>
    condition.references ++ thenBranch.references ++ elseBranch.references
  | .loop condition body _ => condition.references ++ body.references
  | .print expr _ => expr.references
  | .return value _ => Expr.referencesOption value
  | .declare _ initializer _ => Expr.referencesOption initializer
  | .function _ _ body _ => Stmt.referencesAll body
  | .command action => action.references

def Stmt.referencesAll : List Stmt → List Reference
  | [] => []
  | stmt :: rest => stmt.references ++ Stmt.referencesAll rest

end

/-- The same context for several references. -/
def Context.occurrences (context : Context) (references : List Reference) : List Occurrence :=
  references.map fun reference => ⟨context, .mention reference⟩

/-- The declarations of parameters. -/
def Level.paramOccurrences (outer : Context) (level : Level) : List String → List Occurrence
  | [] => []
  | name :: rest =>
    ⟨level :: outer, .declare name⟩ ::
      ((level.declare name).define name).paramOccurrences outer rest

mutual

/-- The occurrences within a statement that stands in the given context. -/
def Stmt.occurrences : Stmt → Context → List Occurrence
  | .block body, context => Stmt.occurrencesAll body (.ofBlock body :: context)
  | .expression expr _, context => context.occurrences expr.references
  | .branch condition thenBranch none _, context =>
    context.occurrences condition.references ++ thenBranch.occurrences context
  | .branch condition thenBranch (some elseBranch) _, context =>
    context.occurrences condition.references ++ thenBranch.occurrences context ++
      elseBranch.occurrences context
  | .loop condition body _, context =>
    context.occurrences condition.references ++ body.occurrences context
  | .print expr _, context => context.occurrences expr.references
  | .return value _, context =>
    ⟨context, .leave⟩ :: context.occurrences (Expr.referencesOption value)
  | .declare name initializer _, context =>
    ⟨context, .declare name⟩ ::
      (context.declare name).occurrences (Expr.referencesOption initializer)
  | .function name params body _, context =>
    let decl : FunctionDecl := ⟨name, params.map Parameter.name, body⟩
    let outer := (context.declare name).define name
    ⟨context, .declare name⟩ ::
      (Level.paramOccurrences outer ⟨.function decl, []⟩ decl.params ++
        Stmt.occurrencesAll body (.ofFunction decl :: outer))
  | .command action, context => context.occurrences action.references

def Stmt.occurrencesAll : List Stmt → Context → List Occurrence
  | [], _ => []
  | stmt :: rest, context =>
    stmt.occurrences context ++ Stmt.occurrencesAll rest (stmt.after context)

end

/-! ## The shape of programs -/

mutual

/-- The branches of an `if` and the body of a loop are no declarations. -/
def Stmt.Structured : Stmt → Prop
  | .block body => Stmt.StructuredAll body
  | .branch _ thenBranch none _ => thenBranch.declared? = none ∧ thenBranch.Structured
  | .branch _ thenBranch (some elseBranch) _ =>
    (thenBranch.declared? = none ∧ thenBranch.Structured) ∧
      elseBranch.declared? = none ∧ elseBranch.Structured
  | .loop _ body _ => body.declared? = none ∧ body.Structured
  | .function _ _ body _ => Stmt.StructuredAll body
  | _ => True

def Stmt.StructuredAll : List Stmt → Prop
  | [] => True
  | stmt :: rest => stmt.Structured ∧ Stmt.StructuredAll rest

end

/-- A program that is structured and has no fault of scoping. -/
structure Stmt.Accepted (program : List Stmt) : Prop where
  structured : Stmt.StructuredAll program
  permitted : ∀ occurrence ∈ Stmt.occurrencesAll program .top, occurrence.Permitted

/-! ## Small facts -/

theorem distance?_nil (name : String) : distance? [] name = none := rfl

theorem distance?_cons (scope : StaticScope) (rest : List StaticScope) (name : String) :
    distance? (scope :: rest) name =
      if scope.declares name then some 0 else (distance? rest name).map (· + 1) := by
  simp only [distance?, List.findIdx?_cons]

@[simp] theorem Stmt.after_of_not_declared {stmt : Stmt} (h : stmt.declared? = none)
    (context : Context) : stmt.after context = context := by
  rw [Stmt.after, h]

theorem Stmt.after_of_declared {stmt : Stmt} {name : String} (h : stmt.declared? = some name)
    (context : Context) : stmt.after context = (context.declare name).define name := by
  rw [Stmt.after, h]

@[simp] theorem Stmt.afterAll_append (first second : List Stmt) (context : Context) :
    Stmt.afterAll (first ++ second) context =
      Stmt.afterAll second (Stmt.afterAll first context) := by
  induction first generalizing context with
  | nil => rfl
  | cons stmt rest ih => exact ih (stmt.after context)

theorem Stmt.occurrencesAll_append (first second : List Stmt) (context : Context) :
    Stmt.occurrencesAll (first ++ second) context =
      Stmt.occurrencesAll first context ++
        Stmt.occurrencesAll second (Stmt.afterAll first context) := by
  induction first generalizing context with
  | nil => rfl
  | cons stmt rest ih =>
    simp only [List.cons_append, Stmt.occurrencesAll, Stmt.afterAll, ih, List.append_assoc]

theorem Stmt.structuredAll_append {first second : List Stmt} :
    Stmt.StructuredAll (first ++ second) ↔
      Stmt.StructuredAll first ∧ Stmt.StructuredAll second := by
  induction first with
  | nil => simp [Stmt.StructuredAll]
  | cons stmt rest ih => simp [Stmt.StructuredAll, ih, and_assoc]

theorem Context.mem_occurrences {context : Context} {references : List Reference}
    {occurrence : Occurrence} :
    occurrence ∈ context.occurrences references ↔
      occurrence.context = context ∧
        ∃ reference ∈ references, occurrence.use = .mention reference := by
  obtain ⟨other, use⟩ := occurrence
  simp only [Context.occurrences, List.mem_map, Occurrence.mk.injEq]
  constructor
  · rintro ⟨reference, h, rfl, rfl⟩
    exact ⟨rfl, reference, h, rfl⟩
  · rintro ⟨rfl, reference, h, rfl⟩
    exact ⟨reference, h, rfl, rfl⟩

theorem Context.occurrences_append (context : Context) (first second : List Reference) :
    context.occurrences (first ++ second) =
      context.occurrences first ++ context.occurrences second :=
  List.map_append

/-! ## The references of the occurrences -/

theorem Expr.referencesAll_eq (exprs : List Expr) :
    Expr.referencesAll exprs = exprs.flatMap Expr.references := by
  induction exprs with
  | nil => rfl
  | cons expr rest ih => simp only [referencesAll, ih, List.flatMap_cons]

theorem Stmt.referencesAll_eq (body : List Stmt) :
    Stmt.referencesAll body = body.flatMap Stmt.references := by
  induction body with
  | nil => rfl
  | cons stmt rest ih => simp only [referencesAll, ih, List.flatMap_cons]

theorem Stmt.referencesAll_append (first second : List Stmt) :
    Stmt.referencesAll (first ++ second) =
      Stmt.referencesAll first ++ Stmt.referencesAll second := by
  simp only [Stmt.referencesAll_eq, List.flatMap_append]

theorem Context.filterMap_reference? (context : Context) (references : List Reference) :
    (context.occurrences references).filterMap Occurrence.reference? = references := by
  induction references with
  | nil => rfl
  | cons reference rest ih => exact congrArg (reference :: ·) ih

theorem Level.filterMap_reference? (outer : Context) (level : Level) (params : List String) :
    (level.paramOccurrences outer params).filterMap Occurrence.reference? = [] := by
  induction params generalizing level with
  | nil => rfl
  | cons name rest ih => exact ih _

mutual

/-- The references within a statement do not depend on where it stands. -/
theorem Stmt.filterMap_reference? (stmt : Stmt) (context : Context) :
    (stmt.occurrences context).filterMap Occurrence.reference? = stmt.references := by
  match stmt with
  | .block body => exact Stmt.filterMap_referenceAll? body _
  | .expression expr _ | .print expr _ | .command action =>
    exact Context.filterMap_reference? context _
  | .branch condition thenBranch none _ =>
    simp only [Stmt.occurrences, Stmt.references, List.filterMap_append,
      Context.filterMap_reference?, thenBranch.filterMap_reference?]
  | .branch condition thenBranch (some elseBranch) _ =>
    simp only [Stmt.occurrences, Stmt.references, List.filterMap_append,
      Context.filterMap_reference?, thenBranch.filterMap_reference?,
      elseBranch.filterMap_reference?]
  | .loop condition body _ =>
    simp only [Stmt.occurrences, Stmt.references, List.filterMap_append,
      Context.filterMap_reference?, body.filterMap_reference?]
  | .return value _ | .declare _ value _ => exact Context.filterMap_reference? _ _
  | .function name params body _ =>
    refine List.filterMap_append.trans ?_
    rw [Level.filterMap_reference?, List.nil_append]
    exact Stmt.filterMap_referenceAll? body _

theorem Stmt.filterMap_referenceAll? (body : List Stmt) (context : Context) :
    (Stmt.occurrencesAll body context).filterMap Occurrence.reference? =
      Stmt.referencesAll body := by
  match body with
  | [] => rfl
  | stmt :: rest =>
    simp only [Stmt.occurrencesAll, Stmt.referencesAll, List.filterMap_append,
      stmt.filterMap_reference?, Stmt.filterMap_referenceAll? rest]

end

end CommandScript
