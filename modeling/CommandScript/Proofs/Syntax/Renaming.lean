import CommandScript.Proofs.Resolution.Context

/-!
# Renaming a local declaration

A variable or parameter that is declared in a block or function can be given a new name,
together with the references that are bound to it: those within the block or function whose
recorded distance is the number of scopes in between.

For proofs the renaming is a relation of two programs. Outside of the renamed scope they are
the same; inside, the place of a statement is the number of scopes between it and the renamed
one. The relation does not say which scope is renamed, and none need be.

* `Renaming`: the old and the new name, and the distances of references.
* `Stmt.rename`: a statement that stands in the renamed scope.
* `Stmt.RenamesOne`, `Stmt.RenamesIn`: one scope of a statement or program is renamed.
* `Stmt.Aligned`: the relation of statements at a place.
* `Stmt.aligned_refl`, `Stmt.aligned_rename`: it holds of a statement and itself outside of
  the renamed scope, and of a statement and its renaming inside.
-/

namespace CommandScript

structure Renaming where
  old : String
  new : String
  /-- The distance that is recorded for a reference. -/
  recorded : NodeId → Option Nat

namespace Renaming

variable (r : Renaming)

/-- The name of a reference at a place if its declaration is found at a distance. -/
def bound : (place distance : Option Nat) → String → String
  | some depth, distance, name => if name = r.old ∧ distance = some depth then r.new else name
  | none, _, name => name

/-- The name of a reference at a place. -/
def reference (place : Option Nat) (id : NodeId) (name : String) : String :=
  r.bound place (r.recorded id) name

/-- The name that a declaration gets at a place. -/
def declared : (place : Option Nat) → String → String
  | some 0, name => if name = r.old then r.new else name
  | _, name => name

def parameter (place : Option Nat) (parameter : Parameter) : Parameter :=
  { parameter with name := r.declared place parameter.name }

end Renaming

/-! ## Other names for references -/

mutual

def Expr.mapNames (f : NodeId → String → String) : Expr → Expr
  | .literal value line => .literal value line
  | .grouping inner line => .grouping (inner.mapNames f) line
  | .unary op operand line => .unary op (operand.mapNames f) line
  | .binary op left right line => .binary op (left.mapNames f) (right.mapNames f) line
  | .logical op left right line => .logical op (left.mapNames f) (right.mapNames f) line
  | .variable id name line => .variable id (f id name) line
  | .assign id name value line => .assign id (f id name) (value.mapNames f) line
  | .call callee args line => .call (callee.mapNames f) (Expr.mapNamesAll f args) line
  | .commandRef name line => .commandRef name line

def Expr.mapNamesAll (f : NodeId → String → String) : List Expr → List Expr
  | [] => []
  | expr :: rest => expr.mapNames f :: Expr.mapNamesAll f rest

end

def ArgValue.mapNames (f : NodeId → String → String) : ArgValue → ArgValue
  | .word text => .word text
  | .expr value => .expr (value.mapNames f)

def Arg.mapNames (f : NodeId → String → String) : Arg → Arg
  | .positional value => .positional (value.mapNames f)
  | .flag name => .flag name
  | .parameter name values => .parameter name (values.map (·.mapNames f))

def Command.mapNames (f : NodeId → String → String) : Command → Command
  | .deliver word args line => .deliver word (args.map (·.mapNames f)) line
  | .help topic line => .help topic line
  | .exit line => .exit line

section MapNames

variable (f : NodeId → String → String)

/-- The same reference under another name. -/
def Reference.mapName (reference : Reference) : Reference :=
  { reference with name := f reference.id reference.name }

mutual

theorem Expr.references_mapNames (expr : Expr) :
    (expr.mapNames f).references = expr.references.map (·.mapName f) := by
  match expr with
  | .literal .. | .variable .. | .commandRef .. => rfl
  | .grouping inner _ | .unary _ inner _ =>
    simp only [Expr.mapNames, Expr.references, inner.references_mapNames]
  | .assign id name value _ =>
    simp only [Expr.mapNames, Expr.references, value.references_mapNames, List.map_append]
    rfl
  | .binary _ left right _ | .logical _ left right _ =>
    simp only [Expr.mapNames, Expr.references, left.references_mapNames,
      right.references_mapNames, List.map_append]
  | .call callee args _ =>
    simp only [Expr.mapNames, Expr.references, callee.references_mapNames,
      Expr.referencesAll_mapNames args, List.map_append]

theorem Expr.referencesAll_mapNames (exprs : List Expr) :
    Expr.referencesAll (Expr.mapNamesAll f exprs) =
      (Expr.referencesAll exprs).map (·.mapName f) := by
  match exprs with
  | [] => rfl
  | expr :: rest =>
    simp only [Expr.mapNamesAll, Expr.referencesAll, expr.references_mapNames,
      Expr.referencesAll_mapNames rest, List.map_append]

end

theorem Expr.referencesOption_mapNames (expr : Option Expr) :
    Expr.referencesOption (expr.map (·.mapNames f)) =
      (Expr.referencesOption expr).map (·.mapName f) := by
  cases expr with
  | none => rfl
  | some expr => exact expr.references_mapNames f

theorem ArgValue.references_mapNames (value : ArgValue) :
    (value.mapNames f).references = value.references.map (·.mapName f) := by
  cases value with
  | word text => rfl
  | expr value => exact value.references_mapNames f

theorem Arg.references_mapNames (arg : Arg) :
    (arg.mapNames f).references = arg.references.map (·.mapName f) := by
  cases arg with
  | positional value => exact value.references_mapNames f
  | flag name => rfl
  | parameter name values =>
    simp only [Arg.mapNames, Arg.references, List.flatMap_map, List.map_flatMap,
      ArgValue.references_mapNames]

theorem Command.references_mapNames (action : Command) :
    (action.mapNames f).references = action.references.map (·.mapName f) := by
  cases action with
  | deliver word args line =>
    simp only [Command.mapNames, Command.references, List.flatMap_map, List.map_flatMap,
      Arg.references_mapNames]
  | help topic line => rfl
  | exit line => rfl

end MapNames

mutual

theorem Expr.mapNames_id (expr : Expr) : expr.mapNames (fun _ name => name) = expr := by
  match expr with
  | .literal .. | .variable .. | .commandRef .. => rfl
  | .grouping inner _ | .unary _ inner _ => rw [Expr.mapNames, inner.mapNames_id]
  | .assign id name value _ => rw [Expr.mapNames, value.mapNames_id]
  | .binary _ left right _ | .logical _ left right _ =>
    rw [Expr.mapNames, left.mapNames_id, right.mapNames_id]
  | .call callee args _ => rw [Expr.mapNames, callee.mapNames_id, Expr.mapNamesAll_id args]

theorem Expr.mapNamesAll_id (exprs : List Expr) :
    Expr.mapNamesAll (fun _ name => name) exprs = exprs := by
  match exprs with
  | [] => rfl
  | expr :: rest => rw [Expr.mapNamesAll, expr.mapNames_id, Expr.mapNamesAll_id rest]

end

theorem ArgValue.mapNames_id (value : ArgValue) : value.mapNames (fun _ name => name) = value := by
  cases value with
  | word text => rfl
  | expr value => rw [mapNames, value.mapNames_id]

theorem Arg.mapNames_id (arg : Arg) : arg.mapNames (fun _ name => name) = arg := by
  cases arg with
  | positional value => rw [mapNames, value.mapNames_id]
  | flag name => rfl
  | parameter name values =>
    rw [mapNames]
    exact congrArg _ ((List.map_congr_left fun value _ => value.mapNames_id).trans
      (List.map_id values))

theorem Command.mapNames_id (action : Command) :
    action.mapNames (fun _ name => name) = action := by
  cases action with
  | deliver word args line =>
    rw [mapNames]
    exact congrArg (Command.deliver word · line)
      ((List.map_congr_left fun arg _ => arg.mapNames_id).trans (List.map_id args))
  | help topic line => rfl
  | exit line => rfl

theorem Expr.map_mapNames_id (expr : Option Expr) :
    expr.map (·.mapNames fun _ name => name) = expr := by
  cases expr with
  | none => rfl
  | some expr => exact congrArg some expr.mapNames_id

/-! ## The renamed scope -/

mutual

/-- The statement in the renamed scope, with `depth` scopes in between. -/
def Stmt.rename (r : Renaming) (depth : Nat) : Stmt → Stmt
  | .block body => .block (Stmt.renameAll r (depth + 1) body)
  | .expression expr line => .expression (expr.mapNames (r.reference (some depth))) line
  | .branch condition thenBranch none line =>
    .branch (condition.mapNames (r.reference (some depth))) (thenBranch.rename r depth) none line
  | .branch condition thenBranch (some elseBranch) line =>
    .branch (condition.mapNames (r.reference (some depth))) (thenBranch.rename r depth)
      (some (elseBranch.rename r depth)) line
  | .loop condition body line =>
    .loop (condition.mapNames (r.reference (some depth))) (body.rename r depth) line
  | .print expr line => .print (expr.mapNames (r.reference (some depth))) line
  | .return value line => .return (value.map (·.mapNames (r.reference (some depth)))) line
  | .declare name initializer line =>
    .declare (r.declared (some depth) name)
      (initializer.map (·.mapNames (r.reference (some depth)))) line
  | .function name params body line =>
    .function name params (Stmt.renameAll r (depth + 1) body) line
  | .command action => .command (action.mapNames (r.reference (some depth)))

def Stmt.renameAll (r : Renaming) (depth : Nat) : List Stmt → List Stmt
  | [] => []
  | stmt :: rest => stmt.rename r depth :: Stmt.renameAll r depth rest

end

/-- Some statement of the list declares the name by `var`. -/
def Stmt.DeclaresVariable (body : List Stmt) (name : String) : Prop :=
  ∃ initializer line, .declare name initializer line ∈ body

/-- In one block or function within the statement the declaration of the old name, by `var`
or as a parameter, is renamed. -/
inductive Stmt.RenamesOne (r : Renaming) : Stmt → Stmt → Prop where
  | block {body : List Stmt} : Stmt.DeclaresVariable body r.old →
      RenamesOne r (.block body) (.block (Stmt.renameAll r 0 body))
  | function {name : String} {params : List Parameter} {body : List Stmt} {line : Nat} :
      r.old ∈ params.map Parameter.name ∨ Stmt.DeclaresVariable body r.old →
      RenamesOne r (.function name params body line)
        (.function name (params.map (r.parameter (some 0))) (Stmt.renameAll r 0 body) line)
  | inBlock {before after : List Stmt} {stmt renamed : Stmt} : RenamesOne r stmt renamed →
      RenamesOne r (.block (before ++ stmt :: after)) (.block (before ++ renamed :: after))
  | inFunction {name : String} {params : List Parameter} {before after : List Stmt}
      {stmt renamed : Stmt} {line : Nat} : RenamesOne r stmt renamed →
      RenamesOne r (.function name params (before ++ stmt :: after) line)
        (.function name params (before ++ renamed :: after) line)
  | thenBranch {condition : Expr} {stmt renamed : Stmt} {elseBranch : Option Stmt} {line : Nat} :
      RenamesOne r stmt renamed →
      RenamesOne r (.branch condition stmt elseBranch line)
        (.branch condition renamed elseBranch line)
  | elseBranch {condition : Expr} {thenBranch stmt renamed : Stmt} {line : Nat} :
      RenamesOne r stmt renamed →
      RenamesOne r (.branch condition thenBranch (some stmt) line)
        (.branch condition thenBranch (some renamed) line)
  | loop {condition : Expr} {stmt renamed : Stmt} {line : Nat} : RenamesOne r stmt renamed →
      RenamesOne r (.loop condition stmt line) (.loop condition renamed line)

/-- In one block or function of the program a declaration is renamed. -/
inductive Stmt.RenamesIn (r : Renaming) : List Stmt → List Stmt → Prop where
  | at {before after : List Stmt} {stmt renamed : Stmt} : Stmt.RenamesOne r stmt renamed →
      RenamesIn r (before ++ stmt :: after) (before ++ renamed :: after)

mutual

/-- The names that occur in a statement: of references, variables, parameters and functions. -/
def Stmt.names : Stmt → List String
  | .block body => Stmt.namesAll body
  | .expression expr _ => expr.references.map Reference.name
  | .branch condition thenBranch none _ =>
    condition.references.map Reference.name ++ thenBranch.names
  | .branch condition thenBranch (some elseBranch) _ =>
    condition.references.map Reference.name ++ thenBranch.names ++ elseBranch.names
  | .loop condition body _ => condition.references.map Reference.name ++ body.names
  | .print expr _ => expr.references.map Reference.name
  | .return value _ => (Expr.referencesOption value).map Reference.name
  | .declare name initializer _ =>
    name :: (Expr.referencesOption initializer).map Reference.name
  | .function name params body _ => name :: (params.map Parameter.name ++ Stmt.namesAll body)
  | .command action => action.references.map Reference.name

def Stmt.namesAll : List Stmt → List String
  | [] => []
  | stmt :: rest => stmt.names ++ Stmt.namesAll rest

end

/-! ## Programs that differ in the name -/

namespace Renaming

variable (r : Renaming) (fits : Reference → Prop)

/-- What is known of the references at a place within the renamed scope. -/
def Fits (place : Option Nat) (references : List Reference) : Prop :=
  place.isSome → ∀ reference ∈ references, reference.name ≠ r.new ∧ fits reference

/-- The new name is not declared at a place within the renamed scope. -/
def Fresh (place : Option Nat) (name : String) : Prop := place.isSome → name ≠ r.new

end Renaming

/-- The place in a scope that is opened at a place: it is one scope further from the renamed
one, or the renamed one itself. -/
inductive Enters : (place inner : Option Nat) → Prop where
  | further {place : Option Nat} : Enters place (place.map (· + 1))
  | renamed : Enters none (some 0)

section Names

variable (r : Renaming) {place : Option Nat} {name : String}

theorem Renaming.names_parameter (params : List Parameter) :
    (params.map (r.parameter place)).map Parameter.name =
      (params.map Parameter.name).map (r.declared place) := by
  rw [List.map_map, List.map_map]
  rfl

theorem Renaming.declared_of_ne (h : place = some 0 → name ≠ r.old) :
    r.declared place name = name := by
  match place with
  | none => rfl
  | some (depth + 1) => rfl
  | some 0 => exact if_neg (h rfl)

theorem Renaming.reference_cases (place : Option Nat) (id : NodeId) (name : String) :
    r.reference place id name = name ∨ name = r.old ∧ r.reference place id name = r.new := by
  cases place with
  | none => exact .inl rfl
  | some depth =>
    simp only [Renaming.reference, Renaming.bound]
    split
    · rename_i hbound
      exact .inr ⟨hbound.1, rfl⟩
    · exact .inl rfl

/-- Names other than the new one stay distinct. -/
theorem Renaming.declared_inj {other : String} (hname : r.Fresh place name)
    (hother : r.Fresh place other) :
    r.declared place name = r.declared place other ↔ name = other := by
  match place with
  | none => exact Iff.rfl
  | some (depth + 1) => exact Iff.rfl
  | some 0 =>
    refine ⟨fun hsame => ?_, congrArg _⟩
    simp only [Renaming.declared] at hsame
    split at hsame <;> split at hsame
    · rename_i hold hold'
      rw [hold, hold']
    · exact absurd hsame.symm (hother rfl)
    · exact absurd hsame (hname rfl)
    · exact hsame

end Names

section Enters

variable (r : Renaming) {place inner : Option Nat} {name : String}

theorem Renaming.bound_zero (place : Option Nat) (name : String) :
    r.bound place (some 0) name = r.declared place name := by
  match place with
  | none => rfl
  | some 0 => simp [Renaming.bound, Renaming.declared]
  | some (depth + 1) => simp [Renaming.bound, Renaming.declared]

/-- From the inner scope every declaration outside is one scope further. -/
theorem Enters.bound_succ (h : Enters place inner) (distance : Option Nat) (name : String) :
    r.bound inner (distance.map (· + 1)) name = r.bound place distance name := by
  cases h with
  | further => cases place <;> cases distance <;> simp [Renaming.bound]
  | renamed => cases distance <;> simp [Renaming.bound]

/-- A scope outside of the renamed one is opened outside of it. -/
theorem Enters.eq_none (h : Enters place none) : place = none := by
  cases place with
  | none => rfl
  | some depth => cases h

theorem Enters.fresh (h : Enters place inner) (hname : r.Fresh inner name) :
    r.Fresh place name := by
  cases h with
  | further => exact fun hplace => hname (by rwa [Option.isSome_map])
  | renamed => exact nofun

end Enters

mutual

inductive Stmt.Aligned (r : Renaming) (fits : Reference → Prop) :
    (place : Option Nat) → Stmt → Stmt → Prop where
  | block {place inner : Option Nat} {body other : List Stmt} : Enters place inner →
      Stmt.AlignedAll r fits inner body other → Aligned r fits place (.block body) (.block other)
  | expression {place : Option Nat} {expr : Expr} {line : Nat} : r.Fits fits place expr.references →
      Aligned r fits place (.expression expr line)
        (.expression (expr.mapNames (r.reference place)) line)
  | branch {place : Option Nat} {condition : Expr} {thenBranch other : Stmt} {line : Nat} :
      r.Fits fits place condition.references → Aligned r fits place thenBranch other →
      Aligned r fits place (.branch condition thenBranch none line)
        (.branch (condition.mapNames (r.reference place)) other none line)
  | choice {place : Option Nat} {condition : Expr} {thenBranch elseBranch other other' : Stmt}
      {line : Nat} : r.Fits fits place condition.references →
      Aligned r fits place thenBranch other → Aligned r fits place elseBranch other' →
      Aligned r fits place (.branch condition thenBranch (some elseBranch) line)
        (.branch (condition.mapNames (r.reference place)) other (some other') line)
  | loop {place : Option Nat} {condition : Expr} {body other : Stmt} {line : Nat} :
      r.Fits fits place condition.references → Aligned r fits place body other →
      Aligned r fits place (.loop condition body line)
        (.loop (condition.mapNames (r.reference place)) other line)
  | print {place : Option Nat} {expr : Expr} {line : Nat} : r.Fits fits place expr.references →
      Aligned r fits place (.print expr line) (.print (expr.mapNames (r.reference place)) line)
  | return {place : Option Nat} {value : Option Expr} {line : Nat} :
      r.Fits fits place (Expr.referencesOption value) →
      Aligned r fits place (.return value line)
        (.return (value.map (·.mapNames (r.reference place))) line)
  | declare {place : Option Nat} {name : String} {initializer : Option Expr} {line : Nat} :
      r.Fresh place name → r.Fits fits place (Expr.referencesOption initializer) →
      Aligned r fits place (.declare name initializer line)
        (.declare (r.declared place name) (initializer.map (·.mapNames (r.reference place))) line)
  /-- The renamed scope declares no function of the old name. -/
  | function {place inner : Option Nat} {name : String} {params : List Parameter}
      {body other : List Stmt} {line : Nat} : r.Fresh place name →
      (place = some 0 → name ≠ r.old) → Enters place inner →
      (∀ name ∈ params.map Parameter.name, r.Fresh inner name) →
      Stmt.AlignedAll r fits inner body other →
      Aligned r fits place (.function name params body line)
        (.function name (params.map (r.parameter inner)) other line)
  | command {place : Option Nat} {action : Command} : r.Fits fits place action.references →
      Aligned r fits place (.command action) (.command (action.mapNames (r.reference place)))

inductive Stmt.AlignedAll (r : Renaming) (fits : Reference → Prop) :
    (place : Option Nat) → List Stmt → List Stmt → Prop where
  | nil {place : Option Nat} : AlignedAll r fits place [] []
  | cons {place : Option Nat} {stmt other : Stmt} {rest others : List Stmt} :
      Stmt.Aligned r fits place stmt other → AlignedAll r fits place rest others →
      AlignedAll r fits place (stmt :: rest) (other :: others)

end

section Aligned

variable {r : Renaming} {fits : Reference → Prop}

theorem Renaming.map_parameter_none (params : List Parameter) :
    params.map (r.parameter none) = params :=
  (List.map_congr_left fun _ _ => rfl).trans (List.map_id params)

theorem Renaming.fits_none (references : List Reference) : r.Fits fits none references :=
  fun h => by cases h

theorem Renaming.fresh_none (name : String) : r.Fresh none name := fun h => by cases h

theorem Renaming.fits_append {place : Option Nat} {first second : List Reference} :
    r.Fits fits place (first ++ second) ↔ r.Fits fits place first ∧ r.Fits fits place second :=
  ⟨fun h => ⟨fun hplace => (List.forall_mem_append.mp (h hplace)).1,
      fun hplace => (List.forall_mem_append.mp (h hplace)).2⟩,
    fun h hplace => List.forall_mem_append.mpr ⟨h.1 hplace, h.2 hplace⟩⟩

mutual

/-- Outside of the renamed scope a statement may be the same. -/
theorem Stmt.aligned_refl (stmt : Stmt) : stmt.Aligned r fits none stmt := by
  have hexpr : ∀ expr : Expr, expr.mapNames (r.reference none) = expr := Expr.mapNames_id
  have hoption : ∀ expr : Option Expr, expr.map (·.mapNames (r.reference none)) = expr :=
    Expr.map_mapNames_id
  match stmt with
  | .block body => exact .block .further (Stmt.alignedAll_refl body)
  | .expression expr line =>
    have h := @Stmt.Aligned.expression r fits none expr line (r.fits_none _)
    rwa [hexpr] at h
  | .branch condition thenBranch none line =>
    have h := @Stmt.Aligned.branch r fits none condition thenBranch thenBranch line (r.fits_none _)
      thenBranch.aligned_refl
    rwa [hexpr] at h
  | .branch condition thenBranch (some elseBranch) line =>
    have h := @Stmt.Aligned.choice r fits none condition thenBranch elseBranch thenBranch elseBranch
      line (r.fits_none _) thenBranch.aligned_refl elseBranch.aligned_refl
    rwa [hexpr] at h
  | .loop condition body line =>
    have h := @Stmt.Aligned.loop r fits none condition body body line (r.fits_none _)
      body.aligned_refl
    rwa [hexpr] at h
  | .print expr line =>
    have h := @Stmt.Aligned.print r fits none expr line (r.fits_none _)
    rwa [hexpr] at h
  | .return value line =>
    have h := @Stmt.Aligned.return r fits none value line (r.fits_none _)
    rwa [hoption] at h
  | .declare name initializer line =>
    have h := @Stmt.Aligned.declare r fits none name initializer line (r.fresh_none _)
      (r.fits_none _)
    rwa [hoption] at h
  | .function name params body line =>
    have h := @Stmt.Aligned.function r fits none none name params body body line (r.fresh_none _)
      nofun .further (fun _ _ => r.fresh_none _) (Stmt.alignedAll_refl body)
    rwa [r.map_parameter_none] at h
  | .command action =>
    have h := @Stmt.Aligned.command r fits none action (r.fits_none _)
    rwa [show action.mapNames (r.reference none) = action from action.mapNames_id] at h

theorem Stmt.alignedAll_refl (body : List Stmt) : Stmt.AlignedAll r fits none body body := by
  match body with
  | [] => exact .nil
  | stmt :: rest => exact .cons stmt.aligned_refl (Stmt.alignedAll_refl rest)

end

/-- The name of the function that a statement declares. -/
def Stmt.function? : Stmt → Option String
  | .function name _ _ _ => some name
  | _ => none

theorem Stmt.function?_of_not_declared {stmt : Stmt} (h : stmt.declared? = none) :
    stmt.function? = none := by
  cases stmt with
  | function => cases h
  | _ => rfl

theorem Renaming.fits_some {depth : Nat} {references : List Reference}
    (hnames : r.new ∉ references.map Reference.name)
    (hfits : ∀ reference ∈ references, fits reference) :
    r.Fits fits (some depth) references := by
  intro _ reference hmem
  exact ⟨fun h => hnames (h ▸ List.mem_map_of_mem hmem), hfits reference hmem⟩

mutual

/-- Inside of the renamed scope a statement is aligned with its renaming. -/
theorem Stmt.aligned_rename (stmt : Stmt) {depth : Nat} (hstructured : stmt.Structured)
    (hnames : r.new ∉ stmt.names) (hfits : ∀ reference ∈ stmt.references, fits reference)
    (hfunction : depth = 0 → stmt.function? ≠ some r.old) :
    stmt.Aligned r fits (some depth) (stmt.rename r depth) := by
  match stmt with
  | .block body =>
    exact .block .further (Stmt.alignedAll_rename body hstructured hnames hfits nofun)
  | .expression expr line => exact .expression (r.fits_some hnames hfits)
  | .branch condition thenBranch none line =>
    simp only [Stmt.names, List.mem_append, not_or] at hnames
    obtain ⟨hcondition, hthen⟩ := List.forall_mem_append.mp hfits
    exact .branch (r.fits_some hnames.1 hcondition)
      (thenBranch.aligned_rename hstructured.2 hnames.2 hthen
        fun _ => by simp [Stmt.function?_of_not_declared hstructured.1])
  | .branch condition thenBranch (some elseBranch) line =>
    simp only [Stmt.names, List.mem_append, not_or] at hnames
    obtain ⟨hfirst, helse⟩ := List.forall_mem_append.mp hfits
    obtain ⟨hcondition, hthen⟩ := List.forall_mem_append.mp hfirst
    exact .choice (r.fits_some hnames.1.1 hcondition)
      (thenBranch.aligned_rename hstructured.1.2 hnames.1.2 hthen
        fun _ => by simp [Stmt.function?_of_not_declared hstructured.1.1])
      (elseBranch.aligned_rename hstructured.2.2 hnames.2 helse
        fun _ => by simp [Stmt.function?_of_not_declared hstructured.2.1])
  | .loop condition body line =>
    simp only [Stmt.names, List.mem_append, not_or] at hnames
    obtain ⟨hcondition, hbody⟩ := List.forall_mem_append.mp hfits
    exact .loop (r.fits_some hnames.1 hcondition)
      (body.aligned_rename hstructured.2 hnames.2 hbody
        fun _ => by simp [Stmt.function?_of_not_declared hstructured.1])
  | .print expr line => exact .print (r.fits_some hnames hfits)
  | .return value line => exact .return (r.fits_some hnames hfits)
  | .declare name initializer line =>
    obtain ⟨hname, hinitializer⟩ := not_or.mp (mt List.mem_cons.mpr hnames)
    exact .declare (fun _ => Ne.symm hname) (r.fits_some hinitializer hfits)
  | .function name params body line =>
    obtain ⟨hname, hrest⟩ := not_or.mp (mt List.mem_cons.mpr hnames)
    obtain ⟨hparams, hbody⟩ := not_or.mp (mt List.mem_append.mpr hrest)
    have hplain : params.map (r.parameter (some (depth + 1))) = params :=
      (List.map_congr_left fun _ _ => rfl).trans (List.map_id params)
    have h := @Stmt.Aligned.function r fits (some depth) (some (depth + 1)) name params body
      (Stmt.renameAll r (depth + 1) body) line (fun _ => Ne.symm hname)
      (fun hdepth hold => hfunction (Option.some.inj hdepth) (congrArg some hold)) .further
      (fun param hmem _ hnew => hparams (hnew ▸ hmem))
      (Stmt.alignedAll_rename body hstructured hbody hfits nofun)
    rwa [hplain] at h
  | .command action => exact .command (r.fits_some hnames hfits)

theorem Stmt.alignedAll_rename (body : List Stmt) {depth : Nat}
    (hstructured : Stmt.StructuredAll body) (hnames : r.new ∉ Stmt.namesAll body)
    (hfits : ∀ reference ∈ Stmt.referencesAll body, fits reference)
    (hfunction : depth = 0 → ∀ stmt ∈ body, stmt.function? ≠ some r.old) :
    Stmt.AlignedAll r fits (some depth) body (Stmt.renameAll r depth body) := by
  match body with
  | [] => exact .nil
  | stmt :: rest =>
    obtain ⟨hstmt, hrest⟩ := not_or.mp (mt List.mem_append.mpr hnames)
    obtain ⟨hfirst, hothers⟩ := List.forall_mem_append.mp hfits
    exact .cons
      (stmt.aligned_rename hstructured.1 hstmt hfirst fun hdepth =>
        hfunction hdepth stmt List.mem_cons_self)
      (Stmt.alignedAll_rename rest hstructured.2 hrest hothers fun hdepth other hmem =>
        hfunction hdepth other (List.mem_cons_of_mem _ hmem))

end

end Aligned

end CommandScript
