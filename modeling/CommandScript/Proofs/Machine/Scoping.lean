import CommandScript.Proofs.Machine.Held
import CommandScript.Proofs.Resolution.Placement
import CommandScript.Proofs.Scope.Views

/-!
# Scopes that fit their contexts

When the machine comes to a point of a program, the chain of scopes from the current one
outwards fits the context of that point: as long as the context, each scope opened by what
opened the level, binding all names that are ready there, and the global scope at the end.
A function value keeps a scope that fits the context of its declaration, and the frames
that wait fit the contexts they go back to.

A layout says which scope is an instance of what, and which occurrences have been placed.
Nothing that fits stops fitting while the store grows.

* `Layout.Fits`: a chain of scopes fits a context.
* `Layout.Grows`, `Layout.Fits.mono`: growing stores.
* `Layout.Sound`: every value in the store fits.
* `Layout.Resumes`: frames that wait for a value or for an end, at a scope and in a context.
* `Machine.Stands`: what a machine does next fits.
-/

namespace CommandScript

structure Layout where
  globals : ScopeId
  /-- What opened a scope. -/
  origin : ScopeId → Origin
  /-- The occurrences of the programs that were run. -/
  known : Occurrence → Prop

namespace Layout

variable {layout later : Layout} {scopes grown : Scopes}

/-- The scope and those that enclose it are instances of the levels, and bind the names
that are ready. -/
inductive Fits (layout : Layout) (scopes : Scopes) : ScopeId → Context → Prop where
  | top {level : Level} :
    level.origin = .top →
    (∀ name, level.Ready name → (scopes.local? layout.globals name).isSome) →
    Fits layout scopes layout.globals [level]
  | inner {id parent : ScopeId} {level : Level} {outer : Context} :
    level.origin ≠ .top → layout.origin id = level.origin →
    (∀ name, level.Ready name → (scopes.local? id name).isSome) →
    scopes.parent? id = some parent → Fits layout scopes parent outer →
    Fits layout scopes id (level :: outer)

/-! ## Growing stores -/

/-- Scopes are added and names are bound, but none is taken away. -/
structure Grows (layout : Layout) (scopes : Scopes) (later : Layout) (grown : Scopes) :
    Prop where
  globals : later.globals = layout.globals
  known : ∀ occurrence, layout.known occurrence → later.known occurrence
  origin : ∀ id, id < scopes.nextId → later.origin id = layout.origin id
  nextId : scopes.nextId ≤ grown.nextId
  parent? : ∀ id, id < scopes.nextId → grown.parent? id = scopes.parent? id
  local? : ∀ id name, (scopes.local? id name).isSome → (grown.local? id name).isSome

theorem Grows.refl (layout : Layout) (scopes : Scopes) : layout.Grows scopes layout scopes :=
  ⟨rfl, fun _ h => h, fun _ _ => rfl, Nat.le_refl _, fun _ _ => rfl, fun _ _ h => h⟩

theorem Grows.trans {last : Layout} {final : Scopes} (h : layout.Grows scopes later grown)
    (h' : later.Grows grown last final) : layout.Grows scopes last final where
  globals := h'.globals.trans h.globals
  known occurrence hknown := h'.known occurrence (h.known occurrence hknown)
  origin id hid := (h'.origin id (Nat.lt_of_lt_of_le hid h.nextId)).trans (h.origin id hid)
  nextId := Nat.le_trans h.nextId h'.nextId
  parent? id hid := (h'.parent? id (Nat.lt_of_lt_of_le hid h.nextId)).trans (h.parent? id hid)
  local? id name hid := h'.local? id name (h.local? id name hid)

theorem Grows.define (layout : Layout) (scopes : Scopes) (id : ScopeId) (name : String)
    (value : Value) : layout.Grows scopes layout (scopes.define id name value) where
  globals := rfl
  known _ h := h
  origin _ _ := rfl
  nextId := Nat.le_of_eq (scopes.nextId_define id name value).symm
  parent? other _ := scopes.parent?_define id other name value
  local? _ _ h := Scopes.local?_define_isSome h

/-- The same layout with an origin for the scope that is created next. -/
def opening (layout : Layout) (id : ScopeId) (origin : Origin) : Layout :=
  { layout with origin := fun other => if other = id then origin else layout.origin other }

theorem Grows.add (layout : Layout) (scopes : Scopes) (parent : Option ScopeId)
    (origin : Origin) :
    layout.Grows scopes (layout.opening scopes.nextId origin) (scopes.add parent) where
  globals := rfl
  known _ h := h
  origin id hid := if_neg (Nat.ne_of_lt hid)
  nextId := by
    rw [Scopes.nextId_add]
    exact Nat.le_succ _
  parent? _ hid := Scopes.parent?_add_of_lt hid parent
  local? id name h := by
    rwa [Scopes.local?_add_of_lt (Scopes.lt_of_local? h)]

theorem lt_of_parent? {id parent : ScopeId} (h : scopes.parent? id = some parent) :
    id < scopes.nextId := by
  obtain ⟨scope, hs, -⟩ := Option.bind_eq_some_iff.mp h
  exact Scopes.lt_of_find hs

theorem Fits.mono {id : ScopeId} {context : Context} (h : layout.Fits scopes id context)
    (hgrows : layout.Grows scopes later grown) : later.Fits grown id context := by
  induction h with
  | top horigin hready =>
    rw [← hgrows.globals] at hready ⊢
    exact .top horigin fun name hname => hgrows.local? _ name (hready name hname)
  | inner hinner horigin hready hparent _ ih =>
    have hlt := lt_of_parent? hparent
    exact .inner hinner ((hgrows.origin _ hlt).trans horigin)
      (fun name hname => hgrows.local? _ name (hready name hname))
      ((hgrows.parent? _ hlt).trans hparent) ih

/-! ## Changes of the context -/

/-- The innermost level of a context that fits. -/
theorem Fits.head {id : ScopeId} {context : Context} (h : layout.Fits scopes id context) :
    ∃ level outer, context = level :: outer ∧
      ∀ name, level.Ready name → (scopes.local? id name).isSome := by
  cases h with
  | top _ hready => exact ⟨_, _, rfl, hready⟩
  | inner _ _ hready => exact ⟨_, _, rfl, hready⟩

/-- A level of the same origin whose ready names are bound may stand in its place. -/
theorem Fits.replace {id : ScopeId} {level other : Level} {outer : Context}
    (h : layout.Fits scopes id (level :: outer)) (horigin : other.origin = level.origin)
    (hready : ∀ name, other.Ready name → (scopes.local? id name).isSome) :
    layout.Fits scopes id (other :: outer) := by
  cases h with
  | top htop _ => exact .top (horigin.trans htop) hready
  | inner hinner hid _ hparent houter =>
    exact .inner (horigin ▸ hinner) (hid.trans horigin.symm) hready hparent houter

theorem Fits.declare {id : ScopeId} {context : Context} (h : layout.Fits scopes id context)
    (name : String) : layout.Fits scopes id (context.declare name) := by
  obtain ⟨level, outer, rfl, hready⟩ := h.head
  exact h.replace (Level.origin_after level name)
    fun other hother => hready other (Level.ready_declare.mp hother)

theorem Fits.define {id : ScopeId} {context : Context} {name : String}
    (h : layout.Fits scopes id (context.declare name))
    (hbound : (scopes.local? id name).isSome) :
    layout.Fits scopes id ((context.declare name).define name) := by
  cases context with
  | nil => cases h
  | cons level outer =>
    have hready : ∀ other, (level.declare name).Ready other → (scopes.local? id other).isSome := by
      obtain ⟨_, _, heq, hready⟩ := h.head
      obtain ⟨rfl, -⟩ := List.cons.inj heq
      exact hready
    refine h.replace rfl fun other hother => ?_
    rcases Level.ready_define.mp hother with hold | rfl
    · exact hready other (Level.ready_declare.mpr hold)
    · exact hbound

/-! ## Sound stores -/

/-- All these occurrences are known. -/
def Knows (layout : Layout) (occurrences : List Occurrence) : Prop :=
  ∀ occurrence ∈ occurrences, layout.known occurrence

/-- The statement stands in the context. -/
structure Places (layout : Layout) (context : Context) (stmt : Stmt) : Prop where
  structured : stmt.Structured
  knows : layout.Knows (stmt.occurrences context)

structure PlacesAll (layout : Layout) (context : Context) (body : List Stmt) : Prop where
  structured : Stmt.StructuredAll body
  knows : layout.Knows (Stmt.occurrencesAll body context)

theorem PlacesAll.cons {context : Context} {stmt : Stmt} {rest : List Stmt}
    (h : layout.PlacesAll context (stmt :: rest)) :
    layout.Places context stmt ∧ layout.PlacesAll (stmt.after context) rest := by
  obtain ⟨⟨hstmt, hrest⟩, hknows⟩ := h
  obtain ⟨hfirst, hlater⟩ := List.forall_mem_append.mp hknows
  exact ⟨⟨hstmt, hfirst⟩, hrest, hlater⟩

/-- The scope that a function value keeps fits the context of its declaration. -/
def Admits (layout : Layout) (scopes : Scopes) : Value → Prop
  | .function decl closure _ =>
    ∃ context, layout.Fits scopes closure context ∧
      layout.PlacesAll (.ofFunction decl :: context) decl.body
  | _ => True

theorem admits_of_plain {value : Value} (h : value.closure? = none) :
    layout.Admits scopes value := by
  cases value with
  | function decl closure identity => cases h
  | _ => trivial

theorem Admits.mono {value : Value} (h : layout.Admits scopes value)
    (hgrows : layout.Grows scopes later grown) : later.Admits grown value := by
  cases value with
  | function decl closure identity =>
    obtain ⟨context, hfits, hstructured, hknows⟩ := h
    exact ⟨context, hfits.mono hgrows, hstructured,
      fun occurrence h => hgrows.known occurrence (hknows occurrence h)⟩
  | _ => trivial

/-- What scopes bind they declare, and values in them are admitted. The global scope is the
outermost one. -/
structure Sound (layout : Layout) (scopes : Scopes) : Prop where
  lt : layout.globals < scopes.nextId
  root : scopes.parent? layout.globals = none
  top : layout.origin layout.globals = .top
  bindings : ∀ id name value, scopes.Binds id name value →
    layout.Admits scopes value ∧ (layout.origin id).Declares name

namespace Sound

theorem define (h : layout.Sound scopes) {id : ScopeId} {name : String} {value : Value}
    (hvalue : layout.Admits (scopes.define id name value) value)
    (hname : (layout.origin id).Declares name) :
    layout.Sound (scopes.define id name value) where
  lt := by
    rw [Scopes.nextId_define]
    exact h.lt
  root := by
    rw [Scopes.parent?_define]
    exact h.root
  top := h.top
  bindings other key held hbinds := by
    rcases hbinds.of_define with hold | ⟨rfl, rfl, rfl⟩
    · obtain ⟨hadmits, hdeclares⟩ := h.bindings other key held hold
      exact ⟨hadmits.mono (Grows.define _ _ _ _ _), hdeclares⟩
    · exact ⟨hvalue, hname⟩

theorem add (h : layout.Sound scopes) (parent : Option ScopeId) (origin : Origin) :
    (layout.opening scopes.nextId origin).Sound (scopes.add parent) := by
  have hgrows := Grows.add layout scopes parent origin
  refine ⟨Nat.lt_of_lt_of_le h.lt hgrows.nextId, (hgrows.parent? _ h.lt).trans h.root,
    (hgrows.origin _ h.lt).trans h.top, fun id name value hbinds => ?_⟩
  have hold := hbinds.of_add
  obtain ⟨hadmits, hdeclares⟩ := h.bindings id name value hold
  refine ⟨hadmits.mono hgrows, ?_⟩
  obtain ⟨scope, hs, -⟩ := hold
  rwa [hgrows.origin id (Scopes.lt_of_find hs)]

end Sound

/-- The innermost level is what opened the scope. -/
theorem Fits.origin_eq {id : ScopeId} {level : Level} {outer : Context}
    (h : layout.Fits scopes id (level :: outer)) (hsound : layout.Sound scopes) :
    layout.origin id = level.origin := by
  cases h with
  | top htop _ => exact hsound.top.trans htop.symm
  | inner _ horigin => exact horigin

theorem Fits.lt {id : ScopeId} {context : Context} (h : layout.Fits scopes id context)
    (hsound : layout.Sound scopes) : id < scopes.nextId := by
  cases h with
  | top => exact hsound.lt
  | inner _ _ _ hparent => exact lt_of_parent? hparent

end Layout

end CommandScript
