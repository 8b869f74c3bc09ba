import CommandScript.Proofs.Resolution.Earlier
import CommandScript.Proofs.Resolution.Table
import CommandScript.Proofs.Syntax.Renaming

/-!
# Resolution does not depend on local names

If a declaration and the references bound to it get a new name that is free everywhere, then
every reference is still bound to the same scope. The contexts of the two programs have the
same names, except that the level of the renamed scope has the new name in place of the old
one. Below that level the new name leads to it, where the old one did; and where the old name
led elsewhere, it still does.

* `Level.Aligned`, `Context.Aligned`: levels and contexts of the two programs.
* `Context.Aligned.distance?_eq`: a name and its renaming are found at the same distance.
* `Stmt.AlignedAll.occurrences`: the occurrences of the two programs.
* `Stmt.RenamesIn.aligned`: an accepted program is aligned with its renaming.
* `Stmt.RenamesIn.resolve_eq`: both have the same distances.
-/

namespace CommandScript

/-! ## Declarations of the old name -/

section Once

variable {name : String}

theorem Level.declares_passed {level : Level} (declared : String)
    (h : level.names.declares name = true) :
    ((level.declare declared).define declared).names.declares name = true := by
  obtain ⟨found, hmem, rfl⟩ := StaticScope.declares_iff.mp h
  refine StaticScope.declares_iff.mpr ?_
  by_cases hname : found.name = declared
  · exact ⟨⟨declared, true⟩, Level.mem_define.mpr (.inr rfl), hname.symm⟩
  · exact ⟨found, Level.mem_define.mpr (.inl ⟨hmem, hname⟩), rfl⟩

theorem Level.declares_self (level : Level) (declared : String) :
    ((level.declare declared).define declared).names.declares declared = true :=
  StaticScope.declares_iff.mpr ⟨⟨declared, true⟩, Level.mem_define.mpr (.inr rfl), rfl⟩

/-- No statement declares a name again. -/
theorem Stmt.not_declared_again {body : List Stmt} {level : Level} {outer : Context}
    (hpermitted : ∀ occurrence ∈ Stmt.occurrencesAll body (level :: outer), occurrence.Permitted)
    (hdeclares : level.names.declares name = true) :
    ∀ stmt ∈ body, stmt.declared? ≠ some name := by
  induction body generalizing level with
  | nil => nofun
  | cons stmt rest ih =>
    obtain ⟨hstmt, hrest⟩ := List.forall_mem_append.mp hpermitted
    refine List.forall_mem_cons.mpr ⟨fun hname => ?_, ?_⟩
    · have hfree : level.names.declares name = false :=
        hstmt _ (Stmt.declare_mem_occurrences hname (level :: outer))
      rw [hdeclares] at hfree
      cases hfree
    · cases hdeclared : stmt.declared? with
      | none =>
        rw [Stmt.after_of_not_declared hdeclared] at hrest
        exact ih hrest hdeclares
      | some declared =>
        rw [Stmt.after_of_declared hdeclared] at hrest
        exact ih hrest (Level.declares_passed declared hdeclares)

/-- A scope that declares a variable declares no function of that name. -/
theorem Stmt.not_function_of_variable {body : List Stmt} {level : Level} {outer : Context}
    (hpermitted : ∀ occurrence ∈ Stmt.occurrencesAll body (level :: outer), occurrence.Permitted)
    (hvariable : Stmt.DeclaresVariable body name) : ∀ stmt ∈ body, stmt.function? ≠ some name := by
  obtain ⟨initializer, line, hvariable⟩ := hvariable
  induction body generalizing level with
  | nil => cases hvariable
  | cons stmt rest ih =>
    obtain ⟨-, hrest⟩ := List.forall_mem_append.mp hpermitted
    -- what has this name in the rest is no second declaration
    have hafter : stmt.declared? = some name → ∀ other ∈ rest, other.declared? ≠ some name := by
      intro hname
      rw [Stmt.after_of_declared hname] at hrest
      exact Stmt.not_declared_again hrest (level.declares_self name)
    rcases List.mem_cons.mp hvariable with rfl | hmem
    · refine List.forall_mem_cons.mpr ⟨nofun, fun other hother hfunction => ?_⟩
      refine hafter rfl other hother ?_
      cases other with
      | function => exact hfunction
      | _ => cases hfunction
    · refine List.forall_mem_cons.mpr ⟨fun hfunction => ?_, ?_⟩
      · refine hafter ?_ _ hmem rfl
        cases stmt with
        | function => exact hfunction
        | _ => cases hfunction
      · cases hdeclared : stmt.declared? with
        | none =>
          rw [Stmt.after_of_not_declared hdeclared] at hrest
          exact ih hrest hmem
        | some declared =>
          rw [Stmt.after_of_declared hdeclared] at hrest
          exact ih hrest hmem

end Once

/-! ## The renaming of an accepted program -/

section Accepted

variable {r : Renaming} {fits : Reference → Prop}

theorem Stmt.alignedAll_at {place : Option Nat} {before after : List Stmt} {stmt other : Stmt}
    (hbefore : Stmt.AlignedAll r fits place before before)
    (hstmt : stmt.Aligned r fits place other)
    (hafter : Stmt.AlignedAll r fits place after after) :
    Stmt.AlignedAll r fits place (before ++ stmt :: after) (before ++ other :: after) := by
  induction before with
  | nil => exact .cons hstmt hafter
  | cons first rest ih =>
    cases hbefore with
    | cons hfirst hrest => exact .cons hfirst (ih hrest)

theorem Stmt.namesAll_append (first second : List Stmt) :
    Stmt.namesAll (first ++ second) = Stmt.namesAll first ++ Stmt.namesAll second := by
  induction first with
  | nil => rfl
  | cons stmt rest ih => rw [List.cons_append, namesAll, ih, namesAll, List.append_assoc]

/-- What is known of all statements is known of one of them. -/
theorem Stmt.forall_at {before after : List Stmt} {stmt : Stmt} {context : Context}
    (hpermitted : ∀ occurrence ∈ Stmt.occurrencesAll (before ++ stmt :: after) context,
      occurrence.Permitted)
    (hstructured : Stmt.StructuredAll (before ++ stmt :: after))
    (hnames : r.new ∉ Stmt.namesAll (before ++ stmt :: after))
    (hfits : ∀ reference ∈ Stmt.referencesAll (before ++ stmt :: after), fits reference) :
    (∀ occurrence ∈ stmt.occurrences (Stmt.afterAll before context), occurrence.Permitted) ∧
      stmt.Structured ∧ r.new ∉ stmt.names ∧ ∀ reference ∈ stmt.references, fits reference := by
  rw [Stmt.occurrencesAll_append] at hpermitted
  rw [Stmt.namesAll_append] at hnames
  rw [Stmt.referencesAll_append] at hfits
  have hother := (not_or.mp (mt List.mem_append.mpr hnames)).2
  exact ⟨(List.forall_mem_append.mp (List.forall_mem_append.mp hpermitted).2).1,
    (Stmt.structuredAll_append.mp hstructured).2.1,
    (not_or.mp (mt List.mem_append.mpr hother)).1,
    (List.forall_mem_append.mp (List.forall_mem_append.mp hfits).2).1⟩

/-- A statement that is permitted is aligned with its renaming. -/
theorem Stmt.RenamesOne.aligned {stmt renamed : Stmt} (h : Stmt.RenamesOne r stmt renamed)
    {context : Context}
    (hpermitted : ∀ occurrence ∈ stmt.occurrences context, occurrence.Permitted)
    (hstructured : stmt.Structured) (hnames : r.new ∉ stmt.names)
    (hfits : ∀ reference ∈ stmt.references, fits reference) :
    stmt.Aligned r fits none renamed := by
  have hexpr : ∀ expr : Expr, expr.mapNames (r.reference none) = expr := Expr.mapNames_id
  have houter {name : String} : (none : Option Nat) = some 0 → name ≠ r.old :=
    fun hplace => absurd hplace (Option.some_ne_none 0).symm
  induction h generalizing context with
  | @block body hvariable =>
    exact .block .renamed (Stmt.alignedAll_rename body hstructured hnames hfits fun _ =>
      Stmt.not_function_of_variable hpermitted hvariable)
  | @function name params body line hdeclares =>
    obtain ⟨-, hrest⟩ := List.forall_mem_cons.mp hpermitted
    obtain ⟨-, hbody⟩ := List.forall_mem_append.mp hrest
    obtain ⟨-, hother⟩ := not_or.mp (mt List.mem_cons.mpr hnames)
    obtain ⟨hparams, hbodyNames⟩ := not_or.mp (mt List.mem_append.mpr hother)
    refine .function (r.fresh_none _) houter .renamed (fun param hmem _ hnew => ?_)
      (Stmt.alignedAll_rename body hstructured hbodyNames hfits fun _ => ?_)
    · exact hparams (hnew ▸ hmem)
    · rcases hdeclares with hparam | hvariable
      · -- the level of the function has declared its parameters
        have hdeclared : (Level.ofFunction ⟨name, params.map Parameter.name, body⟩).names.declares
            r.old = true :=
          StaticScope.declares_iff.mpr ⟨_, Level.ready_ofFunction.mpr hparam, rfl⟩
        intro stmt hmem hfunction
        refine Stmt.not_declared_again hbody hdeclared stmt hmem ?_
        cases stmt with
        | function => exact hfunction
        | _ => cases hfunction
      · exact Stmt.not_function_of_variable hbody hvariable
  | @inBlock before after stmt renamed _ ih =>
    obtain ⟨hpermitted, hstructured, hnames, hfits⟩ :=
      Stmt.forall_at hpermitted hstructured hnames hfits
    exact .block .further (Stmt.alignedAll_at (Stmt.alignedAll_refl before)
      (ih hpermitted hstructured hnames hfits) (Stmt.alignedAll_refl after))
  | @inFunction name params before after stmt renamed line _ ih =>
    obtain ⟨-, hrest⟩ := List.forall_mem_cons.mp hpermitted
    obtain ⟨-, hbody⟩ := List.forall_mem_append.mp hrest
    obtain ⟨-, hother⟩ := not_or.mp (mt List.mem_cons.mpr hnames)
    obtain ⟨-, hnames⟩ := not_or.mp (mt List.mem_append.mpr hother)
    obtain ⟨hpermitted, hstructured, hnames, hfits⟩ :=
      Stmt.forall_at hbody hstructured hnames hfits
    have haligned := @Stmt.Aligned.function r fits none none name params
      (before ++ stmt :: after) (before ++ renamed :: after) line (r.fresh_none _) houter .further
      (fun _ _ => r.fresh_none _) (Stmt.alignedAll_at (Stmt.alignedAll_refl before)
        (ih hpermitted hstructured hnames hfits) (Stmt.alignedAll_refl after))
    rwa [r.map_parameter_none] at haligned
  | @thenBranch condition stmt renamed elseBranch line _ ih =>
    cases elseBranch with
    | none =>
      have hpart := ih (List.forall_mem_append.mp hpermitted).2 hstructured.2
        (not_or.mp (mt List.mem_append.mpr hnames)).2 (List.forall_mem_append.mp hfits).2
      have haligned := @Stmt.Aligned.branch r fits none condition stmt renamed line
        (r.fits_none _) hpart
      rwa [hexpr] at haligned
    | some other =>
      have hfirst := (not_or.mp (mt List.mem_append.mpr hnames)).1
      have hpart := ih (List.forall_mem_append.mp (List.forall_mem_append.mp hpermitted).1).2
        hstructured.1.2 (not_or.mp (mt List.mem_append.mpr hfirst)).2
        (List.forall_mem_append.mp (List.forall_mem_append.mp hfits).1).2
      have haligned := @Stmt.Aligned.choice r fits none condition stmt other renamed other line
        (r.fits_none _) hpart other.aligned_refl
      rwa [hexpr] at haligned
  | @elseBranch condition thenBranch stmt renamed line _ ih =>
    have hpart := ih (List.forall_mem_append.mp hpermitted).2 hstructured.2.2
      (not_or.mp (mt List.mem_append.mpr hnames)).2 (List.forall_mem_append.mp hfits).2
    have haligned := @Stmt.Aligned.choice r fits none condition thenBranch stmt thenBranch renamed
      line (r.fits_none _) thenBranch.aligned_refl hpart
    rwa [hexpr] at haligned
  | @loop condition stmt renamed line _ ih =>
    have hpart := ih (List.forall_mem_append.mp hpermitted).2 hstructured.2
      (not_or.mp (mt List.mem_append.mpr hnames)).2 (List.forall_mem_append.mp hfits).2
    have haligned :=
      @Stmt.Aligned.loop r fits none condition stmt renamed line (r.fits_none _) hpart
    rwa [hexpr] at haligned

/-- An accepted program is aligned with its renaming. -/
theorem Stmt.RenamesIn.aligned {program renamed : List Stmt}
    (h : Stmt.RenamesIn r program renamed) (haccepted : Stmt.Accepted program)
    (hnames : r.new ∉ Stmt.namesAll program)
    (hfits : ∀ reference ∈ Stmt.referencesAll program, fits reference) :
    Stmt.AlignedAll r fits none program renamed := by
  obtain ⟨hone⟩ := h
  obtain ⟨hpermitted, hstructured, hnames, hfits⟩ :=
    Stmt.forall_at haccepted.permitted haccepted.structured hnames hfits
  exact Stmt.alignedAll_at (Stmt.alignedAll_refl _)
    (hone.aligned hpermitted hstructured hnames hfits) (Stmt.alignedAll_refl _)

end Accepted

/-! ## Levels and contexts -/

/-- The same names, but for the one that is renamed in its scope. -/
structure Level.Aligned (r : Renaming) (place : Option Nat) (level other : Level) : Prop where
  names : other.names =
    level.names.map fun found => { found with name := r.declared place found.name }
  isFunction : other.origin.isFunction = level.origin.isFunction
  fresh : place.isSome → level.names.declares r.new = false

/-- The levels are aligned at the places that they have as one is opened within the other. -/
inductive Context.Aligned (r : Renaming) : (place : Option Nat) → Context → Context → Prop where
  | top {level other : Level} : level.Aligned r none other → Aligned r none [level] [other]
  | inner {place inner : Option Nat} {level other : Level} {outer outer' : Context} :
      Enters place inner → level.Aligned r inner other → Aligned r place outer outer' →
      Aligned r inner (level :: outer) (other :: outer')

section Levels

variable {r : Renaming} {place : Option Nat} {name : String}

theorem StaticScope.isPending_iff {scope : StaticScope} :
    scope.isPending name = true ↔ ∃ found ∈ scope, found.name = name ∧ found.ready = false := by
  simp [isPending]

namespace Level.Aligned

variable {level other : Level}

theorem fresh_of_mem (h : level.Aligned r place other) {found : Declared}
    (hmem : found ∈ level.names) : r.Fresh place found.name := by
  intro hplace hnew
  have hfresh := h.fresh hplace
  rw [StaticScope.declares_iff.mpr ⟨found, hmem, hnew⟩] at hfresh
  cases hfresh

theorem declares_eq (h : level.Aligned r place other) (hname : r.Fresh place name) :
    other.names.declares (r.declared place name) = level.names.declares name := by
  rw [Bool.eq_iff_iff, StaticScope.declares_iff, StaticScope.declares_iff, h.names]
  simp only [List.mem_map, exists_exists_and_eq_and]
  exact exists_congr fun found => and_congr_right fun hmem =>
    r.declared_inj (h.fresh_of_mem hmem) hname

/-- A name that is declared further out is not declared here under the name that it gets. -/
theorem not_declares_bound {outer : Option Nat} (h : level.Aligned r place other)
    (henters : Enters outer place) (hname : r.Fresh place name)
    (hdeclares : ¬level.names.declares name = true) (distance : Option Nat) :
    ¬other.names.declares (r.bound outer distance name) = true := by
  rw [StaticScope.declares_iff] at hdeclares ⊢
  rintro ⟨found', hmem, hfound⟩
  rw [h.names] at hmem
  obtain ⟨found, hfoundMem, rfl⟩ := List.mem_map.mp hmem
  have hne : found.name ≠ name := fun hsame => hdeclares ⟨found, hfoundMem, hsame⟩
  have hfresh := h.fresh_of_mem hfoundMem
  cases henters with
  | further =>
    match outer with
    | none => exact hne hfound
    | some depth =>
      simp only [Renaming.bound] at hfound
      split at hfound
      · exact hfresh rfl hfound
      · exact hne hfound
  | renamed =>
    simp only [Renaming.bound, Renaming.declared] at hfound
    split at hfound
    · exact hname rfl hfound.symm
    · exact hne hfound

theorem isPending_eq (h : level.Aligned r place other) (hname : r.Fresh place name) :
    other.names.isPending (r.declared place name) = level.names.isPending name := by
  rw [Bool.eq_iff_iff, StaticScope.isPending_iff, StaticScope.isPending_iff, h.names]
  simp only [List.mem_map, exists_exists_and_eq_and]
  exact exists_congr fun found => and_congr_right fun hmem =>
    and_congr_left' (r.declared_inj (h.fresh_of_mem hmem) hname)

theorem declare (h : level.Aligned r place other) (hname : r.Fresh place name) :
    (level.declare name).Aligned r place (other.declare (r.declared place name)) := by
  unfold Level.declare
  rw [h.declares_eq hname]
  split
  · exact h
  · refine ⟨congrArg (_ :: ·) h.names, h.isFunction, fun hplace => ?_⟩
    simp only [StaticScope.declares, List.any_cons, Bool.or_eq_false_iff, decide_eq_false_iff_not]
    exact ⟨hname hplace, h.fresh hplace⟩

theorem define (h : level.Aligned r place other) (hname : r.Fresh place name) :
    (level.define name).Aligned r place (other.define (r.declared place name)) := by
  refine ⟨?_, h.isFunction, fun hplace => ?_⟩
  · simp only [Level.define, h.names, StaticScope.markReady, List.map_map]
    refine List.map_congr_left fun found hmem => ?_
    have hsame := r.declared_inj (h.fresh_of_mem hmem) hname
    simp only [Function.comp_apply, hsame]
    split <;> rfl
  · rw [Bool.eq_false_iff]
    intro hdeclares
    obtain ⟨found, hmem, hnew⟩ := StaticScope.declares_iff.mp hdeclares
    rcases StaticScope.mem_markReady.mp hmem with ⟨hmem, -⟩ | ⟨rfl, -⟩
    · exact h.fresh_of_mem hmem hplace hnew
    · exact hname hplace hnew

theorem passed (h : level.Aligned r place other) (hname : r.Fresh place name) :
    ((level.declare name).define name).Aligned r place
      ((other.declare (r.declared place name)).define (r.declared place name)) :=
  (h.declare hname).define hname

/-- A level that opens with the same origin. -/
theorem opened {origin origin' : Origin} (h : origin'.isFunction = origin.isFunction) :
    Level.Aligned r place ⟨origin, []⟩ ⟨origin', []⟩ :=
  ⟨rfl, h, fun _ => rfl⟩

theorem withParams (h : level.Aligned r place other) {params : List String}
    (hparams : ∀ param ∈ params, r.Fresh place param) :
    (level.withParams params).Aligned r place
      (other.withParams (params.map (r.declared place))) := by
  induction params generalizing level other with
  | nil => exact h
  | cons param rest ih =>
    obtain ⟨hparam, hrest⟩ := List.forall_mem_cons.mp hparams
    exact ih (h.passed hparam) hrest

end Level.Aligned

namespace Context.Aligned

variable {context other : Context}

theorem inFunction_eq (h : context.Aligned r place other) :
    other.inFunction = context.inFunction := by
  induction h with
  | top hlevel => simp only [Context.inFunction, List.any_cons, hlevel.isFunction, List.any_nil]
  | inner _ hlevel _ ih =>
    simp only [Context.inFunction, List.any_cons, hlevel.isFunction] at ih ⊢
    rw [ih]

theorem mapHead (h : context.Aligned r place other) {f g : Level → Level}
    (hf : ∀ {level other : Level},
    level.Aligned r place other → (f level).Aligned r place (g other)) :
    Context.Aligned r place (context.mapHead f) (other.mapHead g) := by
  cases h with
  | top hlevel => exact .top (hf hlevel)
  | inner henters hlevel houter => exact .inner henters (hf hlevel) houter

theorem declare (h : context.Aligned r place other) (hname : r.Fresh place name) :
    (context.declare name).Aligned r place (other.declare (r.declared place name)) :=
  h.mapHead fun hlevel => hlevel.declare hname

theorem passed (h : context.Aligned r place other) (hname : r.Fresh place name) :
    ((context.declare name).define name).Aligned r place
      ((other.declare (r.declared place name)).define (r.declared place name)) :=
  (h.declare hname).mapHead fun hlevel => hlevel.define hname

/-- A name is found at the same distance under the name that it gets. -/
theorem distance?_eq (h : context.Aligned r place other) (hname : r.Fresh place name) :
    distance? other.scopes (r.bound place (distance? context.scopes name) name) =
      distance? context.scopes name := by
  induction h with
  | top hlevel =>
    have hdeclares := hlevel.declares_eq hname
    simp only [Context.scopes, List.map_cons, List.map_nil, distance?_cons, distance?_nil]
    rw [show ∀ distance, r.bound none distance name = r.declared none name from fun _ => rfl,
      hdeclares]
  | @inner place inner level other outer outer' henters hlevel _ ih =>
    have houter := ih (henters.fresh r hname)
    simp only [Context.scopes, List.map_cons, distance?_cons] at houter ⊢
    by_cases hdeclares : level.names.declares name = true
    · rw [if_pos hdeclares, r.bound_zero, hlevel.declares_eq hname, if_pos hdeclares]
    · have hother := hlevel.not_declares_bound henters hname hdeclares
        (distance? (outer.map Level.names) name)
      rw [if_neg hdeclares, henters.bound_succ, if_neg hother, houter]

/-- A name that may be read here may be read here under the name that it gets. -/
theorem permitted_read {id id' : NodeId} (h : context.Aligned r place other)
    (hname : r.Fresh place name)
    (hpermitted : Occurrence.Permitted ⟨context, .mention ⟨id, name, .read⟩⟩) :
    Occurrence.Permitted
      ⟨other, .mention ⟨id', r.bound place (distance? context.scopes name) name, .read⟩⟩ := by
  have hlevels : ∃ outer level rest level' rest', Enters outer place ∧
      level.Aligned r place level' ∧ context = level :: rest ∧ other = level' :: rest' := by
    cases h with
    | top hlevel => exact ⟨none, _, _, _, _, .further, hlevel, rfl, rfl⟩
    | inner henters hlevel _ => exact ⟨_, _, _, _, _, henters, hlevel, rfl, rfl⟩
  obtain ⟨outer, level, rest, level', rest', henters, hlevel, rfl, rfl⟩ := hlevels
  have hpending : level.names.isPending name = false := hpermitted
  show level'.names.isPending _ = false
  rw [Context.scopes, List.map_cons, distance?_cons]
  by_cases hdeclares : level.names.declares name = true
  · rw [if_pos hdeclares, r.bound_zero, hlevel.isPending_eq hname, hpending]
  · rw [if_neg hdeclares, henters.bound_succ, Bool.eq_false_iff]
    intro hpending'
    obtain ⟨found, hmem, hfound, -⟩ := StaticScope.isPending_iff.mp hpending'
    exact hlevel.not_declares_bound henters hname hdeclares _
      (StaticScope.declares_iff.mpr ⟨found, hmem, hfound⟩)

theorem permitted_declare (h : context.Aligned r place other) (hname : r.Fresh place name)
    (hpermitted : Occurrence.Permitted ⟨context, .declare name⟩) :
    Occurrence.Permitted ⟨other, .declare (r.declared place name)⟩ := by
  cases h with
  | top hlevel => exact (hlevel.declares_eq hname).trans hpermitted
  | inner _ hlevel _ => exact (hlevel.declares_eq hname).trans hpermitted

end Context.Aligned

end Levels

/-! ## Occurrences -/

/-- Resolution makes the same of an occurrence and of its renaming. -/
structure Occurrence.Alike (occurrence renamed : Occurrence) : Prop where
  recorded : renamed.recorded? = occurrence.recorded?
  permitted : occurrence.Permitted → renamed.Permitted

/-- The distance of the occurrence is the one that the renaming goes by. -/
def Renaming.Knows (r : Renaming) (occurrence : Occurrence) : Prop :=
  ∀ reference, occurrence.reference? = some reference →
    r.recorded reference.id = distance? occurrence.context.scopes reference.name

section Occurrences

variable {r : Renaming} {fits : Reference → Prop} {place : Option Nat}

theorem Occurrence.Alike.permitted_recorded {occurrences others : List Occurrence}
    (h : List.Forall₂ Occurrence.Alike occurrences others)
    (hpermitted : ∀ occurrence ∈ occurrences, occurrence.Permitted) :
    (∀ occurrence ∈ others, occurrence.Permitted) ∧
      others.filterMap Occurrence.recorded? = occurrences.filterMap Occurrence.recorded? := by
  induction h with
  | nil => exact ⟨nofun, rfl⟩
  | cons hfirst _ ih =>
    obtain ⟨hpermits, hrest⟩ := List.forall_mem_cons.mp hpermitted
    obtain ⟨hothers, hrecorded⟩ := ih hrest
    exact ⟨List.forall_mem_cons.mpr ⟨hfirst.permitted hpermits, hothers⟩,
      by rw [List.filterMap_cons, List.filterMap_cons, hfirst.recorded, hrecorded]⟩

namespace Context.Aligned

variable {context other : Context}

theorem alike_mention (h : context.Aligned r place other) {reference : Reference}
    (hname : r.Fresh place reference.name)
    (hknows : r.Knows ⟨context, .mention reference⟩) :
    Occurrence.Alike ⟨context, .mention reference⟩
      ⟨other, .mention (reference.mapName (r.reference place))⟩ := by
  obtain ⟨id, name, access⟩ := reference
  have hbound : r.reference place id name = r.bound place (distance? context.scopes name) name :=
    congrArg (r.bound place · name) (hknows _ rfl)
  have hname' : Reference.mapName (r.reference place) ⟨id, name, access⟩ =
      ⟨id, r.bound place (distance? context.scopes name) name, access⟩ :=
    congrArg (Reference.mk id · access) hbound
  rw [hname']
  refine ⟨?_, ?_⟩
  · simp only [Occurrence.recorded?, Occurrence.reference?, Option.bind_some, h.distance?_eq hname]
  · cases access with
    | read => exact h.permitted_read hname
    | write => exact fun _ => by cases other <;> trivial

theorem alike_declare (h : context.Aligned r place other) {name : String}
    (hname : r.Fresh place name) :
    Occurrence.Alike ⟨context, .declare name⟩ ⟨other, .declare (r.declared place name)⟩ :=
  ⟨rfl, h.permitted_declare hname⟩

theorem alike_leave (h : context.Aligned r place other) :
    Occurrence.Alike ⟨context, .leave⟩ ⟨other, .leave⟩ := by
  refine ⟨rfl, fun hpermitted => ?_⟩
  have hleave : ∀ context : Context,
      Occurrence.Permitted ⟨context, .leave⟩ ↔ context.inFunction = true := fun context => by
    cases context <;> exact Iff.rfl
  rw [hleave] at hpermitted ⊢
  rw [h.inFunction_eq, hpermitted]

theorem alike_mentions (h : context.Aligned r place other) {references : List Reference}
    (hfits : r.Fits fits place references)
    (hknows : ∀ occurrence ∈ context.occurrences references, r.Knows occurrence) :
    List.Forall₂ Occurrence.Alike (context.occurrences references)
      (other.occurrences (references.map (·.mapName (r.reference place)))) := by
  rw [Context.occurrences, Context.occurrences, List.map_map]
  refine List.forall₂_map_left_iff.mpr (List.forall₂_map_right_iff.mpr ?_)
  refine List.forall₂_same.mpr fun reference hmem => ?_
  exact h.alike_mention (fun hplace => (hfits hplace reference hmem).1)
    (hknows _ (List.mem_map_of_mem hmem))

end Context.Aligned

theorem Level.alike_params {outer other : Context} {outside : Option Nat}
    (h : outer.Aligned r outside other) (henters : Enters outside place) {level level' : Level}
    (hlevel : level.Aligned r place level') {params : List String}
    (hparams : ∀ param ∈ params, r.Fresh place param) :
    List.Forall₂ Occurrence.Alike (level.paramOccurrences outer params)
      (level'.paramOccurrences other (params.map (r.declared place))) := by
  induction params generalizing level level' with
  | nil => exact .nil
  | cons param rest ih =>
    obtain ⟨hparam, hrest⟩ := List.forall_mem_cons.mp hparams
    exact .cons ((Context.Aligned.inner henters hlevel h).alike_declare hparam)
      (ih (hlevel.passed hparam) hrest)

namespace Stmt.Aligned

variable {stmt other : Stmt}

theorem declared?_eq (h : stmt.Aligned r fits place other) :
    other.declared? = stmt.declared?.map (r.declared place) := by
  cases h with
  | function _ hname => exact congrArg some (r.declared_of_ne hname).symm
  | _ => rfl

theorem fresh_declared (h : stmt.Aligned r fits place other) {name : String}
    (hname : stmt.declared? = some name) : r.Fresh place name := by
  cases h with
  | declare hfresh _ =>
    obtain rfl := Option.some.inj hname
    exact hfresh
  | function hfresh _ _ _ _ =>
    obtain rfl := Option.some.inj hname
    exact hfresh
  | _ => cases hname

theorem after (h : stmt.Aligned r fits place other) {context later : Context}
    (hcontext : context.Aligned r place later) :
    (stmt.after context).Aligned r place (other.after later) := by
  have hdeclared := h.declared?_eq
  cases hname : stmt.declared? with
  | none =>
    rw [hname] at hdeclared
    rw [Stmt.after_of_not_declared hname, Stmt.after_of_not_declared hdeclared]
    exact hcontext
  | some name =>
    rw [hname] at hdeclared
    rw [Stmt.after_of_declared hname, Stmt.after_of_declared hdeclared]
    exact hcontext.passed (h.fresh_declared hname)

end Stmt.Aligned

mutual

theorem Stmt.Aligned.structured {stmt other : Stmt} {place : Option Nat}
    (h : stmt.Aligned r fits place other) (hstructured : stmt.Structured) : other.Structured := by
  match h with
  | .block _ hbody => exact hbody.structured hstructured
  | .expression _ | .print _ | .return _ | .declare _ _ | .command _ => trivial
  | .branch _ hthen =>
    exact ⟨by rw [hthen.declared?_eq, hstructured.1]; rfl, hthen.structured hstructured.2⟩
  | .choice _ hthen helse =>
    exact ⟨⟨by rw [hthen.declared?_eq, hstructured.1.1]; rfl, hthen.structured hstructured.1.2⟩,
      by rw [helse.declared?_eq, hstructured.2.1]; rfl, helse.structured hstructured.2.2⟩
  | .loop _ hbody =>
    exact ⟨by rw [hbody.declared?_eq, hstructured.1]; rfl, hbody.structured hstructured.2⟩
  | .function _ _ _ _ hbody => exact hbody.structured hstructured

theorem Stmt.AlignedAll.structured {body others : List Stmt} {place : Option Nat}
    (h : Stmt.AlignedAll r fits place body others) (hstructured : Stmt.StructuredAll body) :
    Stmt.StructuredAll others := by
  match h with
  | .nil => trivial
  | .cons hstmt hrest => exact ⟨hstmt.structured hstructured.1, hrest.structured hstructured.2⟩

end

mutual

/-- Resolution makes the same of each occurrence within a statement and of its renaming. -/
theorem Stmt.Aligned.occurrences {stmt other : Stmt} {place : Option Nat}
    (h : stmt.Aligned r fits place other) {context later : Context}
    (hcontext : context.Aligned r place later)
    (hknows : ∀ occurrence ∈ stmt.occurrences context, r.Knows occurrence) :
    List.Forall₂ Occurrence.Alike (stmt.occurrences context) (other.occurrences later) := by
  match h with
  | .block henters hbody =>
    exact hbody.occurrences (.inner henters (.opened rfl) hcontext) hknows
  | .expression hfits | .print hfits =>
    simp only [Stmt.occurrences, Expr.references_mapNames]
    exact hcontext.alike_mentions hfits hknows
  | .branch hfits hthen =>
    obtain ⟨hcondition, hknows⟩ := List.forall_mem_append.mp hknows
    simp only [Stmt.occurrences, Expr.references_mapNames]
    exact List.rel_append (hcontext.alike_mentions hfits hcondition)
      (hthen.occurrences hcontext hknows)
  | .choice hfits hthen helse =>
    obtain ⟨hfirst, hknows⟩ := List.forall_mem_append.mp hknows
    obtain ⟨hcondition, hknowsThen⟩ := List.forall_mem_append.mp hfirst
    simp only [Stmt.occurrences, Expr.references_mapNames]
    exact List.rel_append
      (List.rel_append (hcontext.alike_mentions hfits hcondition)
        (hthen.occurrences hcontext hknowsThen))
      (helse.occurrences hcontext hknows)
  | .loop hfits hbody =>
    obtain ⟨hcondition, hknows⟩ := List.forall_mem_append.mp hknows
    simp only [Stmt.occurrences, Expr.references_mapNames]
    exact List.rel_append (hcontext.alike_mentions hfits hcondition)
      (hbody.occurrences hcontext hknows)
  | .return hfits =>
    obtain ⟨-, hknows⟩ := List.forall_mem_cons.mp hknows
    simp only [Stmt.occurrences, Expr.referencesOption_mapNames]
    exact .cons hcontext.alike_leave (hcontext.alike_mentions hfits hknows)
  | .declare hname hfits =>
    obtain ⟨-, hknows⟩ := List.forall_mem_cons.mp hknows
    simp only [Stmt.occurrences, Expr.referencesOption_mapNames]
    exact .cons (hcontext.alike_declare hname)
      ((hcontext.declare hname).alike_mentions hfits hknows)
  | @Stmt.Aligned.function _ _ _ inner name params body other line hname hold henters hparams
      hbody =>
    obtain ⟨-, hrest⟩ := List.forall_mem_cons.mp hknows
    obtain ⟨-, hknows⟩ := List.forall_mem_append.mp hrest
    have hdeclare := hcontext.alike_declare hname
    have hpassed := hcontext.passed hname
    rw [r.declared_of_ne hold] at hdeclare hpassed
    simp only [Stmt.occurrences, r.names_parameter]
    have hopened : Level.Aligned r inner ⟨.function ⟨name, params.map Parameter.name, body⟩, []⟩
        ⟨.function ⟨name, (params.map Parameter.name).map (r.declared inner), other⟩, []⟩ :=
      .opened rfl
    exact .cons hdeclare (List.rel_append (Level.alike_params hpassed henters hopened hparams)
      (hbody.occurrences (.inner henters (hopened.withParams hparams) hpassed) hknows))
  | .command hfits =>
    simp only [Stmt.occurrences, Command.references_mapNames]
    exact hcontext.alike_mentions hfits hknows

theorem Stmt.AlignedAll.occurrences {body others : List Stmt} {place : Option Nat}
    (h : Stmt.AlignedAll r fits place body others) {context later : Context}
    (hcontext : context.Aligned r place later)
    (hknows : ∀ occurrence ∈ Stmt.occurrencesAll body context, r.Knows occurrence) :
    List.Forall₂ Occurrence.Alike (Stmt.occurrencesAll body context)
      (Stmt.occurrencesAll others later) := by
  match h with
  | .nil => exact .nil
  | .cons hstmt hrest =>
    obtain ⟨hfirst, hknows⟩ := List.forall_mem_append.mp hknows
    exact List.rel_append (hstmt.occurrences hcontext hfirst)
      (hrest.occurrences (hstmt.after hcontext) hknows)

end

end Occurrences

/-! ## Both programs -/

/-- The distances of the program are those that the renaming goes by. -/
theorem Renaming.knows_of_lookup {old new : String} {occurrences : List Occurrence}
    (hdistinct : DistinctIds occurrences) {distances : List (NodeId × Nat)}
    (hdistances : distances = occurrences.filterMap Occurrence.recorded?) :
    ∀ occurrence ∈ occurrences,
      (Renaming.mk old new fun id => distances.lookup id).Knows occurrence := by
  subst hdistances
  rintro ⟨context, use⟩ hmem reference hreference
  match use, hreference with
  | .mention _, rfl => exact lookup_recorded hdistinct hmem

/-- Resolution accepts the renamed program, too, with the same distances. -/
theorem Stmt.RenamesIn.resolve_eq {r : Renaming} {program renamed : List Stmt}
    (h : Stmt.RenamesIn r program renamed) (haccepted : Stmt.Accepted program)
    (hnames : r.new ∉ Stmt.namesAll program)
    (hknows : ∀ occurrence ∈ Stmt.occurrencesAll program .top, r.Knows occurrence) :
    CommandScript.resolve renamed =
      .ok ((Stmt.occurrencesAll program .top).filterMap Occurrence.recorded?) := by
  have haligned : Stmt.AlignedAll r (fun _ => True) none program renamed :=
    h.aligned haccepted hnames fun _ _ => trivial
  have htop : Context.top.Aligned r none .top := .top (.opened rfl)
  obtain ⟨hpermitted, hrecorded⟩ :=
    Occurrence.Alike.permitted_recorded (haligned.occurrences htop hknows) haccepted.permitted
  have hstructured := haligned.structured haccepted.structured
  exact (resolve_eq_ok_iff hstructured).mpr ⟨⟨hstructured, hpermitted⟩, hrecorded.symm⟩

end CommandScript
