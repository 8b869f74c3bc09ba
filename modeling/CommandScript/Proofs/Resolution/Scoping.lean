import CommandScript.Proofs.Resolution.Flattening
import CommandScript.Proofs.Resolution.Outline
import CommandScript.Proofs.Resolution.Placement
import CommandScript.Proofs.Resolution.Recording
import CommandScript.Proofs.Resolution.Table
import Mathlib.Data.List.Forall2

/-!
# Resolution follows the rules of scoping

Along a flattened program the context of each occurrence has the names that the outline
declares up to there, and the occurrences are permitted where the outline keeps the rules.
So resolution accepts exactly the programs whose outline is well scoped, and binds each
reference to the innermost scope with an earlier declaration of its name.

* `ScopeItem.Traces`: the occurrences of some items, and the context after them.
* `Stmt.traces`: every statement traces its outline.
* `resolve_scoping`: the programs that resolution accepts, and their distances.
-/

namespace CommandScript

/-! ## The names of a context -/

/-- All names of the level are ready, and they are the listed ones. -/
structure Level.Shows (level : Level) (names : List String) : Prop where
  ready : ∀ declared ∈ level.names, declared.ready = true
  declares : ∀ name, level.names.declares name = true ↔ name ∈ names

namespace Level.Shows

variable {level : Level} {names : List String} {name other : String}

theorem nil (origin : Origin) : Level.Shows ⟨origin, []⟩ [] where
  ready := fun _ h => absurd h List.not_mem_nil
  declares := fun _ => by simp [StaticScope.declares]

theorem not_pending (h : level.Shows names) (name : String) :
    level.names.isPending name = false := by
  unfold StaticScope.isPending
  rw [List.any_eq_false]
  intro declared hmem
  simp [h.ready declared hmem]

/-- The names during the initializer of a variable. -/
theorem declares_declare (h : level.Shows names) :
    (level.declare name).names.declares other = true ↔ other ∈ names ++ [name] := by
  rw [List.mem_append, List.mem_singleton, ← h.declares other]
  by_cases hname : level.names.declares name = true
  · have hsame : level.declare name = level := if_pos hname
    rw [hsame]
    constructor
    · exact .inl
    · rintro (hother | rfl)
      · exact hother
      · exact hname
  · have hnew : level.declare name = { level with names := ⟨name, false⟩ :: level.names } :=
      if_neg hname
    rw [hnew]
    unfold StaticScope.declares
    rw [List.any_cons, Bool.or_eq_true, decide_eq_true_iff, or_comm, eq_comm (a := name)]

/-- In an initializer the new name is not ready. -/
theorem pending_declare (h : level.Shows names) (hname : name ∉ names) :
    (level.declare name).names.isPending other = false ↔ other ≠ name := by
  have hfresh : ¬level.names.declares name = true := fun hdeclares =>
    hname ((h.declares name).mp hdeclares)
  have hnew : level.declare name = { level with names := ⟨name, false⟩ :: level.names } :=
    if_neg hfresh
  have hrest := h.not_pending other
  unfold StaticScope.isPending at hrest ⊢
  rw [hnew, List.any_cons, hrest]
  simp [eq_comm]

theorem define (h : level.Shows names) (name : String) :
    ((level.declare name).define name).Shows (names ++ [name]) where
  ready := by
    intro declared hmem
    obtain ⟨hold, -⟩ | rfl := Level.mem_define.mp hmem
    · exact h.ready declared hold
    · rfl
  declares := by
    intro other
    rw [List.mem_append, List.mem_singleton, ← h.declares other, StaticScope.declares_iff,
      StaticScope.declares_iff]
    constructor
    · rintro ⟨declared, hmem, rfl⟩
      obtain ⟨hold, -⟩ | rfl := Level.mem_define.mp hmem
      · exact .inl ⟨declared, hold, rfl⟩
      · exact .inr rfl
    · rintro (⟨declared, hold, rfl⟩ | rfl)
      · by_cases hname : declared.name = name
        · exact ⟨⟨name, true⟩, Level.mem_define.mpr (.inr rfl), hname.symm⟩
        · exact ⟨declared, Level.mem_define.mpr (.inl ⟨hold, hname⟩), rfl⟩
      · exact ⟨⟨other, true⟩, Level.mem_define.mpr (.inr rfl), rfl⟩

end Level.Shows

/-- Distances depend only on which scopes declare which names. -/
theorem distance?_eq_findIdx? {context : Context} {path : List (List String)}
    (h : List.Forall₂ (fun (level : Level) names =>
      ∀ name, level.names.declares name = true ↔ name ∈ names) context path) (name : String) :
    distance? context.scopes name = path.findIdx? (name ∈ ·) := by
  induction h with
  | nil => rfl
  | @cons level names context path hlevel _ ih =>
    have hhead : level.names.declares name = decide (name ∈ names) := by
      rw [Bool.eq_iff_iff, decide_eq_true_iff]
      exact hlevel name
    rw [List.findIdx?_cons, ← ih, ← hhead]
    exact distance?_cons _ _ _

/-- The levels of the context have the listed names. -/
def Context.Shows (context : Context) (path : List (List String)) : Prop :=
  List.Forall₂ Level.Shows context path

theorem Context.Shows.declares {context : Context} {path : List (List String)}
    (h : context.Shows path) :
    List.Forall₂ (fun (level : Level) names =>
      ∀ name, level.names.declares name = true ↔ name ∈ names) context path :=
  List.Forall₂.imp (fun _ _ hlevel => hlevel.declares) h

/-! ## Occurrences along an outline -/

namespace ScopeItem

/-- Coming past the occurrences is coming through the items, from one context to the next.
The items come after `own` names in their scope; `outer` are the names around it. -/
structure Traces (own : List String) (outer : List (List String)) (inside : Bool)
    (items : List ScopeItem) (occurrences : List Occurrence) (next : Context) : Prop where
  mentions : ∀ (reference : Reference) (distance : Option Nat),
    (∃ occurrence ∈ occurrences, occurrence.use = .mention reference ∧
        distance? occurrence.context.scopes reference.name = distance) ↔
      ∃ path, Stands own outer items path reference ∧
        path.findIdx? (reference.name ∈ ·) = distance
  permitted : (∀ occurrence ∈ occurrences, occurrence.Permitted) ↔ Clear own inside items
  shows : next.Shows ((own ++ declared items) :: outer)
  inFunction : next.inFunction = inside

variable {own : List String} {outer : List (List String)} {inside : Bool}
  {items first second : List ScopeItem} {occurrences others : List Occurrence}
  {context next : Context}

theorem Traces.nil (hshows : context.Shows (own :: outer)) (hinside : context.inFunction = inside) :
    Traces own outer inside [] [] context where
  mentions := by simp [not_stands_nil]
  permitted := by simp [clear_nil]
  shows := by rwa [show declared [] = [] from rfl, List.append_nil]
  inFunction := hinside

theorem Traces.append (hfirst : Traces own outer inside first occurrences context)
    (hsecond : Traces (own ++ declared first) outer inside second others next) :
    Traces own outer inside (first ++ second) (occurrences ++ others) next where
  mentions := by
    intro reference distance
    simp only [List.mem_append, or_and_right, exists_or, hfirst.mentions, hsecond.mentions,
      stands_append]
  permitted := by
    rw [List.forall_mem_append, hfirst.permitted, hsecond.permitted, clear_append]
  shows := by
    rw [declared_append, ← List.append_assoc]
    exact hsecond.shows
  inFunction := hsecond.inFunction

theorem permitted_mention {level : Level} {rest : Context} {reference : Reference} :
    (⟨level :: rest, .mention reference⟩ : Occurrence).Permitted ↔
      (reference.access = .read → level.names.isPending reference.name = false) := by
  obtain ⟨id, name, access⟩ := reference
  cases access <;> simp [Occurrence.Permitted]

theorem traces_mentions (hshows : context.Shows (own :: outer))
    (hinside : context.inFunction = inside) (references : List Reference) :
    Traces own outer inside (references.map .mention) (context.occurrences references) context where
  mentions := by
    intro reference distance
    simp only [Context.mem_occurrences, stands_mentions]
    have hdistance := distance?_eq_findIdx? hshows.declares reference.name
    constructor
    · rintro ⟨⟨_, use⟩, ⟨rfl, other, hother, rfl⟩, heq, rfl⟩
      obtain rfl := Use.mention.inj heq
      exact ⟨_, ⟨rfl, hother⟩, hdistance.symm⟩
    · rintro ⟨path, ⟨rfl, hmem⟩, rfl⟩
      exact ⟨⟨context, .mention reference⟩, ⟨rfl, reference, hmem, rfl⟩, rfl, hdistance⟩
  permitted := by
    refine iff_of_true ?_ (clear_mentions references)
    rintro ⟨_, _⟩ hmem
    obtain ⟨rfl, reference, -, rfl⟩ := Context.mem_occurrences.mp hmem
    cases hshows with
    | cons hlevel _ => exact permitted_mention.mpr fun _ => hlevel.not_pending _
  shows := by rwa [declared_mentions, List.append_nil]
  inFunction := hinside

theorem traces_leave (hshows : context.Shows (own :: outer))
    (hinside : context.inFunction = inside) :
    Traces own outer inside [.leave] [⟨context, .leave⟩] context where
  mentions := by simp [not_stands_leave]
  permitted := by
    rw [List.forall_mem_singleton, clear_leave, ← hinside]
    cases hshows
    exact Iff.rfl
  shows := by rwa [show declared [leave] = [] from rfl, List.append_nil]
  inFunction := hinside

theorem traces_declaration (hshows : context.Shows (own :: outer))
    (hinside : context.inFunction = inside) (name : String) (references : List Reference) :
    Traces own outer inside [.declaration name references]
      (⟨context, .declare name⟩ :: (context.declare name).occurrences references)
      ((context.declare name).define name) where
  mentions := by
    intro reference distance
    have hdistance : distance? (context.declare name).scopes reference.name =
        ((own ++ [name]) :: outer).findIdx? (reference.name ∈ ·) := by
      refine distance?_eq_findIdx? ?_ _
      cases hshows with
      | cons hlevel houter =>
        exact .cons (fun _ => hlevel.declares_declare) (Context.Shows.declares houter)
    simp only [stands_declaration]
    constructor
    · rintro ⟨⟨_, _⟩, hmem, rfl, rfl⟩
      obtain heq | hmem := List.mem_cons.mp hmem
      · cases heq
      · obtain ⟨rfl, other, hother, heq⟩ := Context.mem_occurrences.mp hmem
        obtain rfl := Use.mention.inj heq
        exact ⟨_, ⟨rfl, hother⟩, hdistance.symm⟩
    · rintro ⟨path, ⟨rfl, hmem⟩, rfl⟩
      exact ⟨⟨context.declare name, .mention reference⟩,
        List.mem_cons_of_mem _ (Context.mem_occurrences.mpr ⟨rfl, reference, hmem, rfl⟩),
        rfl, hdistance⟩
  permitted := by
    cases hshows with
    | @cons level _ rest _ hlevel houter =>
      have hfresh : (⟨level :: rest, .declare name⟩ : Occurrence).Permitted ↔ name ∉ own := by
        rw [← hlevel.declares name, Bool.not_eq_true]
        exact Iff.rfl
      rw [List.forall_mem_cons, clear_declaration, hfresh]
      refine and_congr_right fun hname => ?_
      constructor
      · intro h id hmem
        have hpermitted := permitted_mention.mp
          (h _ (Context.mem_occurrences.mpr ⟨rfl, _, hmem, rfl⟩)) rfl
        exact (hlevel.pending_declare hname).mp hpermitted rfl
      · rintro h ⟨_, _⟩ hmem
        obtain ⟨rfl, ⟨id, other, access⟩, hreference, rfl⟩ := Context.mem_occurrences.mp hmem
        refine permitted_mention.mpr fun hread => (hlevel.pending_declare hname).mpr ?_
        rintro rfl
        obtain rfl : access = .read := hread
        exact h id hreference
  shows := by
    cases hshows with
    | cons hlevel houter => exact .cons (hlevel.define name) houter
  inFunction := by rw [Resolving.inFunction_define, Resolving.inFunction_declare, hinside]

theorem Traces.scope {ofFunction : Bool} (hshows : context.Shows (own :: outer))
    (hinside : context.inFunction = inside)
    (h : Traces [] (own :: outer) (inside || ofFunction) items occurrences next) :
    Traces own outer inside [.scope ofFunction items] occurrences context where
  mentions := by
    intro reference distance
    simp only [h.mentions, stands_scope]
  permitted := by rw [h.permitted, clear_scope]
  shows := by rwa [show declared [ScopeItem.scope ofFunction items] = [] from rfl, List.append_nil]
  inFunction := hinside

/-- References come before other items without a change of the names. -/
theorem Traces.after_mentions (hshows : context.Shows (own :: outer))
    (hinside : context.inFunction = inside) (references : List Reference)
    (h : Traces own outer inside items occurrences next) :
    Traces own outer inside (references.map .mention ++ items)
      (context.occurrences references ++ occurrences) next := by
  refine (traces_mentions hshows hinside references).append ?_
  rwa [declared_mentions, List.append_nil]

theorem traces_params {level : Level} {rest : Context} (params : List String)
    (hlevel : level.Shows own) (hrest : rest.Shows outer) (hfunction : level.origin.isFunction) :
    Traces own outer true (params.map (.declaration · [])) (level.paramOccurrences rest params)
      (level.withParams params :: rest) := by
  induction params generalizing level own with
  | nil => exact .nil (.cons hlevel hrest) (by simp [Context.inFunction, hfunction])
  | cons name params ih =>
    have hinside : Context.inFunction (level :: rest) = true := by
      simp [Context.inFunction, hfunction]
    have hfirst := traces_declaration (.cons hlevel hrest) hinside name []
    have horigin : ((level.declare name).define name).origin.isFunction = true := by
      rw [Level.origin_after, hfunction]
    exact hfirst.append (ih (hlevel.define name) horigin)

theorem Traces.one {stmt : Stmt}
    (h : Traces own outer inside items (stmt.occurrences context) (stmt.after context)) :
    Traces own outer inside items (Stmt.occurrencesAll [stmt] context)
      (Stmt.afterAll [stmt] context) := by
  rwa [Stmt.occurrencesAll, Stmt.occurrencesAll, List.append_nil]

end ScopeItem

open ScopeItem

mutual

/-- The occurrences within a statement are those of its outline. -/
theorem Stmt.traces (stmt : Stmt) {context : Context} {own : List String}
    {outer : List (List String)} {inside : Bool} (hshows : context.Shows (own :: outer))
    (hinside : context.inFunction = inside) :
    Traces own outer inside stmt.outline (Stmt.occurrencesAll stmt.flat context)
      (Stmt.afterAll stmt.flat context) := by
  match stmt with
  | .block body =>
    have hlevel := Level.Shows.nil (.block (Stmt.flatAll body))
    have hinner : Context.inFunction (.ofBlock (Stmt.flatAll body) :: context) =
        (inside || false) := hinside.trans (Bool.or_false inside).symm
    have hbody := Stmt.tracesAll body (.cons hlevel hshows) hinner
    exact .one (hbody.scope hshows hinside)
  | .expression expr _ | .print expr _ =>
    exact .one (traces_mentions hshows hinside expr.references)
  | .command action => exact .one (traces_mentions hshows hinside action.references)
  | .branch condition thenBranch none _ =>
    exact (thenBranch.traces hshows hinside).after_mentions hshows hinside condition.references
  | .branch condition thenBranch (some elseBranch) _ =>
    have hthen := thenBranch.traces hshows hinside
    have helse := elseBranch.traces hthen.shows hthen.inFunction
    have hboth := (hthen.append helse).after_mentions hshows hinside condition.references
    rw [← Stmt.occurrencesAll_append, ← Stmt.afterAll_append] at hboth
    exact hboth
  | .loop condition body _ =>
    exact (body.traces hshows hinside).after_mentions hshows hinside condition.references
  | .return value _ =>
    have hleave := traces_leave hshows hinside
    exact .one (hleave.append (traces_mentions hleave.shows hinside _))
  | .declare name initializer _ =>
    exact .one (traces_declaration hshows hinside name (Expr.referencesOption initializer))
  | .function name params body _ =>
    have hname := traces_declaration hshows hinside name []
    have hlevel := Level.Shows.nil
      (.function ⟨name, params.map Parameter.name, Stmt.flatAll body⟩)
    have hparams := traces_params (params.map Parameter.name) hlevel hname.shows rfl
    have hbody := Stmt.tracesAll body hparams.shows hparams.inFunction
    have hscope := hparams.append hbody
    rw [← Bool.or_true inside] at hscope
    exact .one (hname.append (hscope.scope hname.shows hname.inFunction))

theorem Stmt.tracesAll (body : List Stmt) {context : Context} {own : List String}
    {outer : List (List String)} {inside : Bool} (hshows : context.Shows (own :: outer))
    (hinside : context.inFunction = inside) :
    Traces own outer inside (Stmt.outlineAll body) (Stmt.occurrencesAll (Stmt.flatAll body) context)
      (Stmt.afterAll (Stmt.flatAll body) context) := by
  match body with
  | [] => exact .nil hshows hinside
  | stmt :: rest =>
    have hstmt := stmt.traces hshows hinside
    have hboth := hstmt.append (Stmt.tracesAll rest hstmt.shows hstmt.inFunction)
    rw [← Stmt.occurrencesAll_append, ← Stmt.afterAll_append] at hboth
    exact hboth

end

/-! ## Programs -/

theorem Stmt.traces_program (program : List Stmt) :
    Traces [] [] false (Stmt.outlineAll program)
      (Stmt.occurrencesAll (Stmt.flatAll program) .top)
      (Stmt.afterAll (Stmt.flatAll program) .top) :=
  Stmt.tracesAll program (.cons (.nil .top) .nil) rfl

theorem resolve_eq_ok_iff_wellScoped {program : List Stmt} {table : List (NodeId × Nat)} :
    resolve program = .ok table ↔
      WellScoped (Stmt.outlineAll program) ∧
        table = (Stmt.occurrencesAll (Stmt.flatAll program) .top).filterMap
          Occurrence.recorded? := by
  have hstructured := Stmt.structured_flatAll program
  rw [← resolve_flatAll, resolve_eq_ok_iff hstructured, wellScoped_iff,
    ← (Stmt.traces_program program).permitted]
  exact and_congr_left fun _ => ⟨fun h => h.permitted, fun h => ⟨hstructured, h⟩⟩

theorem Occurrence.reference?_eq_some {occurrence : Occurrence} {reference : Reference} :
    occurrence.reference? = some reference ↔ occurrence.use = .mention reference := by
  obtain ⟨context, use⟩ := occurrence
  cases use <;> simp [Occurrence.reference?]

theorem Stmt.mem_referencesAll_iff {program : List Stmt} {reference : Reference} :
    reference ∈ Stmt.referencesAll program ↔
      ∃ occurrence ∈ Stmt.occurrencesAll (Stmt.flatAll program) .top,
        occurrence.use = .mention reference := by
  rw [← Stmt.referencesAll_flatAll, ← Stmt.filterMap_referenceAll? _ .top, List.mem_filterMap]
  simp only [Occurrence.reference?_eq_some]

/-- **Resolution follows the rules of scoping.** If the references of a program have distinct
ids, then resolution accepts the program exactly if no scope declares a name twice, no
initializer reads its own name, and no `return` is outside every function. The table then
has one entry for each reference that some scope around it declares before it, namely the
number of scopes up to the innermost of these, and no entries besides. -/
theorem resolve_scoping (program : List Stmt)
    (hids : ((Stmt.referencesAll program).map Reference.id).Nodup) :
    ((∃ table, resolve program = .ok table) ↔ WellScoped (Stmt.outlineAll program)) ∧
      (∀ reference, reference ∈ Stmt.referencesAll program ↔
        ∃ path, Stands [] [] (Stmt.outlineAll program) path reference) ∧
      ∀ table, resolve program = .ok table →
        (table.map Prod.fst).Nodup ∧
          (∀ path reference, Stands [] [] (Stmt.outlineAll program) path reference →
            table.lookup reference.id = path.findIdx? (reference.name ∈ ·)) ∧
          ∀ entry ∈ table, ∃ reference ∈ Stmt.referencesAll program, reference.id = entry.1 := by
  have hmentions := (Stmt.traces_program program).mentions
  refine ⟨?_, fun reference => ?_, fun table htable => ?_⟩
  · simp only [resolve_eq_ok_iff_wellScoped, exists_and_left, exists_eq, and_true]
  · rw [Stmt.mem_referencesAll_iff]
    constructor
    · rintro ⟨occurrence, hmem, huse⟩
      obtain ⟨path, hstands, -⟩ := (hmentions reference _).mp ⟨occurrence, hmem, huse, rfl⟩
      exact ⟨path, hstands⟩
    · rintro ⟨path, hstands⟩
      obtain ⟨occurrence, hmem, huse, -⟩ := (hmentions reference _).mpr ⟨path, hstands, rfl⟩
      exact ⟨occurrence, hmem, huse⟩
  · rw [← Stmt.referencesAll_flatAll, ← Stmt.filterMap_referenceAll? _ .top] at hids
    have hdistinct := distinctIds_of_nodup hids
    obtain ⟨-, rfl⟩ := resolve_eq_ok_iff_wellScoped.mp htable
    refine ⟨?_, fun path reference hstands => ?_, fun entry hentry => ?_⟩
    · exact List.pairwise_map.mpr (hdistinct.recorded.imp ne_of_beq_false)
    · obtain ⟨⟨context, _⟩, hmem, rfl, hdistance⟩ :=
        (hmentions reference _).mpr ⟨path, hstands, rfl⟩
      rw [← hdistance]
      exact lookup_recorded hdistinct hmem
    · obtain ⟨occurrence, hmem, hrecorded⟩ := List.mem_filterMap.mp hentry
      obtain ⟨reference, hreference, hid, -⟩ := Occurrence.recorded?_eq_some.mp hrecorded
      have huse := Occurrence.reference?_eq_some.mp hreference
      exact ⟨reference, Stmt.mem_referencesAll_iff.mpr ⟨occurrence, hmem, huse⟩, hid⟩

/-- A block that reads a variable from around it, and a name that nothing declares. -/
theorem resolve_scoping_of_block :
    let program : List Stmt := [.declare "a" none 1,
      .block [.declare "b" (some (.variable 0 "a" 1)) 1,
        .print (.assign 1 "b" (.variable 2 "c" 1) 1) 1]]
    ((Stmt.referencesAll program).map Reference.id).Nodup ∧
      WellScoped (Stmt.outlineAll program) ∧ resolve program = .ok [(0, 1), (1, 0)] := by
  intro program
  have hids : ((Stmt.referencesAll program).map Reference.id).Nodup := by decide
  have htable : resolve program = .ok [(0, 1), (1, 0)] := by rfl
  exact ⟨hids, (resolve_scoping program hids).1.mp ⟨_, htable⟩, htable⟩

end CommandScript
