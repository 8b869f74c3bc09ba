import CommandScript.Proofs.Resolution.Placement

/-!
# Orderly programs

In an orderly program no block and no function mentions a name, at whatever depth, before
its own declaration of the name is complete. Then, wherever a name is mentioned, each of
the enclosing blocks and functions that declares the name has it ready.

The induction goes along the statements of a scope. Its invariant: a name that the scope
declares is ready, or one of the remaining statements declares it. In the second case the
statements up to that one do not mention it.

* `Stmt.DeclaredFirst`, `Stmt.Orderly`: the condition on programs.
* `Occurrence.Settled`: the condition on occurrences; `Stmt.settledAll`: it follows.
-/

namespace CommandScript

/-! ## Mentions -/

def Occurrence.mentioned? (occurrence : Occurrence) : Option String :=
  occurrence.reference?.map Reference.name

/-- The names that a statement mentions at any depth. -/
def Stmt.mentions (stmt : Stmt) : List String := stmt.references.map Reference.name

def Stmt.mentionsAll (body : List Stmt) : List String :=
  (Stmt.referencesAll body).map Reference.name

/-- The names that a statement mentions before it has declared a name. -/
def Stmt.initializerMentions : Stmt → List String
  | .declare _ initializer _ => (Expr.referencesOption initializer).map Reference.name
  | _ => []

theorem mem_filterMap_mentioned {occurrences : List Occurrence} {name : String} :
    name ∈ (occurrences.filterMap Occurrence.reference?).map Reference.name ↔
      ∃ occurrence ∈ occurrences, occurrence.mentioned? = some name := by
  rw [List.map_filterMap]
  exact List.mem_filterMap

theorem Stmt.mem_mentions {stmt : Stmt} (context : Context) {name : String} :
    name ∈ stmt.mentions ↔
      ∃ occurrence ∈ stmt.occurrences context, occurrence.mentioned? = some name := by
  rw [Stmt.mentions, ← stmt.filterMap_reference? context, mem_filterMap_mentioned]

theorem Stmt.mem_mentionsAll {body : List Stmt} (context : Context) {name : String} :
    name ∈ Stmt.mentionsAll body ↔
      ∃ occurrence ∈ Stmt.occurrencesAll body context, occurrence.mentioned? = some name := by
  rw [Stmt.mentionsAll, ← Stmt.filterMap_referenceAll? body context, mem_filterMap_mentioned]

theorem Stmt.mentionsAll_cons (stmt : Stmt) (rest : List Stmt) :
    Stmt.mentionsAll (stmt :: rest) = stmt.mentions ++ Stmt.mentionsAll rest :=
  List.map_append

section Parts

variable {stmt : Stmt} {context other : Context}

theorem Stmt.mentioned_of_subset {references : List Reference}
    (h : other.occurrences references ⊆ stmt.occurrences context) :
    ∀ reference ∈ references, reference.name ∈ stmt.mentions :=
  fun reference hmem => (Stmt.mem_mentions context).mpr ⟨⟨other, .mention reference⟩,
    h (Context.mem_occurrences.mpr ⟨rfl, reference, hmem, rfl⟩), rfl⟩

theorem Stmt.mentions_subset {inner : Stmt}
    (h : inner.occurrences other ⊆ stmt.occurrences context) :
    ∀ name ∈ inner.mentions, name ∈ stmt.mentions := by
  intro name hname
  obtain ⟨occurrence, hmem, hmentioned⟩ := (Stmt.mem_mentions other).mp hname
  exact (Stmt.mem_mentions context).mpr ⟨occurrence, h hmem, hmentioned⟩

theorem Stmt.mentionsAll_subset {body : List Stmt}
    (h : Stmt.occurrencesAll body other ⊆ stmt.occurrences context) :
    ∀ name ∈ Stmt.mentionsAll body, name ∈ stmt.mentions := by
  intro name hname
  obtain ⟨occurrence, hmem, hmentioned⟩ := (Stmt.mem_mentionsAll other).mp hname
  exact (Stmt.mem_mentions context).mpr ⟨occurrence, h hmem, hmentioned⟩

end Parts

/-! ## Order -/

/-- No name is mentioned in a list of statements before its declaration is complete. The
name of a function counts as declared before its body. -/
def Stmt.DeclaredFirst (body : List Stmt) : Prop :=
  ∀ before stmt rest name, body = before ++ stmt :: rest → stmt.declared? = some name →
    name ∉ Stmt.mentionsAll before ∧ name ∉ stmt.initializerMentions

mutual

/-- Every block and every function body within the statement declares first. -/
def Stmt.Orderly : Stmt → Prop
  | .block body => Stmt.DeclaredFirst body ∧ Stmt.OrderlyAll body
  | .branch _ thenBranch none _ => thenBranch.Orderly
  | .branch _ thenBranch (some elseBranch) _ => thenBranch.Orderly ∧ elseBranch.Orderly
  | .loop _ body _ => body.Orderly
  | .function _ _ body _ => Stmt.DeclaredFirst body ∧ Stmt.OrderlyAll body
  | _ => True

def Stmt.OrderlyAll : List Stmt → Prop
  | [] => True
  | stmt :: rest => stmt.Orderly ∧ Stmt.OrderlyAll rest

end

/-- The inner scopes that declare one of the names have it ready. -/
def Context.ReadyFor (context : Context) (names : List String) : Prop :=
  ∀ level ∈ context, level.origin ≠ .top → ∀ name ∈ names, level.origin.Declares name →
    level.Ready name

/-- The inner scopes that declare the mentioned name have it ready. -/
def Occurrence.Settled (occurrence : Occurrence) : Prop :=
  occurrence.context.ReadyFor occurrence.mentioned?.toList

theorem Occurrence.Settled.of_none {occurrence : Occurrence}
    (h : occurrence.mentioned? = none) : occurrence.Settled := by
  intro _ _ _ name hname
  rw [h] at hname
  cases hname

namespace Context.ReadyFor

variable {context : Context} {names : List String}

theorem mono (h : context.ReadyFor names) {fewer : List String}
    (hsub : ∀ name ∈ fewer, name ∈ names) : context.ReadyFor fewer :=
  fun level hlevel hinner name hname => h level hlevel hinner name (hsub name hname)

theorem declare (h : context.ReadyFor names) (declared : String) :
    (context.declare declared).ReadyFor names := by
  cases context with
  | nil => exact h
  | cons level outer =>
    obtain ⟨hhead, houter⟩ := List.forall_mem_cons.mp h
    refine List.forall_mem_cons.mpr ⟨fun hinner name hname hdeclares => ?_, houter⟩
    have horigin : (level.declare declared).origin = level.origin :=
      Level.origin_after level declared
    rw [horigin] at hinner hdeclares
    exact Level.ready_declare.mpr (hhead hinner name hname hdeclares)

theorem define (h : context.ReadyFor names) (declared : String) :
    ((context.declare declared).define declared).ReadyFor names := by
  cases context with
  | nil => exact h
  | cons level outer =>
    obtain ⟨hhead, houter⟩ := List.forall_mem_cons.mp h
    refine List.forall_mem_cons.mpr ⟨fun hinner name hname hdeclares => ?_, houter⟩
    rw [Level.origin_after] at hinner hdeclares
    exact Level.ready_define.mpr (.inl (hhead hinner name hname hdeclares))

theorem settled (h : context.ReadyFor names) {references : List Reference}
    (hsub : ∀ reference ∈ references, reference.name ∈ names) :
    ∀ occurrence ∈ context.occurrences references, occurrence.Settled := by
  rintro ⟨_, _⟩ hoccurrence
  obtain ⟨rfl, reference, hmem, rfl⟩ := Context.mem_occurrences.mp hoccurrence
  refine h.mono fun name hname => ?_
  obtain rfl : name = reference.name := by
    simpa [Occurrence.mentioned?, Occurrence.reference?] using hname
  exact hsub reference hmem

end Context.ReadyFor

theorem Level.settled_params (outer : Context) (level : Level) (params : List String) :
    ∀ occurrence ∈ level.paramOccurrences outer params, occurrence.Settled := by
  induction params generalizing level with
  | nil => exact fun _ hnil => by cases hnil
  | cons name rest ih =>
    exact List.forall_mem_cons.mpr ⟨.of_none rfl, ih _⟩

/-- The context in which the references of a statement are read: a function has declared
its name before. -/
def Stmt.entry : Stmt → Context → Context
  | .function name _ _ _, context => (context.declare name).define name
  | _, context => context

theorem Context.ReadyFor.entry {context : Context} {names : List String}
    (h : context.ReadyFor names) (stmt : Stmt) : (stmt.entry context).ReadyFor names := by
  cases stmt with
  | function name params body line => exact h.define name
  | _ => exact h

theorem Stmt.declaredNames_cons (stmt : Stmt) (rest : List Stmt) :
    Stmt.declaredNames (stmt :: rest) = stmt.declared?.toList ++ Stmt.declaredNames rest := by
  cases h : stmt.declared? <;> simp [declaredNames, h]

theorem Stmt.DeclaredFirst.tail {stmt : Stmt} {rest : List Stmt}
    (h : Stmt.DeclaredFirst (stmt :: rest)) : Stmt.DeclaredFirst rest := by
  intro before other after name hsplit hdeclared
  obtain ⟨hbefore, hinitializer⟩ :=
    h (stmt :: before) other after name (congrArg (stmt :: ·) hsplit) hdeclared
  refine ⟨fun hname => hbefore ?_, hinitializer⟩
  rw [Stmt.mentionsAll_cons]
  exact List.mem_append_right _ hname

/-- What the level of a list of statements knows of the names it declares. -/
structure Level.Awaits (level : Level) (body : List Stmt) : Prop where
  first : level.origin ≠ .top → Stmt.DeclaredFirst body
  rest : level.origin ≠ .top → ∀ name, level.origin.Declares name →
    level.Ready name ∨ name ∈ Stmt.declaredNames body

namespace Level.Awaits

variable {level : Level} {stmt : Stmt} {rest : List Stmt}

/-- The names that the first statement mentions are ready when it mentions them. -/
theorem readyFor (h : level.Awaits (stmt :: rest)) {outer : Context}
    (houter : Context.ReadyFor outer stmt.mentions) :
    (stmt.entry (level :: outer)).ReadyFor stmt.mentions := by
  have hlater : ∀ name ∈ stmt.mentions, level.origin ≠ .top →
      name ∉ Stmt.declaredNames rest := by
    intro name hname hinner hdeclared
    obtain ⟨later, hlater, hdeclares⟩ := List.mem_filterMap.mp hdeclared
    obtain ⟨before, after, rfl⟩ := List.append_of_mem hlater
    obtain ⟨hbefore, -⟩ := h.first hinner (stmt :: before) later after name rfl hdeclares
    rw [Stmt.mentionsAll_cons] at hbefore
    exact hbefore (List.mem_append_left _ hname)
  have hnow : ∀ name ∈ stmt.mentions, level.origin ≠ .top → level.origin.Declares name →
      level.Ready name ∨ stmt.declared? = some name := by
    intro name hname hinner hdeclares
    rcases h.rest hinner name hdeclares with hready | hdeclared
    · exact .inl hready
    · rw [Stmt.declaredNames_cons, List.mem_append, Option.mem_toList] at hdeclared
      exact .inr (hdeclared.resolve_right (hlater name hname hinner))
  cases stmt with
  | function declared params body line =>
    refine List.forall_mem_cons.mpr ⟨fun hinner name hname hdeclares => ?_, houter⟩
    rw [origin_after] at hinner hdeclares
    refine ready_define.mpr ((hnow name hname hinner hdeclares).imp_right fun h => ?_)
    exact (Option.some.inj h).symm
  | declare declared initializer line =>
    refine List.forall_mem_cons.mpr ⟨fun hinner name hname hdeclares => ?_, houter⟩
    refine (hnow name hname hinner hdeclares).resolve_right fun hdeclared => ?_
    obtain ⟨-, hnot⟩ := h.first hinner [] _ rest name rfl hdeclared
    exact hnot hname
  | _ =>
    refine List.forall_mem_cons.mpr ⟨fun hinner name hname hdeclares => ?_, houter⟩
    exact (hnow name hname hinner hdeclares).resolve_right (by simp [Stmt.declared?])

theorem next (h : level.Awaits (stmt :: rest)) (outer : Context) :
    ∃ later : Level, stmt.after (level :: outer) = later :: outer ∧ later.Awaits rest := by
  cases hdeclared : stmt.declared? with
  | none =>
    refine ⟨level, Stmt.after_of_not_declared hdeclared _, fun hinner => (h.first hinner).tail,
      fun hinner name hdeclares => ?_⟩
    have hname := h.rest hinner name hdeclares
    rwa [Stmt.declaredNames_cons, hdeclared] at hname
  | some declared =>
    refine ⟨(level.declare declared).define declared, Stmt.after_eq hdeclared _ _, ?_, ?_⟩
    · rw [origin_after]
      exact fun hinner => (h.first hinner).tail
    · rw [origin_after]
      intro hinner name hdeclares
      have hname := h.rest hinner name hdeclares
      rw [Stmt.declaredNames_cons, hdeclared, List.mem_append] at hname
      rw [ready_define]
      rcases hname with hready | hnow | hlater
      · exact .inl (.inl hready)
      · exact .inl (.inr (by simpa using hnow))
      · exact .inr hlater

end Level.Awaits

mutual

theorem Stmt.settled (stmt : Stmt) (horderly : stmt.Orderly) {context : Context}
    (h : (stmt.entry context).ReadyFor stmt.mentions) :
    ∀ occurrence ∈ stmt.occurrences context, occurrence.Settled := by
  have hsettled : ∀ references : List Reference,
      context.occurrences references ⊆ stmt.occurrences context → stmt.entry context = context →
      ∀ occurrence ∈ context.occurrences references, occurrence.Settled := by
    intro references hsub hentry
    rw [hentry] at h
    exact h.settled (Stmt.mentioned_of_subset hsub)
  have hinner : ∀ inner : Stmt, inner.occurrences context ⊆ stmt.occurrences context →
      stmt.entry context = context → (inner.entry context).ReadyFor inner.mentions := by
    intro inner hsub hentry
    rw [hentry] at h
    exact (h.mono (Stmt.mentions_subset hsub)).entry inner
  match stmt, horderly with
  | .block body, ⟨hfirst, hbody⟩ =>
    have hsub : Stmt.occurrencesAll body (.ofBlock body :: context) ⊆
        (Stmt.block body).occurrences context := List.Subset.refl _
    exact Stmt.settledAll body hbody (h.mono (Stmt.mentionsAll_subset hsub))
      ⟨fun _ => hfirst, fun _ name => .inr⟩
  | .expression expr _, _ | .print expr _, _ => exact hsettled _ (List.Subset.refl _) rfl
  | .branch condition thenBranch none _, hthen =>
    refine List.forall_mem_append.mpr ⟨hsettled _ (List.subset_append_left _ _) rfl, ?_⟩
    exact thenBranch.settled hthen (hinner _ (List.subset_append_right _ _) rfl)
  | .branch condition thenBranch (some elseBranch) _, ⟨hthen, helse⟩ =>
    have hfirst := List.subset_append_left (context.occurrences condition.references ++
      thenBranch.occurrences context) (elseBranch.occurrences context)
    refine List.forall_mem_append.mpr ⟨List.forall_mem_append.mpr ⟨?_, ?_⟩, ?_⟩
    · exact hsettled _ (List.Subset.trans (List.subset_append_left _ _) hfirst) rfl
    · exact thenBranch.settled hthen
        (hinner _ (List.Subset.trans (List.subset_append_right _ _) hfirst) rfl)
    · exact elseBranch.settled helse (hinner _ (List.subset_append_right _ _) rfl)
  | .loop condition body _, hbody =>
    refine List.forall_mem_append.mpr ⟨hsettled _ (List.subset_append_left _ _) rfl, ?_⟩
    exact body.settled hbody (hinner _ (List.subset_append_right _ _) rfl)
  | .return value _, _ =>
    refine List.forall_mem_cons.mpr ⟨.of_none rfl, ?_⟩
    exact hsettled _ (List.subset_cons_self _ _) rfl
  | .declare name initializer line, _ =>
    have hsub : (context.declare name).occurrences (Expr.referencesOption initializer) ⊆
        (Stmt.declare name initializer line).occurrences context := List.subset_cons_self _ _
    refine List.forall_mem_cons.mpr ⟨.of_none rfl, ?_⟩
    exact (Context.ReadyFor.declare h name).settled
      (Stmt.mentioned_of_subset hsub)
  | .function name params body line, ⟨hfirst, hbody⟩ =>
    have hsub : Stmt.occurrencesAll body (.ofFunction ⟨name, params.map Parameter.name, body⟩ ::
        (context.declare name).define name) ⊆
        (Stmt.function name params body line).occurrences context :=
      List.subset_cons_of_subset _ (List.subset_append_right _ _)
    refine List.forall_mem_cons.mpr ⟨.of_none rfl, ?_⟩
    refine List.forall_mem_append.mpr ⟨Level.settled_params _ _ _, ?_⟩
    refine Stmt.settledAll body hbody (h.mono (Stmt.mentionsAll_subset hsub))
      ⟨fun _ => hfirst, ?_⟩
    rintro - declared hdeclares
    rw [Level.origin_ofFunction] at hdeclares
    exact hdeclares.imp_left Level.ready_ofFunction.mpr
  | .command action, _ => exact hsettled _ (List.Subset.refl _) rfl

theorem Stmt.settledAll (body : List Stmt) (horderly : Stmt.OrderlyAll body) {level : Level}
    {outer : Context} (houter : Context.ReadyFor outer (Stmt.mentionsAll body))
    (hlevel : level.Awaits body) :
    ∀ occurrence ∈ Stmt.occurrencesAll body (level :: outer), occurrence.Settled := by
  match body, horderly with
  | [], _ => exact fun _ hnil => by cases hnil
  | stmt :: rest, ⟨hstmt, hrest⟩ =>
    rw [Stmt.mentionsAll_cons] at houter
    have hfirst := houter.mono fun name hname => List.mem_append_left _ hname
    have hlater := houter.mono fun name hname => List.mem_append_right _ hname
    refine List.forall_mem_append.mpr ⟨stmt.settled hstmt (hlevel.readyFor hfirst), ?_⟩
    obtain ⟨later, hafter, hnext⟩ := hlevel.next outer
    rw [hafter]
    exact Stmt.settledAll rest hrest hlater hnext

end

theorem Stmt.OrderlyAll.settled {program : List Stmt} (h : Stmt.OrderlyAll program) :
    ∀ occurrence ∈ Stmt.occurrencesAll program .top, occurrence.Settled :=
  Stmt.settledAll program h (fun _ hnil => by cases hnil)
    ⟨fun hinner => absurd rfl hinner, fun hinner => absurd rfl hinner⟩

end CommandScript
