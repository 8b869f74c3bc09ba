import CommandScript.Proofs.Resolution.Context

/-!
# Outlines of scopes

The rules of scoping can be read off a program without any state. Its outline lists, for
every scope in the order of the text, the references, the declarations with the references
of their initializers, the `return`s and the scopes opened inside. Branches and loops open
no scope; a function declares its name around the scope of its parameters and its body.

* `ScopeItem`, `Stmt.outlineAll`: what stands in a scope, and the outline of a program.
* `ScopeItem.Stands`: a reference and, for each scope around it, the names declared before.
* `ScopeItem.Within`: an item at any depth, and whether a function is around it.
* `ScopeItem.WellScoped`: the rules that a program has to keep.
-/

namespace CommandScript

inductive ScopeItem where
  | mention (reference : Reference)
  | declaration (name : String) (initializer : List Reference)
  | leave
  | scope (ofFunction : Bool) (items : List ScopeItem)

mutual

/-- What a statement adds to the scope that it stands in. -/
def Stmt.outline : Stmt → List ScopeItem
  | .block body => [.scope false (Stmt.outlineAll body)]
  | .expression expr _ => expr.references.map .mention
  | .branch condition thenBranch none _ => condition.references.map .mention ++ thenBranch.outline
  | .branch condition thenBranch (some elseBranch) _ =>
    condition.references.map .mention ++ (thenBranch.outline ++ elseBranch.outline)
  | .loop condition body _ => condition.references.map .mention ++ body.outline
  | .print expr _ => expr.references.map .mention
  | .return value _ => .leave :: (Expr.referencesOption value).map .mention
  | .declare name initializer _ => [.declaration name (Expr.referencesOption initializer)]
  | .function name params body _ =>
    [.declaration name [],
      .scope true ((params.map Parameter.name).map (.declaration · []) ++ Stmt.outlineAll body)]
  | .command action => action.references.map .mention

def Stmt.outlineAll : List Stmt → List ScopeItem
  | [] => []
  | stmt :: rest => stmt.outline ++ Stmt.outlineAll rest

end

namespace ScopeItem

def declared? : ScopeItem → Option String
  | .declaration name _ => some name
  | _ => none

/-- The names that a scope declares, in order. -/
def declared (items : List ScopeItem) : List String := items.filterMap declared?

/-- A reference stands among the items, or in a scope opened there. For each scope around
it, innermost first, the path lists the names that are declared there by declarations that
start before it; `own` names come before the items, and `outer` is the path of the scope. -/
inductive Stands : List String → List (List String) → List ScopeItem → List (List String) →
    Reference → Prop where
  | mention {own : List String} {outer : List (List String)} {before after : List ScopeItem}
      {reference : Reference} :
      Stands own outer (before ++ .mention reference :: after)
        ((own ++ declared before) :: outer) reference
  | initializer {own : List String} {outer : List (List String)} {before after : List ScopeItem}
      {name : String} {references : List Reference} {reference : Reference} :
      reference ∈ references →
      Stands own outer (before ++ .declaration name references :: after)
        ((own ++ declared before ++ [name]) :: outer) reference
  | inner {own : List String} {outer path : List (List String)}
      {before after items : List ScopeItem} {ofFunction : Bool} {reference : Reference} :
      Stands [] ((own ++ declared before) :: outer) items path reference →
      Stands own outer (before ++ .scope ofFunction items :: after) path reference

/-- The item stands among the items or in a scope opened there; it is inside if one of these
scopes is that of a function. -/
inductive Within : List ScopeItem → Bool → ScopeItem → Prop where
  | here {items : List ScopeItem} {item : ScopeItem} : item ∈ items → Within items false item
  | inner {items within : List ScopeItem} {ofFunction inside : Bool} {item : ScopeItem} :
      .scope ofFunction within ∈ items → Within within inside item →
        Within items (ofFunction || inside) item

/-- No scope declares a name twice, no initializer reads the name that it is for, and every
`return` is inside a function. -/
structure WellScoped (items : List ScopeItem) : Prop where
  once : (declared items).Nodup
  onceWithin : ∀ {inside ofFunction : Bool} {inner : List ScopeItem},
    Within items inside (.scope ofFunction inner) → (declared inner).Nodup
  initializers : ∀ {inside : Bool} {name : String} {references : List Reference},
    Within items inside (.declaration name references) →
      ∀ id, (⟨id, name, .read⟩ : Reference) ∉ references
  returns : ∀ {inside : Bool}, Within items inside .leave → inside = true

/-! ## Names and positions in joined outlines -/

variable {own : List String} {outer path : List (List String)} {items first second : List ScopeItem}
  {reference : Reference} {inside : Bool}

theorem declared_append (first second : List ScopeItem) :
    declared (first ++ second) = declared first ++ declared second :=
  List.filterMap_append

theorem declared_mentions (references : List Reference) :
    declared (references.map .mention) = [] := by
  induction references with
  | nil => rfl
  | cons reference rest ih => exact ih

/-- An item of two joined lists belongs to one of them. -/
theorem split_append {before after : List ScopeItem} {item : ScopeItem}
    (h : before ++ item :: after = first ++ second) :
    (∃ rest, first = before ++ item :: rest) ∨
      ∃ rest, before = first ++ rest ∧ second = rest ++ item :: after := by
  obtain ⟨rest, hfirst, hrest⟩ | ⟨rest, hbefore, hsecond⟩ := List.append_eq_append_iff.mp h
  · cases rest with
    | nil => exact .inr ⟨[], by rw [hfirst, List.append_nil, List.append_nil], hrest.symm⟩
    | cons next rest =>
      obtain ⟨rfl, -⟩ := List.cons.inj hrest
      exact .inl ⟨rest, hfirst⟩
  · exact .inr ⟨rest, hbefore, hsecond⟩

theorem Stands.append_right (h : Stands own outer first path reference)
    (second : List ScopeItem) : Stands own outer (first ++ second) path reference := by
  cases h with
  | mention =>
    rw [List.append_assoc, List.cons_append]
    exact .mention
  | initializer hmem =>
    rw [List.append_assoc, List.cons_append]
    exact .initializer hmem
  | inner h =>
    rw [List.append_assoc, List.cons_append]
    exact .inner h

theorem Stands.append_left (first : List ScopeItem)
    (h : Stands (own ++ declared first) outer second path reference) :
    Stands own outer (first ++ second) path reference := by
  cases h with
  | @mention _ _ before after =>
    rw [List.append_assoc, ← declared_append, ← List.append_assoc]
    exact .mention
  | @initializer _ _ before after name references _ hmem =>
    rw [List.append_assoc own, ← declared_append, ← List.append_assoc]
    exact .initializer hmem
  | @inner _ _ _ before after items ofFunction _ h =>
    rw [List.append_assoc own, ← declared_append] at h
    rw [← List.append_assoc]
    exact .inner h

theorem stands_append :
    Stands own outer (first ++ second) path reference ↔
      Stands own outer first path reference ∨
        Stands (own ++ declared first) outer second path reference := by
  constructor
  · intro h
    generalize hitems : first ++ second = items at h
    cases h with
    | mention =>
      obtain ⟨rest, rfl⟩ | ⟨rest, rfl, rfl⟩ := split_append hitems.symm
      · exact .inl .mention
      · right
        rw [declared_append, ← List.append_assoc]
        exact .mention
    | initializer hmem =>
      obtain ⟨rest, rfl⟩ | ⟨rest, rfl, rfl⟩ := split_append hitems.symm
      · exact .inl (.initializer hmem)
      · right
        rw [declared_append, ← List.append_assoc]
        exact .initializer hmem
    | inner h =>
      obtain ⟨rest, rfl⟩ | ⟨rest, rfl, rfl⟩ := split_append hitems.symm
      · exact .inl (.inner h)
      · right
        rw [declared_append, ← List.append_assoc] at h
        exact .inner h
  · rintro (h | h)
    · exact h.append_right second
    · exact h.append_left first

theorem not_stands_nil : ¬Stands own outer [] path reference := by
  intro h
  generalize hitems : ([] : List ScopeItem) = items at h
  cases h <;> exact absurd hitems (by simp)

theorem eq_of_split {before after : List ScopeItem} {item only : ScopeItem}
    (h : [only] = before ++ item :: after) : before = [] ∧ only = item := by
  cases before with
  | nil => exact ⟨rfl, (List.cons.inj h).1⟩
  | cons first before => simp at h

theorem stands_mention {other : Reference} :
    Stands own outer [.mention other] path reference ↔ path = own :: outer ∧ reference = other := by
  constructor
  · intro h
    generalize hitems : [ScopeItem.mention other] = items at h
    cases h <;> obtain ⟨rfl, heq⟩ := eq_of_split hitems
    case mention =>
      obtain rfl := ScopeItem.mention.inj heq
      exact ⟨by rw [show declared [] = [] from rfl, List.append_nil], rfl⟩
    all_goals cases heq
  · rintro ⟨rfl, rfl⟩
    have h : Stands own outer ([] ++ .mention reference :: []) ((own ++ declared []) :: outer)
      reference := .mention
    rwa [show declared [] = [] from rfl, List.append_nil] at h

theorem stands_declaration {name : String} {references : List Reference} :
    Stands own outer [.declaration name references] path reference ↔
      path = (own ++ [name]) :: outer ∧ reference ∈ references := by
  constructor
  · intro h
    generalize hitems : [ScopeItem.declaration name references] = items at h
    cases h <;> obtain ⟨rfl, heq⟩ := eq_of_split hitems
    case initializer hmem =>
      obtain ⟨rfl, rfl⟩ := ScopeItem.declaration.inj heq
      exact ⟨by rw [show declared [] = [] from rfl, List.append_nil], hmem⟩
    all_goals cases heq
  · rintro ⟨rfl, hmem⟩
    have h : Stands own outer ([] ++ .declaration name references :: [])
      ((own ++ declared [] ++ [name]) :: outer) reference := .initializer hmem
    rwa [show declared [] = [] from rfl, List.append_nil] at h

theorem stands_scope {ofFunction : Bool} :
    Stands own outer [.scope ofFunction items] path reference ↔
      Stands [] (own :: outer) items path reference := by
  constructor
  · intro h
    generalize hitems : [ScopeItem.scope ofFunction items] = whole at h
    cases h <;> obtain ⟨rfl, heq⟩ := eq_of_split hitems
    case inner h =>
      obtain ⟨rfl, rfl⟩ := ScopeItem.scope.inj heq
      rwa [show declared [] = [] from rfl, List.append_nil] at h
    all_goals cases heq
  · intro h
    rw [← List.append_nil own] at h
    have hinner : Stands own outer ([] ++ .scope ofFunction items :: []) path reference := .inner h
    exact hinner

theorem not_stands_leave : ¬Stands own outer [.leave] path reference := by
  intro h
  generalize hitems : [ScopeItem.leave] = whole at h
  cases h <;> exact absurd (eq_of_split hitems).2 (by simp)

theorem stands_mentions {references : List Reference} :
    Stands own outer (references.map .mention) path reference ↔
      path = own :: outer ∧ reference ∈ references := by
  induction references with
  | nil => simp [not_stands_nil]
  | cons first rest ih =>
    rw [List.map_cons, ← List.singleton_append, stands_append, stands_mention,
      show declared [ScopeItem.mention first] = [] from rfl, List.append_nil, ih, List.mem_cons]
    exact and_or_left.symm

/-! ## Items of joined outlines -/

theorem within_append {item : ScopeItem} :
    Within (first ++ second) inside item ↔
      Within first inside item ∨ Within second inside item := by
  constructor
  · rintro (hmem | ⟨hmem, h⟩)
    · exact (List.mem_append.mp hmem).imp .here .here
    · exact (List.mem_append.mp hmem).imp (.inner · h) (.inner · h)
  · rintro ((hmem | ⟨hmem, h⟩) | (hmem | ⟨hmem, h⟩))
    · exact .here (List.mem_append_left _ hmem)
    · exact .inner (List.mem_append_left _ hmem) h
    · exact .here (List.mem_append_right _ hmem)
    · exact .inner (List.mem_append_right _ hmem) h

theorem within_nil {item : ScopeItem} : ¬Within [] inside item := by
  rintro (hmem | ⟨hmem, -⟩) <;> exact List.not_mem_nil hmem

theorem within_scope {item : ScopeItem} {ofFunction : Bool} :
    Within [.scope ofFunction items] inside item ↔
      (inside = false ∧ item = .scope ofFunction items) ∨
        ∃ within, Within items within item ∧ inside = (ofFunction || within) := by
  constructor
  · rintro (hmem | ⟨hmem, h⟩)
    · exact .inl ⟨rfl, List.mem_singleton.mp hmem⟩
    · obtain ⟨rfl, rfl⟩ := ScopeItem.scope.inj (List.mem_singleton.mp hmem)
      exact .inr ⟨_, h, rfl⟩
  · rintro (⟨rfl, rfl⟩ | ⟨within, h, rfl⟩)
    · exact .here List.mem_cons_self
    · exact .inner List.mem_cons_self h

/-- Nothing stands within items that are no scopes but the items themselves. -/
theorem eq_of_within {item only : ScopeItem}
    (honly : ∀ ofFunction inner, only ≠ .scope ofFunction inner) (h : Within [only] inside item) :
    inside = false ∧ item = only := by
  cases h with
  | here hmem => exact ⟨rfl, List.mem_singleton.mp hmem⟩
  | inner hmem => exact absurd (List.mem_singleton.mp hmem).symm (honly _ _)

/-- The rules for items that come after `own` names in their scope, inside a function or not. -/
structure Clear (own : List String) (inside : Bool) (items : List ScopeItem) : Prop where
  fresh : ∀ name ∈ declared items, name ∉ own
  once : (declared items).Nodup
  onceWithin : ∀ {within ofFunction : Bool} {inner : List ScopeItem},
    Within items within (.scope ofFunction inner) → (declared inner).Nodup
  initializers : ∀ {within : Bool} {name : String} {references : List Reference},
    Within items within (.declaration name references) →
      ∀ id, (⟨id, name, .read⟩ : Reference) ∉ references
  returns : ∀ {within : Bool}, Within items within .leave → (inside || within) = true

theorem wellScoped_iff : WellScoped items ↔ Clear [] false items := by
  constructor
  · intro h
    exact ⟨fun _ _ => List.not_mem_nil, h.once, h.onceWithin, h.initializers, h.returns⟩
  · intro h
    exact ⟨h.once, h.onceWithin, h.initializers, h.returns⟩

theorem clear_append :
    Clear own inside (first ++ second) ↔
      Clear own inside first ∧ Clear (own ++ declared first) inside second := by
  constructor
  · intro h
    have honce := h.once
    have hfresh := h.fresh
    rw [declared_append, List.nodup_append] at honce
    rw [declared_append, List.forall_mem_append] at hfresh
    constructor
    · exact ⟨hfresh.1, honce.1, fun hw => h.onceWithin (within_append.mpr (.inl hw)),
        fun hw => h.initializers (within_append.mpr (.inl hw)),
        fun hw => h.returns (within_append.mpr (.inl hw))⟩
    · refine ⟨fun name hname hmem => ?_, honce.2.1,
        fun hw => h.onceWithin (within_append.mpr (.inr hw)),
        fun hw => h.initializers (within_append.mpr (.inr hw)),
        fun hw => h.returns (within_append.mpr (.inr hw))⟩
      obtain hown | hfirst := List.mem_append.mp hmem
      · exact hfresh.2 name hname hown
      · exact honce.2.2 name hfirst name hname rfl
  · rintro ⟨hfirst, hsecond⟩
    refine ⟨?_, ?_, fun hw => (within_append.mp hw).elim hfirst.onceWithin hsecond.onceWithin,
      fun hw => (within_append.mp hw).elim hfirst.initializers hsecond.initializers,
      fun hw => (within_append.mp hw).elim hfirst.returns hsecond.returns⟩
    · rw [declared_append, List.forall_mem_append]
      refine ⟨hfirst.fresh, fun name hname hown => ?_⟩
      exact hsecond.fresh name hname (List.mem_append_left _ hown)
    · rw [declared_append, List.nodup_append]
      refine ⟨hfirst.once, hsecond.once, fun a ha b hb heq => ?_⟩
      subst heq
      exact hsecond.fresh a hb (List.mem_append_right _ ha)

theorem clear_scope {ofFunction : Bool} :
    Clear own inside [.scope ofFunction items] ↔ Clear [] (inside || ofFunction) items := by
  constructor
  · intro h
    refine ⟨fun _ _ => List.not_mem_nil, h.onceWithin (.here List.mem_cons_self),
      fun hw => h.onceWithin (.inner List.mem_cons_self hw),
      fun hw => h.initializers (.inner List.mem_cons_self hw), fun hw => ?_⟩
    rw [Bool.or_assoc]
    exact h.returns (.inner List.mem_cons_self hw)
  · intro h
    refine ⟨fun _ hname => absurd hname List.not_mem_nil, List.nodup_nil, ?_, ?_, ?_⟩
    · intro within other inner hw
      obtain ⟨-, heq⟩ | ⟨within, hw, -⟩ := within_scope.mp hw
      · obtain ⟨-, rfl⟩ := ScopeItem.scope.inj heq
        exact h.once
      · exact h.onceWithin hw
    · intro within name references hw
      obtain ⟨-, heq⟩ | ⟨within, hw, -⟩ := within_scope.mp hw
      · cases heq
      · exact h.initializers hw
    · intro within hw
      obtain ⟨-, heq⟩ | ⟨inner, hinner, rfl⟩ := within_scope.mp hw
      · cases heq
      · rw [← Bool.or_assoc]
        exact h.returns hinner

theorem clear_declaration {name : String} {references : List Reference} :
    Clear own inside [.declaration name references] ↔
      name ∉ own ∧ ∀ id, (⟨id, name, .read⟩ : Reference) ∉ references := by
  have hplain : ∀ ofFunction inner,
      ScopeItem.declaration name references ≠ .scope ofFunction inner := by
    intro ofFunction inner h
    cases h
  constructor
  · intro h
    exact ⟨h.fresh name List.mem_cons_self, h.initializers (.here List.mem_cons_self)⟩
  · rintro ⟨hfresh, hreads⟩
    refine ⟨?_, List.nodup_cons.mpr ⟨List.not_mem_nil, List.nodup_nil⟩, ?_, ?_, ?_⟩
    · intro other hother
      rw [List.mem_singleton.mp hother]
      exact hfresh
    · intro within ofFunction inner hw
      cases (eq_of_within hplain hw).2
    · intro within other references hw
      obtain ⟨rfl, rfl⟩ := ScopeItem.declaration.inj (eq_of_within hplain hw).2
      exact hreads
    · intro within hw
      cases (eq_of_within hplain hw).2

theorem clear_leave : Clear own inside [.leave] ↔ inside = true := by
  have hplain : ∀ ofFunction inner, ScopeItem.leave ≠ .scope ofFunction inner := by
    intro ofFunction inner h
    cases h
  constructor
  · intro h
    have hinside := h.returns (.here List.mem_cons_self)
    rwa [Bool.or_false] at hinside
  · intro h
    refine ⟨fun _ hname => absurd hname List.not_mem_nil, List.nodup_nil, ?_, ?_, ?_⟩
    · intro within ofFunction inner hw
      cases (eq_of_within hplain hw).2
    · intro within other references hw
      cases (eq_of_within hplain hw).2
    · intro within hw
      rw [h, Bool.true_or]

theorem clear_nil : Clear own inside [] :=
  ⟨fun _ hname => absurd hname List.not_mem_nil, List.nodup_nil, fun hw => absurd hw within_nil,
    fun hw => absurd hw within_nil, fun hw => absurd hw within_nil⟩

theorem clear_mentions (references : List Reference) :
    Clear own inside (references.map .mention) := by
  have hmention : ∀ {within : Bool} {item : ScopeItem},
      Within (references.map .mention) within item → ∃ reference, .mention reference = item := by
    rintro within item (hmem | ⟨hmem, -⟩)
    · obtain ⟨reference, -, heq⟩ := List.mem_map.mp hmem
      exact ⟨reference, heq⟩
    · obtain ⟨reference, -, heq⟩ := List.mem_map.mp hmem
      cases heq
  refine ⟨?_, ?_, ?_, ?_, ?_⟩
  · rw [declared_mentions]
    exact fun _ hname => absurd hname List.not_mem_nil
  · rw [declared_mentions]
    exact List.nodup_nil
  · intro within ofFunction inner hw
    obtain ⟨reference, heq⟩ := hmention hw
    cases heq
  · intro within name initializer hw
    obtain ⟨reference, heq⟩ := hmention hw
    cases heq
  · intro within hw
    obtain ⟨reference, heq⟩ := hmention hw
    cases heq

end ScopeItem

end CommandScript
