import CommandScript.Proofs.Machine.Standing
import CommandScript.Proofs.Resolution.Order

/-!
# Look-up in scopes that fit

At the distance that resolution has recorded, a chain of scopes that fits its context has
the instance of the level that declares the name. If the name is ready there, the scope
binds it.

Looking the name up along the chain gives the same scope, provided that each inner level
that declares the name somewhere has it ready: a nearer scope that binds the name would
declare it, so it would be ready there and the distance would be shorter.

* `Layout.Fits.chain`: the enclosing scopes are instances of the enclosing levels.
* `Occurrence.WellPlaced.ready_of_read`: a name that may be read is ready where it was
  declared.
* `Layout.Fits.nearest?_eq`, `Interpreter.target?_eq`: both ways of looking up agree.
-/

namespace CommandScript

/-- The level at the distance of a name declares it. -/
theorem Context.level_of_distance? {context : Context} {name : String} {distance : Nat}
    (h : distance? context.scopes name = some distance) :
    ∃ level, context[distance]? = some level ∧ level.names.declares name = true := by
  induction context generalizing distance with
  | nil => cases h
  | cons level outer ih =>
    rw [Context.scopes, List.map_cons, distance?_cons] at h
    split at h
    · rename_i hdeclares
      obtain rfl := Option.some.inj h
      exact ⟨level, rfl, hdeclares⟩
    · obtain ⟨rest, hrest, rfl⟩ := Option.map_eq_some_iff.mp h
      exact ih hrest

/-- The recorded distances are the distances in the contexts of the references. -/
def Layout.Linked (layout : Layout) (distances : Std.HashMap NodeId Nat) : Prop :=
  ∀ context reference, layout.known ⟨context, .mention reference⟩ →
    distances[reference.id]? = distance? context.scopes reference.name

namespace Layout.Fits

variable {layout : Layout} {scopes : Scopes} {id : ScopeId} {context : Context} {name : String}

/-- Each enclosing level has its instance among the enclosing scopes. -/
theorem chain (h : layout.Fits scopes id context) (hsound : layout.Sound scopes)
    {distance : Nat} {level : Level} (hlevel : context[distance]? = some level) :
    ∃ scope, scopes.ancestor? id distance = some scope ∧ scope < scopes.nextId ∧
      layout.origin scope = level.origin ∧
      ∀ name, level.Ready name → (scopes.local? scope name).isSome := by
  induction h generalizing distance with
  | top htop hready =>
    cases distance with
    | zero =>
      obtain rfl := Option.some.inj hlevel
      exact ⟨_, rfl, hsound.lt, hsound.top.trans htop.symm, hready⟩
    | succ distance => cases hlevel
  | inner _ horigin hready hparent _ ih =>
    cases distance with
    | zero =>
      obtain rfl := Option.some.inj hlevel
      exact ⟨_, rfl, lt_of_parent? hparent, horigin, hready⟩
    | succ distance =>
      obtain ⟨scope, hscope, hrest⟩ := ih hlevel
      refine ⟨scope, ?_, hrest⟩
      rw [Scopes.ancestor?, hparent, Option.bind_some, hscope]

/-- Along the chain one finds the scope at the distance, if it binds the name. -/
theorem nearest?_eq (h : layout.Fits scopes id context) (hsound : layout.Sound scopes)
    (hnames : ∀ level ∈ context, level.NamesDeclared) (hready : context.ReadyFor [name]) :
    scopes.nearest? id name =
      match distance? context.scopes name with
      | some distance => (scopes.ancestor? id distance).filter fun scope =>
          (scopes.local? scope name).isSome
      | none => scopes.nearest? layout.globals name := by
  induction h with
  | @top level htop _ =>
    rw [Context.scopes, List.map_cons, List.map_nil, distance?_cons, distance?_nil]
    split
    · rename_i hdistance
      split at hdistance
      · obtain rfl := Option.some.inj hdistance
        rw [Scopes.nearest?_eq_ite, hsound.root, Scopes.ancestor?, Option.filter]
        split <;> rfl
      · cases hdistance
    · rfl
  | @inner id parent level outer hinner horigin hbinds hparent _ ih =>
    obtain ⟨hlevel, houter⟩ := List.forall_mem_cons.mp hnames
    obtain ⟨hhead, hrest⟩ := List.forall_mem_cons.mp hready
    -- the level has the name ready exactly if its scope binds it
    have hdeclared : (scopes.local? id name).isSome = level.names.declares name := by
      rw [Bool.eq_iff_iff]
      constructor
      · intro hbound
        obtain ⟨value, hvalue⟩ := Option.isSome_iff_exists.mp hbound
        obtain ⟨-, hdeclares⟩ := hsound.bindings id name value (Scopes.binds_of_local? hvalue)
        have := hhead hinner name List.mem_cons_self (horigin ▸ hdeclares)
        exact StaticScope.declares_iff.mpr ⟨_, this, rfl⟩
      · intro hname
        obtain ⟨declared, hmem, rfl⟩ := StaticScope.declares_iff.mp hname
        exact hbinds _ (hhead hinner _ List.mem_cons_self (hlevel declared hmem))
    rw [Context.scopes, List.map_cons, distance?_cons, Scopes.nearest?_eq_ite, ← hdeclared]
    by_cases hbound : (scopes.local? id name).isSome = true
    · rw [if_pos hbound, if_pos hbound]
      simp only [Scopes.ancestor?, Option.filter, hbound, if_true]
    · rw [if_neg hbound, if_neg hbound, hparent, Option.bind_some, ih houter hrest]
      cases hdistance : distance? (Context.scopes outer) name with
      | none =>
        rw [Context.scopes] at hdistance
        rw [hdistance]
        rfl
      | some distance =>
        rw [Context.scopes] at hdistance
        rw [hdistance]
        simp only [Option.map_some, Scopes.ancestor?, hparent, Option.bind_some]

end Layout.Fits

namespace Occurrence

variable {context : Context} {reference : Reference}

theorem WellPlaced.namesDeclared {use : Use} (h : WellPlaced ⟨context, use⟩) :
    ∀ level ∈ context, level.NamesDeclared := by
  cases context with
  | nil => exact fun _ hnil => by cases hnil
  | cons level outer =>
    refine List.forall_mem_cons.mpr ⟨(h.head level rfl).1, fun other hother => ?_⟩
    exact (h.outer other hother).namesDeclared

/-- Where a name that is read was declared, it is ready. -/
theorem WellPlaced.ready_of_read {id : NodeId} {name : String}
    (h : WellPlaced ⟨context, .mention ⟨id, name, .read⟩⟩)
    (hpermitted : Permitted ⟨context, .mention ⟨id, name, .read⟩⟩) {distance : Nat}
    {level : Level} (hlevel : context[distance]? = some level)
    (hdeclares : level.names.declares name = true) : level.Ready name := by
  cases context with
  | nil => cases hlevel
  | cons innermost outer =>
    cases distance with
    | zero =>
      obtain rfl := Option.some.inj hlevel
      obtain ⟨⟨declared, ready⟩, hmem, rfl⟩ := StaticScope.declares_iff.mp hdeclares
      have hpending : innermost.names.isPending declared = false := hpermitted
      cases ready with
      | true => exact hmem
      | false =>
        refine absurd hpending ?_
        simp only [StaticScope.isPending, Bool.not_eq_false, List.any_eq_true]
        exact ⟨_, hmem, by simp⟩
    | succ distance => exact (h.outer level (List.mem_of_getElem? hlevel)).ready hdeclares

end Occurrence

/-- In an orderly program both rules of look-up agree on every reference that the machine
comes to. -/
theorem Interpreter.target?_eq {layout : Layout} {state : Interpreter}
    (hglobals : state.globals = layout.globals) (hsound : layout.Sound state.scopes)
    (hlinked : layout.Linked state.distances) {context : Context} {reference : Reference}
    (hfits : layout.Fits state.scopes state.current context)
    (hknown : layout.known ⟨context, .mention reference⟩)
    (hplaced : Occurrence.WellPlaced ⟨context, .mention reference⟩)
    (hsettled : Occurrence.Settled ⟨context, .mention reference⟩) :
    state.target? .byName reference.id reference.name =
      state.target? .resolved reference.id reference.name := by
  have hnearest := hfits.nearest?_eq hsound hplaced.namesDeclared hsettled
  rw [← hlinked context reference hknown] at hnearest
  refine hnearest.trans ?_
  unfold Interpreter.target?
  cases state.distances[reference.id]? with
  | some distance => rfl
  | none => exact congrArg (state.scopes.nearest? · reference.name) hglobals.symm

end CommandScript
