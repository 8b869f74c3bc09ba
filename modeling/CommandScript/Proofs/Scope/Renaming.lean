import CommandScript.Proofs.Scope.Lines
import CommandScript.Proofs.Syntax.Renaming
import Mathlib.Data.List.Forall2

/-!
# Stores that differ in the name of a local declaration

The stores of a program and of its renaming have the same scopes. Each scope has a place: it
is opened for the renamed scope of the program, or within it after so many scopes, or outside.
Instances of the renamed scope bind the new name where the others bind the old one. The values
are the same, but for the bodies of functions, which are aligned at the places of their scopes.

From the place of a scope one knows which of the scopes around it is an instance of the
renamed scope. So a name is found at a distance under the name that it gets there.

* `Value.Aligned`, `Scopes.Aligned`: values and stores that differ in the name.
* `Value.outline`: what can be seen of a value from outside of the language.
* `Scopes.Aligned.ancestor?_place`: the place of a scope at a distance.
* `Scopes.Aligned.define`, `Scopes.Aligned.add`: changes of the stores.
-/

namespace CommandScript

/-- The places of all scopes, in the order of their creation. -/
abbrev ScopePlaces := List (Option Nat)

theorem ScopePlaces.of_prefix {places wider : ScopePlaces} (h : places <+: wider) {id : ScopeId}
    {place : Option Nat} (hplace : places[id]? = some place) : wider[id]? = some place := by
  obtain ⟨more, rfl⟩ := h
  rw [List.getElem?_append_left (List.getElem?_eq_some_iff.mp hplace).1, hplace]

theorem isSome_eq_of_rel {α β : Type} {R : α → β → Prop} {left : Option α} {right : Option β}
    (h : Option.Rel R left right) : right.isSome = left.isSome := by
  cases h <;> rfl

theorem rel_mono {α β : Type} {R S : α → β → Prop} {left : Option α} {right : Option β}
    (h : Option.Rel R left right) (himp : ∀ {a b}, R a b → S a b) : Option.Rel S left right := by
  cases h with
  | none => exact .none
  | some hboth => exact .some (himp hboth)

/-! ## Values -/

/-- Values that are the same but for the name in the body of a function. -/
inductive Value.Aligned (r : Renaming) (fits : Reference → Prop) (places : ScopePlaces) :
    Value → Value → Prop where
  | plain {value : Value} : value.closure? = none → Aligned r fits places value value
  | function {name : String} {params : List String} {body other : List Stmt}
      {closure : ScopeId} {identity : Nat} {place inner : Option Nat} :
      places[closure]? = some place → Enters place inner →
      (∀ param ∈ params, r.Fresh inner param) → Stmt.AlignedAll r fits inner body other →
      Aligned r fits places (.function ⟨name, params, body⟩ closure identity)
        (.function ⟨name, params.map (r.declared inner), other⟩ closure identity)

/-- The value without what only the language can see of it: a function with its name, the
number of its parameters and its identity. -/
def Value.outline : Value → Value
  | .function decl closure identity =>
    .function ⟨decl.name, decl.params.map fun _ => "", []⟩ closure identity
  | value => value

namespace Value.Aligned

variable {r : Renaming} {fits : Reference → Prop} {places : ScopePlaces} {value other : Value}

theorem outline_eq (h : value.Aligned r fits places other) : other.outline = value.outline := by
  cases h with
  | plain => rfl
  | function => simp only [outline, List.map_map]; rfl

theorem truthy_eq (h : value.Aligned r fits places other) : other.truthy = value.truthy := by
  cases h <;> rfl

theorem text_eq (h : value.Aligned r fits places other) : other.text = value.text := by
  cases h <;> rfl

theorem mono {wider : ScopePlaces} (h : value.Aligned r fits places other)
    (hmore : places <+: wider) :
    value.Aligned r fits wider other := by
  cases h with
  | plain hplain => exact .plain hplain
  | function hplace henters hparams hbody =>
    exact .function (ScopePlaces.of_prefix hmore hplace) henters hparams hbody

/-- In a store without instances of the renamed scope a value is aligned with itself. -/
theorem refl_of_outside
    (h : ∀ closure, value.closure? = some closure → places[closure]? = some none) :
    value.Aligned r fits places value := by
  cases value with
  | function decl closure identity =>
    have haligned := @Value.Aligned.function r fits places decl.name decl.params decl.body decl.body
      closure identity none none (h closure rfl) .further (fun _ _ => r.fresh_none _)
      (Stmt.alignedAll_refl decl.body)
    rwa [show decl.params.map (r.declared none) = decl.params from List.map_id _] at haligned
  | _ => exact .plain rfl

end Value.Aligned

theorem Value.outlines_eq {r : Renaming} {fits : Reference → Prop} {places : ScopePlaces}
    {values others : List Value} (h : List.Forall₂ (Value.Aligned r fits places) values others) :
    others.map Value.outline = values.map Value.outline := by
  induction h with
  | nil => rfl
  | cons hvalue _ ih => rw [List.map_cons, List.map_cons, hvalue.outline_eq, ih]

/-! ## Stores -/

structure Scopes.Aligned (r : Renaming) (fits : Reference → Prop) (places : ScopePlaces)
    (left right : Scopes) : Prop where
  length : places.length = left.nextId
  nextId_eq : right.nextId = left.nextId
  parent?_eq (id : ScopeId) : right.parent? id = left.parent? id
  enters {id parent : ScopeId} : left.parent? id = some parent →
    ∃ place inner, places[parent]? = some place ∧ places[id]? = some inner ∧ Enters place inner
  binds {id : ScopeId} {place : Option Nat} {name : String} : places[id]? = some place →
    r.Fresh place name →
    Option.Rel (Value.Aligned r fits places) (left.local? id name)
      (right.local? id (r.declared place name))

namespace Scopes.Aligned

variable {r : Renaming} {fits : Reference → Prop} {places : ScopePlaces} {left right : Scopes}
  {id : ScopeId} {place : Option Nat} {name : String}

theorem isSome_eq (h : left.Aligned r fits places right) (hplace : places[id]? = some place)
    (hname : r.Fresh place name) :
    (right.local? id (r.declared place name)).isSome = (left.local? id name).isSome :=
  isSome_eq_of_rel (h.binds hplace hname)

theorem ancestor?_eq (h : left.Aligned r fits places right) (id : ScopeId) (distance : Nat) :
    right.ancestor? id distance = left.ancestor? id distance := by
  induction distance generalizing id with
  | zero => rfl
  | succ distance ih =>
    rw [ancestor?, ancestor?, h.parent?_eq]
    exact congrArg _ (funext fun parent => ih parent)

/-- A scope around another one has the place that is so many scopes further out. -/
theorem ancestor?_place (h : left.Aligned r fits places right) (hplace : places[id]? = some place)
    {distance : Nat} {found : ScopeId} (hfound : left.ancestor? id distance = some found) :
    ∃ outer, places[found]? = some outer ∧
      (∀ name, r.bound place (some distance) name = r.declared outer name) ∧
      ∀ name, r.Fresh place name → r.Fresh outer name := by
  induction distance generalizing id place with
  | zero =>
    obtain rfl := Option.some.inj hfound
    exact ⟨place, hplace, fun name => r.bound_zero place name, fun _ hname => hname⟩
  | succ distance ih =>
    obtain ⟨parent, hparent, hfound⟩ := Option.bind_eq_some_iff.mp hfound
    obtain ⟨place', inner, hplace', hinner, henters⟩ := h.enters hparent
    obtain rfl := Option.some.inj (hplace.symm.trans hinner)
    obtain ⟨outer, houter, hbound, hfresh⟩ := ih hplace' hfound
    exact ⟨outer, houter,
      fun name => (henters.bound_succ r (some distance) name).trans (hbound name),
      fun name hname => hfresh name (henters.fresh r hname)⟩

/-- Outside of the renamed scope names are found as they are. -/
theorem nearest?_eq (h : left.Aligned r fits places right) (hplace : places[id]? = some none)
    (name : String) :
    right.nearest? id name = left.nearest? id name ∧
      ∀ found, left.nearest? id name = some found → places[found]? = some none := by
  induction id using Nat.strongRecOn with
  | ind id ih =>
    have hbinds : (right.local? id name).isSome = (left.local? id name).isSome :=
      h.isSome_eq hplace (r.fresh_none name)
    rw [nearest?_eq_ite, nearest?_eq_ite, hbinds, h.parent?_eq]
    split
    · refine ⟨rfl, fun found hfound => ?_⟩
      obtain rfl := Option.some.inj hfound
      exact hplace
    · cases hparent : left.parent? id with
      | none => exact ⟨rfl, nofun⟩
      | some parent =>
        obtain ⟨place, inner, hparentPlace, hinner, henters⟩ := h.enters hparent
        obtain rfl := Option.some.inj (hplace.symm.trans hinner)
        obtain rfl := henters.eq_none
        exact ih parent (parent_lt hparent) hparentPlace

/-! ## Changes -/

theorem define (h : left.Aligned r fits places right) (hplace : places[id]? = some place)
    (hname : r.Fresh place name) {value other : Value}
    (hvalue : value.Aligned r fits places other) :
    (left.define id name value).Aligned r fits places
      (right.define id (r.declared place name) other) := by
  have hlt : id < left.nextId := h.length ▸ (List.getElem?_eq_some_iff.mp hplace).1
  refine ⟨?_, ?_, fun other => ?_, fun {other parent} hparent => ?_,
    fun {asked outer key} houter hkey => ?_⟩
  · rw [nextId_define, h.length]
  · rw [nextId_define, nextId_define, h.nextId_eq]
  · rw [parent?_define, parent?_define, h.parent?_eq]
  · rw [parent?_define] at hparent
    exact h.enters hparent
  · rw [local?_define hlt, local?_define (h.nextId_eq ▸ hlt)]
    by_cases hid : asked = id
    · subst hid
      obtain rfl := Option.some.inj (hplace.symm.trans houter)
      simp only [true_and, r.declared_inj hkey hname]
      split
      · exact .some hvalue
      · exact h.binds houter hkey
    · simp only [hid, false_and, if_false]
      exact h.binds houter hkey

theorem add (h : left.Aligned r fits places right) {parent : ScopeId} {inner : Option Nat}
    (hparent : places[parent]? = some place) (henters : Enters place inner) :
    (left.add (some parent)).Aligned r fits (places ++ [inner]) (right.add (some parent)) := by
  have hlt : parent < left.nextId := h.length ▸ (List.getElem?_eq_some_iff.mp hparent).1
  have hmore : places <+: places ++ [inner] := List.prefix_append _ _
  have hnew : (places ++ [inner])[left.nextId]? = some inner := by
    rw [← h.length, List.getElem?_concat_length]
  refine ⟨?_, ?_, fun id => ?_, fun {id other} hother => ?_, fun {id place name} hplace hname => ?_⟩
  · rw [List.length_append, h.length, nextId_add]
    rfl
  · rw [nextId_add, nextId_add, h.nextId_eq]
  · have hsame := h.parent?_eq id
    simp only [parent?, find_add, h.nextId_eq] at hsame ⊢
    split
    · rfl
    · exact hsame
  · by_cases hid : id = left.nextId
    · subst hid
      rw [parent?_add_new hlt] at hother
      obtain rfl := Option.some.inj hother
      exact ⟨place, inner, ScopePlaces.of_prefix hmore hparent, hnew, henters⟩
    · rw [parent?, find_add, if_neg hid] at hother
      obtain ⟨place', inner', hplace', hinner', henters'⟩ := h.enters hother
      exact ⟨place', inner', ScopePlaces.of_prefix hmore hplace',
        ScopePlaces.of_prefix hmore hinner', henters'⟩
  · by_cases hid : id = left.nextId
    · subst hid
      have hright := right.local?_add_new (some parent) (r.declared place name)
      rw [h.nextId_eq] at hright
      rw [local?_add_new, hright]
      exact .none
    · have hid : id < left.nextId := by
        have hlast := (List.getElem?_eq_some_iff.mp hplace).1
        rw [List.length_append, h.length] at hlast
        exact Nat.lt_of_le_of_ne (Nat.le_of_lt_succ hlast) hid
      rw [List.getElem?_append_left (h.length ▸ hid)] at hplace
      rw [local?_add_of_lt hid, local?_add_of_lt (h.nextId_eq ▸ hid)]
      exact rel_mono (h.binds hplace hname) fun hvalue => hvalue.mono hmore

end Scopes.Aligned

/-- A store without instances of the renamed scope is aligned with itself. -/
theorem Scopes.aligned_refl {r : Renaming} {fits : Reference → Prop} {scopes : Scopes}
    (h : ∀ id name value, scopes.local? id name = some value →
      ∀ closure, value.closure? = some closure → closure < scopes.nextId) :
    scopes.Aligned r fits (List.replicate scopes.nextId none) scopes := by
  have houtside : ∀ {id : ScopeId}, id < scopes.nextId →
      (List.replicate scopes.nextId (none : Option Nat))[id]? = some none := fun hid => by
    rw [List.getElem?_replicate, if_pos hid]
  refine ⟨List.length_replicate, rfl, fun _ => rfl, fun {id parent} hparent => ?_,
    fun {id place name} hplace _ => ?_⟩
  · obtain ⟨scope, hscope, -⟩ := Option.bind_eq_some_iff.mp hparent
    have hid := lt_of_find hscope
    exact ⟨none, none, houtside (Nat.lt_trans (parent_lt hparent) hid), houtside hid, .further⟩
  · obtain rfl := List.eq_of_mem_replicate (List.mem_of_getElem? hplace)
    rw [show r.declared none name = name from rfl]
    cases hvalue : scopes.local? id name with
    | none => exact .none
    | some value =>
      exact .some (.refl_of_outside fun closure hclosure =>
        houtside (h id name value hvalue closure hclosure))

end CommandScript
