import CommandScript.Value

/-!
# The store of scopes

All scopes that were ever created live in one store, numbered in the order of their
creation. A scope binds names to values and is enclosed by at most one scope, which is
older than it; so the chain of enclosing scopes of any scope ends.

A name can be looked up in two ways: along the chain, where the nearest scope that binds
it counts, or at a known distance, where exactly that scope counts.

* `Scopes.find`, `Scopes.parent?`: the view of the store.
* `Scopes.nearest?`, `get?`, `assign?`: by name along the chain.
* `Scopes.ancestor?`, `getAt?`, `assignAt?`: by name at a distance.
-/

namespace CommandScript

abbrev Bindings := List (String × Value)

namespace Bindings

def get? (bindings : Bindings) (name : String) : Option Value := bindings.lookup name

/-- Binds a name, in place of its earlier binding if it has one. -/
def set (bindings : Bindings) (name : String) (value : Value) : Bindings :=
  match bindings with
  | [] => [(name, value)]
  | (other, old) :: rest =>
    if name = other then (name, value) :: rest else (other, old) :: set rest name value

theorem get?_set (bindings : Bindings) (name other : String) (value : Value) :
    (bindings.set name value).get? other =
      if other = name then some value else bindings.get? other := by
  induction bindings with
  | nil =>
    by_cases h : other = name
    · simp [set, get?, h]
    · simp [set, get?, List.lookup_cons, h, beq_false_of_ne h]
  | cons binding rest ih =>
    obtain ⟨key, old⟩ := binding
    simp only [get?] at ih ⊢
    unfold set
    by_cases hk : name = key
    · subst hk
      by_cases h : other = name
      · simp [h]
      · simp [List.lookup_cons, h, beq_false_of_ne h]
    · rw [if_neg hk]
      by_cases h : other = key
      · have : other ≠ name := fun e => hk (e.symm.trans h)
        subst h
        simp [this]
      · simp [List.lookup_cons, beq_false_of_ne h, ih]

end Bindings

structure Scope where
  bindings : Bindings
  parent : Option ScopeId

instance : Inhabited Scope := ⟨[], none⟩

/-- A store in which the parent of a scope is always older than the scope. -/
structure Scopes where
  cells : Array Scope
  older : ∀ (id : ScopeId) (scope : Scope), cells[id]? = some scope →
    ∀ parent, scope.parent = some parent → parent < id

namespace Scopes

def empty : Scopes := ⟨#[], fun id scope h => by simp at h⟩

def find (scopes : Scopes) (id : ScopeId) : Option Scope := scopes.cells[id]?

def parent? (scopes : Scopes) (id : ScopeId) : Option ScopeId :=
  (scopes.find id).bind Scope.parent

/-- The value that a scope itself binds to a name. -/
def local? (scopes : Scopes) (id : ScopeId) (name : String) : Option Value :=
  (scopes.find id).bind fun scope => scope.bindings.get? name

theorem parent_lt {scopes : Scopes} {id parent : ScopeId}
    (h : scopes.parent? id = some parent) : parent < id := by
  obtain ⟨scope, hs, hp⟩ := Option.bind_eq_some_iff.mp h
  exact scopes.older id scope hs parent hp

/-! ## Creating and changing scopes -/

/-- A new scope with the given parent. A parent that is not in the store is left out. -/
def add (scopes : Scopes) (parent : Option ScopeId) : Scopes where
  cells := scopes.cells.push ⟨[], parent.filter (· < scopes.cells.size)⟩
  older id scope h found hp := by
    rw [Array.getElem?_push] at h
    split at h
    · rename_i hid
      obtain rfl := Option.some.inj h
      have hlt : found < scopes.cells.size := by
        simpa using (Option.filter_eq_some_iff.mp hp).2
      exact hid ▸ hlt
    · exact scopes.older id scope h found hp

/-- The number of the scope that `add` creates next. -/
def nextId (scopes : Scopes) : ScopeId := scopes.cells.size

/-- Replaces the bindings of a scope. -/
def modifyBindings (scopes : Scopes) (id : ScopeId) (f : Bindings → Bindings) : Scopes where
  cells := scopes.cells.modify id fun scope => { scope with bindings := f scope.bindings }
  older other scope h parent hp := by
    rw [Array.getElem?_modify] at h
    split at h
    · obtain ⟨old, ho, rfl⟩ := Option.map_eq_some_iff.mp h
      exact scopes.older other old ho parent hp
    · exact scopes.older other scope h parent hp

/-- Binds a name in a scope, whether it was bound there or not. -/
def define (scopes : Scopes) (id : ScopeId) (name : String) (value : Value) : Scopes :=
  scopes.modifyBindings id fun bindings => bindings.set name value

/-- Takes all bindings and the parent away from a scope. -/
def sever (scopes : Scopes) (id : ScopeId) : Scopes where
  cells := scopes.cells.modify id fun _ => ⟨[], none⟩
  older other scope h parent hp := by
    rw [Array.getElem?_modify] at h
    split at h
    · obtain ⟨old, ho, rfl⟩ := Option.map_eq_some_iff.mp h
      simp at hp
    · exact scopes.older other scope h parent hp

/-! ## Along the chain -/

/-- The nearest scope, from `id` outwards, that binds the name. -/
def nearest? (scopes : Scopes) (id : ScopeId) (name : String) : Option ScopeId :=
  if (scopes.local? id name).isSome then some id
  else
    match _h : scopes.parent? id with
    | some parent => nearest? scopes parent name
    | none => none
termination_by id
decreasing_by exact parent_lt _h

def get? (scopes : Scopes) (id : ScopeId) (name : String) : Option Value :=
  (scopes.nearest? id name).bind fun scope => scopes.local? scope name

/-- Changes the nearest binding of a name; without one there is nothing to change. -/
def assign? (scopes : Scopes) (id : ScopeId) (name : String) (value : Value) : Option Scopes :=
  (scopes.nearest? id name).map fun scope => scopes.define scope name value

/-! ## At a distance -/

/-- The scope that is `distance` steps outwards. -/
def ancestor? (scopes : Scopes) (id : ScopeId) : (distance : Nat) → Option ScopeId
  | 0 => some id
  | distance + 1 => (scopes.parent? id).bind fun parent => ancestor? scopes parent distance

def getAt? (scopes : Scopes) (id : ScopeId) (distance : Nat) (name : String) : Option Value :=
  (scopes.ancestor? id distance).bind fun scope => scopes.local? scope name

/-- Changes the binding of a name in the scope at that distance, if it has one. -/
def assignAt? (scopes : Scopes) (id : ScopeId) (distance : Nat) (name : String)
    (value : Value) : Option Scopes :=
  (scopes.ancestor? id distance).bind fun scope =>
    if (scopes.local? scope name).isSome then some (scopes.define scope name value) else none

end Scopes

end CommandScript
