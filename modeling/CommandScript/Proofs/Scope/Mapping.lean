import CommandScript.Command.Map
import CommandScript.Proofs.Scope.Agreement

/-!
# Stores with other values

A store does not look at the values that it holds, except for the scopes that they close
over. So a function on values that keeps those can be carried over to all values of a store,
and every access and change of the store carries over with it. The same scopes are found,
reached and severed.

* `Scopes.mapValues`, `CommandMap.mapValues`: with other values.
* `Scopes.nearest?_mapValues`, `Scopes.ancestor?_mapValues`: the same scopes are found.
* `Scopes.mapValues_define`, `Scopes.mapValues_add`: changes of the store.
* `Captured.collect_mapValues`: a collection severs the same scopes.
-/

namespace CommandScript

/-- The function keeps the scopes that values close over. -/
def Value.KeepsClosures (f : Value → Value) : Prop := ∀ value, (f value).closure? = value.closure?

/-! ## Command maps -/

namespace CommandMap

/-- The map with other values. -/
def mapValues (f : Value → Value) (map : CommandMap) : CommandMap :=
  ⟨map.entries.map fun entry => (entry.1, entry.2.map f)⟩

theorem mapValues_append (f : Value → Value) (map : CommandMap) (key : String)
    (values : List Value) :
    (map.append key values).mapValues f = (map.mapValues f).append key (values.map f) := by
  obtain ⟨entries⟩ := map
  unfold append mapValues
  congr 1
  induction entries with
  | nil => rfl
  | cons entry rest ih =>
    obtain ⟨other, held⟩ := entry
    simp only [appendEntry, List.map_cons]
    by_cases h : key = other
    · rw [if_pos h, if_pos h, List.map_cons, List.map_append]
    · rw [if_neg h, if_neg h, List.map_cons, ih]

end CommandMap

/-! ## Bindings -/

namespace Bindings

def mapValues (f : Value → Value) (bindings : Bindings) : Bindings :=
  bindings.map fun binding => (binding.1, f binding.2)

variable (f : Value → Value) (bindings : Bindings) (name : String)

theorem get?_mapValues : (bindings.mapValues f).get? name = (bindings.get? name).map f := by
  induction bindings with
  | nil => rfl
  | cons binding rest ih =>
    obtain ⟨key, held⟩ := binding
    simp only [get?, mapValues, List.map_cons, List.lookup_cons] at ih ⊢
    by_cases h : (name == key) = true
    · rw [h]
      rfl
    · rw [Bool.eq_false_iff.mpr h]
      exact ih

theorem mapValues_set (value : Value) :
    (bindings.set name value).mapValues f = (bindings.mapValues f).set name (f value) := by
  induction bindings with
  | nil => rfl
  | cons binding rest ih =>
    obtain ⟨key, held⟩ := binding
    simp only [mapValues, List.map_cons, set] at ih ⊢
    by_cases h : name = key
    · rw [if_pos h, if_pos h, List.map_cons]
    · rw [if_neg h, if_neg h, List.map_cons, ih]

end Bindings

def Scope.mapValues (f : Value → Value) (scope : Scope) : Scope :=
  { scope with bindings := scope.bindings.mapValues f }

/-! ## Stores -/

namespace Scopes

theorem eq_of_find_eq {left right : Scopes} (h : ∀ id, left.find id = right.find id) :
    left = right := by
  obtain ⟨cells, _⟩ := left
  obtain ⟨cells', _⟩ := right
  obtain rfl : cells = cells' := Array.ext_getElem? h
  rfl

def mapValues (f : Value → Value) (scopes : Scopes) : Scopes where
  cells := scopes.cells.map (Scope.mapValues f)
  older id scope h parent hp := by
    rw [Array.getElem?_map] at h
    obtain ⟨old, hold, rfl⟩ := Option.map_eq_some_iff.mp h
    exact scopes.older id old hold parent hp

variable (f : Value → Value) (scopes : Scopes)

section Views

theorem find_mapValues (id : ScopeId) :
    (scopes.mapValues f).find id = (scopes.find id).map (Scope.mapValues f) :=
  Array.getElem?_map

@[simp] theorem nextId_mapValues : (scopes.mapValues f).nextId = scopes.nextId :=
  Array.size_map

@[simp] theorem parent?_mapValues (id : ScopeId) :
    (scopes.mapValues f).parent? id = scopes.parent? id := by
  rw [parent?, find_mapValues, parent?]
  cases scopes.find id <;> rfl

theorem local?_mapValues (id : ScopeId) (name : String) :
    (scopes.mapValues f).local? id name = (scopes.local? id name).map f := by
  rw [local?, find_mapValues, local?]
  cases scopes.find id with
  | none => rfl
  | some scope => exact scope.bindings.get?_mapValues f name

@[simp] theorem local?_mapValues_isSome (id : ScopeId) (name : String) :
    ((scopes.mapValues f).local? id name).isSome = (scopes.local? id name).isSome := by
  rw [local?_mapValues, Option.isSome_map]

@[simp] theorem nearest?_mapValues (id : ScopeId) (name : String) :
    (scopes.mapValues f).nearest? id name = scopes.nearest? id name := by
  induction id using Nat.strongRecOn with
  | ind id ih =>
    rw [nearest?_eq_ite, nearest?_eq_ite scopes, local?_mapValues_isSome, parent?_mapValues]
    cases hp : scopes.parent? id with
    | none => rfl
    | some parent => rw [Option.bind_some, Option.bind_some, ih parent (parent_lt hp)]

@[simp] theorem ancestor?_mapValues (id : ScopeId) (distance : Nat) :
    (scopes.mapValues f).ancestor? id distance = scopes.ancestor? id distance := by
  induction distance generalizing id with
  | zero => rfl
  | succ distance ih =>
    rw [ancestor?, ancestor?, parent?_mapValues]
    exact congrArg _ (funext fun parent => ih parent)

end Views

/-! ## Changes -/

theorem mapValues_define (id : ScopeId) (name : String) (value : Value) :
    (scopes.define id name value).mapValues f =
      (scopes.mapValues f).define id name (f value) := by
  refine eq_of_find_eq fun other => ?_
  rw [find_mapValues, find_define, find_define, find_mapValues]
  by_cases h : other = id
  · rw [if_pos h, if_pos h, Option.map_map, Option.map_map]
    refine congrArg (Option.map · (scopes.find other)) (funext fun scope => ?_)
    simp only [Function.comp_apply, Scope.mapValues, Bindings.mapValues_set]
  · rw [if_neg h, if_neg h]

theorem mapValues_add (parent : Option ScopeId) :
    (scopes.add parent).mapValues f = (scopes.mapValues f).add parent := by
  refine eq_of_find_eq fun id => ?_
  rw [find_mapValues, find_add, find_add, find_mapValues, nextId_mapValues]
  by_cases h : id = scopes.nextId
  · rw [if_pos h, if_pos h]
    rfl
  · rw [if_neg h, if_neg h]

theorem mapValues_sever (id : ScopeId) :
    (scopes.sever id).mapValues f = (scopes.mapValues f).sever id := by
  refine eq_of_find_eq fun other => ?_
  rw [find_mapValues, find_sever, find_sever, find_mapValues]
  by_cases h : other = id
  · rw [if_pos h, if_pos h, Option.map_map, Option.map_map]
    rfl
  · rw [if_neg h, if_neg h]

theorem mapValues_foldl_sever (ids : List ScopeId) :
    (ids.foldl sever scopes).mapValues f = ids.foldl sever (scopes.mapValues f) := by
  induction ids generalizing scopes with
  | nil => rfl
  | cons id rest ih => rw [List.foldl_cons, List.foldl_cons, ih, mapValues_sever]

/-! ## Collection -/

/-- Marking goes by the links alone. -/
theorem mark_congr {left right : Scopes} (h : ∀ id, left.links id = right.links id)
    (pending : List ScopeId) (marks : Array Bool) :
    left.mark pending marks = right.mark pending marks := by
  fun_induction left.mark pending marks with
  | case1 marks => rw [mark]
  | case2 marks id rest hid hmark ih => rw [mark, dif_pos hid, if_pos hmark, ih]
  | case3 marks id rest hid hmark ih => rw [mark, dif_pos hid, if_neg hmark, ← h, ih]
  | case4 marks id rest hid ih => rw [mark, dif_neg hid, ih]

variable {f} (hf : Value.KeepsClosures f)

include hf

theorem links_mapValues (id : ScopeId) : (scopes.mapValues f).links id = scopes.links id := by
  rw [links, find_mapValues, links]
  cases scopes.find id with
  | none => rfl
  | some scope =>
    have hclosures : (scope.mapValues f).bindings.filterMap (fun binding => binding.2.closure?) =
        scope.bindings.filterMap fun binding => binding.2.closure? := by
      rw [Scope.mapValues, Bindings.mapValues, List.filterMap_map]
      exact congrArg (List.filterMap · scope.bindings) (funext fun binding => hf binding.2)
    exact congrArg (scope.parent.toList ++ ·) hclosures

theorem reachable_mapValues (roots : List ScopeId) :
    (scopes.mapValues f).reachable roots = scopes.reachable roots := by
  unfold reachable
  rw [mark_congr (scopes.links_mapValues hf)]
  exact congrArg (fun size => scopes.mark roots (Array.replicate size false))
    (scopes.nextId_mapValues f)

theorem AgreeOn.mapValues {live : ScopeId → Prop} {left right : Scopes}
    (h : AgreeOn live left right) : AgreeOn live (left.mapValues f) (right.mapValues f) where
  nextId_eq := by rw [nextId_mapValues, nextId_mapValues, h.nextId_eq]
  find_eq id hid := by rw [find_mapValues, find_mapValues, h.find_eq id hid]
  lt_nextId id hid := by
    rw [nextId_mapValues]
    exact h.lt_nextId id hid
  closed id hid linked hl := by
    rw [links_mapValues _ hf] at hl
    exact h.closed id hid linked hl

end Scopes

theorem Captured.collect_mapValues {f : Value → Value} (hf : Value.KeepsClosures f)
    (captured : Captured) (minimum : Nat) (scopes : Scopes) (roots : List ScopeId) :
    captured.collect minimum (scopes.mapValues f) roots =
      { captured.collect minimum scopes roots with
        scopes := (captured.collect minimum scopes roots).scopes.mapValues f } := by
  simp only [collect, scopes.reachable_mapValues hf, Scopes.mapValues_foldl_sever]

end CommandScript
