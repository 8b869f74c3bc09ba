import CommandScript.Proofs.Scope.Mapping
import CommandScript.Proofs.Syntax.Lines

/-!
# Values and stores without lines

A function value keeps the body of its declaration and with it the lines that the body
stands on. Programs cannot see them: a value without its lines has the same text, the same
identity and the same scope, and a store of values without their lines has the same scopes,
which bind the same names.

* `Value.unlined`, `Scopes.unlined`, `CommandMap.unlined`: without lines.
* `Scopes.AgreeOn.unlined`: stores that agree do so without their lines.
-/

namespace CommandScript

namespace Value

def unlined : Value → Value
  | .function decl closure identity => .function decl.unlined closure identity
  | value => value

theorem keepsClosures_unlined : KeepsClosures unlined := by
  intro value
  cases value <;> rfl

end Value

def CommandMap.unlined (map : CommandMap) : CommandMap :=
  ⟨map.entries.map fun entry => (entry.1, entry.2.map Value.unlined)⟩

def Bindings.unlined (bindings : Bindings) : Bindings :=
  bindings.map fun binding => (binding.1, binding.2.unlined)

def Scope.unlined (scope : Scope) : Scope := { scope with bindings := scope.bindings.unlined }

namespace Scopes

def unlined (scopes : Scopes) : Scopes where
  cells := scopes.cells.map Scope.unlined
  older id scope h parent hp := by
    rw [Array.getElem?_map] at h
    obtain ⟨old, hold, rfl⟩ := Option.map_eq_some_iff.mp h
    exact scopes.older id old hold parent hp

theorem unlined_eq_mapValues (scopes : Scopes) : scopes.unlined = scopes.mapValues Value.unlined :=
  rfl

theorem AgreeOn.unlined {live : ScopeId → Prop} {left right : Scopes}
    (h : AgreeOn live left right) : AgreeOn live left.unlined right.unlined :=
  h.mapValues Value.keepsClosures_unlined

end Scopes

end CommandScript
