import CommandScript.Scope.Store

/-!
# Collection of scopes

A function bound in the scope that it closes over makes a cycle. Scopes in which a
function was declared are therefore tracked, and from time to time those that cannot be
reached any more are severed: they lose their bindings and their parent, so that no cycle
passes through them.

A scope reaches its parent and the closures of the functions that it binds. Marking
starts from the roots and takes each scope at most once.

* `Scopes.links`: the scopes that a scope reaches in one step.
* `Scopes.mark`, `Scopes.reachable`: the scopes that the roots reach in any number of steps.
* `Captured.collect`: severs the tracked scopes that the roots do not reach.
-/

namespace CommandScript

namespace Value

/-- The scope that a function value keeps. -/
def closure? : Value → Option ScopeId
  | .function _ closure _ => some closure
  | _ => none

end Value

namespace Scopes

def links (scopes : Scopes) (id : ScopeId) : List ScopeId :=
  match scopes.find id with
  | some scope => scope.parent.toList ++ scope.bindings.filterMap fun binding => binding.2.closure?
  | none => []

/-- Marks everything that the pending scopes reach through scopes without a mark. -/
def mark (scopes : Scopes) : (pending : List ScopeId) → (marks : Array Bool) → Array Bool
  | [], marks => marks
  | id :: rest, marks =>
    if h : id < marks.size then
      if marks[id] then mark scopes rest marks
      else mark scopes (scopes.links id ++ rest) (marks.set id true)
    else mark scopes rest marks
termination_by pending marks => (marks.count false, pending.length)
decreasing_by
  · exact Prod.Lex.right _ (by simp)
  · apply Prod.Lex.left
    rename_i hmark
    have hf : marks[id] = false := by simpa using hmark
    have : 0 < marks.count false :=
      Array.count_pos_iff.mpr (hf ▸ Array.getElem_mem h)
    rw [Array.count_set, hf]
    exact Nat.lt_of_le_of_lt (Nat.le_of_eq (by simp)) (Nat.sub_lt this Nat.one_pos)
  · exact Prod.Lex.right _ (by simp)

/-- For every scope of the store, whether the roots reach it. -/
def reachable (scopes : Scopes) (roots : List ScopeId) : Array Bool :=
  scopes.mark roots (Array.replicate scopes.cells.size false)

end Scopes

/-- The tracked scopes in the order of tracking, and how many of them make a collection
due. -/
structure Captured where
  handles : Array ScopeId
  limit : Nat
  deriving DecidableEq

namespace Captured

def ofLimit (minimum : Nat) : Captured := ⟨#[], minimum⟩

/-- Tracks a scope, unless it was tracked last. -/
def track (captured : Captured) (id : ScopeId) : Captured :=
  if captured.handles.back? = some id then captured
  else { captured with handles := captured.handles.push id }

def isDue (captured : Captured) : Bool := captured.limit ≤ captured.handles.size

/-- The marked ones of a list of scopes, each once, in the order of the list. -/
def keepOnce : List ScopeId → (marks : Array Bool) → List ScopeId
  | [], _ => []
  | id :: rest, marks =>
    if marks.getD id false then id :: keepOnce rest (marks.setIfInBounds id false)
    else keepOnce rest marks

structure Collected where
  scopes : Scopes
  captured : Captured
  /-- The number of tracked handles whose scope was severed. -/
  severed : Nat

/-- Severs every tracked scope that the roots do not reach and forgets it. The others stay
tracked once each, and the next collection is due when their number has doubled. -/
def collect (captured : Captured) (minimum : Nat) (scopes : Scopes) (roots : List ScopeId) :
    Collected :=
  let marks := scopes.reachable roots
  let garbage := captured.handles.toList.filter fun id => !marks.getD id false
  let kept := keepOnce captured.handles.toList marks
  { scopes := garbage.foldl Scopes.sever scopes
    captured := ⟨kept.toArray, max (2 * kept.length) minimum⟩
    severed := garbage.length }

end Captured

end CommandScript
