import CommandScript.Proofs.Resolution.Context

/-!
# Branches and loops taken apart

Resolution comes through a branch or a loop as if the condition and the parts stood one
after the other, since neither opens a scope. So a program may be flattened: what is known
of structured programs then holds of every program.

* `Stmt.flatAll`: the flattened program. It is structured (`Stmt.structured_flatAll`).
* `resolve_flatAll`, `Stmt.referencesAll_flatAll`: it has the same distances, faults and
  references.
-/

namespace CommandScript

mutual

/-- The parts of branches and loops, one after the other. -/
def Stmt.flat : Stmt → List Stmt
  | .block body => [.block (Stmt.flatAll body)]
  | .expression expr line => [.expression expr line]
  | .branch condition thenBranch none line => .expression condition line :: thenBranch.flat
  | .branch condition thenBranch (some elseBranch) line =>
    .expression condition line :: (thenBranch.flat ++ elseBranch.flat)
  | .loop condition body line => .expression condition line :: body.flat
  | .print expr line => [.print expr line]
  | .return value line => [.return value line]
  | .declare name initializer line => [.declare name initializer line]
  | .function name params body line => [.function name params (Stmt.flatAll body) line]
  | .command action => [.command action]

def Stmt.flatAll : List Stmt → List Stmt
  | [] => []
  | stmt :: rest => stmt.flat ++ Stmt.flatAll rest

end

theorem Stmt.resolveAll_append (first second : List Stmt) (state : Resolving) :
    Stmt.resolveAll (first ++ second) state =
      Stmt.resolveAll second (Stmt.resolveAll first state) := by
  induction first generalizing state with
  | nil => rfl
  | cons stmt rest ih => exact ih (stmt.resolve state)

mutual

theorem Stmt.resolveAll_flat (stmt : Stmt) (state : Resolving) :
    Stmt.resolveAll stmt.flat state = stmt.resolve state := by
  match stmt with
  | .block body =>
    simp only [Stmt.flat, Stmt.resolveAll, Stmt.resolve, Stmt.resolveAll_flatAll body]
  | .branch condition thenBranch none _ =>
    simp only [Stmt.flat, Stmt.resolveAll, Stmt.resolve, thenBranch.resolveAll_flat]
  | .branch condition thenBranch (some elseBranch) _ =>
    simp only [Stmt.flat, Stmt.resolveAll, Stmt.resolve, Stmt.resolveAll_append,
      thenBranch.resolveAll_flat, elseBranch.resolveAll_flat]
  | .loop condition body _ =>
    simp only [Stmt.flat, Stmt.resolveAll, Stmt.resolve, body.resolveAll_flat]
  | .function name params body _ =>
    simp only [Stmt.flat, Stmt.resolveAll, Stmt.resolve, Stmt.resolveAll_flatAll body]
  | .expression _ _ | .print _ _ | .return _ _ | .declare _ _ _ | .command _ => rfl

theorem Stmt.resolveAll_flatAll (body : List Stmt) (state : Resolving) :
    Stmt.resolveAll (Stmt.flatAll body) state = Stmt.resolveAll body state := by
  match body with
  | [] => rfl
  | stmt :: rest =>
    simp only [Stmt.flatAll, Stmt.resolveAll, Stmt.resolveAll_append, stmt.resolveAll_flat,
      Stmt.resolveAll_flatAll rest]

end

theorem resolve_flatAll (program : List Stmt) :
    resolve (Stmt.flatAll program) = resolve program := by
  simp only [resolve, Stmt.resolveAll_flatAll]

mutual

theorem Stmt.structured_flat (stmt : Stmt) : Stmt.StructuredAll stmt.flat := by
  match stmt with
  | .block body => exact ⟨Stmt.structured_flatAll body, trivial⟩
  | .branch condition thenBranch none _ => exact ⟨trivial, thenBranch.structured_flat⟩
  | .branch condition thenBranch (some elseBranch) _ =>
    exact ⟨trivial, Stmt.structuredAll_append.mpr
      ⟨thenBranch.structured_flat, elseBranch.structured_flat⟩⟩
  | .loop condition body _ => exact ⟨trivial, body.structured_flat⟩
  | .function name params body _ => exact ⟨Stmt.structured_flatAll body, trivial⟩
  | .expression _ _ | .print _ _ | .return _ _ | .declare _ _ _ | .command _ =>
    exact ⟨trivial, trivial⟩

theorem Stmt.structured_flatAll (body : List Stmt) : Stmt.StructuredAll (Stmt.flatAll body) := by
  match body with
  | [] => trivial
  | stmt :: rest =>
    exact Stmt.structuredAll_append.mpr ⟨stmt.structured_flat, Stmt.structured_flatAll rest⟩

end

mutual

theorem Stmt.referencesAll_flat (stmt : Stmt) : Stmt.referencesAll stmt.flat = stmt.references := by
  match stmt with
  | .block body =>
    simp only [Stmt.flat, Stmt.referencesAll, Stmt.references, Stmt.referencesAll_flatAll body,
      List.append_nil]
  | .branch condition thenBranch none _ =>
    simp only [Stmt.flat, Stmt.referencesAll, Stmt.references, thenBranch.referencesAll_flat]
  | .branch condition thenBranch (some elseBranch) _ =>
    simp only [Stmt.flat, Stmt.referencesAll, Stmt.references, Stmt.referencesAll_append,
      thenBranch.referencesAll_flat, elseBranch.referencesAll_flat, List.append_assoc]
  | .loop condition body _ =>
    simp only [Stmt.flat, Stmt.referencesAll, Stmt.references, body.referencesAll_flat]
  | .function name params body _ =>
    simp only [Stmt.flat, Stmt.referencesAll, Stmt.references, Stmt.referencesAll_flatAll body,
      List.append_nil]
  | .expression _ _ | .print _ _ | .return _ _ | .declare _ _ _ | .command _ =>
    exact List.append_nil _

theorem Stmt.referencesAll_flatAll (body : List Stmt) :
    Stmt.referencesAll (Stmt.flatAll body) = Stmt.referencesAll body := by
  match body with
  | [] => rfl
  | stmt :: rest =>
    simp only [Stmt.flatAll, Stmt.referencesAll, Stmt.referencesAll_append,
      stmt.referencesAll_flat, Stmt.referencesAll_flatAll rest]

end

end CommandScript
