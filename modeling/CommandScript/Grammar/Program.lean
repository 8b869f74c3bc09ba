import CommandScript.Grammar.Statement

/-!
# Reading a program

A program is read to its end whatever its faults. Node ids are drawn from a counter that
the caller keeps, so that ids stay distinct over several programs; ids drawn by a program
with faults are not given back.

* `parse`: the statements of a list of tokens, or all faults in the order they were met.
-/

namespace CommandScript

open Grammar Rule

/-- Declarations up to the end of the input. -/
def Grammar.program (mode : InputMode) : Rule (List Stmt) := do
  let rules := nested mode maxNesting
  let body ← repeated (fun (body : Array Stmt) => do
    if ← atEnd then return .last body
    match ← declaration rules with
    | some stmt => return .again (body.push stmt)
    | none => return .again body) #[]
  return body.toList

structure Parsed where
  program : Except (List (Located ParseFault)) (List Stmt)
  nextId : NodeId
  /-- The number of node ids that were drawn. -/
  drawn : Nat

def parse (mode : InputMode) (tokens : List Token) (nextId : NodeId) : Parsed :=
  match (Grammar.program mode).run (Cursor.ofTokens tokens nextId) with
  | (.ok program, after) =>
    if after.faults.isEmpty then ⟨.ok program, after.nextId, after.drawn⟩
    else ⟨.error after.faults.toList, after.nextId, after.drawn⟩
  | (.error fault, after) =>
    ⟨.error (after.faults.push fault).toList, after.nextId, after.drawn⟩

end CommandScript
