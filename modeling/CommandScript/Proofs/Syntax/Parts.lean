import CommandScript.Syntax

/-!
# The parts of statements

Statements are made of expressions, names, parameters and commands. What holds of all parts of
a program is said by what is asked of each kind of part; which statements stand in which is of
no account.

* `Stmt.Parts`: what is asked of the parts.
* `Stmt.MadeOf`: all parts of a statement are as asked for.
-/

namespace CommandScript

namespace Stmt

/-- What is asked of the parts of a statement. The names are those of declared variables and
functions. -/
structure Parts where
  expr : Expr → Prop
  name : String → Prop
  params : List Parameter → Prop
  command : Command → Prop

/-- A part that is as asked for by `parts` is so by `others`. -/
structure Parts.Implies (parts others : Parts) : Prop where
  expr : ∀ expr, parts.expr expr → others.expr expr
  name : ∀ name, parts.name name → others.name name
  params : ∀ params, parts.params params → others.params params
  command : ∀ action, parts.command action → others.command action

end Stmt

mutual

/-- All parts of the statement are as asked for. -/
def Stmt.MadeOf (parts : Stmt.Parts) : Stmt → Prop
  | .block body => Stmt.MadeOfAll parts body
  | .expression expr _ => parts.expr expr
  | .branch condition thenBranch none _ => parts.expr condition ∧ thenBranch.MadeOf parts
  | .branch condition thenBranch (some elseBranch) _ =>
    parts.expr condition ∧ thenBranch.MadeOf parts ∧ elseBranch.MadeOf parts
  | .loop condition body _ => parts.expr condition ∧ body.MadeOf parts
  | .print expr _ => parts.expr expr
  | .return value _ => ∀ expr ∈ value, parts.expr expr
  | .declare name initializer _ => parts.name name ∧ ∀ expr ∈ initializer, parts.expr expr
  | .function name params body _ =>
    parts.name name ∧ parts.params params ∧ Stmt.MadeOfAll parts body
  | .command action => parts.command action

def Stmt.MadeOfAll (parts : Stmt.Parts) : List Stmt → Prop
  | [] => True
  | stmt :: rest => stmt.MadeOf parts ∧ Stmt.MadeOfAll parts rest

end

variable {parts others : Stmt.Parts}

theorem Stmt.madeOfAll_iff {body : List Stmt} :
    Stmt.MadeOfAll parts body ↔ ∀ stmt ∈ body, stmt.MadeOf parts := by
  induction body with
  | nil => simp [Stmt.MadeOfAll]
  | cons stmt rest ih => rw [Stmt.MadeOfAll, ih, List.forall_mem_cons]

mutual

theorem Stmt.MadeOf.mono (h : parts.Implies others) :
    ∀ {stmt : Stmt}, stmt.MadeOf parts → stmt.MadeOf others
  | .block _, hbody => MadeOfAll.mono h hbody
  | .expression expr _, hexpr => h.expr expr hexpr
  | .branch condition _ none _, ⟨hcondition, hthen⟩ =>
    ⟨h.expr condition hcondition, MadeOf.mono h hthen⟩
  | .branch condition _ (some _) _, ⟨hcondition, hthen, helse⟩ =>
    ⟨h.expr condition hcondition, MadeOf.mono h hthen, MadeOf.mono h helse⟩
  | .loop condition _ _, ⟨hcondition, hbody⟩ =>
    ⟨h.expr condition hcondition, MadeOf.mono h hbody⟩
  | .print expr _, hexpr => h.expr expr hexpr
  | .return _ _, hvalue => fun expr hexpr => h.expr expr (hvalue expr hexpr)
  | .declare name _ _, ⟨hname, hvalue⟩ =>
    ⟨h.name name hname, fun expr hexpr => h.expr expr (hvalue expr hexpr)⟩
  | .function name params _ _, ⟨hname, hparams, hbody⟩ =>
    ⟨h.name name hname, h.params params hparams, MadeOfAll.mono h hbody⟩
  | .command action, haction => h.command action haction

theorem Stmt.MadeOfAll.mono (h : parts.Implies others) :
    ∀ {body : List Stmt}, Stmt.MadeOfAll parts body → Stmt.MadeOfAll others body
  | [], _ => trivial
  | _ :: _, ⟨hstmt, hrest⟩ => ⟨MadeOf.mono h hstmt, MadeOfAll.mono h hrest⟩

end

end CommandScript
