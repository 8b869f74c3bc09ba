import CommandScript.Proofs.Number.Display
import CommandScript.Proofs.Syntax.Parts
import CommandScript.Proofs.Syntax.Trees
import CommandScript.Proofs.Token.Words

/-!
# What can be read back

A string is listed without quotes, so that it may look like anything. Whatever else stands in a
listing is a word or a numeral, and has no blank and no parenthesis in it. Names of variables
are neither literals nor command words, so an atom of an expression can be told from others.

* `Expr.Legible`, `Stmt.Parts.legible`: no literal is a string, and names are words.
* `Expr.readable_tree`, `Stmt.readable_tree`: the trees of what is legible.
-/

namespace CommandScript

/-- The text is a word, but not one of a literal. -/
structure IsFreeWord (text : String) : Prop where
  word : IsWord text
  free : text ∉ literalWords

/-- Any literal but a string can be told from words. What is listed for infinity is a word. -/
def Literal.Legible : Literal → Prop
  | .null | .bool _ => True
  | .number value => value.isFinite = true
  | .string _ => False

mutual

/-- Names are not command words, and no literal is a string. -/
def Expr.Legible (words : CommandWords) : Expr → Prop
  | .literal value _ => value.Legible
  | .grouping inner _ => inner.Legible words
  | .unary _ operand _ => operand.Legible words
  | .binary _ left right _ | .logical _ left right _ => left.Legible words ∧ right.Legible words
  | .variable _ name _ => IsFreeWord name ∧ words.contains name = false
  | .assign _ name value _ =>
    (IsFreeWord name ∧ words.contains name = false) ∧ value.Legible words
  | .call callee args _ => callee.Legible words ∧ Expr.LegibleAll words args
  | .commandRef name _ => IsFreeWord name ∧ words.contains name = true

def Expr.LegibleAll (words : CommandWords) : List Expr → Prop
  | [] => True
  | expr :: rest => expr.Legible words ∧ Expr.LegibleAll words rest

end

/-- Beside words there are only literals and parentheses. -/
def ArgValue.Legible (words : CommandWords) : ArgValue → Prop
  | .word text => IsFreeWord text
  | .expr (.literal value _) => value.Legible
  | .expr (.grouping inner _) => inner.Legible words
  | .expr _ => False

def Arg.Legible (words : CommandWords) : Arg → Prop
  | .positional value => value.Legible words
  | .flag name => IsWord name
  | .parameter name values => IsWord name ∧ ∀ value ∈ values, value.Legible words

def Command.Legible (words : CommandWords) : Command → Prop
  | .deliver word args _ => IsWord word ∧ ∀ arg ∈ args, arg.Legible words
  | .help topic _ => ∀ word ∈ topic, IsWord word
  | .exit _ => True

/-- Parts that can be read back. -/
def Stmt.Parts.legible (words : CommandWords) : Stmt.Parts where
  expr := Expr.Legible words
  name := IsWord
  params params := ∀ param ∈ params, IsWord param.name
  command := Command.Legible words

variable {words : CommandWords}

/-! ## Atoms -/

theorem not_isDelimiter_of_isWordPart {c : Char} (h : Piece.isWordPart c = true) :
    ¬ IsDelimiter c := by
  intro hc
  simp only [IsDelimiter, List.mem_cons, List.not_mem_nil, or_false] at hc
  obtain rfl | rfl | rfl | rfl := hc <;> cases h

theorem isWordPart_of_isWordStart {c : Char} (h : Piece.isWordStart c = true) :
    Piece.isWordPart c = true := by
  simp only [Piece.isWordStart, Piece.isWordPart, Char.isAlphanum, Bool.or_eq_true] at h ⊢
  exact h.imp_left .inl

theorem IsWord.isAtom {text : String} (h : IsWord text) : IsAtom text := by
  obtain ⟨c, more, hc, hmore, hchars⟩ := isWord_iff.mp h
  rw [IsAtom, hchars]
  refine ⟨List.cons_ne_nil _ _, List.forall_mem_cons.mpr ⟨?_, fun d hd => ?_⟩⟩
  · exact not_isDelimiter_of_isWordPart (isWordPart_of_isWordStart hc)
  · exact not_isDelimiter_of_isWordPart (hmore d hd)

theorem IsAtom.append {first second : String} (hfirst : IsAtom first) (hsecond : IsAtom second) :
    IsAtom (first ++ second) := by
  rw [IsAtom, String.toList_append]
  exact ⟨List.append_ne_nil_of_right_ne_nil _ hsecond.1,
    List.forall_mem_append.mpr ⟨hfirst.2, hsecond.2⟩⟩

theorem isAtom_of_isNumeral {text : String} (h : Number.IsNumeral text.toList) : IsAtom text := by
  have hpart {c : Char} (hc : c.isDigit = true ∨ c = '.') : ¬ IsDelimiter c := by
    obtain hdigit | rfl := hc
    · refine not_isDelimiter_of_isWordPart ?_
      simp [Piece.isWordPart, Char.isAlphanum, hdigit]
    · decide
  obtain ⟨sign, c, more, htext, hsign, hc, hmore⟩ := h
  rw [IsAtom, htext]
  refine ⟨List.append_ne_nil_of_right_ne_nil _ (List.cons_ne_nil _ _),
    List.forall_mem_append.mpr ⟨?_, List.forall_mem_cons.mpr ⟨hpart (.inl hc), fun d hd =>
      hpart (hmore d hd)⟩⟩⟩
  obtain rfl | rfl := hsign
  · exact List.forall_mem_nil _
  · exact List.forall_mem_singleton.mpr (by decide)

theorem Literal.Legible.isAtom {value : Literal} (h : value.Legible) : IsAtom value.text := by
  cases value with
  | null => decide
  | bool value => cases value <;> decide
  | number value => exact isAtom_of_isNumeral (Number.isNumeral_text h)
  | string _ => exact absurd h not_false

/-! ## Trees -/

open SExpr

theorem readable_node {head : String} {parts : List SExpr} (hhead : IsAtom head)
    (hparts : ReadableAll parts) : (node head parts).Readable :=
  ⟨hhead, hparts⟩

theorem UnaryOp.isAtom_text (op : UnaryOp) : IsAtom op.text := by cases op <;> decide

theorem BinaryOp.isAtom_text (op : BinaryOp) : IsAtom op.text := by cases op <;> decide

theorem LogicalOp.isAtom_text (op : LogicalOp) : IsAtom op.text := by cases op <;> decide

mutual

theorem Expr.readable_tree : ∀ {expr : Expr}, expr.Legible words → expr.tree.Readable
  | .literal _ _, h => h.isAtom
  | .grouping _ _, h => readable_node (by decide) ⟨readable_tree h, trivial⟩
  | .unary op _ _, h => readable_node op.isAtom_text ⟨readable_tree h, trivial⟩
  | .binary op _ _ _, ⟨hleft, hright⟩ =>
    readable_node op.isAtom_text ⟨readable_tree hleft, readable_tree hright, trivial⟩
  | .logical op _ _ _, ⟨hleft, hright⟩ =>
    readable_node op.isAtom_text ⟨readable_tree hleft, readable_tree hright, trivial⟩
  | .variable _ _ _, h => h.1.word.isAtom
  | .assign _ _ _ _, ⟨hname, hvalue⟩ =>
    readable_node (by decide) ⟨hname.1.word.isAtom, readable_tree hvalue, trivial⟩
  | .call _ _ _, ⟨hcallee, hargs⟩ =>
    readable_node (by decide) ⟨readable_tree hcallee, readable_trees hargs⟩
  | .commandRef _ _, h => h.1.word.isAtom

theorem Expr.readable_trees :
    ∀ {exprs : List Expr}, Expr.LegibleAll words exprs → ReadableAll (Expr.trees exprs)
  | [], _ => trivial
  | _ :: _, ⟨hexpr, hrest⟩ => ⟨readable_tree hexpr, readable_trees hrest⟩

end

theorem ArgValue.readable_tree {value : ArgValue} (h : value.Legible words) :
    value.tree.Readable := by
  match value with
  | .word _ => exact h.word.isAtom
  | .expr (.literal _ _) => exact h.isAtom
  | .expr (.grouping inner line) =>
    exact Expr.readable_tree (show (Expr.grouping inner line).Legible words from h)

theorem Arg.readable_tree {arg : Arg} (h : arg.Legible words) : arg.tree.Readable := by
  cases arg with
  | positional _ => exact ArgValue.readable_tree h
  | flag _ => exact IsAtom.append (by decide) (IsWord.isAtom h)
  | parameter _ _ =>
    refine readable_node (IsAtom.append (by decide) h.1.isAtom) (readableAll_iff.mpr ?_)
    exact List.forall_mem_map.mpr fun value hvalue => ArgValue.readable_tree (h.2 value hvalue)

theorem Command.readable_tree {action : Command} (h : action.Legible words) :
    action.tree.Readable := by
  cases action with
  | deliver _ _ _ =>
    refine readable_node (by decide) ⟨h.1.isAtom, readableAll_iff.mpr ?_⟩
    exact List.forall_mem_map.mpr fun arg harg => Arg.readable_tree (h.2 arg harg)
  | help topic _ =>
    refine readable_node (by decide) (readableAll_iff.mpr ?_)
    exact List.forall_mem_map.mpr fun word hword => (h word (Option.mem_toList.mp hword)).isAtom
  | exit _ => exact readable_node (by decide) trivial

/-- The tree of an optional expression. -/
theorem readable_option {value : Option Expr} (h : ∀ expr ∈ value, expr.Legible words) :
    ReadableAll (value.map Expr.tree).toList := by
  cases value with
  | none => trivial
  | some expr => exact ⟨Expr.readable_tree (h expr rfl), trivial⟩

theorem readable_parameters {params : List Parameter} (h : ∀ param ∈ params, IsWord param.name) :
    (SExpr.list (params.map (SExpr.atom ·.name))).Readable :=
  readableAll_iff.mpr (List.forall_mem_map.mpr fun param hparam => (h param hparam).isAtom)

mutual

theorem Stmt.readable_tree :
    ∀ {stmt : Stmt}, stmt.MadeOf (.legible words) → stmt.tree.Readable
  | .block _, h => readable_node (by decide) (readable_trees h)
  | .expression _ _, h | .print _ _, h =>
    readable_node (by decide) ⟨Expr.readable_tree h, trivial⟩
  | .branch _ _ none _, ⟨hcondition, hthen⟩ =>
    readable_node (by decide) ⟨Expr.readable_tree hcondition, readable_tree hthen, trivial⟩
  | .branch _ _ (some _) _, ⟨hcondition, hthen, helse⟩ =>
    readable_node (by decide)
      ⟨Expr.readable_tree hcondition, readable_tree hthen, readable_tree helse, trivial⟩
  | .loop _ _ _, ⟨hcondition, hbody⟩ =>
    readable_node (by decide) ⟨Expr.readable_tree hcondition, readable_tree hbody, trivial⟩
  | .return _ _, h => readable_node (by decide) (readable_option h)
  | .declare _ _ _, ⟨hname, hvalue⟩ =>
    readable_node (by decide) ⟨hname.isAtom, readable_option hvalue⟩
  | .function _ _ _ _, ⟨hname, hparams, hbody⟩ =>
    readable_node (by decide) ⟨hname.isAtom, readable_parameters hparams, readable_trees hbody⟩
  | .command _, h => Command.readable_tree h

theorem Stmt.readable_trees :
    ∀ {body : List Stmt}, Stmt.MadeOfAll (.legible words) body → ReadableAll (Stmt.trees body)
  | [], _ => trivial
  | _ :: _, ⟨hstmt, hrest⟩ => ⟨readable_tree hstmt, readable_trees hrest⟩

end

end CommandScript
