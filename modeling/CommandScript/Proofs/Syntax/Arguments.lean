import CommandScript.Proofs.Syntax.Spelling
import Mathlib.Data.List.Chain

/-!
# The tokens of the arguments of a command

What a command is given is spelled by the tokens of its flags, parameters and values, one
after the other, and commas may be strewn between them, but not into a marker. A value
behind a parameter is one of its own, so no list has a positional value directly after a
parameter.

* `Strewn`: items spelled one after the other, with commas anywhere around them.
* `ArgValue.Spelled`, `Arg.Spelled`: values and arguments with their tokens.
* `Arg.Canonical`: no positional value comes directly after a parameter.
* `WrittenArgs`: what a command may be given, and its tokens.
-/

namespace CommandScript

/-- Items spelled one after the other. Commas may stand before, between and behind them. -/
inductive Strewn {α : Type} (spelled : α → List Token → Prop) : List α → List Token → Prop where
  | none : Strewn spelled [] []
  | comma {items : List α} {comma : Token} {tokens : List Token} :
      comma.kind = .comma → Strewn spelled items tokens → Strewn spelled items (comma :: tokens)
  | item {item : α} {rest : List α} {tokens others : List Token} :
      spelled item tokens → Strewn spelled rest others →
      Strewn spelled (item :: rest) (tokens ++ others)

/-- A word is a name or a command word. Other values are literals, or stand in parentheses. -/
inductive ArgValue.Spelled : ArgValue → List Token → Prop where
  | word {token : Token} : token.kind = .identifier ∨ token.kind = .command →
      Spelled (.word token.lexeme) [token]
  | literal {token : Token} {value : Literal} : token.Denotes value →
      Spelled (.expr (.literal value token.line)) [token]
  | grouping {inner : Expr} {line : Nat} {tokens : List Token} :
      (Expr.grouping inner line).Spelled tokens → Spelled (.expr (.grouping inner line)) tokens

/-- A flag is marked by one `-`, a parameter by two. -/
inductive Arg.Spelled : Arg → List Token → Prop where
  | positional {value : ArgValue} {tokens : List Token} : value.Spelled tokens →
      Spelled (.positional value) tokens
  | flag {marker name : Token} : marker.kind = .minus → name.kind = .identifier →
      Spelled (.flag name.lexeme) [marker, name]
  | parameter {first second name : Token} {values : List ArgValue} {tokens : List Token} :
      first.kind = .minus → second.kind = .minus → name.kind = .identifier →
      Strewn ArgValue.Spelled values tokens →
      Spelled (.parameter name.lexeme values) (first :: second :: name :: tokens)

/-- The ids of the references in a value, in the order of their tokens. -/
def ArgValue.ids : ArgValue → List NodeId
  | .word _ => []
  | .expr value => value.ids

def Arg.ids : Arg → List NodeId
  | .positional value => value.ids
  | .flag _ => []
  | .parameter _ values => values.flatMap ArgValue.ids

/-- The value is proper, and nested less than some levels deep. -/
def ArgValue.Within (levels : Nat) : ArgValue → Prop
  | .word _ => True
  | .expr value => value.Proper ∧ value.depth < levels

def Arg.Within (levels : Nat) : Arg → Prop
  | .positional value => value.Within levels
  | .flag _ => True
  | .parameter _ values => ∀ value ∈ values, value.Within levels

namespace Arg

def IsPositional : Arg → Prop
  | .positional _ => True
  | _ => False

def IsParameter : Arg → Prop
  | .parameter _ _ => True
  | _ => False

/-- No positional value comes directly after a parameter. -/
def Canonical (args : List Arg) : Prop :=
  args.IsChain fun first second => first.IsParameter → ¬second.IsPositional

end Arg

/-- What a command may be given, and its tokens. -/
structure WrittenArgs (levels : Nat) (args : List Arg) (tokens : List Token) : Prop where
  strewn : Strewn Arg.Spelled args tokens
  canonical : Arg.Canonical args
  within : ∀ arg ∈ args, arg.Within levels

/-- A command other than `help` and `exit`, and its tokens up to its end. -/
inductive Command.Written (levels : Nat) : Command → List Token → Prop where
  | deliver {word : Token} {given : List Arg} {tokens : List Token} :
      word.kind = .command → Text.lowered word.lexeme ∉ ["help", "exit"] →
      WrittenArgs levels given tokens →
      Written levels (.deliver (Text.lowered word.lexeme) given word.line) (word :: tokens)

theorem Command.Written.args {levels : Nat} {name : String} {given : List Arg} {line : Nat}
    {written : List Token} (h : Command.Written levels (.deliver name given line) written) :
    ∃ tokens, WrittenArgs levels given tokens := by
  cases h with
  | deliver _ _ hargs => exact ⟨_, hargs⟩

/-- A command ends with a `;`, which may be left out if nothing comes behind it. -/
def EndsCommand (ending rest : List Token) : Prop :=
  (∃ semicolon : Token, semicolon.kind = .semicolon ∧ ending = [semicolon]) ∨
    ending = [] ∧ rest = []

/-- The ids of the references in what is given to a command. -/
def Command.ids : Command → List NodeId
  | .deliver _ given _ => given.flatMap Arg.ids
  | _ => []

theorem ArgValue.Within.mono {value : ArgValue} {levels more : Nat} (h : value.Within levels)
    (hmore : levels ≤ more) : value.Within more := by
  cases value with
  | word _ => trivial
  | expr _ => exact ⟨h.1, Nat.lt_of_lt_of_le h.2 hmore⟩

theorem Arg.Within.mono {arg : Arg} {levels more : Nat} (h : arg.Within levels)
    (hmore : levels ≤ more) : arg.Within more := by
  cases arg with
  | positional _ => exact ArgValue.Within.mono h hmore
  | flag _ => trivial
  | parameter _ _ => exact fun value hvalue => (h value hvalue).mono hmore

theorem WrittenArgs.mono {args : List Arg} {tokens : List Token} {levels more : Nat}
    (h : WrittenArgs levels args tokens) (hmore : levels ≤ more) : WrittenArgs more args tokens :=
  ⟨h.strewn, h.canonical, fun arg harg => (h.within arg harg).mono hmore⟩

/-! ## Commas around items -/

namespace Strewn

variable {α : Type} {spelled : α → List Token → Prop} {items : List α} {tokens commas : List Token}

/-- More commas behind the last item. -/
theorem append_commas (h : Strewn spelled items tokens)
    (hcommas : ∀ token ∈ commas, token.kind = .comma) :
    Strewn spelled items (tokens ++ commas) := by
  induction h with
  | none =>
    induction commas with
    | nil => exact .none
    | cons comma commas ih =>
      obtain ⟨hcomma, hcommas⟩ := List.forall_mem_cons.mp hcommas
      exact .comma hcomma (ih hcommas)
  | comma hcomma _ ih => exact .comma hcomma ih
  | item hspelled _ ih =>
    rw [List.append_assoc]
    exact .item hspelled ih

/-- The commas before the first item. -/
theorem split_commas (h : Strewn spelled items tokens) :
    ∃ commas rest, tokens = commas ++ rest ∧ (∀ token ∈ commas, token.kind = .comma) ∧
      ((items = [] ∧ rest = []) ∨ ∃ first more before behind, items = first :: more ∧
        rest = before ++ behind ∧ spelled first before ∧ Strewn spelled more behind) := by
  induction h with
  | none => exact ⟨[], [], rfl, by simp, .inl ⟨rfl, rfl⟩⟩
  | @comma _ comma _ hcomma _ ih =>
    obtain ⟨commas, rest, rfl, hcommas, hrest⟩ := ih
    exact ⟨comma :: commas, rest, rfl, List.forall_mem_cons.mpr ⟨hcomma, hcommas⟩, hrest⟩
  | @item first more before behind hspelled hmore _ =>
    exact ⟨[], before ++ behind, rfl, by simp,
      .inr ⟨first, more, before, behind, rfl, rfl, hspelled, hmore⟩⟩

end Strewn

/-! ## First tokens -/

/-- The kinds of tokens with which the value of an argument begins. -/
def TokenKind.BeginsValue (kind : TokenKind) : Prop :=
  kind ∈ [.number, .string, .trueWord, .falseWord, .nullWord, .identifier, .command, .leftParen]

instance (kind : TokenKind) : Decidable kind.BeginsValue := inferInstanceAs (Decidable (_ ∈ _))

theorem Token.Denotes.beginsValue {token : Token} {value : Literal} (h : token.Denotes value) :
    token.kind.BeginsValue := by
  unfold Token.Denotes at h
  split at h
  all_goals first | exact h.elim | (rename_i hkind; rw [hkind]; decide)

theorem ArgValue.Spelled.begins {value : ArgValue} {tokens : List Token}
    (h : value.Spelled tokens) :
    ∃ first rest, tokens = first :: rest ∧ first.kind.BeginsValue := by
  cases h with
  | word hkind =>
    refine ⟨_, _, rfl, ?_⟩
    obtain hkind | hkind := hkind <;> rw [hkind] <;> decide
  | literal hvalue => exact ⟨_, _, rfl, hvalue.beginsValue⟩
  | grouping hspelled =>
    cases hspelled with
    | grouping hopening _ _ => exact ⟨_, _, rfl, hopening ▸ by decide⟩

/-- A positional value begins as a value does, a flag or parameter with a `-`. -/
theorem Arg.Spelled.begins {arg : Arg} {tokens : List Token} (h : arg.Spelled tokens) :
    ∃ first rest, tokens = first :: rest ∧
      (arg.IsPositional ∧ first.kind.BeginsValue ∨ ¬arg.IsPositional ∧ first.kind = .minus) := by
  cases h with
  | positional hvalue =>
    obtain ⟨first, rest, heq, hfirst⟩ := hvalue.begins
    exact ⟨first, rest, heq, .inl ⟨trivial, hfirst⟩⟩
  | flag hmarker _ => exact ⟨_, _, rfl, .inr ⟨id, hmarker⟩⟩
  | parameter hfirst _ _ _ => exact ⟨_, _, rfl, .inr ⟨id, hfirst⟩⟩

/-! ## The reach of an argument -/

theorem Arg.Spelled.append_commas {arg : Arg} {tokens commas : List Token}
    (h : arg.Spelled tokens) (harg : arg.IsParameter)
    (hcommas : ∀ token ∈ commas, token.kind = .comma) : arg.Spelled (tokens ++ commas) := by
  cases h with
  | positional _ => exact harg.elim
  | flag _ _ => exact harg.elim
  | parameter hfirst hsecond hname hvalues =>
    exact .parameter hfirst hsecond hname (hvalues.append_commas hcommas)

/-- The commas behind a parameter can be counted among its values. Then it reaches up to the
next argument, which begins with a `-`, or to the end. -/
theorem Arg.Spelled.reach {arg : Arg} {rest : List Arg} {tokens behind : List Token}
    (h : arg.Spelled tokens) (hrest : Strewn Arg.Spelled rest behind)
    (hcanonical : Arg.Canonical (arg :: rest)) :
    ∃ near far, tokens ++ behind = near ++ far ∧ arg.Spelled near ∧
      Strewn Arg.Spelled rest far ∧
      (arg.IsParameter →
        (rest = [] ∧ far = []) ∨ ∃ first more, far = first :: more ∧ first.kind = .minus) := by
  by_cases harg : arg.IsParameter
  · obtain ⟨commas, far, rfl, hcommas, hfar⟩ := hrest.split_commas
    refine ⟨tokens ++ commas, far, (List.append_assoc ..).symm, h.append_commas harg hcommas, ?_⟩
    obtain ⟨rfl, rfl⟩ | ⟨next, later, before, after, rfl, rfl, hnext, hlater⟩ := hfar
    · exact ⟨.none, fun _ => .inl ⟨rfl, rfl⟩⟩
    · refine ⟨.item hnext hlater, fun _ => .inr ?_⟩
      obtain ⟨first, more, rfl, ⟨hpositional, -⟩ | ⟨-, hminus⟩⟩ := hnext.begins
      · exact absurd hpositional ((List.isChain_cons_cons.mp hcanonical).1 harg)
      · exact ⟨first, _, rfl, hminus⟩
  · exact ⟨tokens, behind, rfl, h, hrest, fun hparameter => absurd hparameter harg⟩

end CommandScript
