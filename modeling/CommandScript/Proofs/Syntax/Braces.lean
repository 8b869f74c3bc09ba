import CommandScript.Token
import Mathlib.Data.List.Infix

/-!
# Matching braces

Braces match in a list of tokens if every `}` closes a `{` before it and no `{` is left open.
So what stands before a `}` that closes an earlier `{` can be told from what stands behind it:
the braces match in front of the first `}` that closes more than has been opened.

* `Braced`: braces match.
* `Braced.of_append`: braces match behind a part in which they do.
* `Braced.exists_closing`: the brace that closes the first one.
* `Enclosed`: what is left of tokens in which braces match, up to a closing brace or the end.
-/

namespace CommandScript

namespace Token

def opens (token : Token) : Bool := token.kind = .leftBrace

def closes (token : Token) : Bool := token.kind = .rightBrace

theorem not_opens_of_closes {token : Token} (h : token.closes = true) : ¬ token.opens = true := by
  intro hopens
  cases (of_decide_eq_true hopens).symm.trans (of_decide_eq_true h)

theorem not_closes_of_opens {token : Token} (h : token.opens = true) : ¬ token.closes = true :=
  fun hcloses => not_opens_of_closes hcloses h

end Token

/-- Every prefix has at least as many opening as closing braces, and all of the tokens have
as many. -/
def Braced (tokens : List Token) : Prop :=
  (∀ part ∈ tokens.inits, part.countP Token.closes ≤ part.countP Token.opens) ∧
    tokens.countP Token.opens = tokens.countP Token.closes

instance (tokens : List Token) : Decidable (Braced tokens) :=
  inferInstanceAs (Decidable (_ ∧ _))

theorem Braced.prefix_le {tokens part : List Token} (h : Braced tokens) (hpart : part <+: tokens) :
    part.countP Token.closes ≤ part.countP Token.opens :=
  h.1 part (List.mem_inits _ _ |>.mpr hpart)

theorem braced_of_prefix {tokens : List Token}
    (hpart : ∀ part, part <+: tokens → part.countP Token.closes ≤ part.countP Token.opens)
    (hall : tokens.countP Token.opens = tokens.countP Token.closes) : Braced tokens :=
  ⟨fun part hmem => hpart part (List.mem_inits _ _ |>.mp hmem), hall⟩

theorem braced_nil : Braced [] := by
  decide

/-- Behind tokens in which braces match, they match if they match in all of them. -/
theorem Braced.of_append {first second : List Token} (hall : Braced (first ++ second))
    (hfirst : Braced first) : Braced second := by
  have htotal := hall.2
  rw [List.countP_append, List.countP_append] at htotal
  have hbefore := hfirst.2
  refine braced_of_prefix (fun part hpart => ?_) (by omega)
  have hle := hall.prefix_le ((List.prefix_append_right_inj first).mpr hpart)
  rw [List.countP_append, List.countP_append] at hle
  omega

theorem braced_singleton {token : Token} (hopens : token.opens = false)
    (hcloses : token.closes = false) : Braced [token] := by
  refine braced_of_prefix (fun part hpart => ?_) (by simp [hopens, hcloses])
  rcases List.prefix_cons_iff.mp hpart with rfl | ⟨rest, rfl, hrest⟩
  · exact Nat.le_refl _
  · rw [List.prefix_nil.mp hrest]
    simp [hcloses]

/-- Tokens that are no braces do not matter. -/
theorem Braced.tail {token : Token} {tokens : List Token} (h : Braced (token :: tokens))
    (hopens : token.opens = false) (hcloses : token.closes = false) : Braced tokens :=
  @Braced.of_append [token] tokens h (braced_singleton hopens hcloses)

/-- If more is closed than is opened, some brace closes the first one too many. -/
theorem exists_closing {tokens : List Token} {depth : Nat}
    (h : tokens.countP Token.opens + depth < tokens.countP Token.closes) :
    ∃ inside close behind, tokens = inside ++ close :: behind ∧ close.closes = true ∧
      inside.countP Token.closes = inside.countP Token.opens + depth ∧
      ∀ part, part <+: inside → part.countP Token.closes ≤ part.countP Token.opens + depth := by
  induction tokens generalizing depth with
  | nil => simp at h
  | cons token tokens ih =>
    rw [List.countP_cons, List.countP_cons] at h
    -- the rest is searched with the depth that the token leads to
    have hstep : ∀ further, further + (if token.closes = true then 1 else 0) =
        depth + (if token.opens = true then 1 else 0) →
        ∃ inside close behind, token :: tokens = inside ++ close :: behind ∧
          close.closes = true ∧ inside.countP Token.closes = inside.countP Token.opens + depth ∧
          ∀ part, part <+: inside →
            part.countP Token.closes ≤ part.countP Token.opens + depth := by
      intro further hfurther
      obtain ⟨inside, close, behind, rfl, hclose, hinside, hparts⟩ := @ih further (by omega)
      refine ⟨token :: inside, close, behind, rfl, hclose, ?_, fun part hpart => ?_⟩
      · rw [List.countP_cons, List.countP_cons]
        omega
      · rcases List.prefix_cons_iff.mp hpart with rfl | ⟨rest, rfl, hrest⟩
        · exact Nat.zero_le _
        · have hle := hparts rest hrest
          rw [List.countP_cons, List.countP_cons]
          omega
    by_cases hcloses : token.closes = true
    · have hopens := Token.not_opens_of_closes hcloses
      cases depth with
      | zero =>
        refine ⟨[], token, tokens, rfl, hcloses, rfl, fun part hpart => ?_⟩
        rw [List.prefix_nil.mp hpart]
        exact Nat.le_refl _
      | succ depth => exact hstep depth (by rw [if_pos hcloses, if_neg hopens])
    · rw [if_neg hcloses] at hstep
      exact hstep _ (Nat.add_zero _)

/-- The brace that closes the first one, with matching braces inside and behind. -/
theorem Braced.exists_closing {token : Token} {tokens : List Token} (h : Braced (token :: tokens))
    (hopens : token.opens = true) :
    ∃ inside close behind, tokens = inside ++ close :: behind ∧ close.closes = true ∧
      Braced inside ∧ Braced behind := by
  have hcloses := Token.not_closes_of_opens hopens
  have hall := h.2
  rw [List.countP_cons_of_pos hopens, List.countP_cons_of_neg hcloses] at hall
  obtain ⟨inside, close, behind, rfl, hclose, hinside, hparts⟩ :=
    @CommandScript.exists_closing tokens 0 (by omega)
  have hnot := Token.not_opens_of_closes hclose
  refine ⟨inside, close, behind, rfl, hclose, braced_of_prefix hparts hinside.symm,
    braced_of_prefix (fun part hpart => ?_) ?_⟩
  · have hle := h.prefix_le ((List.prefix_cons_inj token).mpr
      ((List.prefix_append_right_inj inside).mpr ((List.prefix_cons_inj close).mpr hpart)))
    rw [List.countP_cons_of_pos hopens, List.countP_cons_of_neg hcloses, List.countP_append,
      List.countP_append, List.countP_cons_of_pos hclose, List.countP_cons_of_neg hnot] at hle
    omega
  · rw [List.countP_append, List.countP_append, List.countP_cons_of_pos hclose,
      List.countP_cons_of_neg hnot] at hall
    omega

/-- A brace that opens nothing cannot come first. -/
theorem Braced.not_closes {token : Token} {tokens : List Token} (h : Braced (token :: tokens)) :
    ¬ token.closes = true := by
  intro hcloses
  have hle := h.prefix_le (List.prefix_append [token] tokens)
  rw [List.countP_singleton, if_pos hcloses, List.countP_singleton,
    if_neg (Token.not_opens_of_closes hcloses)] at hle
  omega

/-! ## What is left of a block -/

/-- The tokens are what is left of a block, or of the whole program, before the tail: the tail
begins with the brace that ends the block, or it is empty, and braces match in front of it. -/
structure Enclosed (tail tokens : List Token) : Prop where
  begins : ∀ token ∈ tail.head?, token.closes = true
  body : ∃ body, tokens = body ++ tail ∧ Braced body

namespace Enclosed

variable {tail tokens taken : List Token} {token : Token}

/-- A token that is no brace stands in front of the tail. -/
theorem of_cons (h : Enclosed tail (token :: tokens)) (hopens : token.opens = false)
    (hcloses : token.closes = false) : Enclosed tail tokens := by
  obtain ⟨body, hbody, hbraced⟩ := h.body
  refine ⟨h.begins, ?_⟩
  cases body with
  | nil =>
    have hfirst := h.begins token (by rw [← List.nil_append tail, ← hbody]; rfl)
    rw [hcloses] at hfirst
    cases hfirst
  | cons first body =>
    obtain ⟨rfl, rfl⟩ := List.cons.inj hbody
    exact ⟨body, rfl, hbraced.tail hopens hcloses⟩

/-- An opening brace comes with the one that closes it. -/
theorem exists_closing (h : Enclosed tail (token :: tokens)) (hopens : token.opens = true) :
    ∃ inside close behind, tokens = inside ++ close :: behind ∧ close.closes = true ∧
      Braced inside ∧ Enclosed tail behind := by
  obtain ⟨body, hbody, hbraced⟩ := h.body
  cases body with
  | nil =>
    have hfirst := h.begins token (by rw [← List.nil_append tail, ← hbody]; rfl)
    exact absurd hfirst (Token.not_closes_of_opens hopens)
  | cons first body =>
    obtain ⟨rfl, rfl⟩ := List.cons.inj hbody
    obtain ⟨inside, close, behind, rfl, hclose, hinside, hbehind⟩ :=
      hbraced.exists_closing hopens
    exact ⟨inside, close, behind ++ tail, List.append_assoc inside _ tail, hclose, hinside,
      h.begins, behind, rfl, hbehind⟩

/-- A closing brace that comes first begins the tail. -/
theorem eq_tail (h : Enclosed tail (token :: tokens)) (hcloses : token.closes = true) :
    tail = token :: tokens := by
  obtain ⟨body, hbody, hbraced⟩ := h.body
  cases body with
  | nil => exact hbody.symm
  | cons first body =>
    obtain ⟨rfl, rfl⟩ := List.cons.inj hbody
    exact absurd hcloses hbraced.not_closes

/-- Tokens in which braces match are taken from in front of the tail. -/
theorem of_append (h : Enclosed tail (taken ++ tokens)) (htaken : Braced taken) :
    Enclosed tail tokens := by
  obtain ⟨body, hbody, hbraced⟩ := h.body
  refine ⟨h.begins, ?_⟩
  rcases List.append_eq_append_iff.mp hbody with ⟨rest, rfl, rfl⟩ | ⟨part, rfl, htail⟩
  · exact ⟨rest, rfl, hbraced.of_append htaken⟩
  · cases part with
    | nil => exact ⟨[], htail.symm, braced_nil⟩
    | cons first part =>
      -- the brace that begins the tail would be taken with the others
      have hfirst := h.begins first (by rw [htail]; rfl)
      exact absurd hfirst (htaken.of_append hbraced).not_closes

end Enclosed

end CommandScript
