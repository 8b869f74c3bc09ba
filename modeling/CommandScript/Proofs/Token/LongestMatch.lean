import CommandScript.Proofs.Token.Joining
import CommandScript.Proofs.Token.Patterns
import Mathlib.Data.List.TakeWhile

/-!
# Pieces by longest match

At each point of a text the piece is the longest beginning of what is left that any pattern
describes, and a single unexpected character where no pattern describes a beginning. No two
patterns describe the same text, so this settles how a text is cut: there is exactly one
way.

* `Piece.Cuts`: a text cut by longest match.
* `Piece.extent_longest`, `Piece.extent_mem`: a piece is described by its pattern, and
  nothing else of its length or more is described by any.
* `Piece.cuts_iff`: the pieces of a text are the only way to cut it so.
* `scan_longest_match`: the tokens and errors of a text are its pieces.
-/

namespace CommandScript

namespace Piece

/-! ## Where a piece starts -/

variable {first : Char} {rest text : List Char} {shape : PieceShape}

/-- A run of a class at the start of a text is at most the whole run. -/
theorem length_le_takeWhile {p : Char → Bool} {run : List Char} (hrun : ∀ c ∈ run, p c = true)
    (hstarts : run <+: rest) : run.length ≤ (rest.takeWhile p).length := by
  obtain ⟨more, rfl⟩ := hstarts
  rw [List.takeWhile_append_of_pos hrun, List.length_append]
  omega

theorem not_isBlank_of_toNat {c : Char} (h : 33 ≤ c.toNat) : isBlank c = false := by
  have hne : ∀ d : Char, d.toNat < 33 → c ≠ d := by
    intro d hd heq
    subst heq
    omega
  simp [isBlank, hne ' ' (by decide), hne '\t' (by decide), hne '\r' (by decide),
    hne '\x0c' (by decide)]

theorem ne_of_toNat {c d : Char} (h : c.toNat ≠ d.toNat) : c ≠ d := by
  intro heq
  exact h (congrArg Char.toNat heq)

theorem toNat_of_isDigit {c : Char} (h : c.isDigit = true) : 48 ≤ c.toNat ∧ c.toNat ≤ 57 := by
  simp only [Char.isDigit, Bool.and_eq_true, decide_eq_true_eq, UInt32.le_iff_toNat_le] at h
  exact h

theorem toNat_of_isWordStart {c : Char} (h : isWordStart c = true) : 65 ≤ c.toNat := by
  have hletter : (c.isUpper || c.isLower || decide (c = '_')) = true := h
  simp only [Bool.or_eq_true, decide_eq_true_eq] at hletter
  obtain (hupper | hlower) | rfl := hletter
  · exact (of_decide_eq_true hupper).1
  · have hlow : (97 : Nat) ≤ c.toNat := of_decide_eq_true (Bool.and_eq_true_iff.mp hlower).1
    exact Nat.le_trans (by decide) hlow
  · decide

/-- The character of an operator starts no other piece than a comment. -/
structure Plain (c : Char) : Prop where
  blank : isBlank c = false
  lineBreak : c ≠ '\n'
  quote : c ≠ '"'
  digit : c.isDigit = false
  word : isWordStart c = false

theorem plain_of_singleMark? {c : Char} {kind : TokenKind} (h : singleMark? c = some kind) :
    Plain c := by
  unfold singleMark? at h
  split at h <;>
    first | exact ⟨by decide, by decide, by decide, by decide, by decide⟩ | cases h

theorem singleMark?_of_withEqual? {c : Char} {kind : TokenKind} (h : withEqual? c = some kind) :
    c ≠ '/' ∧ ∃ single, singleMark? c = some single := by
  unfold withEqual? at h
  split at h <;> first | exact ⟨by decide, _, rfl⟩ | cases h

theorem extent_of_blank (h : isBlank first = true) :
    extent first rest = (.blank, (rest.takeWhile isBlank).length) := if_pos h

theorem extent_lineBreak : extent '\n' rest = (.lineBreak, 0) := rfl

theorem extent_comment :
    extent '/' ('/' :: rest) = (.comment, (('/' :: rest).takeWhile (· ≠ '\n')).length) := rfl

theorem extent_quote :
    extent '"' rest =
      if (rest.takeWhile (· ≠ '"')).length < rest.length then
        (.string, (rest.takeWhile (· ≠ '"')).length + 1)
      else (.unterminated, (rest.takeWhile (· ≠ '"')).length) := rfl

theorem extent_of_digit (h : first.isDigit = true) :
    extent first rest = (.number, (rest.takeWhile Char.isDigit).length +
      fractionLength (rest.dropWhile Char.isDigit)) := by
  obtain ⟨hlow, hhigh⟩ := toNat_of_isDigit h
  have hbreak : first ≠ '\n' := ne_of_toNat (by change _ ≠ 10; omega)
  have hslash : first ≠ '/' := ne_of_toNat (by change _ ≠ 47; omega)
  have hquote : first ≠ '"' := ne_of_toNat (by change _ ≠ 34; omega)
  simp [extent, not_isBlank_of_toNat (c := first) (by omega), hbreak, hslash, hquote, h]

theorem extent_of_wordStart (h : isWordStart first = true) :
    extent first rest = (.word, (rest.takeWhile isWordPart).length) := by
  have hlow := toNat_of_isWordStart h
  have hbreak : first ≠ '\n' := ne_of_toNat (by change _ ≠ 10; omega)
  have hslash : first ≠ '/' := ne_of_toNat (by change _ ≠ 47; omega)
  have hquote : first ≠ '"' := ne_of_toNat (by change _ ≠ 34; omega)
  have hdigit : first.isDigit = false := by
    by_contra hdigit
    have := toNat_of_isDigit (eq_true_of_ne_false hdigit)
    omega
  simp [extent, not_isBlank_of_toNat (c := first) (by omega), hbreak, hslash, hquote, hdigit, h]

theorem extent_of_withEqual? {kind : TokenKind} (h : withEqual? first = some kind) :
    extent first ('=' :: rest) = (.mark kind, 1) := by
  obtain ⟨hslash, single, hsingle⟩ := singleMark?_of_withEqual? h
  obtain ⟨hblank, hbreak, hquote, hdigit, hword⟩ := plain_of_singleMark? hsingle
  simp [extent, hblank, hbreak, hslash, hquote, hdigit, hword, h]

/-- An operator of one character unless it is the start of something longer. -/
theorem extent_of_singleMark? {kind : TokenKind} (h : singleMark? first = some kind)
    (rest : List Char) :
    extent first rest = (.mark kind, 0) ∨ 0 < (extent first rest).2 := by
  obtain ⟨hblank, hbreak, hquote, hdigit, hword⟩ := plain_of_singleMark? h
  by_cases hcomment : first = '/' ∧ rest.head? = some '/'
  · right
    obtain ⟨rfl, hhead⟩ := hcomment
    obtain ⟨more, rfl⟩ := List.head?_eq_some_iff.mp hhead
    rw [extent_comment]
    exact Nat.succ_pos _
  · by_cases hequal : rest.head? = some '=' ∧ (withEqual? first).isSome = true
    · right
      obtain ⟨hhead, hsome⟩ := hequal
      obtain ⟨more, rfl⟩ := List.head?_eq_some_iff.mp hhead
      obtain ⟨double, hdouble⟩ := Option.isSome_iff_exists.mp hsome
      rw [extent_of_withEqual? hdouble]
      exact Nat.one_pos
    · left
      have hslash : (first = '/' && rest.head? = some '/') = false := by simpa using hcomment
      simp only [extent, hblank, hbreak, hslash, hquote, hdigit, hword, h, Bool.false_eq_true,
        if_false]
      split
      · rename_i hdouble hhead
        exact absurd ⟨hhead, by rw [hdouble]; rfl⟩ hequal
      · rename_i heq _
        rw [Option.some.inj heq]
      · rename_i heq _
        cases heq

theorem fractionLength_eq_zero_or (text : List Char) :
    fractionLength text = 0 ∨
      ∃ d more, d.isDigit = true ∧ text = '.' :: d :: more ∧
        fractionLength text = 2 + (more.takeWhile Char.isDigit).length := by
  unfold fractionLength
  split
  · rename_i d more
    by_cases hd : d.isDigit = true
    · exact .inr ⟨d, more, hd, rfl, by rw [if_pos hd]⟩
    · exact .inl (by rw [if_neg hd])
  · exact .inl rfl

/-- A fraction that follows a run of digits belongs to their number. -/
theorem length_le_fraction {more part : List Char} {d : Char}
    (hmore : ∀ c ∈ more, c.isDigit = true) (hd : d.isDigit = true)
    (hpart : ∀ c ∈ part, c.isDigit = true) (hstarts : more ++ '.' :: d :: part <+: rest) :
    more.length + (2 + part.length) ≤
      (rest.takeWhile Char.isDigit).length + fractionLength (rest.dropWhile Char.isDigit) := by
  obtain ⟨after, rfl⟩ := hstarts
  have hdot : Char.isDigit '.' = false := by decide
  have hle := length_le_takeWhile hpart (List.prefix_append part after)
  rw [List.append_assoc, List.takeWhile_append_of_pos hmore, List.dropWhile_append_of_pos hmore]
  simp only [List.cons_append, List.takeWhile_cons, List.dropWhile_cons, hdot, fractionLength, hd,
    Bool.false_eq_true, if_false, if_true, List.append_nil]
  omega

theorem length_takeWhile_lt_of_mem {p : Char → Bool} {stop : Char} (hstop : p stop = false)
    (hmem : stop ∈ rest) : (rest.takeWhile p).length < rest.length := by
  refine Nat.lt_of_le_of_ne (List.takeWhile_sublist p).length_le fun heq => ?_
  rw [← (List.takeWhile_sublist p).eq_of_length heq] at hmem
  exact Bool.false_ne_true (hstop.symm.trans (List.mem_takeWhile_imp hmem))

/-! ## The longest match -/

/-- Nothing longer than a piece is described by a pattern, and nothing else of its length. -/
theorem extent_longest (htext : text ∈ shape.pattern) (hstarts : text <+: first :: rest) :
    text.length < 1 + (extent first rest).2 ∨
      text.length = 1 + (extent first rest).2 ∧ shape = (extent first rest).1 := by
  have within : ∀ {n : Nat}, text.length ≤ 1 + n → (extent first rest) = (shape, n) →
      text.length < 1 + (extent first rest).2 ∨
        text.length = 1 + (extent first rest).2 ∧ shape = (extent first rest).1 := by
    intro n hle heq
    rw [heq]
    exact (Nat.lt_or_eq_of_le hle).imp_right fun h => ⟨h, rfl⟩
  cases shape with
  | blank =>
    obtain ⟨c, more, hc, hmore, rfl⟩ := mem_run.mp htext
    obtain ⟨rfl, hafter⟩ := List.cons_prefix_cons.mp hstarts
    have hle := length_le_takeWhile hmore hafter
    exact within (by rw [List.length_cons]; omega) (extent_of_blank hc)
  | lineBreak =>
    obtain rfl : text = ['\n'] := htext
    obtain ⟨rfl, -⟩ := List.cons_prefix_cons.mp hstarts
    exact within (Nat.le_refl 1) extent_lineBreak
  | comment =>
    obtain ⟨body, hbody, rfl⟩ := mem_comment.mp htext
    obtain ⟨rfl, hafter⟩ := List.cons_prefix_cons.mp hstarts
    have hall : ∀ c ∈ '/' :: body, decide (c ≠ '\n') = true := by
      simpa using hbody
    obtain ⟨more, rfl⟩ := hafter
    have hle := length_le_takeWhile hall (List.prefix_append _ more)
    exact within (by rw [List.length_cons, Nat.add_comm]; exact Nat.add_le_add_left hle 1)
      extent_comment
  | number =>
    obtain ⟨c, more, hc, hmore, rfl | ⟨d, part, hd, hpart, rfl⟩⟩ := mem_number.mp htext
    · obtain ⟨rfl, hafter⟩ := List.cons_prefix_cons.mp hstarts
      have hle := length_le_takeWhile hmore hafter
      exact within (by rw [List.length_cons]; omega) (extent_of_digit hc)
    · obtain ⟨rfl, hafter⟩ := List.cons_prefix_cons.mp hstarts
      have hle := length_le_fraction hmore hd hpart hafter
      exact within (by simp only [List.length_cons, List.length_append]; omega) (extent_of_digit hc)
  | string =>
    obtain ⟨body, hbody, rfl⟩ := mem_closedString.mp htext
    obtain ⟨rfl, hafter⟩ := List.cons_prefix_cons.mp hstarts
    have hle := length_le_takeWhile (fun c hc => decide_eq_true (hbody c hc))
      ((List.prefix_append body _).trans hafter)
    have hquote : decide ('"' ≠ '"') = false := by decide
    have hclosed := length_takeWhile_lt_of_mem (p := (· ≠ '"')) hquote
      (hafter.subset (List.mem_append_right body (List.mem_singleton_self _)))
    refine within ?_ (extent_quote.trans (if_pos hclosed))
    simp only [List.length_cons, List.length_append, List.length_nil]
    omega
  | word =>
    obtain ⟨c, more, hc, hmore, rfl⟩ := mem_run.mp htext
    obtain ⟨rfl, hafter⟩ := List.cons_prefix_cons.mp hstarts
    have hle := length_le_takeWhile hmore hafter
    exact within (by rw [List.length_cons]; omega) (extent_of_wordStart hc)
  | mark kind =>
    obtain ⟨c, hc, rfl⟩ | ⟨c, hc, rfl⟩ := markText?_eq_some.mp htext
    · obtain ⟨rfl, -⟩ := List.cons_prefix_cons.mp hstarts
      obtain heq | hlonger := extent_of_singleMark? hc rest
      · exact within (Nat.le_refl 1) heq
      · exact .inl (by rw [List.length_singleton]; omega)
    · obtain ⟨rfl, hafter⟩ := List.cons_prefix_cons.mp hstarts
      obtain ⟨more, rfl⟩ := hafter
      exact within (Nat.le_refl 2) (extent_of_withEqual? hc)
  | unterminated =>
    obtain ⟨body, hbody, rfl⟩ := mem_openString.mp htext
    obtain ⟨rfl, hafter⟩ := List.cons_prefix_cons.mp hstarts
    have hle := length_le_takeWhile (fun c hc => decide_eq_true (hbody c hc)) hafter
    by_cases hclosed : (rest.takeWhile (· ≠ '"')).length < rest.length
    · left
      rw [extent_quote, if_pos hclosed, List.length_cons]
      omega
    · refine within ?_ (extent_quote.trans (if_neg hclosed))
      rw [List.length_cons]
      omega
  | unexpected => exact absurd htext (Language.notMem_zero _)

theorem take_takeWhile (p : Char → Bool) (text : List Char) :
    text.take (text.takeWhile p).length = text.takeWhile p :=
  (List.prefix_iff_eq_take.mp (List.takeWhile_prefix p)).symm

theorem take_fraction (text : List Char) (hfraction : fractionLength text ≠ 0) :
    ∃ d part, d.isDigit = true ∧ (∀ c ∈ part, c.isDigit = true) ∧
      text.take (fractionLength text) = '.' :: d :: part := by
  obtain hzero | ⟨d, more, hd, rfl, hlength⟩ := fractionLength_eq_zero_or text
  · exact absurd hzero hfraction
  · refine ⟨d, more.takeWhile Char.isDigit, hd, fun c hc => List.mem_takeWhile_imp hc, ?_⟩
    rw [hlength, Nat.add_comm, List.take_succ_cons, List.take_succ_cons, take_takeWhile]

theorem take_number (text : List Char) :
    text.take ((text.takeWhile Char.isDigit).length +
        fractionLength (text.dropWhile Char.isDigit)) =
      text.takeWhile Char.isDigit ++
        (text.dropWhile Char.isDigit).take (fractionLength (text.dropWhile Char.isDigit)) := by
  have hsplit := List.takeWhile_append_dropWhile (p := Char.isDigit) (l := text)
  rw [← List.take_length_add_append, hsplit]

theorem number_mem (hfirst : first.isDigit = true) :
    first :: rest.take ((rest.takeWhile Char.isDigit).length +
        fractionLength (rest.dropWhile Char.isDigit)) ∈ PieceShape.number.pattern := by
  refine mem_number.mpr ⟨first, rest.takeWhile Char.isDigit, hfirst,
    fun c hc => List.mem_takeWhile_imp hc, ?_⟩
  rw [take_number]
  by_cases hfraction : fractionLength (rest.dropWhile Char.isDigit) = 0
  · left
    rw [hfraction, List.take_zero, List.append_nil]
  · right
    obtain ⟨d, part, hd, hpart, heq⟩ := take_fraction _ hfraction
    exact ⟨d, part, hd, hpart, by rw [heq]⟩

/-- The first quote after a text without quotes. -/
theorem take_closed (hclosed : (rest.takeWhile (· ≠ '"')).length < rest.length) :
    rest.take ((rest.takeWhile (· ≠ '"')).length + 1) = rest.takeWhile (· ≠ '"') ++ ['"'] := by
  induction rest with
  | nil => exact absurd hclosed (Nat.not_lt_zero _)
  | cons c rest ih =>
    by_cases hc : c = '"'
    · subst hc
      rfl
    · have hkept : decide (c ≠ '"') = true := decide_eq_true hc
      rw [List.takeWhile_cons, if_pos hkept, List.length_cons, List.length_cons] at hclosed
      rw [List.takeWhile_cons, if_pos hkept, List.length_cons, List.take_succ_cons,
        ih (Nat.lt_of_succ_lt_succ hclosed), List.cons_append]

/-- A piece that starts with nothing else is an operator or unexpected. -/
theorem extent_of_rest (hblank : isBlank first = false) (hbreak : first ≠ '\n')
    (hcomment : ¬(first = '/' ∧ rest.head? = some '/')) (hquote : first ≠ '"')
    (hdigit : first.isDigit = false) (hword : isWordStart first = false) :
    (∃ kind, withEqual? first = some kind ∧ rest.head? = some '=' ∧
        extent first rest = (.mark kind, 1)) ∨
      (∃ kind, singleMark? first = some kind ∧ extent first rest = (.mark kind, 0)) ∨
        extent first rest = (.unexpected, 0) := by
  have hslash : (first = '/' && rest.head? = some '/') = false := by simpa using hcomment
  simp only [extent, hblank, hbreak, hslash, hquote, hdigit, hword, Bool.false_eq_true, if_false]
  split
  · rename_i kind hdouble hhead
    exact .inl ⟨kind, hdouble, hhead, rfl⟩
  · rename_i kind hsingle _
    exact .inr (.inl ⟨kind, hsingle, rfl⟩)
  · exact .inr (.inr rfl)

/-- A piece is described by the pattern of its shape, unless it is unexpected. -/
theorem extent_mem (first : Char) (rest : List Char) :
    first :: rest.take (extent first rest).2 ∈ (extent first rest).1.pattern ∨
      extent first rest = (.unexpected, 0) := by
  have hrun : ∀ (p : Char → Bool), ∀ c ∈ rest.take (rest.takeWhile p).length, p c = true := by
    intro p c hc
    rw [take_takeWhile] at hc
    exact List.mem_takeWhile_imp hc
  by_cases hblank : isBlank first = true
  · rw [extent_of_blank hblank]
    exact .inl (mem_run.mpr ⟨first, _, hblank, hrun isBlank, rfl⟩)
  by_cases hbreak : first = '\n'
  · subst hbreak
    exact .inl rfl
  by_cases hcomment : first = '/' ∧ rest.head? = some '/'
  · obtain ⟨rfl, hhead⟩ := hcomment
    obtain ⟨more, rfl⟩ := List.head?_eq_some_iff.mp hhead
    rw [extent_comment, take_takeWhile]
    refine .inl (mem_comment.mpr ⟨more.takeWhile (· ≠ '\n'), fun c hc => ?_, rfl⟩)
    have hkept := List.mem_takeWhile_imp hc
    exact of_decide_eq_true hkept
  by_cases hquote : first = '"'
  · subst hquote
    have hbody : ∀ c ∈ rest.takeWhile (· ≠ '"'), c ≠ '"' := by
      intro c hc
      have hkept := List.mem_takeWhile_imp hc
      exact of_decide_eq_true hkept
    rw [extent_quote]
    split
    · rename_i hclosed
      rw [take_closed hclosed]
      exact .inl (mem_closedString.mpr ⟨_, hbody, rfl⟩)
    · rw [take_takeWhile]
      exact .inl (mem_openString.mpr ⟨_, hbody, rfl⟩)
  by_cases hdigit : first.isDigit = true
  · rw [extent_of_digit hdigit]
    exact .inl (number_mem hdigit)
  by_cases hword : isWordStart first = true
  · rw [extent_of_wordStart hword]
    exact .inl (mem_run.mpr ⟨first, _, hword, hrun isWordPart, rfl⟩)
  rw [Bool.not_eq_true] at hblank hdigit hword
  obtain ⟨kind, hdouble, hhead, heq⟩ | ⟨kind, hsingle, heq⟩ | heq :=
    extent_of_rest hblank hbreak hcomment hquote hdigit hword
  · obtain ⟨more, rfl⟩ := List.head?_eq_some_iff.mp hhead
    rw [heq]
    exact .inl (markText?_eq_some.mpr (.inr ⟨first, hdouble, rfl⟩))
  · rw [heq]
    exact .inl (markText?_eq_some.mpr (.inl ⟨first, hsingle, rfl⟩))
  · exact .inr heq

/-- A string that is never closed goes up to the end of the text. -/
theorem extent_unterminated (h : (extent first rest).1 = .unterminated) :
    rest.drop (extent first rest).2 = [] := by
  obtain hmem | heq := extent_mem first rest
  · rw [h] at hmem
    obtain ⟨body, -, htext⟩ := mem_openString.mp hmem
    obtain rfl := (List.cons.inj htext).1
    rw [extent_quote] at h ⊢
    by_cases hclosed : (rest.takeWhile (· ≠ '"')).length < rest.length
    · rw [if_pos hclosed] at h
      cases h
    · rw [if_neg hclosed]
      exact List.drop_eq_nil_of_le (Nat.le_of_not_lt hclosed)
  · rw [heq] at h
    cases h

/-- The text is described by the pattern of the shape, and no pattern describes a longer
beginning of what is left. -/
structure Longest (shape : PieceShape) (text left : List Char) : Prop where
  described : text ∈ shape.pattern
  starts : text <+: left
  longest : ∀ {other longer}, longer ∈ PieceShape.pattern other → longer <+: left →
    longer.length ≤ text.length

/-- A text cut from left to right by longest match. A character where no pattern describes
a beginning of what is left stands alone. -/
inductive Cuts : List Char → List Piece → Prop where
  | nil : Cuts [] []
  | matched {shape : PieceShape} {text rest : List Char} {more : List Piece} :
      Longest shape text (text ++ rest) → Cuts rest more →
        Cuts (text ++ rest) (⟨shape, text⟩ :: more)
  | unexpected {c : Char} {rest : List Char} {more : List Piece} :
      (∀ shape : PieceShape, ∀ text ∈ shape.pattern, ¬text <+: c :: rest) → Cuts rest more →
        Cuts (c :: rest) (⟨.unexpected, [c]⟩ :: more)

/-- Every pattern asks for at least one character. -/
theorem exists_cons_of_mem (h : text ∈ shape.pattern) : ∃ c more, text = c :: more := by
  cases shape with
  | blank =>
    obtain ⟨c, more, -, -, heq⟩ := mem_run.mp h
    exact ⟨c, more, heq⟩
  | lineBreak => exact ⟨'\n', [], h⟩
  | comment =>
    obtain ⟨body, -, heq⟩ := mem_comment.mp h
    exact ⟨'/', '/' :: body, heq⟩
  | number =>
    obtain ⟨c, more, -, -, heq | ⟨d, part, -, -, heq⟩⟩ := mem_number.mp h
    · exact ⟨c, more, heq⟩
    · exact ⟨c, _, heq⟩
  | string =>
    obtain ⟨body, -, heq⟩ := mem_closedString.mp h
    exact ⟨'"', _, heq⟩
  | word =>
    obtain ⟨c, more, -, -, heq⟩ := mem_run.mp h
    exact ⟨c, more, heq⟩
  | mark kind =>
    obtain ⟨c, -, heq⟩ | ⟨c, -, heq⟩ := markText?_eq_some.mp h
    · exact ⟨c, [], heq⟩
    · exact ⟨c, ['='], heq⟩
  | unterminated =>
    obtain ⟨body, -, heq⟩ := mem_openString.mp h
    exact ⟨'"', body, heq⟩
  | unexpected => exact absurd h (Language.notMem_zero _)

theorem longest_extent
    (hmem : first :: rest.take (extent first rest).2 ∈ (extent first rest).1.pattern) :
    Longest (extent first rest).1 (first :: rest.take (extent first rest).2) (first :: rest) := by
  have hle := extent_le first rest
  refine ⟨hmem, List.cons_prefix_cons.mpr ⟨rfl, List.take_prefix _ _⟩, fun hother hstarts => ?_⟩
  rw [List.length_cons, List.length_take_of_le hle]
  obtain hlt | ⟨heq, -⟩ := extent_longest hother hstarts <;> omega

/-- Where a character is unexpected, no pattern describes what starts there. -/
theorem not_starts_of_unexpected (h : extent first rest = (.unexpected, 0))
    (hmem : text ∈ shape.pattern) : ¬text <+: first :: rest := by
  intro hstarts
  obtain ⟨c, more, rfl⟩ := exists_cons_of_mem hmem
  have hlongest := extent_longest hmem hstarts
  rw [h, List.length_cons] at hlongest
  obtain hlt | ⟨-, rfl⟩ := hlongest
  · omega
  · exact Language.notMem_zero _ hmem

theorem cuts_pieces (text : List Char) : Cuts text (pieces text) := by
  fun_induction pieces text with
  | case1 => exact .nil
  | case2 first rest found ih =>
    obtain hmem | heq := extent_mem first rest
    · have hlongest := longest_extent hmem
      have hsplit : first :: rest = (first :: rest.take found.2) ++ rest.drop found.2 := by
        rw [List.cons_append, List.take_append_drop]
      rw [hsplit] at hlongest ⊢
      exact .matched hlongest ih
    · have hfound : found = (.unexpected, 0) := heq
      rw [hfound] at ih ⊢
      exact .unexpected (fun _ _ hmem => not_starts_of_unexpected heq hmem) ih

/-- The longest match is the piece. -/
theorem Longest.extent_eq {c : Char} {more : List Char}
    (h : Longest shape (c :: more) (c :: more ++ rest)) :
    extent c (more ++ rest) = (shape, more.length) := by
  have hspec : (c :: more).length < 1 + (extent c (more ++ rest)).2 ∨
      (c :: more).length = 1 + (extent c (more ++ rest)).2 ∧
        shape = (extent c (more ++ rest)).1 := extent_longest h.described h.starts
  obtain hmem | heq := extent_mem c (more ++ rest)
  · have hlongest := longest_extent hmem
    have hle := h.longest hlongest.described hlongest.starts
    rw [List.length_cons, List.length_take_of_le (extent_le _ _), List.length_cons] at hle
    rw [List.length_cons] at hspec
    obtain hlt | ⟨hlength, hshape⟩ := hspec
    · omega
    · exact Prod.ext hshape.symm (by dsimp only; omega)
  · exact absurd h.starts (not_starts_of_unexpected heq h.described)

/-- A text is cut by longest match in one way: into its pieces. -/
theorem cuts_iff {text : List Char} {cut : List Piece} : Cuts text cut ↔ cut = pieces text := by
  constructor
  · intro h
    induction h with
    | nil => exact pieces_nil.symm
    | @matched shape text rest more hlongest _ ih =>
      obtain ⟨c, text, rfl⟩ := exists_cons_of_mem hlongest.described
      rw [List.cons_append, pieces_cons, hlongest.extent_eq, List.take_left, List.drop_left, ih]
    | @unexpected c rest more hnone _ ih =>
      have heq := (extent_mem c rest).resolve_left fun hmem =>
        hnone _ _ hmem (List.cons_prefix_cons.mpr ⟨rfl, List.take_prefix _ _⟩)
      rw [pieces_cons, heq, ih]
      rfl
  · intro h
    subst h
    exact cuts_pieces text

/-- A piece is described by its pattern, or it is one character that no pattern describes. -/
theorem Cuts.described {cut : List Piece} (h : Cuts text cut) :
    ∀ piece ∈ cut, piece.text ∈ piece.shape.pattern ∨
      ∃ c, piece = ⟨.unexpected, [c]⟩ ∧ ∀ shape : PieceShape, [c] ∉ shape.pattern := by
  induction h with
  | nil => simp
  | matched hlongest _ ih => exact List.forall_mem_cons.mpr ⟨.inl hlongest.described, ih⟩
  | @unexpected c rest more hnone _ ih =>
    refine List.forall_mem_cons.mpr ⟨.inr ⟨c, rfl, fun shape hshape => ?_⟩, ih⟩
    exact hnone shape _ hshape (List.cons_prefix_cons.mpr ⟨rfl, List.nil_prefix⟩)

/-- Only the last piece may be a string that is never closed. -/
theorem unterminated_last (text : List Char) :
    ∀ piece ∈ (pieces text).dropLast, piece.shape ≠ .unterminated := by
  fun_induction pieces text with
  | case1 => exact fun piece hpiece => absurd hpiece List.not_mem_nil
  | case2 first rest found ih =>
    intro piece hpiece
    by_cases hlast : pieces (rest.drop found.2) = []
    · rw [hlast] at hpiece
      exact absurd hpiece List.not_mem_nil
    · rw [List.dropLast_cons_of_ne_nil hlast] at hpiece
      obtain rfl | hpiece := List.mem_cons.mp hpiece
      · intro hunterminated
        rw [extent_unterminated hunterminated, pieces_nil] at hlast
        exact hlast rfl
      · exact ih piece hpiece

/-! ## Tokens and errors of pieces -/

/-- The kind and the text of the token that a piece is. -/
def lexeme? (words : CommandWords) (piece : Piece) : Option (TokenKind × String) :=
  match piece.shape with
  | .number => some (.number, String.ofList piece.text)
  | .string => some (.string, String.ofList piece.text)
  | .word => some ((wordToken words (String.ofList piece.text) 0).kind, String.ofList piece.text)
  | .mark kind => some (kind, String.ofList piece.text)
  | .blank | .lineBreak | .comment | .unterminated | .unexpected => none

/-- The fault that a piece is. -/
def fault? (piece : Piece) : Option LexFault :=
  match piece.shape, piece.text with
  | .unterminated, _ => some .unterminatedString
  | .unexpected, character :: _ => some (.unexpectedCharacter character)
  | _, _ => none

theorem map_token? (words : CommandWords) (piece : Piece) (line : Nat) :
    (piece.token? words line).map (fun token => (token.kind, token.lexeme)) =
      piece.lexeme? words := by
  have hword : ∀ word : String, (wordToken words word line).kind = (wordToken words word 0).kind ∧
      (wordToken words word line).lexeme = word := by
    intro word
    unfold wordToken
    split_ifs <;> exact ⟨rfl, rfl⟩
  unfold token? lexeme?
  cases piece.shape with
  | word => exact congrArg some (Prod.ext (hword _).1 (hword _).2)
  | _ => rfl

theorem map_error? (piece : Piece) (line : Nat) :
    (piece.error? line).map Located.cause = piece.fault? := by
  obtain ⟨shape, text⟩ := piece
  cases shape with
  | unexpected => cases text <;> rfl
  | _ => rfl

end Piece

namespace Scanned

variable {β : Type} {f : Token → β}

/-- What does not depend on the lines of tokens is the same wherever the pieces start. -/
theorem map_tokens (hf : ∀ token g, f (Token.mapLines g token) = f token) (words : CommandWords)
    (line : Nat) (pieces : List Piece) :
    (ofPieces words line pieces).tokens.map f =
      pieces.filterMap (fun piece => (piece.token? words 0).map f) ++ [f (.endOfInput 0)] := by
  induction pieces generalizing line with
  | nil => exact congrArg ([·]) (hf (.endOfInput line) fun _ => 0).symm
  | cons piece rest ih =>
    have htoken := piece.token?_mapLines words (fun _ => 0) (piece.lastLine line)
    rw [ofPieces, List.map_append, ih, List.filterMap_cons, htoken]
    cases piece.token? words (piece.lastLine line) with
    | none => rfl
    | some token => simp [hf]

theorem map_errors (words : CommandWords) (line : Nat) (pieces : List Piece) :
    (ofPieces words line pieces).errors.map Located.cause = pieces.filterMap Piece.fault? := by
  induction pieces generalizing line with
  | nil => rfl
  | cons piece rest ih =>
    rw [ofPieces, List.map_append, ih, List.filterMap_cons,
      ← piece.map_error? (piece.lastLine line)]
    cases piece.error? (piece.lastLine line) <;> rfl

/-- The kinds and texts of the tokens of pieces, and the causes of their errors. -/
theorem ofPieces_pieces (words : CommandWords) (line : Nat) (pieces : List Piece) :
    (ofPieces words line pieces).tokens.map (fun token => (token.kind, token.lexeme)) =
        pieces.filterMap (Piece.lexeme? words) ++ [(.endOfInput, "")] ∧
      (ofPieces words line pieces).errors.map Located.cause =
        pieces.filterMap Piece.fault? := by
  refine ⟨?_, map_errors words line pieces⟩
  rw [map_tokens (fun _ _ => rfl)]
  exact congrArg (· ++ _) (List.filterMap_congr fun piece _ => piece.map_token? words 0)

end Scanned

/-- **Scanning by longest match.** A source text has exactly one cut into pieces of which
each is the longest beginning of what is left that a pattern describes, or one unexpected
character. Nothing of the text is lost, only the last piece may be a string that is never
closed, and the tokens and errors are those of the pieces in order. -/
theorem scan_longest_match (words : CommandWords) (source : String) :
    ∃ pieces, (∀ cut, Piece.Cuts source.toList cut ↔ cut = pieces) ∧
      pieces.flatMap Piece.text = source.toList ∧
      (∀ piece ∈ pieces.dropLast, piece.shape ≠ .unterminated) ∧
      (scan words source).tokens.map (fun token => (token.kind, token.lexeme)) =
        pieces.filterMap (Piece.lexeme? words) ++ [(.endOfInput, "")] ∧
      (scan words source).errors.map Located.cause = pieces.filterMap Piece.fault? := by
  obtain ⟨htokens, herrors⟩ := Scanned.ofPieces_pieces words 1 (Piece.pieces source.toList)
  exact ⟨Piece.pieces source.toList, fun _ => Piece.cuts_iff, Piece.flatten_pieces _,
    Piece.unterminated_last _, htokens, herrors⟩

end CommandScript
