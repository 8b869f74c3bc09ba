import CommandScript.Token.Scan
import Mathlib.Computability.Language

/-!
# Patterns of pieces

Every shape of piece has a pattern: the language of the texts that it may have. Patterns
overlap in their beginnings, as those of `/` and of a comment do, or those of a string that
is closed and of one that is not.

* `PieceShape.pattern`: the language of a shape.
* `mem_run`, `mem_number`, `mem_closedString`, `mem_openString`, `mem_comment`,
  `markText?_eq_some`: its texts, spelled out.
-/

namespace CommandScript

open scoped Computability

/-! ## Languages -/

/-- The texts of one character of a class. -/
def oneOf (p : Char → Bool) : Language Char := {text | ∃ c, p c = true ∧ text = [c]}

/-- How an operator or bracket is written. -/
def TokenKind.markText? : TokenKind → Option (List Char)
  | .leftParen => some ['(']
  | .rightParen => some [')']
  | .leftBrace => some ['{']
  | .rightBrace => some ['}']
  | .leftBracket => some ['[']
  | .rightBracket => some [']']
  | .comma => some [',']
  | .dot => some ['.']
  | .minus => some ['-']
  | .plus => some ['+']
  | .semicolon => some [';']
  | .star => some ['*']
  | .slash => some ['/']
  | .colon => some [':']
  | .question => some ['?']
  | .pipe => some ['|']
  | .atSign => some ['@']
  | .hash => some ['#']
  | .dollar => some ['$']
  | .percent => some ['%']
  | .caret => some ['^']
  | .ampersand => some ['&']
  | .tilde => some ['~']
  | .backtick => some ['\x60']
  | .quote => some ['\x27']
  | .backslash => some ['\\']
  | .bang => some ['!']
  | .bangEqual => some ['!', '=']
  | .equal => some ['=']
  | .equalEqual => some ['=', '=']
  | .less => some ['<']
  | .lessEqual => some ['<', '=']
  | .greater => some ['>']
  | .greaterEqual => some ['>', '=']
  | _ => none

/-- At least one digit. -/
def digits : Language Char := oneOf Char.isDigit * (oneOf Char.isDigit)∗

/-- A quote and what stands before the next one. -/
def openString : Language Char := {['"']} * (oneOf (· ≠ '"'))∗

/-- The texts that a piece of the shape may have. No pattern describes what is unexpected. -/
def PieceShape.pattern : PieceShape → Language Char
  | .blank => oneOf Piece.isBlank * (oneOf Piece.isBlank)∗
  | .lineBreak => {['\n']}
  | .comment => {['/', '/']} * (oneOf (· ≠ '\n'))∗
  | .number => digits * (1 + {['.']} * digits)
  | .string => openString * {['"']}
  | .word => oneOf Piece.isWordStart * (oneOf Piece.isWordPart)∗
  | .mark kind => {text | kind.markText? = some text}
  | .unterminated => openString
  | .unexpected => 0

theorem mem_oneOf_star {p : Char → Bool} {text : List Char} :
    text ∈ (oneOf p)∗ ↔ ∀ c ∈ text, p c = true := by
  rw [Language.mem_kstar]
  constructor
  · rintro ⟨parts, rfl, hparts⟩ c hc
    obtain ⟨part, hpart, hc⟩ := List.mem_flatten.mp hc
    obtain ⟨d, hd, rfl⟩ := hparts part hpart
    rw [List.mem_singleton.mp hc]
    exact hd
  · intro h
    refine ⟨text.map fun c => [c], (List.flatMap_singleton' text).symm, ?_⟩
    intro part hpart
    obtain ⟨c, hc, rfl⟩ := List.mem_map.mp hpart
    exact ⟨c, h c hc, rfl⟩

theorem mem_singleton_mul {start text : List Char} {language : Language Char} :
    text ∈ ({start} : Language Char) * language ↔ ∃ rest ∈ language, text = start ++ rest := by
  rw [Language.mem_mul]
  constructor
  · rintro ⟨first, rfl, rest, hrest, rfl⟩
    exact ⟨rest, hrest, rfl⟩
  · rintro ⟨rest, hrest, rfl⟩
    exact ⟨start, rfl, rest, hrest, rfl⟩

theorem mem_oneOf_mul {p : Char → Bool} {text : List Char} {language : Language Char} :
    text ∈ oneOf p * language ↔ ∃ c rest, p c = true ∧ rest ∈ language ∧ text = c :: rest := by
  rw [Language.mem_mul]
  constructor
  · rintro ⟨first, ⟨c, hc, rfl⟩, rest, hrest, rfl⟩
    exact ⟨c, rest, hc, hrest, rfl⟩
  · rintro ⟨c, rest, hc, hrest, rfl⟩
    exact ⟨[c], ⟨c, hc, rfl⟩, rest, hrest, rfl⟩

/-- One character of a class and then any number of another. -/
theorem mem_run {p q : Char → Bool} {text : List Char} :
    text ∈ oneOf p * (oneOf q)∗ ↔
      ∃ c more, p c = true ∧ (∀ d ∈ more, q d = true) ∧ text = c :: more := by
  simp only [mem_oneOf_mul, mem_oneOf_star]

theorem mem_openString {text : List Char} :
    text ∈ openString ↔ ∃ body, (∀ c ∈ body, c ≠ '"') ∧ text = '"' :: body := by
  unfold openString
  rw [mem_singleton_mul]
  simp only [mem_oneOf_star, decide_eq_true_eq]
  rfl

theorem mem_closedString {text : List Char} :
    text ∈ PieceShape.string.pattern ↔
      ∃ body, (∀ c ∈ body, c ≠ '"') ∧ text = '"' :: (body ++ ['"']) := by
  change text ∈ openString * {['"']} ↔ _
  rw [Language.mem_mul]
  constructor
  · rintro ⟨first, hfirst, last, rfl, rfl⟩
    obtain ⟨body, hbody, rfl⟩ := mem_openString.mp hfirst
    exact ⟨body, hbody, rfl⟩
  · rintro ⟨body, hbody, rfl⟩
    exact ⟨'"' :: body, mem_openString.mpr ⟨body, hbody, rfl⟩, ['"'], rfl, rfl⟩

theorem mem_comment {text : List Char} :
    text ∈ PieceShape.comment.pattern ↔
      ∃ body, (∀ c ∈ body, c ≠ '\n') ∧ text = '/' :: '/' :: body := by
  change text ∈ {['/', '/']} * (oneOf (· ≠ '\n'))∗ ↔ _
  rw [mem_singleton_mul]
  simp only [mem_oneOf_star, decide_eq_true_eq]
  rfl

theorem mem_number {text : List Char} :
    text ∈ PieceShape.number.pattern ↔
      ∃ c more, c.isDigit = true ∧ (∀ d ∈ more, d.isDigit = true) ∧
        (text = c :: more ∨
          ∃ d part, d.isDigit = true ∧ (∀ e ∈ part, e.isDigit = true) ∧
            text = c :: (more ++ '.' :: d :: part)) := by
  change text ∈ digits * (1 + {['.']} * digits) ↔ _
  unfold digits
  rw [Language.mem_mul]
  constructor
  · rintro ⟨whole, hwhole, fraction, hfraction, rfl⟩
    obtain ⟨c, more, hc, hmore, rfl⟩ := mem_run.mp hwhole
    refine ⟨c, more, hc, hmore, ?_⟩
    obtain hnone | hsome := Language.mem_add _ _ _ |>.mp hfraction
    · rw [Language.mem_one] at hnone
      exact .inl (by rw [hnone, List.append_nil])
    · obtain ⟨after, hafter, rfl⟩ := mem_singleton_mul.mp hsome
      obtain ⟨d, part, hd, hpart, rfl⟩ := mem_run.mp hafter
      exact .inr ⟨d, part, hd, hpart, rfl⟩
  · rintro ⟨c, more, hc, hmore, rfl | ⟨d, part, hd, hpart, rfl⟩⟩
    · refine ⟨c :: more, mem_run.mpr ⟨c, more, hc, hmore, rfl⟩, [], ?_, by simp⟩
      exact (Language.mem_add _ _ _).mpr (.inl Language.nil_mem_one)
    · refine ⟨c :: more, mem_run.mpr ⟨c, more, hc, hmore, rfl⟩, '.' :: d :: part, ?_, rfl⟩
      refine (Language.mem_add _ _ _).mpr (.inr (mem_singleton_mul.mpr ⟨d :: part, ?_, rfl⟩))
      exact mem_run.mpr ⟨d, part, hd, hpart, rfl⟩

/-- An operator is one character, or one and `=`. -/
theorem markText?_eq_some {kind : TokenKind} {text : List Char} :
    kind.markText? = some text ↔
      (∃ c, Piece.singleMark? c = some kind ∧ text = [c]) ∨
        ∃ c, Piece.withEqual? c = some kind ∧ text = [c, '='] := by
  constructor
  · intro h
    cases kind <;> simp only [TokenKind.markText?, Option.some.injEq, reduceCtorEq] at h <;>
      subst h
    case bangEqual | equalEqual | lessEqual | greaterEqual => exact .inr ⟨_, rfl, rfl⟩
    all_goals exact .inl ⟨_, rfl, rfl⟩
  · rintro (⟨c, hc, rfl⟩ | ⟨c, hc, rfl⟩)
    · unfold Piece.singleMark? at hc
      split at hc <;> cases hc <;> rfl
    · unfold Piece.withEqual? at hc
      split at hc <;> cases hc <;> rfl

end CommandScript
