import CommandScript.Proofs.Token.Lines
import CommandScript.Proofs.Token.Respacing

/-!
# Words

Names, key words, command words and the words of literals are written alike: a letter or `_`,
and then letters, digits and `_`. What a word is depends on its spelling and on the command
words alone, and not on the text that it stands in.

* `exists_piece`: every token of a text but the last is that of a piece.
* `token_of_word`: a word is the same token in every text.
* `scan_word`: the scan of a text that is a word.
* `kind_wordToken`: what a word is that is no literal.
* `IsWord.lowered`: a word in lower case is a word.
-/

namespace CommandScript

variable {words : CommandWords} {source word : String} {token : Token} {line : Nat}

/-- The words of literals. -/
def literalWords : List String := ["true", "false", "null"]

/-- The text is written as a word. -/
def IsWord (text : String) : Prop := text.toList ∈ PieceShape.word.pattern

theorem isWord_iff {text : String} :
    IsWord text ↔ ∃ c more, Piece.isWordStart c = true ∧
      (∀ d ∈ more, Piece.isWordPart d = true) ∧ text.toList = c :: more :=
  mem_run

instance (text : String) : Decidable (IsWord text) :=
  decidable_of_iff (text.toList.head?.any Piece.isWordStart = true ∧
    text.toList.tail.all Piece.isWordPart = true) <| by
    rw [isWord_iff]
    cases text.toList with
    | nil => simp
    | cons c more => simp

theorem lexeme_wordToken : (wordToken words word line).lexeme = word := by
  unfold wordToken
  split_ifs <;> rfl

/-- A word that is no literal is a command word if it is known as one. -/
theorem kind_wordToken (h : word ∉ literalWords) :
    (wordToken words word line).kind =
      if words.contains word then .command else (TokenKind.keyword? word).getD .identifier := by
  simp only [literalWords, List.mem_cons, List.not_mem_nil, or_false, not_or] at h
  obtain ⟨htrue, hfalse, hnull⟩ := h
  rw [wordToken, if_neg htrue, if_neg hfalse, if_neg hnull]
  split <;> rfl

theorem scan_word (h : IsWord word) :
    scan words word = ⟨[wordToken words word 1, .endOfInput 1], []⟩ := by
  obtain ⟨c, more, hc, hmore, hword⟩ := isWord_iff.mp h
  have hline : (⟨.word, word.toList⟩ : Piece).lastLine 1 = 1 := by
    have hnone : '\n' ∉ word.toList :=
      Piece.lineBreak_notMem_run (by decide) (by decide) h
    rw [Piece.lastLine, List.count_eq_zero.mpr hnone]
  rw [scan, Piece.pieces_of_mem h, Scanned.ofPieces, hline]
  simp [Scanned.ofPieces, Piece.token?, Piece.error?]

/-! ## Words in lower case -/

/-- A character in lower case is a letter, or is as it was. -/
theorem toLower_cases (c : Char) : c.toLower.isAlpha = true ∨ c.toLower = c := by
  by_cases hupper : 'A'.val ≤ c.val ∧ c.val ≤ 'Z'.val
  · have hlow : 65 ≤ c.val.toNat := UInt32.le_iff_toNat_le.mp hupper.1
    have hhigh : c.val.toNat ≤ 90 := UInt32.le_iff_toNat_le.mp hupper.2
    have hval : c.toLower.val = c.val + 32 := congrArg Char.val (dif_pos hupper)
    have hsum : (c.val + 32).toNat = c.val.toNat + 32 := by
      rw [UInt32.toNat_add]
      exact Nat.mod_eq_of_lt (by change _ + 32 < _; omega)
    refine .inl (Bool.or_eq_true_iff.mpr (.inr (Bool.and_eq_true_iff.mpr ?_)))
    rw [hval]
    constructor
    · exact decide_eq_true (UInt32.le_iff_toNat_le.mpr (by change 97 ≤ _; omega))
    · exact decide_eq_true (UInt32.le_iff_toNat_le.mpr (by change _ ≤ 122; omega))
  · exact .inr (dif_neg hupper)

theorem IsWord.lowered (h : IsWord word) : IsWord (Text.lowered word) := by
  obtain ⟨c, more, hc, hmore, hchars⟩ := isWord_iff.mp h
  refine isWord_iff.mpr ⟨c.toLower, more.map Char.toLower, ?_, ?_, ?_⟩
  · obtain halpha | hsame := toLower_cases c
    · simp [Piece.isWordStart, halpha]
    · rwa [hsame]
  · refine List.forall_mem_map.mpr fun d hd => ?_
    obtain halpha | hsame := toLower_cases d
    · simp [Piece.isWordPart, Char.isAlphanum, halpha]
    · rw [hsame]
      exact hmore d hd
  · rw [Text.lowered, String.toList_ofList, hchars, List.map_cons]

/-! ## Words in texts -/

theorem Scanned.exists_piece_of_mem {pieces : List Piece}
    (h : token ∈ tokensOf words line pieces) :
    ∃ piece ∈ pieces, ∃ last, piece.token? words last = some token := by
  induction pieces generalizing line with
  | nil => exact absurd h List.not_mem_nil
  | cons piece rest ih =>
    obtain hfirst | hrest := List.mem_append.mp h
    · exact ⟨piece, List.mem_cons_self, _, Option.mem_toList.mp hfirst⟩
    · obtain ⟨other, hother, hlast⟩ := ih hrest
      exact ⟨other, List.mem_cons_of_mem _ hother, hlast⟩

/-- Every token but the last is that of a piece. -/
theorem exists_piece (h : token ∈ (scan words source).tokens) :
    (∃ piece ∈ Piece.pieces source.toList, ∃ last, piece.token? words last = some token) ∨
      token = .endOfInput (textEnd source) := by
  rw [scan_tokens] at h
  exact (List.mem_append.mp h).imp Scanned.exists_piece_of_mem List.mem_singleton.mp

namespace Piece

variable {piece : Piece}

theorem isToken_of_token? (h : piece.token? words line = some token) :
    piece.shape.isToken = true := by
  rw [← isSome_token? words piece line, h]
  rfl

/-- A piece that is a token is as its shape describes. -/
theorem mem_pattern (hpiece : piece ∈ pieces source.toList)
    (htoken : piece.token? words line = some token) : piece.text ∈ piece.shape.pattern := by
  obtain hmem | ⟨c, rfl, -⟩ := (cuts_pieces _).described _ hpiece
  · exact hmem
  · cases htoken

/-- A token is written as its piece is. -/
theorem lexeme_token? (h : piece.token? words line = some token) :
    token.lexeme.toList = piece.text := by
  have hmoved := piece.token?_mapLines words (fun _ => 0) line
  rw [h] at hmoved
  have hreading : piece.reading? words = some token.reading := by
    rw [reading?, hmoved]
    rfl
  exact lexeme_reading? hreading

end Piece

/-- What a word is does not depend on the text that it stands in. -/
theorem token_of_word (h : token ∈ (scan words source).tokens) (hword : IsWord token.lexeme) :
    token = wordToken words token.lexeme token.line := by
  obtain ⟨piece, hpiece, line, htoken⟩ | rfl := exists_piece h
  · have htext := Piece.lexeme_token? htoken
    have hself := Piece.pieces_of_isToken hpiece (Piece.isToken_of_token? htoken)
    rw [← htext, Piece.pieces_of_mem hword, List.singleton_inj] at hself
    subst hself
    rw [Piece.token?_line htoken]
    have hlexeme : String.ofList token.lexeme.toList = token.lexeme := String.ofList_toList
    rw [Piece.token?, hlexeme] at htoken
    exact (Option.some.inj htoken).symm
  · obtain ⟨c, more, -, -, hnil⟩ := isWord_iff.mp hword
    cases hnil

end CommandScript
