import CommandScript.Proofs.Syntax.Lines
import CommandScript.Token.Scan

/-!
# Texts joined by a line break

No piece but an unclosed string goes past a line break at its end. So if a text without
unclosed strings is followed by a line break and another text, its pieces stay as they
are, and those of the second text come after the break. Its tokens and errors do so, too, on
lines that are moved down. What else is wrong with the two texts does not matter.

* `extent_append_stop`: a piece is the same before a character that ends it.
* `pieces_append_stop`, `pieces_append_break`: the pieces of the joined text.
* `textEnd_eq`: every line break of a text moves its end one line down.
* `scan_append_break`, `scan_across_break`: the tokens and errors of the joined text.
-/

namespace CommandScript

/-- The same on another line. -/
def Located.mapLine {α : Type} (f : Nat → Nat) (error : Located α) : Located α :=
  { error with line := f error.line }

namespace Piece

variable {p : Char → Bool} {stop : Char}

theorem takeWhile_append_stop (hstop : p stop = false) (text rest : List Char) :
    (text ++ stop :: rest).takeWhile p = text.takeWhile p := by
  induction text with
  | nil => simp [hstop]
  | cons first text ih => simp only [List.cons_append, List.takeWhile_cons, ih]

theorem dropWhile_append_stop (hstop : p stop = false) (text rest : List Char) :
    (text ++ stop :: rest).dropWhile p = text.dropWhile p ++ stop :: rest := by
  induction text with
  | nil => simp [hstop]
  | cons first text ih =>
    simp only [List.cons_append, List.dropWhile_cons, ih]
    split <;> rfl

theorem fractionLength_cons_of_ne {first : Char} (hfirst : first ≠ '.') (text : List Char) :
    fractionLength (first :: text) = 0 := by
  unfold fractionLength
  split
  · rename_i heq
    exact absurd (List.cons.inj heq).1 hfirst
  · rfl

theorem fractionLength_append_stop (hdigit : stop.isDigit = false) (hpoint : stop ≠ '.')
    (text rest : List Char) : fractionLength (text ++ stop :: rest) = fractionLength text := by
  match text with
  | [] => exact fractionLength_cons_of_ne hpoint rest
  | first :: more =>
    by_cases hfirst : first = '.'
    · subst hfirst
      cases more with
      | nil => simp [fractionLength, hdigit]
      | cons second more =>
        simp only [List.cons_append, fractionLength, takeWhile_append_stop hdigit]
    · rw [List.cons_append, fractionLength_cons_of_ne hfirst, fractionLength_cons_of_ne hfirst]

theorem head?_append_stop {c : Char} (hc : c ≠ stop) (text rest : List Char) :
    (text ++ stop :: rest).head? = some c ↔ text.head? = some c := by
  cases text with
  | nil => simp [Ne.symm hc]
  | cons first text => simp

/-- The kind of an operator or bracket does not depend on what follows unless that is `=`. -/
theorem markExtent_append_stop (hequal : stop ≠ '=') (first : Char) (text rest : List Char) :
    (match withEqual? first, (text ++ stop :: rest).head?, singleMark? first with
      | some kind, some '=', _ => (PieceShape.mark kind, 1)
      | _, _, some kind => (.mark kind, 0)
      | _, _, none => (.unexpected, 0)) =
    (match withEqual? first, text.head?, singleMark? first with
      | some kind, some '=', _ => (PieceShape.mark kind, 1)
      | _, _, some kind => (.mark kind, 0)
      | _, _, none => (.unexpected, 0)) := by
  cases text with
  | nil => cases withEqual? first <;> cases singleMark? first <;> simp [hequal]
  | cons second text => rfl

/-- Where a character follows a piece of a shape, the piece ends before it. -/
structure Ends (stop : Char) (shape : PieceShape) : Prop where
  word : isWordPart stop = false
  point : stop ≠ '.'
  slash : stop ≠ '/'
  equal : stop ≠ '='
  blank : shape = .blank → isBlank stop = false
  comment : shape = .comment → stop = '\n'
  closed : shape ≠ .unterminated

theorem Ends.digit {shape : PieceShape} (h : Ends stop shape) : stop.isDigit = false := by
  have hpart := h.word
  simp only [isWordPart, Char.isAlphanum, Bool.or_eq_false_iff] at hpart
  exact hpart.1.2

/-- A line break ends every piece but a string that is never closed. -/
theorem ends_lineBreak {shape : PieceShape} (hclosed : shape ≠ .unterminated) :
    Ends '\n' shape where
  word := by decide
  point := by decide
  slash := by decide
  equal := by decide
  blank := fun _ => by decide
  comment := fun _ => rfl
  closed := hclosed

/-- A piece is the same before a character that ends it. -/
theorem extent_append_stop {first : Char} {text : List Char}
    (hends : Ends stop (extent first text).1) (rest : List Char) :
    extent first (text ++ stop :: rest) = extent first text := by
  have hslash := head?_append_stop hends.slash.symm text rest
  have hdigit := hends.digit
  obtain ⟨hword, hpoint, -, hequal, hblank, hcomment, hclosed⟩ := hends
  unfold extent at hblank hcomment hclosed ⊢
  split
  · rename_i hfirst
    rw [if_pos hfirst] at hblank
    rw [takeWhile_append_stop (hblank rfl)]
  · rename_i hfirst
    rw [if_neg hfirst] at hcomment hclosed
    split
    · rfl
    · rename_i hbreak
      rw [if_neg hbreak] at hcomment hclosed
      simp only [hslash]
      split
      · rename_i hslashes
        rw [if_pos hslashes] at hcomment
        rw [takeWhile_append_stop (by simp [hcomment rfl])]
      · rename_i hslashes
        rw [if_neg hslashes] at hclosed
        split
        · rename_i hquote
          rw [if_pos hquote] at hclosed
          dsimp only at hclosed ⊢
          split at hclosed
          · rename_i hlt
            rw [if_pos hlt, List.takeWhile_append, if_neg (Nat.ne_of_lt hlt), if_pos]
            rw [List.length_append]
            exact Nat.lt_add_right _ hlt
          · exact absurd rfl hclosed
        · split
          · rw [takeWhile_append_stop hdigit, dropWhile_append_stop hdigit,
              fractionLength_append_stop hdigit hpoint]
          · split
            · rw [takeWhile_append_stop hword]
            · exact markExtent_append_stop hequal first text rest

theorem length_takeWhile_le (p : Char → Bool) (text : List Char) :
    (text.takeWhile p).length ≤ text.length :=
  (List.takeWhile_sublist p).length_le

/-- A piece takes no more characters than there are. -/
theorem extent_le (first : Char) (text : List Char) : (extent first text).2 ≤ text.length := by
  have hfraction : ∀ rest : List Char, fractionLength rest ≤ rest.length := by
    intro rest
    unfold fractionLength
    split
    · split
      · rename_i more _
        have := length_takeWhile_le Char.isDigit more
        simp only [List.length_cons]
        omega
      · exact Nat.zero_le _
    · exact Nat.zero_le _
  unfold extent
  split
  · exact length_takeWhile_le _ _
  · split
    · exact Nat.zero_le _
    · split
      · exact length_takeWhile_le _ _
      · split
        · dsimp only
          split
          · rename_i hlt
            exact hlt
          · exact length_takeWhile_le _ _
        · split
          · have hsplit := congrArg List.length (List.takeWhile_append_dropWhile (p := Char.isDigit)
              (l := text))
            have := hfraction (text.dropWhile Char.isDigit)
            rw [List.length_append] at hsplit
            dsimp only
            omega
          · split
            · exact length_takeWhile_le _ _
            · split
              · rename_i heq
                cases text with
                | nil => cases heq
                | cons second text => simp
              · exact Nat.zero_le _
              · exact Nat.zero_le _

/-- The pieces of a text stay the same before a character that ends them all. -/
theorem pieces_append_stop (first : List Char)
    (hends : ∀ piece ∈ pieces first, Ends stop piece.shape) (second : List Char) :
    pieces (first ++ stop :: second) = pieces first ++ pieces (stop :: second) := by
  induction hlength : first.length using Nat.strongRecOn generalizing first with
  | _ length ih =>
    subst hlength
    cases first with
    | nil => rw [List.nil_append, pieces_nil, List.nil_append]
    | cons c text =>
      rw [pieces_cons] at hends
      obtain ⟨hfirst, hrest⟩ := List.forall_mem_cons.mp hends
      have hle := extent_le c text
      have hshorter : (text.drop (extent c text).2).length < (c :: text).length := by
        simp only [List.length_drop, List.length_cons]
        omega
      rw [List.cons_append, pieces_cons, pieces_cons, extent_append_stop hfirst,
        List.take_append_of_le_length hle, List.drop_append_of_le_length hle,
        ih _ hshorter _ hrest rfl, List.cons_append]

/-- The pieces of a text without unclosed strings stay the same before a line break, and
those of what follows come after it. -/
theorem pieces_append_break (first : List Char)
    (hclosed : ∀ piece ∈ pieces first, piece.shape ≠ .unterminated) (second : List Char) :
    pieces (first ++ '\n' :: second) = pieces first ++ ⟨.lineBreak, ['\n']⟩ :: pieces second := by
  have hends : ∀ piece ∈ pieces first, Ends '\n' piece.shape :=
    fun piece hpiece => ends_lineBreak (hclosed piece hpiece)
  rw [pieces_append_stop first hends, pieces_cons]
  rfl

theorem singleMark?_ne (c : Char) : singleMark? c ≠ some .endOfInput := by
  unfold singleMark?
  split <;> exact fun h => by cases h

theorem withEqual?_ne (c : Char) : withEqual? c ≠ some .endOfInput := by
  unfold withEqual?
  split <;> exact fun h => by cases h

/-- No piece stands for the end of the input. -/
theorem extent_ne_endOfInput (first : Char) (text : List Char) :
    (extent first text).1 ≠ .mark .endOfInput := by
  have hmark : ∀ kind, (PieceShape.mark kind = .mark .endOfInput) → kind = .endOfInput :=
    fun kind h => PieceShape.mark.inj h
  unfold extent
  split
  · exact fun h => by cases h
  · split
    · exact fun h => by cases h
    · split
      · exact fun h => by cases h
      · split
        · dsimp only
          split <;> exact fun h => by cases h
        · split
          · exact fun h => by cases h
          · split
            · exact fun h => by cases h
            · split
              · rename_i hequal _
                exact fun h => withEqual?_ne first (hmark _ h ▸ hequal)
              · rename_i hsingle _
                exact fun h => singleMark?_ne first (hmark _ h ▸ hsingle)
              · exact fun h => by cases h

theorem shape_ne_endOfInput {text : List Char} :
    ∀ piece ∈ pieces text, piece.shape ≠ .mark .endOfInput := by
  induction hlength : text.length using Nat.strongRecOn generalizing text with
  | _ length ih =>
    subst hlength
    cases text with
    | nil => simp
    | cons first text =>
      rw [pieces_cons]
      refine List.forall_mem_cons.mpr ⟨extent_ne_endOfInput first text, ih _ ?_ rfl⟩
      simp only [List.length_drop, List.length_cons]
      omega

theorem wordToken_kind (words : CommandWords) (word : String) (line : Nat) :
    (wordToken words word line).kind ≠ .endOfInput := by
  have hkeyword : TokenKind.keyword? word ≠ some .endOfInput := by
    unfold TokenKind.keyword?
    split <;> exact fun h => by cases h
  have hname : (TokenKind.keyword? word).getD .identifier ≠ .endOfInput := by
    cases hword : TokenKind.keyword? word with
    | none => exact fun h => by cases h
    | some kind =>
      rintro rfl
      exact hkeyword hword
  unfold wordToken
  split
  · exact fun h => by cases h
  · split
    · exact fun h => by cases h
    · split
      · exact fun h => by cases h
      · split
        · exact fun h => by cases h
        · exact hname

theorem token?_kind {words : CommandWords} {piece : Piece} {line : Nat} {token : Token}
    (hshape : piece.shape ≠ .mark .endOfInput) (h : piece.token? words line = some token) :
    token.kind ≠ .endOfInput := by
  unfold token? at h
  dsimp only at h
  split at h
  case h_3 => exact Option.some.inj h ▸ wordToken_kind words _ line
  case h_4 kind hkind =>
    rintro hend
    rw [← Option.some.inj h] at hend
    exact hshape (hkind.trans (congrArg PieceShape.mark hend))
  all_goals first
    | exact Option.some.inj h ▸ fun hend => by cases hend
    | cases h

theorem token?_mapLines (words : CommandWords) (piece : Piece) (f : Nat → Nat) (line : Nat) :
    piece.token? words (f line) = (piece.token? words line).map (·.mapLines f) := by
  unfold token?
  dsimp only
  split
  case h_3 =>
    unfold wordToken
    simp only [Option.map_some, Token.mapLines]
    split
    · rfl
    · split
      · rfl
      · split
        · rfl
        · split <;> rfl
  all_goals rfl

theorem error?_mapLine (piece : Piece) (f : Nat → Nat) (line : Nat) :
    piece.error? (f line) = (piece.error? line).map (·.mapLine f) := by
  unfold error?
  split <;> rfl

end Piece

/-! ## Tokens -/

namespace Scanned

/-- The tokens of pieces that start on a line, without the mark of the end. -/
def tokensOf (words : CommandWords) : Nat → List Piece → List Token
  | _, [] => []
  | line, piece :: rest =>
    (piece.token? words (piece.lastLine line)).toList ++ tokensOf words (piece.lastLine line) rest

/-- The line on which pieces end. -/
def endLine : Nat → List Piece → Nat
  | line, [] => line
  | line, piece :: rest => endLine (piece.lastLine line) rest

theorem tokens_ofPieces (words : CommandWords) (line : Nat) (pieces : List Piece) :
    (ofPieces words line pieces).tokens =
      tokensOf words line pieces ++ [.endOfInput (endLine line pieces)] := by
  induction pieces generalizing line with
  | nil => rfl
  | cons piece rest ih => simp only [ofPieces, tokensOf, endLine, ih, List.append_assoc]

theorem tokensOf_append (words : CommandWords) (line : Nat) (first second : List Piece) :
    tokensOf words line (first ++ second) =
      tokensOf words line first ++ tokensOf words (endLine line first) second := by
  induction first generalizing line with
  | nil => rfl
  | cons piece rest ih => simp only [List.cons_append, tokensOf, endLine, ih, List.append_assoc]

theorem errors_append (words : CommandWords) (line : Nat) (first second : List Piece) :
    (ofPieces words line (first ++ second)).errors =
      (ofPieces words line first).errors ++
        (ofPieces words (endLine line first) second).errors := by
  induction first generalizing line with
  | nil => rfl
  | cons piece rest ih => simp only [List.cons_append, ofPieces, endLine, ih, List.append_assoc]

theorem endLine_append (line : Nat) (first second : List Piece) :
    endLine line (first ++ second) = endLine (endLine line first) second := by
  induction first generalizing line with
  | nil => rfl
  | cons piece rest ih => exact ih _

/-- Pieces on lines that are moved down. -/
theorem lastLine_add (piece : Piece) (line down : Nat) :
    piece.lastLine (line + down) = piece.lastLine line + down := by
  unfold Piece.lastLine
  omega

theorem tokensOf_add (words : CommandWords) (line down : Nat) (pieces : List Piece) :
    tokensOf words (line + down) pieces =
      (tokensOf words line pieces).map (·.mapLines (· + down)) := by
  induction pieces generalizing line with
  | nil => rfl
  | cons piece rest ih =>
    have hpiece := piece.token?_mapLines words (· + down) (piece.lastLine line)
    simp only [tokensOf, lastLine_add, hpiece, ih, List.map_append]
    cases piece.token? words (piece.lastLine line) <;> rfl

theorem endLine_add (line down : Nat) (pieces : List Piece) :
    endLine (line + down) pieces = endLine line pieces + down := by
  induction pieces generalizing line with
  | nil => rfl
  | cons piece rest ih => rw [endLine, lastLine_add, ih, endLine]

theorem errors_add (words : CommandWords) (line down : Nat) (pieces : List Piece) :
    (ofPieces words (line + down) pieces).errors =
      (ofPieces words line pieces).errors.map (·.mapLine (· + down)) := by
  induction pieces generalizing line with
  | nil => rfl
  | cons piece rest ih =>
    have hpiece := piece.error?_mapLine (· + down) (piece.lastLine line)
    simp only [ofPieces, lastLine_add, hpiece, ih, List.map_append]
    cases piece.error? (piece.lastLine line) <;> rfl

/-- Pieces end as many lines further down as there are line breaks in them. -/
theorem endLine_eq (line : Nat) (pieces : List Piece) :
    endLine line pieces = line + (pieces.flatMap Piece.text).count '\n' := by
  induction pieces generalizing line with
  | nil => rfl
  | cons piece rest ih =>
    rw [endLine, ih, Piece.lastLine, List.flatMap_cons, List.count_append, Nat.add_assoc]

/-- Without an error for it there is no unclosed string. -/
theorem closed_of_errors {words : CommandWords} {pieces : List Piece} {line : Nat}
    (h : ∀ error ∈ (ofPieces words line pieces).errors, error.cause ≠ .unterminatedString) :
    ∀ piece ∈ pieces, piece.shape ≠ .unterminated := by
  induction pieces generalizing line with
  | nil => simp
  | cons piece rest ih =>
    obtain ⟨hfirst, hrest⟩ := List.forall_mem_append.mp h
    refine List.forall_mem_cons.mpr ⟨fun hshape => ?_, ih hrest⟩
    have herror : piece.error? (piece.lastLine line) =
        some ⟨.unterminatedString, piece.lastLine line⟩ := by
      rw [Piece.error?, hshape]
    exact hfirst _ (Option.mem_toList.mpr herror) rfl

theorem kind_of_mem_tokensOf {words : CommandWords} {pieces : List Piece} {line : Nat}
    (hpieces : ∀ piece ∈ pieces, piece.shape ≠ .mark .endOfInput) :
    ∀ token ∈ tokensOf words line pieces, token.kind ≠ .endOfInput := by
  induction pieces generalizing line with
  | nil => simp [tokensOf]
  | cons piece rest ih =>
    obtain ⟨hfirst, hrest⟩ := List.forall_mem_cons.mp hpieces
    refine List.forall_mem_append.mpr ⟨fun token htoken => ?_, ih hrest⟩
    exact Piece.token?_kind hfirst (Option.mem_toList.mp htoken)

end Scanned

/-- The tokens of a text, without the mark of the end. -/
def textTokens (words : CommandWords) (source : String) : List Token :=
  Scanned.tokensOf words 1 (Piece.pieces source.toList)

/-- The line on which a text ends. -/
def textEnd (source : String) : Nat := Scanned.endLine 1 (Piece.pieces source.toList)

theorem scan_tokens (words : CommandWords) (source : String) :
    (scan words source).tokens = textTokens words source ++ [.endOfInput (textEnd source)] :=
  Scanned.tokens_ofPieces words 1 _

theorem kind_of_mem_textTokens {words : CommandWords} {source : String} :
    ∀ token ∈ textTokens words source, token.kind ≠ .endOfInput :=
  Scanned.kind_of_mem_tokensOf Piece.shape_ne_endOfInput

/-- A text ends as many lines down as it has line breaks. -/
theorem textEnd_eq (source : String) : textEnd source = 1 + source.toList.count '\n' := by
  rw [textEnd, Scanned.endLine_eq, Piece.flatten_pieces]

/-- Two texts are joined by a line break, and the first of them has no unclosed string. Then
the tokens and errors of the second come after those of the first, on lines that are moved
down. -/
theorem scan_append_break {words : CommandWords} {first : String}
    (hclosed : ∀ error ∈ (scan words first).errors, error.cause ≠ .unterminatedString)
    (second : String) :
    (scan words (first ++ "\n" ++ second)).errors =
        (scan words first).errors ++
          (scan words second).errors.map (·.mapLine (· + textEnd first)) ∧
      textTokens words (first ++ "\n" ++ second) =
        textTokens words first ++
          (textTokens words second).map (·.mapLines (· + textEnd first)) ∧
      textEnd (first ++ "\n" ++ second) = textEnd second + textEnd first := by
  have hpieces : Piece.pieces (first ++ "\n" ++ second).toList =
      Piece.pieces first.toList ++ ⟨.lineBreak, ['\n']⟩ :: Piece.pieces second.toList := by
    have htext : (first ++ "\n" ++ second).toList = first.toList ++ '\n' :: second.toList := by
      simp
    rw [htext]
    exact Piece.pieces_append_break _ (Scanned.closed_of_errors hclosed) _
  have hstart : Piece.lastLine ⟨.lineBreak, ['\n']⟩ (textEnd first) = 1 + textEnd first :=
    Nat.add_comm _ _
  unfold scan
  simp only [textTokens, textEnd] at hstart ⊢
  rw [hpieces]
  refine ⟨?_, ?_, ?_⟩
  · rw [Scanned.errors_append, Scanned.ofPieces, hstart, Scanned.errors_add]
    rfl
  · rw [Scanned.tokensOf_append, Scanned.tokensOf, hstart, Scanned.tokensOf_add]
    rfl
  · rw [Scanned.endLine_append, Scanned.endLine, hstart, Scanned.endLine_add]

/-- **Scanning goes on at a line break.** If a text has no unclosed string, then behind it and
a line break any other text is scanned as it is by itself: the tokens of the first text without
the mark of its end are followed by the tokens of the second, and the errors of the first by
those of the second. All lines of the second text are moved down by one and the number of line
breaks in the first. -/
theorem scan_across_break {words : CommandWords} {first : String}
    (hclosed : ∀ error ∈ (scan words first).errors, error.cause ≠ .unterminatedString)
    (second : String) :
    let down := 1 + first.toList.count '\n'
    ∃ tokens : List Token, (scan words first).tokens = tokens ++ [.endOfInput down] ∧
      scan words (first ++ "\n" ++ second) =
        ⟨tokens ++ (scan words second).tokens.map (·.mapLines (· + down)),
          (scan words first).errors ++
            (scan words second).errors.map (·.mapLine (· + down))⟩ := by
  intro down
  have hdown : textEnd first = down := textEnd_eq first
  obtain ⟨herrors, htokens, hend⟩ := scan_append_break hclosed second
  rw [hdown] at herrors htokens hend
  refine ⟨textTokens words first, hdown ▸ scan_tokens words first, ?_⟩
  have hjoined : (scan words (first ++ "\n" ++ second)).tokens =
      textTokens words first ++ (scan words second).tokens.map (·.mapLines (· + down)) := by
    rw [scan_tokens, htokens, hend, scan_tokens, List.map_append, List.append_assoc]
    rfl
  calc scan words (first ++ "\n" ++ second)
      = ⟨(scan words (first ++ "\n" ++ second)).tokens,
          (scan words (first ++ "\n" ++ second)).errors⟩ := rfl
    _ = _ := by rw [hjoined, herrors]

/-- The first text has a line break within a string, a character that no token has, and a
comment up to its end. The second has an unclosed string. -/
theorem scan_across_break_of_comment :
    let first := "print \"a\nb\"; \u00e9 // done"
    let second := "x = 1;\n\"open"
    (∀ error ∈ (scan .builtin first).errors, error.cause ≠ .unterminatedString) ∧
      (scan .builtin first).errors = [⟨.unexpectedCharacter '\u00e9', 2⟩] ∧
      ∃ tokens : List Token, (scan .builtin first).tokens = tokens ++ [.endOfInput 2] ∧
        scan .builtin (first ++ "\n" ++ second) =
          ⟨tokens ++ (scan .builtin second).tokens.map (·.mapLines (· + 2)),
            (scan .builtin first).errors ++
              (scan .builtin second).errors.map (·.mapLine (· + 2))⟩ := by
  intro first second
  have herrors : (scan .builtin first).errors = [⟨.unexpectedCharacter '\u00e9', 2⟩] := by
    decide +kernel
  have hclosed : ∀ error ∈ (scan .builtin first).errors,
      error.cause ≠ .unterminatedString := by
    rw [herrors]
    decide
  have hdown : 1 + first.toList.count '\n' = 2 := by decide +kernel
  have hjoined := scan_across_break hclosed second
  simp only [hdown] at hjoined
  exact ⟨hclosed, herrors, hjoined⟩

end CommandScript
