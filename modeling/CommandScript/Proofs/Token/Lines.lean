import CommandScript.Proofs.Token.LongestMatch

/-!
# The line of a token

A token or error stands on the line on which its piece ends, and that line is one more than
the number of line breaks in the source up to there. Which pieces have line breaks does not
matter for this: they are counted in strings as they are between tokens, and there are none
in a comment, a word or a character that is unexpected.

* `Piece.stretches`: the pieces of a text, each with all of the text up to its end.
* `Piece.lineBreak_mem`: which pieces have line breaks.
* `Scanned.ofPieces_stretches`: the tokens and errors of pieces, with their lines.
* `scan_lines`: the lines of a source text.
-/

namespace CommandScript

open scoped Computability

/-- The line on which a text ends. The first line is one. -/
def lineAfter (text : List Char) : Nat := 1 + text.count '\n'

/-- A text ends no earlier than its beginnings do. -/
theorem lineAfter_le {first text : List Char} (h : first <+: text) :
    lineAfter first ≤ lineAfter text := by
  have hcount := h.sublist.count_le '\n'
  unfold lineAfter
  omega

namespace Piece

variable {text before : List Char}

/-! ## Pieces with line breaks -/

/-- No character of a class that leaves out the line break is a line break. -/
theorem lineBreak_notMem {p : Char → Bool} (hbreak : p '\n' = false)
    (hall : ∀ c ∈ text, p c = true) : '\n' ∉ text := by
  intro hmem
  have hp := hall _ hmem
  rw [hbreak] at hp
  cases hp

theorem lineBreak_notMem_run {p q : Char → Bool} (hp : p '\n' = false) (hq : q '\n' = false)
    (h : text ∈ oneOf p * (oneOf q)∗) : '\n' ∉ text := by
  obtain ⟨c, more, hc, hmore, rfl⟩ := mem_run.mp h
  have hall : ∀ d ∈ c :: more, (p d || q d) = true :=
    List.forall_mem_cons.mpr ⟨by simp [hc], fun d hd => by simp [hmore d hd]⟩
  exact lineBreak_notMem (by simp [hp, hq]) hall

theorem lineBreak_notMem_number (h : text ∈ PieceShape.number.pattern) : '\n' ∉ text := by
  have hall : ∀ c ∈ text, (c.isDigit || decide (c = '.')) = true := by
    obtain ⟨c, more, hc, hmore, rfl | ⟨d, part, hd, hpart, rfl⟩⟩ := mem_number.mp h
    · simpa [hc] using fun d hd => Or.inl (hmore d hd)
    · intro e he
      simp only [List.mem_cons, List.mem_append] at he
      rcases he with rfl | he | rfl | rfl | he
      · simp [hc]
      · simp [hmore e he]
      · simp
      · simp [hd]
      · simp [hpart e he]
  exact lineBreak_notMem (by decide) hall

theorem lineBreak_notMem_mark {kind : TokenKind} (h : text ∈ (PieceShape.mark kind).pattern) :
    '\n' ∉ text := by
  obtain ⟨c, hc, rfl⟩ | ⟨c, hc, rfl⟩ := markText?_eq_some.mp h
  · have hplain := plain_of_singleMark? hc
    simpa using hplain.lineBreak.symm
  · obtain ⟨-, single, hsingle⟩ := singleMark?_of_withEqual? hc
    have hplain := plain_of_singleMark? hsingle
    simpa using hplain.lineBreak.symm

/-- Line breaks stand by themselves or within strings. -/
theorem lineBreak_mem {piece : Piece} (hpiece : piece ∈ pieces text)
    (hbreak : '\n' ∈ piece.text) :
    piece = ⟨.lineBreak, ['\n']⟩ ∨ piece.shape = .string ∨ piece.shape = .unterminated := by
  obtain ⟨shape, chars⟩ := piece
  obtain hmem | ⟨c, heq, hnone⟩ := (cuts_pieces text).described _ hpiece
  · dsimp only at hmem hbreak ⊢
    cases shape with
    | lineBreak =>
      obtain rfl : chars = ['\n'] := hmem
      exact .inl rfl
    | string => exact .inr (.inl rfl)
    | unterminated => exact .inr (.inr rfl)
    | blank => exact absurd hbreak (lineBreak_notMem_run (by decide) (by decide) hmem)
    | comment =>
      obtain ⟨body, hbody, rfl⟩ := mem_comment.mp hmem
      have hout : '\n' ∉ body := fun hin => hbody _ hin rfl
      simp [hout] at hbreak
    | number => exact absurd hbreak (lineBreak_notMem_number hmem)
    | word => exact absurd hbreak (lineBreak_notMem_run (by decide) (by decide) hmem)
    | mark kind => exact absurd hbreak (lineBreak_notMem_mark hmem)
    | unexpected => exact absurd hmem (Language.notMem_zero _)
  · cases heq
    obtain rfl : '\n' = c := by simpa using hbreak
    have hbroken : ['\n'] ∈ PieceShape.lineBreak.pattern := rfl
    exact absurd hbroken (hnone .lineBreak)

/-! ## Pieces and what stands up to their ends -/

/-- A piece of a text, and all of the text up to the end of the piece. -/
structure Stretch where
  piece : Piece
  upTo : List Char

/-- Pieces that follow one another after some text. -/
def stretches : List Char → List Piece → List Stretch
  | _, [] => []
  | before, piece :: rest =>
    ⟨piece, before ++ piece.text⟩ :: stretches (before ++ piece.text) rest

theorem map_piece_stretches (before : List Char) (pieces : List Piece) :
    (stretches before pieces).map Stretch.piece = pieces := by
  induction pieces generalizing before with
  | nil => rfl
  | cons piece rest ih => simp only [stretches, List.map_cons, ih]

/-- What stands up to the end of a piece is what stands before it, and the piece. -/
theorem upTo_eq {pieces : List Piece} {first rest : List Stretch} {stretch : Stretch}
    (h : stretches before pieces = first ++ stretch :: rest) :
    stretch.upTo = before ++ first.flatMap (·.piece.text) ++ stretch.piece.text ∧
      before ++ pieces.flatMap Piece.text = stretch.upTo ++ rest.flatMap (·.piece.text) := by
  induction pieces generalizing before first with
  | nil => simp [stretches] at h
  | cons piece pieces ih =>
    rw [stretches] at h
    cases first with
    | nil =>
      obtain ⟨rfl, rfl⟩ := List.cons.inj h
      have hrest := congrArg (List.flatMap Piece.text)
        (map_piece_stretches (before ++ piece.text) pieces)
      rw [List.flatMap_map] at hrest
      simp [← hrest]
    | cons other first =>
      obtain ⟨rfl, htail⟩ := List.cons.inj h
      obtain ⟨hupTo, hwhole⟩ := ih htail
      simp only [List.flatMap_cons, ← List.append_assoc]
      exact ⟨hupTo, hwhole⟩

theorem isPrefix_upTo {pieces : List Piece} {stretch : Stretch}
    (h : stretch ∈ stretches before pieces) :
    before <+: stretch.upTo ∧ stretch.upTo <+: before ++ pieces.flatMap Piece.text := by
  obtain ⟨first, rest, heq⟩ := List.append_of_mem h
  obtain ⟨hupTo, hwhole⟩ := upTo_eq heq
  rw [hupTo] at hwhole ⊢
  exact ⟨⟨_, (List.append_assoc _ _ _).symm⟩, ⟨_, hwhole.symm⟩⟩

/-- Lines never go down along the pieces. -/
theorem pairwise_stretches (before : List Char) (pieces : List Piece) :
    (stretches before pieces).Pairwise fun first second =>
      lineAfter first.upTo ≤ lineAfter second.upTo := by
  induction pieces generalizing before with
  | nil => exact .nil
  | cons piece rest ih =>
    refine List.pairwise_cons.mpr ⟨fun stretch hstretch => ?_, ih _⟩
    exact lineAfter_le (isPrefix_upTo hstretch).1

/-- A string that is never closed goes up to the end of the text. -/
theorem upTo_unterminated {stretch : Stretch} (h : stretch ∈ stretches [] (pieces text))
    (hopen : stretch.piece.shape = .unterminated) : stretch.upTo = text := by
  obtain ⟨first, rest, heq⟩ := List.append_of_mem h
  obtain ⟨-, hwhole⟩ := upTo_eq heq
  rw [List.nil_append, flatten_pieces] at hwhole
  have hmap := map_piece_stretches [] (pieces text)
  rw [heq, List.map_append, List.map_cons] at hmap
  cases rest with
  | nil => simpa using hwhole.symm
  | cons next rest =>
    -- A piece that others come after is not the last one.
    have hmem : stretch.piece ∈ (pieces text).dropLast := by
      rw [← hmap, List.dropLast_append_of_ne_nil (by simp)]
      simp
    exact absurd hopen (unterminated_last text _ hmem)

/-! ## Tokens and errors with their lines -/

theorem token?_line {words : CommandWords} {piece : Piece} {line : Nat} {token : Token}
    (h : piece.token? words line = some token) : token.line = line := by
  have hsame := piece.token?_mapLines words (fun _ => line) line
  rw [h] at hsame
  exact congrArg Token.line (Option.some.inj hsame)

theorem error?_line {piece : Piece} {line : Nat} {error : Located LexFault}
    (h : piece.error? line = some error) : error.line = line := by
  have hsame := piece.error?_mapLine (fun _ => line) line
  rw [h] at hsame
  exact congrArg Located.line (Option.some.inj hsame)

end Piece

namespace Piece.Stretch

/-- The kind, the text and the line of the token that a piece is. -/
def lexeme? (words : CommandWords) (stretch : Stretch) : Option (TokenKind × String × Nat) :=
  (stretch.piece.lexeme? words).map fun (kind, lexeme) => (kind, lexeme, lineAfter stretch.upTo)

/-- The error that a piece is. -/
def error? (stretch : Stretch) : Option (Located LexFault) :=
  stretch.piece.fault?.map fun fault => ⟨fault, lineAfter stretch.upTo⟩

theorem map_token? (words : CommandWords) (stretch : Stretch) :
    (stretch.piece.token? words (lineAfter stretch.upTo)).map
        (fun token => (token.kind, token.lexeme, token.line)) = stretch.lexeme? words := by
  rw [lexeme?, ← stretch.piece.map_token? words (lineAfter stretch.upTo)]
  cases htoken : stretch.piece.token? words (lineAfter stretch.upTo) with
  | none => rfl
  | some token => simp [Piece.token?_line htoken]

theorem piece_error? (stretch : Stretch) :
    stretch.piece.error? (lineAfter stretch.upTo) = stretch.error? := by
  rw [error?, ← stretch.piece.map_error? (lineAfter stretch.upTo)]
  cases herror : stretch.piece.error? (lineAfter stretch.upTo) with
  | none => rfl
  | some error => simp [← Piece.error?_line herror]

end Piece.Stretch

open Piece (stretches)

theorem Piece.lastLine_lineAfter (piece : Piece) (before : List Char) :
    piece.lastLine (lineAfter before) = lineAfter (before ++ piece.text) := by
  unfold Piece.lastLine lineAfter
  rw [List.count_append]
  omega

/-- The tokens and errors of pieces after some text stand where the pieces end. -/
theorem Scanned.ofPieces_stretches (words : CommandWords) (before : List Char)
    (pieces : List Piece) :
    (ofPieces words (lineAfter before) pieces).tokens.map
          (fun token => (token.kind, token.lexeme, token.line)) =
        (stretches before pieces).filterMap (Piece.Stretch.lexeme? words) ++
          [(.endOfInput, "", lineAfter (before ++ pieces.flatMap Piece.text))] ∧
      (ofPieces words (lineAfter before) pieces).errors =
        (stretches before pieces).filterMap Piece.Stretch.error? := by
  induction pieces generalizing before with
  | nil => simp [ofPieces, stretches, Token.endOfInput]
  | cons piece rest ih =>
    obtain ⟨htokens, herrors⟩ := ih (before ++ piece.text)
    have htoken := Piece.Stretch.map_token? words ⟨piece, before ++ piece.text⟩
    have herror := Piece.Stretch.piece_error? ⟨piece, before ++ piece.text⟩
    dsimp only at htoken herror
    rw [ofPieces, stretches, Piece.lastLine_lineAfter]
    constructor
    · rw [List.map_append, htokens, List.filterMap_cons, ← htoken, List.flatMap_cons,
        List.append_assoc]
      cases piece.token? words (lineAfter (before ++ piece.text)) <;> rfl
    · rw [herrors, List.filterMap_cons, ← herror]
      cases piece.error? (lineAfter (before ++ piece.text)) <;> rfl

/-- Errors of pieces stand on lines that never go down. -/
theorem Scanned.pairwise_errors (before : List Char) (pieces : List Piece) :
    ((stretches before pieces).filterMap Piece.Stretch.error?).Pairwise
      fun first second => first.line ≤ second.line := by
  refine (Piece.pairwise_stretches before pieces).filterMap _ fun first second hle => ?_
  intro error herror other hother
  obtain ⟨_, -, rfl⟩ := Option.map_eq_some_iff.mp herror
  obtain ⟨_, -, rfl⟩ := Option.map_eq_some_iff.mp hother
  exact hle

/-- Tokens of pieces stand on lines that never go down, and the end of the input is on the
last of them. -/
theorem Scanned.pairwise_tokens (words : CommandWords) (before : List Char)
    (pieces : List Piece) :
    (ofPieces words (lineAfter before) pieces).tokens.Pairwise
      fun first second => first.line ≤ second.line := by
  have hlines : ((ofPieces words (lineAfter before) pieces).tokens.map fun token =>
      (token.kind, token.lexeme, token.line)).Pairwise fun first second =>
        first.2.2 ≤ second.2.2 := by
    rw [(ofPieces_stretches words before pieces).1]
    have hline : ∀ stretch : Piece.Stretch, ∀ found ∈ stretch.lexeme? words,
        found.2.2 = lineAfter stretch.upTo := by
      intro stretch found hfound
      obtain ⟨_, -, rfl⟩ := Option.map_eq_some_iff.mp hfound
      rfl
    refine List.pairwise_append.mpr ⟨?_, List.pairwise_singleton _ _, ?_⟩
    · refine (Piece.pairwise_stretches before pieces).filterMap _ fun first second hle => ?_
      intro found hfound other hother
      rw [hline first found hfound, hline second other hother]
      exact hle
    · intro found hfound last hlast
      obtain ⟨stretch, hstretch, hfound⟩ := List.mem_filterMap.mp hfound
      rw [hline stretch found hfound, List.mem_singleton.mp hlast]
      exact lineAfter_le (Piece.isPrefix_upTo hstretch).2
  rw [List.pairwise_map] at hlines
  exact hlines

/-- **Lines.** The pieces of a source are its cut by longest match, and each is taken with the
text up to its end. A token or error stands on the line on which that text ends, one more than
the line breaks in it; line breaks in strings are among them, and a string that is never
closed goes up to the end of the source. The end of the input is on the line on which the
source ends. So lines never go down along the tokens, nor along the errors. -/
theorem scan_lines (words : CommandWords) (source : String) :
    let scanned := scan words source
    ∃ found : List Piece.Stretch,
      (∀ cut, Piece.Cuts source.toList cut ↔ cut = found.map (·.piece)) ∧
      (∀ before stretch after, found = before ++ stretch :: after →
        stretch.upTo = before.flatMap (·.piece.text) ++ stretch.piece.text ∧
          source.toList = stretch.upTo ++ after.flatMap (·.piece.text)) ∧
      (∀ stretch ∈ found, '\n' ∈ stretch.piece.text →
        stretch.piece = ⟨.lineBreak, ['\n']⟩ ∨ stretch.piece.shape = .string ∨
          stretch.piece.shape = .unterminated) ∧
      (∀ stretch ∈ found, stretch.piece.shape = .unterminated →
        stretch.upTo = source.toList) ∧
      scanned.tokens.map (fun token => (token.kind, token.lexeme, token.line)) =
        found.filterMap (fun stretch => (stretch.piece.lexeme? words).map fun (kind, lexeme) =>
            (kind, lexeme, 1 + stretch.upTo.count '\n')) ++
          [(.endOfInput, "", 1 + source.toList.count '\n')] ∧
      scanned.errors =
        found.filterMap (fun stretch => stretch.piece.fault?.map fun fault =>
          ⟨fault, 1 + stretch.upTo.count '\n'⟩) ∧
      scanned.tokens.Pairwise (fun first second => first.line ≤ second.line) ∧
      scanned.errors.Pairwise (fun first second => first.line ≤ second.line) := by
  intro scanned
  obtain ⟨htokens, herrors⟩ :=
    Scanned.ofPieces_stretches words [] (Piece.pieces source.toList)
  rw [List.nil_append, Piece.flatten_pieces] at htokens
  have hmap := Piece.map_piece_stretches [] (Piece.pieces source.toList)
  have hwhole : ∀ before stretch after,
      stretches [] (Piece.pieces source.toList) = before ++ stretch :: after →
        stretch.upTo = before.flatMap (·.piece.text) ++ stretch.piece.text ∧
          source.toList = stretch.upTo ++ after.flatMap (·.piece.text) := by
    intro before stretch after heq
    obtain ⟨hupTo, hsource⟩ := Piece.upTo_eq heq
    rw [List.nil_append] at hupTo hsource
    exact ⟨hupTo, by rw [← hsource, Piece.flatten_pieces]⟩
  have hbreak : ∀ stretch ∈ stretches [] (Piece.pieces source.toList),
      '\n' ∈ stretch.piece.text →
        stretch.piece = ⟨.lineBreak, ['\n']⟩ ∨ stretch.piece.shape = .string ∨
          stretch.piece.shape = .unterminated := by
    intro stretch hstretch
    have hpiece : stretch.piece ∈ Piece.pieces source.toList :=
      hmap ▸ List.mem_map_of_mem hstretch
    exact Piece.lineBreak_mem hpiece
  refine ⟨stretches [] (Piece.pieces source.toList), fun cut => ?_, hwhole, hbreak,
    fun stretch hstretch => Piece.upTo_unterminated hstretch, htokens, herrors,
    Scanned.pairwise_tokens words [] _, ?_⟩
  · rw [Piece.cuts_iff, hmap]
  · have hpairs := Scanned.pairwise_errors [] (Piece.pieces source.toList)
    rw [← herrors] at hpairs
    exact hpairs

/-- Line breaks in a string and behind a comment with a carriage return are counted, and so is
the one in the string that is never closed. -/
example :
    let scanned := scan .builtin "x \"a\nb\" // c\r\n\u00e9 y \"open\n"
    scanned.tokens.map (·.line) = [1, 2, 3, 4] ∧
      scanned.errors = [⟨.unexpectedCharacter '\u00e9', 3⟩, ⟨.unterminatedString, 4⟩] := by
  decide +kernel

end CommandScript
