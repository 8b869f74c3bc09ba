import CommandScript.Proofs.Token.LongestMatch

/-!
# Tokens and the space between them

What a token is read from is read back as that token wherever it stands by itself, and it
stands by itself between blanks. So a program may be written again with single blanks in place
of whatever stood between its tokens, and the tokens are the same.

* `Piece.pieces_of_mem`: a text that a pattern describes is one piece.
* `Piece.solid_intercalate`: texts joined by blanks have the pieces that they have by themselves.
* `Reads`: a text without errors that has certain tokens.
* `scan_respaced`: a program with single blanks between its tokens.
-/

namespace CommandScript

/-- Tokens as they are written, with single blanks between them. -/
def respaced (tokens : List Token) : String := " ".intercalate (tokens.map (·.lexeme))

/-- What a token is, on whatever line. -/
def Token.reading (token : Token) : TokenKind × String × Option Literal :=
  (token.kind, token.lexeme, token.literal)

/-- Whether the pieces of a shape are tokens. -/
def PieceShape.isToken : PieceShape → Bool
  | .number | .string | .word | .mark _ => true
  | .blank | .lineBreak | .comment | .unterminated | .unexpected => false

theorem PieceShape.ne_of_isToken {shape other : PieceShape} (htoken : shape.isToken = true)
    (hother : other.isToken = false) : shape ≠ other := by
  intro heq
  rw [heq, hother] at htoken
  cases htoken

namespace Piece

variable {text : List Char} {shape : PieceShape}

/-! ## A token by itself -/

/-- A text that a pattern describes is one piece when nothing comes after it. -/
theorem pieces_of_mem (h : text ∈ shape.pattern) : pieces text = [⟨shape, text⟩] := by
  have hlongest : Longest shape text (text ++ []) := by
    rw [List.append_nil]
    exact ⟨h, List.prefix_rfl, fun _ hstarts => hstarts.length_le⟩
  obtain ⟨c, more, rfl⟩ := exists_cons_of_mem h
  have hextent := hlongest.extent_eq
  rw [List.append_nil] at hextent
  rw [pieces_cons, hextent, List.take_length, List.drop_length, pieces_nil]

/-- A piece that is a token is read back by itself. -/
theorem pieces_of_isToken {piece : Piece} (hpiece : piece ∈ pieces text)
    (htoken : piece.shape.isToken = true) : pieces piece.text = [piece] := by
  obtain hmem | ⟨c, rfl, -⟩ := (cuts_pieces text).described _ hpiece
  · exact pieces_of_mem hmem
  · cases htoken

/-- A blank ends every token. -/
theorem ends_blank (htoken : shape.isToken = true) : Ends ' ' shape where
  word := by decide
  point := by decide
  slash := by decide
  equal := by decide
  blank := fun heq => absurd heq (PieceShape.ne_of_isToken htoken rfl)
  comment := fun heq => absurd heq (PieceShape.ne_of_isToken htoken rfl)
  closed := PieceShape.ne_of_isToken htoken rfl

/-! ## Texts joined by blanks -/

/-- The pieces of a text that are not blank. -/
def solid (text : List Char) : List Piece := (pieces text).filter (·.shape ≠ .blank)

theorem solid_of_isToken {piece : Piece} (hpiece : piece ∈ pieces text)
    (htoken : piece.shape.isToken = true) : solid piece.text = [piece] := by
  have hblank : piece.shape ≠ .blank := PieceShape.ne_of_isToken htoken rfl
  simp [solid, pieces_of_isToken hpiece htoken, hblank]

/-- A blank in front of a text adds nothing, or makes its first piece longer. -/
theorem solid_cons_blank (text : List Char) : solid (' ' :: text) = solid text := by
  have hblank : isBlank ' ' = true := by decide
  unfold solid
  rw [pieces_cons, extent_of_blank hblank]
  cases text with
  | nil => simp
  | cons first rest =>
    by_cases hfirst : isBlank first = true
    · rw [pieces_cons, extent_of_blank hfirst]
      simp [hfirst]
    · simp [hfirst]

/-- Texts joined by blanks have the pieces that they have by themselves, if a blank ends all of
these. -/
theorem solid_intercalate (texts : List (List Char))
    (hends : ∀ text ∈ texts, ∀ piece ∈ pieces text, Ends ' ' piece.shape) :
    solid ([' '].intercalate texts) = texts.flatMap solid := by
  induction texts with
  | nil => simp [solid]
  | cons text texts ih =>
    obtain ⟨hfirst, hrest⟩ := List.forall_mem_cons.mp hends
    cases texts with
    | nil => simp
    | cons next texts =>
      calc solid ([' '].intercalate (text :: next :: texts))
          = solid (text ++ ' ' :: [' '].intercalate (next :: texts)) := by
            rw [List.intercalate_cons_cons, List.append_assoc, List.singleton_append]
        _ = solid text ++ solid (' ' :: [' '].intercalate (next :: texts)) := by
            unfold solid
            rw [pieces_append_stop text hfirst, List.filter_append]
        _ = (text :: next :: texts).flatMap solid := by
            rw [solid_cons_blank, ih hrest, ← List.flatMap_cons]

/-! ## Tokens of pieces -/

theorem isSome_token? (words : CommandWords) (piece : Piece) (line : Nat) :
    (piece.token? words line).isSome = piece.shape.isToken := by
  unfold token?
  cases piece.shape <;> rfl

/-- Neither a token nor a blank is an error. -/
theorem fault?_eq_none {piece : Piece}
    (h : piece.shape.isToken = true ∨ piece.shape = .blank) : piece.fault? = none := by
  obtain ⟨shape, text⟩ := piece
  cases shape with
  | unterminated => simp [PieceShape.isToken] at h
  | unexpected => simp [PieceShape.isToken] at h
  | _ => rfl

/-- What the token of a piece is, if it is one. -/
def reading? (words : CommandWords) (piece : Piece) :
    Option (TokenKind × String × Option Literal) :=
  (piece.token? words 0).map Token.reading

theorem isSome_reading? (words : CommandWords) (piece : Piece) :
    (piece.reading? words).isSome = piece.shape.isToken := by
  rw [reading?, Option.isSome_map, isSome_token?]

/-- A token is written as its piece is. -/
theorem lexeme_reading? {words : CommandWords} {piece : Piece}
    {found : TokenKind × String × Option Literal} (h : piece.reading? words = some found) :
    found.2.1.toList = piece.text := by
  obtain ⟨token, htoken, rfl⟩ := Option.map_eq_some_iff.mp h
  have hpair := piece.map_token? words 0
  have hwritten : ∀ pair ∈ piece.lexeme? words, pair.2 = String.ofList piece.text := by
    unfold lexeme?
    cases piece.shape <;> simp
  rw [htoken] at hpair
  have hlexeme : token.lexeme = String.ofList piece.text := hwritten _ hpair.symm
  rw [Token.reading, hlexeme, String.toList_ofList]

/-- Only the pieces that are tokens tell what the tokens are. -/
theorem filterMap_reading? (words : CommandWords) {p : Piece → Bool}
    (hkept : ∀ piece : Piece, piece.shape.isToken = true → p piece = true)
    (pieces : List Piece) :
    (pieces.filter p).filterMap (reading? words) = pieces.filterMap (reading? words) := by
  rw [List.filterMap_filter]
  refine List.filterMap_congr fun piece _ => ?_
  by_cases hp : p piece = true
  · rw [if_pos hp]
  · have hnone : (piece.reading? words).isSome ≠ true := by
      rw [isSome_reading?]
      exact fun htoken => hp (hkept piece htoken)
    rw [if_neg hp, Option.not_isSome_iff_eq_none.mp hnone]

/-- The tokens of pieces are written as the pieces are. -/
theorem map_lexeme (words : CommandWords) (pieces : List Piece) :
    (pieces.filterMap (reading? words)).map (·.2.1.toList) =
      (pieces.filter (·.shape.isToken)).map Piece.text := by
  induction pieces with
  | nil => rfl
  | cons piece rest ih =>
    have htoken := piece.isSome_reading? words
    cases hreading : piece.reading? words with
    | none =>
      rw [hreading] at htoken
      rw [List.filterMap_cons_none hreading, List.filter_cons_of_neg (by simp [← htoken]), ih]
    | some found =>
      rw [hreading] at htoken
      rw [List.filterMap_cons_some hreading, List.filter_cons_of_pos (by simp [← htoken]),
        List.map_cons, List.map_cons, ih, lexeme_reading? hreading]

/-- Tokens that stand by themselves between blanks, and perhaps nothing after the last blank. -/
theorem solid_tokens (text : List Char) {last : List (List Char)}
    (hlast : ∀ part ∈ last, part = []) :
    let tokens := (pieces text).filter (·.shape.isToken)
    solid ([' '].intercalate (tokens.map Piece.text ++ last)) = tokens := by
  intro tokens
  have hends : ∀ part ∈ tokens.map Piece.text ++ last, ∀ piece ∈ pieces part,
      Ends ' ' piece.shape := by
    intro part hpart piece hpiece
    rcases List.mem_append.mp hpart with hpart | hpart
    · obtain ⟨other, hother, rfl⟩ := List.mem_map.mp hpart
      obtain ⟨hmem, htoken⟩ := List.mem_filter.mp hother
      rw [pieces_of_isToken hmem htoken, List.mem_singleton] at hpiece
      exact hpiece ▸ ends_blank htoken
    · rw [hlast part hpart, pieces_nil] at hpiece
      exact absurd hpiece List.not_mem_nil
  have hsolid : ∀ piece ∈ tokens, solid piece.text = [piece] := by
    intro piece hpiece
    obtain ⟨hmem, htoken⟩ := List.mem_filter.mp hpiece
    exact solid_of_isToken hmem htoken
  have hnothing : last.flatMap solid = [] := by
    rw [List.flatMap_eq_nil_iff]
    intro part hpart
    rw [hlast part hpart]
    simp [solid]
  calc solid ([' '].intercalate (tokens.map Piece.text ++ last))
      = (tokens.map Piece.text ++ last).flatMap solid := solid_intercalate _ hends
    _ = tokens.flatMap fun piece => solid piece.text := by
        rw [List.flatMap_append, hnothing, List.append_nil, List.flatMap_map]
    _ = tokens.flatMap fun piece => [piece] := List.flatMap_congr hsolid
    _ = tokens := List.flatMap_singleton' tokens

end Piece

/-! ## Sources written again -/

/-- What the tokens of a text are, the mark of its end included. -/
theorem scan_readings (words : CommandWords) (source : String) :
    (scan words source).tokens.map Token.reading =
      (Piece.pieces source.toList).filterMap (Piece.reading? words) ++
        [(.endOfInput, "", none)] :=
  Scanned.map_tokens (fun _ _ => rfl) words 1 _

/-- A text without errors that has certain tokens, on whatever lines. -/
structure Reads (words : CommandWords) (source : String) (tokens : List Token) : Prop where
  errors : (scan words source).errors = []
  tokens : (scan words source).tokens.map Token.reading = tokens.map Token.reading

/-- Two texts have the same tokens when the one consists of the tokens of the other and blanks. -/
theorem reads_of_solid (words : CommandWords) {source again : String}
    (h : Piece.solid again.toList =
      (Piece.pieces source.toList).filter (·.shape.isToken)) :
    Reads words again (scan words source).tokens := by
  have hshape : ∀ piece ∈ Piece.pieces again.toList,
      piece.shape.isToken = true ∨ piece.shape = .blank := by
    intro piece hpiece
    by_cases hblank : piece.shape = .blank
    · exact .inr hblank
    · have hmem : piece ∈ Piece.solid again.toList :=
        List.mem_filter.mpr ⟨hpiece, decide_eq_true hblank⟩
      rw [h] at hmem
      exact .inl (List.mem_filter.mp hmem).2
  constructor
  · have hfaults := Scanned.map_errors words 1 (Piece.pieces again.toList)
    have hnone : (Piece.pieces again.toList).filterMap Piece.fault? = [] := by
      rw [List.filterMap_eq_nil_iff]
      exact fun piece hpiece => Piece.fault?_eq_none (hshape piece hpiece)
    rw [hnone] at hfaults
    exact List.map_eq_nil_iff.mp hfaults
  · have hsolid : ∀ piece : Piece, piece.shape.isToken = true →
        decide (piece.shape ≠ .blank) = true :=
      fun _ htoken => decide_eq_true (PieceShape.ne_of_isToken htoken rfl)
    rw [scan_readings, scan_readings, ← Piece.filterMap_reading? words hsolid,
      ← Piece.filterMap_reading? words (fun _ htoken => htoken) (Piece.pieces source.toList), ← h,
      Piece.solid]

/-- **Spaces between tokens.** The tokens of any source, written with single blanks between them,
are a source without errors, and its tokens are of the same kinds and have the same texts and
literals. This is so whatever was wrong with the first source, and whether or not the mark of
its end, which has no text, is written after one more blank. -/
theorem scan_respaced (words : CommandWords) (source : String) :
    let tokens := (scan words source).tokens
    Reads words (respaced tokens) tokens ∧ Reads words (respaced tokens.dropLast) tokens := by
  intro tokens
  have hreadings : tokens.map Token.reading = _ := scan_readings words source
  have hwritten : ∀ printed : List Token, (respaced printed).toList =
      [' '].intercalate ((printed.map Token.reading).map (·.2.1.toList)) := by
    intro printed
    rw [respaced, String.toList_intercalate, List.map_map, List.map_map]
    rfl
  have hlexemes := Piece.map_lexeme words (Piece.pieces source.toList)
  constructor
  · refine reads_of_solid words ?_
    rw [hwritten, hreadings, List.map_append, hlexemes]
    exact Piece.solid_tokens source.toList (by simp)
  · refine reads_of_solid words ?_
    rw [hwritten, List.map_dropLast, hreadings, List.dropLast_concat, hlexemes]
    have hsolid := @Piece.solid_tokens source.toList [] (by simp)
    dsimp only at hsolid
    rw [List.append_nil] at hsolid
    exact hsolid

/-- Nothing but blanks is left between the tokens, a string keeps its line break, and a number
stays apart from the point behind it. -/
example : respaced (scan .builtin "a=\"b\nc\"//d\n;1. \u00e9 x\"open").tokens =
    "a = \"b\nc\" ; 1 . x " := by
  decide +kernel

end CommandScript
