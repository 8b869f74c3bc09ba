import CommandScript.Proofs.Grammar.Joining
import CommandScript.Proofs.Resolution.Earlier
import CommandScript.Proofs.Session.Tracking
import CommandScript.Proofs.Token.Joining

/-!
# Two sources in one

A source may be read by itself, or joined to another one by a line break. If both are read
without faults, and the first ends with a `;` or `}`, then the joined source is the program
of the first followed by that of the second, with the same node ids, on lines further down.
If the joined source is accepted, so are both parts: the references of the first keep their
distances, and those of the second differ only in names that the first declares at the top.

* `Session.ReadsCleanly`: a source is scanned and parsed without faults.
* `Session.Closes`: the last token of a source is a `;` or `}`.
* `Session.read_joined`: the program and the ids of a joined source.
* `Session.Parts`, `Session.exists_parts`: the parts of a joined source that is accepted.
-/

namespace CommandScript

/-! ## Diagnostics -/

theorem Diagnostics.hadError_reportAll (diagnostics : Diagnostics) (errors : List (Located Fault)) :
    (diagnostics.reportAll errors).hadError =
      (diagnostics.hadError || errors.any fun error => !error.cause.isRuntime) := by
  induction errors generalizing diagnostics with
  | nil => exact (Bool.or_false _).symm
  | cons error rest ih =>
    rw [reportAll, List.foldl_cons, ← reportAll, ih, List.any_cons, ← Bool.or_assoc]
    rfl

/-- The occurrences of a program that stands behind another one. -/
def Stmt.occurrencesBehind (program more : List Stmt) : List Occurrence :=
  Stmt.occurrencesAll more (Stmt.afterAll program .top)

namespace Session

variable {session : Session} {source first second : String}

/-! ## Reading without faults -/

/-- The source is scanned and parsed without faults. -/
def ReadsCleanly (session : Session) (source : String) : Prop :=
  (session.afterReading source).diagnostics.hadError = false

/-- The last token of the source, if there is one, closes a statement or block. -/
def Closes (session : Session) (source : String) : Prop :=
  ∀ token ∈ (textTokens session.words source).getLast?, Grammar.Closes token.kind

/-- A program that is not parsed has a fault. -/
theorem ne_nil_of_parse {mode : InputMode} {tokens : List Token} {nextId : NodeId}
    {faults : List (Located ParseFault)}
    (h : (CommandScript.parse mode tokens nextId).program = .error faults) : faults ≠ [] := by
  unfold CommandScript.parse at h
  split at h
  · split at h
    · cases h
    · rename_i hfaults
      obtain rfl := Except.error.inj h
      simpa using hfaults
  · obtain rfl := Except.error.inj h
    simp

theorem readsCleanly_iff :
    session.ReadsCleanly source ↔
      (scan session.words source).errors = [] ∧ ∃ program,
        (CommandScript.parse session.mode (scan session.words source).tokens
          session.nextId).program = .ok program := by
  have hlexed : ∀ errors : List (Located LexFault),
      (Diagnostics.empty.reportAll (errors.map (·.map Fault.lex))).hadError = false ↔
        errors = [] := by
    intro errors
    rw [Diagnostics.hadError_reportAll]
    cases errors <;> simp [Diagnostics.empty, Located.map, Fault.isRuntime]
  unfold ReadsCleanly afterReading read
  dsimp only
  cases hparsed : (CommandScript.parse session.mode (scan session.words source).tokens
    session.nextId).program with
  | ok program => simp [hlexed]
  | error faults =>
    obtain ⟨fault, rest, rfl⟩ := List.exists_cons_of_ne_nil (ne_nil_of_parse hparsed)
    simp [Diagnostics.hadError_reportAll, Located.map, Fault.isRuntime]

namespace ReadsCleanly

theorem errors (h : session.ReadsCleanly source) : (scan session.words source).errors = [] :=
  (readsCleanly_iff.mp h).1

/-- What is read is what is parsed, and there is nothing to report. -/
theorem parsed (h : session.ReadsCleanly source) :
    (CommandScript.parse session.mode (scan session.words source).tokens
        session.nextId).program = .ok (session.read source).1 ∧
      session.afterReading source =
        { session with
          nextId := (CommandScript.parse session.mode (scan session.words source).tokens
            session.nextId).nextId
          diagnostics := .empty } := by
  obtain ⟨herrors, program, hprogram⟩ := readsCleanly_iff.mp h
  unfold afterReading read
  simp only [hprogram, herrors]
  exact ⟨trivial, rfl⟩

/-- A source is accepted if its program is. -/
theorem accepted?_eq (h : session.ReadsCleanly source)
    (haccepted : Stmt.Accepted (session.read source).1) :
    session.accepted? source = some ((session.read source).1,
      (Stmt.occurrencesAll (session.read source).1 .top).filterMap Occurrence.recorded?) := by
  have hresolved := (resolve_eq_ok_iff (session.read_spec source).1).mpr ⟨haccepted, rfl⟩
  unfold accepted?
  rw [h, hresolved]
  rfl

theorem accepted (h : session.ReadsCleanly source)
    (haccepted : (session.accepted? source).isSome) : Stmt.Accepted (session.read source).1 := by
  unfold accepted? at haccepted
  rw [h] at haccepted
  cases hresolved : resolve (session.read source).1 with
  | ok distances => exact ((resolve_eq_ok_iff (session.read_spec source).1).mp hresolved).1
  | error faults =>
    rw [hresolved] at haccepted
    cases haccepted

end ReadsCleanly

section Congr

variable {other : Session} (hwords : other.words = session.words)
  (hmode : other.mode = session.mode) (hnextId : other.nextId = session.nextId)

include hwords hmode hnextId

/-- Reading looks at the words, the mode and the counter only. -/
theorem read_congr (source : String) :
    (other.read source).1 = (session.read source).1 ∧
      (other.afterReading source).diagnostics = (session.afterReading source).diagnostics := by
  obtain ⟨nextId, words, interpreter, diagnostics, mode⟩ := other
  obtain rfl : words = session.words := hwords
  obtain rfl : mode = session.mode := hmode
  obtain rfl : nextId = session.nextId := hnextId
  unfold afterReading read
  dsimp only
  split <;> exact ⟨rfl, rfl⟩

theorem accepted?_congr (source : String) : other.accepted? source = session.accepted? source := by
  obtain ⟨hprogram, hdiagnostics⟩ := read_congr hwords hmode hnextId source
  unfold accepted?
  rw [hprogram, hdiagnostics]

end Congr

/-! ## A joined source -/

section Joined

variable (hfirst : session.ReadsCleanly first)
  (hsecond : (session.afterReading first).ReadsCleanly second)
  (hcloses : session.Closes first)

include hfirst hsecond hcloses

theorem read_joined :
    session.ReadsCleanly (first ++ "\n" ++ second) ∧
      (session.read (first ++ "\n" ++ second)).1 =
        (session.read first).1 ++ Stmt.mapLinesAll (· + textEnd first)
          ((session.afterReading first).read second).1 ∧
      ∀ budget, session.idsDrawn (.run (first ++ "\n" ++ second) budget) =
        session.idsDrawn (.run first budget) +
          (session.afterReading first).idsDrawn (.run second budget) := by
  obtain ⟨hprogram, hafter⟩ := hfirst.parsed
  obtain ⟨hprogram', -⟩ := hsecond.parsed
  have herrors' := hsecond.errors
  have hclosed : ∀ error ∈ (scan session.words first).errors,
      error.cause ≠ .unterminatedString := by
    rw [hfirst.errors]
    exact fun _ hnil => by cases hnil
  have hdrawn : ∀ budget, (session.afterReading first).idsDrawn (.run second budget) =
      (CommandScript.parse session.mode (scan session.words second).tokens
        (CommandScript.parse session.mode (scan session.words first).tokens
          session.nextId).nextId).drawn := by
    intro budget
    rw [hafter]
    rfl
  generalize ((session.afterReading first).read second).1 = program' at hprogram' ⊢
  rw [hafter] at hprogram' herrors'
  obtain ⟨herrors, htokens, hend⟩ := scan_append_break hclosed second
  rw [hfirst.errors, herrors'] at herrors
  have hjoined : ∃ nextId, CommandScript.parse session.mode
      (scan session.words (first ++ "\n" ++ second)).tokens session.nextId =
        ⟨.ok ((session.read first).1 ++ Stmt.mapLinesAll (· + textEnd first) program'), nextId,
          session.idsDrawn (.run first 0) +
            (CommandScript.parse session.mode (scan session.words second).tokens
              (CommandScript.parse session.mode (scan session.words first).tokens
                session.nextId).nextId).drawn⟩ := by
    simp only [scan_tokens, idsDrawn] at hprogram hprogram' ⊢
    rw [htokens, hend]
    exact ⟨_, parse_append kind_of_mem_textTokens kind_of_mem_textTokens hcloses hprogram hprogram'⟩
  obtain ⟨nextId, hjoined⟩ := hjoined
  have hclean : session.ReadsCleanly (first ++ "\n" ++ second) :=
    readsCleanly_iff.mpr ⟨herrors, _, congrArg Parsed.program hjoined⟩
  refine ⟨hclean, ?_, fun budget => ?_⟩
  · exact Except.ok.inj (hclean.parsed.1.symm.trans (congrArg Parsed.program hjoined))
  · rw [hdrawn]
    exact congrArg Parsed.drawn hjoined

end Joined

/-- The programs of two sources that were accepted one after the other and joined. In the
joined source the second program stands on lines further down. -/
structure Parts (session : Session) (first second : String) (program program' : List Stmt)
    (down : Nat → Nat) : Prop where
  acceptedFirst : session.accepted? first =
    some (program, (Stmt.occurrencesAll program .top).filterMap Occurrence.recorded?)
  acceptedSecond : (session.afterReading first).accepted? second =
    some (program', (Stmt.occurrencesAll program' .top).filterMap Occurrence.recorded?)
  acceptedJoined : session.accepted? (first ++ "\n" ++ second) =
    some (program ++ Stmt.mapLinesAll down program',
      (Stmt.occurrencesAll program .top).filterMap Occurrence.recorded? ++
        (Stmt.occurrencesBehind program (Stmt.mapLinesAll down program')).filterMap
          Occurrence.recorded?)
  paired : ∃ earlier, List.Forall₂ (Occurrence.Over earlier) (Stmt.occurrencesAll program' .top)
    (Stmt.occurrencesBehind program (Stmt.mapLinesAll down program'))
  idsDrawn : session.idsDrawn (.run (first ++ "\n" ++ second) 0) =
    session.idsDrawn (.run first 0) + (session.afterReading first).idsDrawn (.run second 0)
  reportedFirst : (session.afterReading first).diagnostics = .empty
  reportedSecond : ((session.afterReading first).afterReading second).diagnostics = .empty
  reportedJoined : (session.afterReading (first ++ "\n" ++ second)).diagnostics = .empty

/-- The parts of a joined source that is accepted are accepted. -/
theorem exists_parts (hfirst : session.ReadsCleanly first)
    (hsecond : (session.afterReading first).ReadsCleanly second)
    (hcloses : session.Closes first)
    (haccepted : (session.accepted? (first ++ "\n" ++ second)).isSome) :
    ∃ program program' down, session.Parts first second program program' down := by
  obtain ⟨hclean, hread, hdrawn⟩ := read_joined hfirst hsecond hcloses
  have hprogram := hclean.accepted haccepted
  have hjoined := hclean.accepted?_eq hprogram
  rw [hread] at hprogram hjoined
  obtain ⟨hfirst', hsecond', hover⟩ :=
    hprogram.of_append ((session.afterReading first).read_spec second).1
  rw [Stmt.occurrencesAll_append, List.filterMap_append] at hjoined
  exact ⟨_, _, _, hfirst.accepted?_eq hfirst', hsecond.accepted?_eq hsecond', hjoined, hover,
    hdrawn 0, congrArg diagnostics hfirst.parsed.2, congrArg diagnostics hsecond.parsed.2,
    congrArg diagnostics hclean.parsed.2⟩

end Session

end CommandScript
