import CommandScript.Fault
import CommandScript.Syntax

/-!
# Grammar rules

A rule reads tokens from the front of a cursor. It ends with a result or with the fault
that stopped it; faults that do not stop a rule are recorded on the way. Whatever
happens, the cursor only moves forward. This makes every repetition end, since each
further pass must have read a token.

The cursor sees the tokens before the first end-of-input token; that token itself, or
one on line 0 when there is none, is seen ever after.

* `Cursor.LeadsTo`: a cursor that has moved forward, and how far.
* `Rule.advances`: every rule moves the cursor forward.
* `Rule.repeated`: passes of a rule as long as it asks for another one.
* `Rule.recover`: a rule whose fault is recorded and followed by `resume`.
-/

namespace CommandScript.Grammar

structure Cursor where
  rest : List Token
  /-- The number of tokens read so far. -/
  read : Nat
  last : Token
  firstId : NodeId
  /-- The number of node ids drawn so far, from `firstId` on. -/
  drawn : Nat
  faults : Array (Located ParseFault)

namespace Cursor

def ofTokens (tokens : List Token) (nextId : NodeId) : Cursor where
  rest := tokens.takeWhile (·.kind ≠ .endOfInput)
  read := 0
  last := (tokens.find? (·.kind = .endOfInput)).getD (Token.endOfInput 0)
  firstId := nextId
  drawn := 0
  faults := #[]

/-- The node id that is drawn next. -/
def nextId (cursor : Cursor) : NodeId := cursor.firstId + UInt32.ofNat cursor.drawn

/-- The token that the cursor stands on. -/
def peek (cursor : Cursor) : Token := cursor.rest.headD cursor.last

/-- The cursor `after` has read some more tokens than the cursor `before`. On the way it
may have drawn ids and recorded faults. -/
structure LeadsTo (before after : Cursor) : Prop where
  last : after.last = before.last
  firstId : after.firstId = before.firstId
  drawn : before.drawn ≤ after.drawn
  faults : before.faults.toList <+: after.faults.toList
  taken : ∃ taken, before.rest = taken ++ after.rest ∧ after.read = before.read + taken.length

theorem LeadsTo.refl (cursor : Cursor) : cursor.LeadsTo cursor where
  last := rfl
  firstId := rfl
  drawn := Nat.le_refl _
  faults := List.prefix_rfl
  taken := ⟨[], rfl, rfl⟩

theorem LeadsTo.trans {a b c : Cursor} (hab : a.LeadsTo b) (hbc : b.LeadsTo c) :
    a.LeadsTo c where
  last := hbc.last.trans hab.last
  firstId := hbc.firstId.trans hab.firstId
  drawn := Nat.le_trans hab.drawn hbc.drawn
  faults := hab.faults.trans hbc.faults
  taken := by
    obtain ⟨s, hs, hn⟩ := hab.taken
    obtain ⟨t, ht, hm⟩ := hbc.taken
    refine ⟨s ++ t, ?_, ?_⟩
    · rw [hs, ht, List.append_assoc]
    · rw [hm, hn, List.length_append, Nat.add_assoc]

theorem LeadsTo.suffix {before after : Cursor} (h : before.LeadsTo after) :
    after.rest <:+ before.rest := by
  obtain ⟨taken, ht, _⟩ := h.taken
  exact ⟨taken, ht.symm⟩

/-- A cursor that has read a token has fewer left. -/
theorem LeadsTo.length_lt {before after : Cursor} (h : before.LeadsTo after)
    (hread : before.read < after.read) : after.rest.length < before.rest.length := by
  obtain ⟨taken, ht, hn⟩ := h.taken
  rw [ht, List.length_append]
  omega

end Cursor

structure Rule (α : Type) where
  run : Cursor → Except (Located ParseFault) α × Cursor
  advances : ∀ cursor : Cursor, cursor.LeadsTo (run cursor).2

namespace Rule

variable {α β : Type}

instance : Monad Rule where
  pure a := ⟨fun cursor => (.ok a, cursor), Cursor.LeadsTo.refl⟩
  bind rule next :=
    { run := fun cursor =>
        match rule.run cursor with
        | (.ok a, after) => (next a).run after
        | (.error fault, after) => (.error fault, after)
      advances := fun cursor => by
        have h := rule.advances cursor
        split <;> rename_i heq <;> rw [heq] at h
        · exact h.trans ((next _).advances _)
        · exact h }

theorem run_pure (a : α) (cursor : Cursor) : (pure a : Rule α).run cursor = (.ok a, cursor) :=
  rfl

theorem run_bind (rule : Rule α) (next : α → Rule β) (cursor : Cursor) :
    (rule >>= next).run cursor =
      match rule.run cursor with
      | (.ok a, after) => (next a).run after
      | (.error fault, after) => (.error fault, after) := rfl

/-! ## Single steps -/

def fail (fault : Located ParseFault) : Rule α :=
  ⟨fun cursor => (.error fault, cursor), Cursor.LeadsTo.refl⟩

/-- Records a fault and goes on. -/
def record (fault : Located ParseFault) : Rule Unit :=
  ⟨fun cursor => (.ok (), { cursor with faults := cursor.faults.push fault }),
    fun cursor => { Cursor.LeadsTo.refl cursor with faults := by simp }⟩

def peek : Rule Token := ⟨fun cursor => (.ok cursor.peek, cursor), Cursor.LeadsTo.refl⟩

/-- Reads the token that the cursor stands on; the end of the input is never passed. -/
def skip : Rule Unit where
  run cursor :=
    match cursor.rest with
    | [] => (.ok (), cursor)
    | _ :: rest => (.ok (), { cursor with rest := rest, read := cursor.read + 1 })
  advances cursor := by
    split
    · exact .refl cursor
    · rename_i token rest h
      exact { Cursor.LeadsTo.refl cursor with taken := ⟨[token], h, rfl⟩ }

def atEnd : Rule Bool :=
  ⟨fun cursor => (.ok cursor.rest.isEmpty, cursor), Cursor.LeadsTo.refl⟩

def freshId : Rule NodeId :=
  ⟨fun cursor => (.ok cursor.nextId, { cursor with drawn := cursor.drawn + 1 }),
    fun cursor => { Cursor.LeadsTo.refl cursor with drawn := Nat.le_succ _ }⟩

def check (kind : TokenKind) : Rule Bool := do
  return (← peek).kind = kind

/-- Reads the next token if it is of the given kind. -/
def accept? (kind : TokenKind) : Rule (Option Token) := do
  let token ← peek
  if token.kind = kind then
    skip
    return some token
  else return none

def accept (kind : TokenKind) : Rule Bool := do
  return (← accept? kind).isSome

/-- The fault of a token that is not what the grammar asks for. -/
def expected (what : String) : Rule α := do
  let token ← peek
  if token.kind = .endOfInput then fail ⟨.unexpectedEnd what, token.line⟩
  else fail ⟨.expected what token.lexeme, token.line⟩

def require (kind : TokenKind) (what : String) : Rule Token := do
  match ← accept? kind with
  | some token => return token
  | none => expected what

/-! ## Repetition and recovery -/

/-- How a pass of a repetition ends: another pass is wanted, or this was the last. -/
inductive Pass (α : Type) where
  | again (state : α)
  | last (state : α)

/-- Runs `pass` on an accumulator as long as it asks for another pass. A pass that asks
for another one without having read a token is the last. -/
def runRepeated (pass : α → Rule (Pass α)) (state : α) (cursor : Cursor) :
    Except (Located ParseFault) α × Cursor :=
  match _h : (pass state).run cursor with
  | (.error fault, after) => (.error fault, after)
  | (.ok (.last final), after) => (.ok final, after)
  | (.ok (.again next), after) =>
    if cursor.read < after.read then runRepeated pass next after else (.ok next, after)
termination_by cursor.rest.length
decreasing_by
  have h := (pass state).advances cursor
  rw [_h] at h
  exact h.length_lt ‹_›

theorem runRepeated_leadsTo (pass : α → Rule (Pass α)) (state : α) (cursor : Cursor) :
    cursor.LeadsTo (runRepeated pass state cursor).2 := by
  have h := (pass state).advances cursor
  rw [runRepeated]
  split <;> rename_i heq <;> rw [heq] at h
  · exact h
  · exact h
  · split
    · rename_i hread
      have := h.length_lt hread
      exact h.trans (runRepeated_leadsTo pass _ _)
    · exact h
termination_by cursor.rest.length

def repeated (pass : α → Rule (Pass α)) (state : α) : Rule α :=
  ⟨runRepeated pass state, runRepeated_leadsTo pass state⟩

theorem run_repeated (pass : α → Rule (Pass α)) (state : α) (cursor : Cursor) :
    (repeated pass state).run cursor =
      match (pass state).run cursor with
      | (.error fault, after) => (.error fault, after)
      | (.ok (.last final), after) => (.ok final, after)
      | (.ok (.again next), after) =>
        if cursor.read < after.read then (repeated pass next).run after
        else (.ok next, after) := by
  simp only [repeated]
  rw [runRepeated]
  split <;> rename_i heq <;> rw [heq]

/-- Items separated by commas, at least one. An item beyond `maxItems` is reported
where it starts, once, and read all the same. -/
def separated (maxItems : Nat) (tooMany : ParseFault) (item : Rule α) : Rule (List α) := do
  let first ← item
  let items ← repeated (fun (items : Array α) => do
    if ← accept .comma then
      if items.size = maxItems then record ⟨tooMany, (← peek).line⟩
      return .again (items.push (← item))
    else return .last items) #[first]
  return items.toList

end Rule

/-- The kinds of tokens at which reading can start again after a fault. -/
def startsStatement : TokenKind → Bool
  | .funWord | .varWord | .forWord | .ifWord | .whileWord | .printWord | .returnWord
  | .command => true
  | _ => false

/-- What is left after a fault, and how many tokens were read up to there: at least one
token is dropped, then all up to a `;`, which is dropped too, or up to a token that starts
a statement. -/
def resume (read : Nat) : List Token → Nat × List Token
  | [] => (read, [])
  | [_] => (read + 1, [])
  | token :: next :: rest =>
    if token.kind = .semicolon || startsStatement next.kind then (read + 1, next :: rest)
    else resume (read + 1) (next :: rest)

theorem resume_eq (read : Nat) (tokens : List Token) :
    ∃ taken, tokens = taken ++ (resume read tokens).2 ∧
      (resume read tokens).1 = read + taken.length := by
  fun_induction resume read tokens with
  | case1 read => exact ⟨[], rfl, rfl⟩
  | case2 read token => exact ⟨[token], rfl, rfl⟩
  | case3 read token next rest _ => exact ⟨[token], rfl, rfl⟩
  | case4 read token next rest _ ih =>
    obtain ⟨taken, ht, hn⟩ := ih
    refine ⟨token :: taken, ?_, ?_⟩
    · rw [List.cons_append, ← ht]
    · rw [hn, List.length_cons]
      omega

/-- Turns a fault into a recorded one and continues after it. -/
def Rule.recover {α : Type} (rule : Rule α) : Rule (Option α) where
  run cursor :=
    match rule.run cursor with
    | (.ok a, after) => (.ok (some a), after)
    | (.error fault, after) =>
      let (read, rest) := resume after.read after.rest
      (.ok none, { after with rest, read, faults := after.faults.push fault })
  advances cursor := by
    have h := rule.advances cursor
    split <;> rename_i heq <;> rw [heq] at h
    · exact h
    · exact h.trans
        { Cursor.LeadsTo.refl _ with faults := by simp, taken := resume_eq _ _ }

end CommandScript.Grammar
