import CommandScript.Proofs.Grammar.Joining
import CommandScript.Proofs.Grammar.Locality
import CommandScript.Proofs.Grammar.Programs
import CommandScript.Proofs.Grammar.Shifting
import Mathlib.Data.List.TakeWhile

/-!
# Reading one program behind another

Two programs one behind the other are read as each of them alone, whether they have faults
or not: the faults of the first come before those of the second, and if there are none, the
statements of the first before those of the second. The first program must end where one of
its statements does. If it has faults, that is known of flat tokens that end with a `;`,
because every fault comes before the `;` of its statement, and recovery drops nothing behind
the last one.

* `exists_run_program`: reading a program to its end, in all surroundings.
* `EndsByItself`: what may stand before other tokens.
* `parse_joined`: reading one program behind another.
-/

namespace CommandScript

/-- The faults that were met, none if there is a program. -/
def Parsed.faults (parsed : Parsed) : List (Located ParseFault) :=
  match parsed.program with
  | .ok _ => []
  | .error faults => faults

namespace Grammar

open Rule Surroundings

/-! ## One declaration -/

/-- Recovery drops a token if one is left. -/
theorem read_resume {read : Nat} {tokens : List Token} (h : tokens ≠ []) :
    read < (resume read tokens).1 := by
  fun_induction resume read tokens with
  | case1 read => exact absurd rfl h
  | case2 read token => exact Nat.lt_succ_self read
  | case3 read token next rest _ => exact Nat.lt_succ_self read
  | case4 read token next rest _ ih =>
    exact Nat.lt_trans (Nat.lt_succ_self read) (ih (List.cons_ne_nil _ _))

/-- A rule that cannot succeed without reading a token reads one with its recovery. -/
theorem exists_recover {α : Type} {rule : Rule α} (h : rule.Consumes) {cursor : Cursor}
    (hcursor : cursor.Bounded) (hrest : cursor.rest ≠ []) :
    ∃ found after, rule.recover.run cursor = (.ok found, after) ∧ cursor.read < after.read := by
  unfold recover
  dsimp only
  generalize hrun : rule.run cursor = outcome
  obtain ⟨result, after⟩ := outcome
  cases result with
  | ok a => exact ⟨some a, after, rfl, h cursor a after hcursor hrun⟩
  | error fault =>
    refine ⟨none, _, rfl, ?_⟩
    dsimp only
    obtain ⟨taken, htaken, hread⟩ := (leadsTo_of_run hrun).taken
    obtain ⟨dropped, -, hdropped⟩ := resume_eq after.read after.rest
    by_cases hafter : after.rest = []
    · rw [hafter, List.append_nil] at htaken
      have hpos := List.length_pos_iff.mpr (htaken ▸ hrest)
      omega
    · have hmore : after.read < (resume after.read after.rest).1 := read_resume hafter
      omega

section Declarations

variable {inner : Nested} {body : Array Stmt} {cursor after : Cursor}

/-- A declaration always reads a token, also if it has a fault. -/
theorem exists_declaration (h : inner.statement.Consumes) (hcursor : cursor.Bounded)
    (hrest : cursor.rest ≠ []) :
    ∃ found after, (declaration inner).run cursor = (.ok found, after) ∧
      cursor.read < after.read :=
  exists_recover (consumes_declared h) hcursor hrest

theorem run_repeated_of_found (h : cursor.rest ≠ []) {found : Option Stmt}
    (hrun : (declaration inner).run cursor = (.ok found, after))
    (hread : cursor.read < after.read) :
    (repeated (pass inner) body).run cursor =
      (repeated (pass inner) (found.elim body body.push)).run after := by
  have hpass : (pass inner body).run cursor =
      (.ok (.again (found.elim body body.push)), after) := by
    rw [run_pass_of_ne_nil h, run_bind_of_ok hrun]
    cases found <;> rfl
  rw [run_repeated, hpass]
  exact if_pos hread

/-- A program is read to its end. The same is read of it in surroundings, up to what comes
behind. -/
theorem exists_run_program {around : Surroundings} (hlocal : inner.Local around)
    (hconsumes : inner.statement.Consumes) (body : Array Stmt) (hadmits : around.Admits cursor) :
    ∃ final after, (repeated (pass inner) body).run cursor = (.ok final, after) ∧
      after.rest = [] ∧ ∀ before,
        (repeated (pass inner) (before ++ body)).run (cursor.within around) =
          (repeated (pass inner) (before ++ final)).run (after.within around) := by
  induction hlength : cursor.rest.length using Nat.strongRecOn generalizing body cursor with
  | _ length ih =>
    subst hlength
    by_cases hnil : cursor.rest = []
    · exact ⟨body, cursor, run_repeated_of_nil hnil, hnil, fun _ => rfl⟩
    · obtain ⟨found, next, hrun, hread⟩ := exists_declaration hconsumes hadmits.bounded hnil
      have hthere := (local_declaration hlocal cursor hadmits (.inr hnil)).there
      rw [hrun] at hthere
      have hleads := leadsTo_of_run hrun
      obtain ⟨final, after, hfinal, hempty, hrest⟩ :=
        ih _ (hleads.length_lt hread) (found.elim body body.push) (hadmits.later hleads) rfl
      refine ⟨final, after, ?_, hempty, fun before => ?_⟩
      · rw [run_repeated_of_found hnil hrun hread, hfinal]
      · have hmore : (cursor.within around).rest ≠ [] :=
          List.append_ne_nil_of_left_ne_nil hnil _
        have hread' : (cursor.within around).read < (next.within around).read :=
          Nat.add_lt_add_right hread _
        rw [run_repeated_of_found hmore hthere hread', ← hrest before]
        congr 2
        cases found <;> simp

end Declarations

end Grammar

open Grammar Rule Surroundings

variable {mode : InputMode}

/-- What a run of a program says of the program. -/
theorem parse_eq_of_run {tokens : List Token} {nextId : NodeId} {final : Array Stmt}
    {after : Cursor} (h : (repeated (pass (nested mode maxNesting)) #[]).run
      (Cursor.ofTokens tokens nextId) = (.ok final, after)) :
    parse mode tokens nextId = ⟨if after.faults.isEmpty then .ok final.toList
      else .error after.faults.toList, after.nextId, after.drawn⟩ := by
  have hprogram : (program mode).run (Cursor.ofTokens tokens nextId) =
      (.ok final.toList, after) := run_bind_of_ok h
  unfold parse
  rw [hprogram]
  dsimp only
  split <;> rfl

/-- The faults of a program are those that have been recorded when it is read. -/
theorem faults_of_program {tokens : List Token} {nextId : NodeId} {stmts : List Stmt}
    {after : Cursor} (h : (program mode).run (Cursor.ofTokens tokens nextId) = (.ok stmts, after)) :
    (parse mode tokens nextId).faults = after.faults.toList := by
  unfold parse Parsed.faults
  rw [h]
  dsimp only
  by_cases hempty : after.faults.isEmpty
  · rw [if_pos hempty, Array.isEmpty_iff.mp hempty]
  · rw [if_neg hempty]

theorem faults_of_run {tokens : List Token} {nextId : NodeId} {final : Array Stmt}
    {after : Cursor} (h : (repeated (pass (nested mode maxNesting)) #[]).run
      (Cursor.ofTokens tokens nextId) = (.ok final, after)) :
    (parse mode tokens nextId).faults = after.faults.toList :=
  faults_of_program (run_bind_of_ok h)

/-- Faults do not depend on the ids. -/
theorem faults_parse (tokens : List Token) (nextId other : NodeId) :
    (parse mode tokens nextId).faults = (parse mode tokens other).faults := by
  have hsame (further : NodeId) :
      (parse mode tokens (0 + further)).faults = (parse mode tokens 0).faults := by
    rw [parse_add]
    unfold Parsed.faults
    cases (parse mode tokens 0).program <;> rfl
  have hnext := hsame nextId
  have hother := hsame other
  rw [UInt32.zero_add] at hnext hother
  exact hnext.trans hother.symm

theorem Grammar.Cursor.ofTokens_eq {tokens : List Token}
    (hkinds : ∀ token ∈ tokens, token.kind ≠ .endOfInput) (nextId : NodeId) :
    Cursor.ofTokens tokens nextId = ⟨tokens, 0, .endOfInput 0, nextId, 0, #[]⟩ := by
  have htake : tokens.takeWhile (·.kind ≠ .endOfInput) = tokens :=
    List.takeWhile_eq_self_iff.mpr (by simpa using hkinds)
  have hfind : tokens.find? (·.kind = .endOfInput) = none :=
    List.find?_eq_none.mpr (by simpa using hkinds)
  simp only [Cursor.ofTokens, htake, hfind, Option.getD_none]

section Programs

variable {first second : List Token} {nextId : NodeId}

/-- What may stand before other tokens: a program without faults that ends where a statement
or a block does, or flat tokens that end with a `;`. -/
def EndsByItself (mode : InputMode) (tokens : List Token) : Prop :=
  ((∃ nextId program, (parse mode tokens nextId).program = .ok program) ∧
    ∀ token ∈ tokens.getLast?, Closes token.kind) ∨
  (∀ token ∈ tokens, token.kind.Flat) ∧ ∀ token ∈ tokens.getLast?, token.kind = .semicolon

/-- The first program is read to its end, also when the second comes behind it. -/
def ReadsFirst (mode : InputMode) (first second : List Token) (nextId : NodeId) : Prop :=
  ∃ final after, (repeated (pass (nested mode maxNesting)) #[]).run
      (Cursor.ofTokens first nextId) = (.ok final, after) ∧ after.rest = [] ∧
    (repeated (pass (nested mode maxNesting)) #[]).run
        (Cursor.ofTokens (first ++ second) nextId) =
      (repeated (pass (nested mode maxNesting)) final).run (after.within (.followedBy second))

theorem Grammar.Cursor.ofTokens_joined (hfirst : ∀ token ∈ first, token.kind ≠ .endOfInput)
    (hsecond : ∀ token ∈ second, token.kind ≠ .endOfInput) (nextId : NodeId) :
    Cursor.ofTokens (first ++ second) nextId =
      (Cursor.ofTokens first nextId).within (.followedBy second) := by
  have hboth := List.forall_mem_append.mpr ⟨hfirst, hsecond⟩
  rw [Cursor.ofTokens_eq hfirst, Cursor.ofTokens_eq hboth]
  simp [Cursor.within, Surroundings.followedBy]

/-- Without faults only the last token of the first program matters. -/
theorem readsFirst_of_parse (hfirst : ∀ token ∈ first, token.kind ≠ .endOfInput)
    (hsecond : ∀ token ∈ second, token.kind ≠ .endOfInput)
    (helse : ∀ token ∈ second.head?, token.kind ≠ .elseWord) {program : List Stmt}
    (hparse : (parse mode first nextId).program = .ok program)
    (hcloses : ∀ token ∈ first.getLast?, Closes token.kind) :
    ReadsFirst mode first second nextId := by
  have hwithin := Cursor.ofTokens_joined hfirst hsecond nextId
  obtain ⟨final, after, hrun, hfaults, -⟩ := exists_run_of_parse hparse
  let joined : Splice := ⟨id, second, False, 0, 0⟩
  have hfollows : joined.Follows (Cursor.ofTokens first nextId)
      (Cursor.ofTokens (first ++ second) nextId) := by
    rw [hwithin, Cursor.ofTokens_eq hfirst]
    refine ⟨?_, False.elim, rfl, rfl, ?_, rfl, rfl, rfl, fun _ => hcloses⟩
    · exact congrArg (· ++ _) (List.map_id first).symm
    · exact Cursor.nextId_within _ _
  have helse' : NoElse joined := helse
  obtain ⟨middle, hmiddle, hempty, hleads, hjoined⟩ :=
    run_joined rfl helse' hfollows hrun hfaults
  have hsame : middle = after.within (.followedBy second) := by
    have hrest : middle.rest = after.rest ++ second := by
      rw [hmiddle.rest, hempty]
      rfl
    have hlead := leadsTo_of_run hrun
    have hlast : middle.last = after.last := by
      rw [hleads.last, hlead.last, hwithin]
      rfl
    have hfirstId : middle.firstId = after.firstId - 0 := by
      rw [hleads.firstId, hlead.firstId, hwithin]
      rfl
    have hnone : middle.faults = #[] ++ after.faults := by
      rw [hmiddle.faults, hfaults]
      rfl
    have hread : middle.read = after.read + 0 := hmiddle.read
    have hdrawn : middle.drawn = after.drawn + 0 := hmiddle.drawn
    obtain ⟨rest, read, last, firstId, drawn, faults⟩ := middle
    rw [Cursor.within, Cursor.mk.injEq]
    exact ⟨hrest, hread, hlast, hfirstId, hdrawn, hnone⟩
  exact ⟨final, after, hrun, hempty, hsame ▸ hjoined⟩

/-- Flat tokens may have faults, since recovery stops at their last `;`. -/
theorem readsFirst_of_flat (hfirst : ∀ token ∈ first, token.kind ≠ .endOfInput)
    (hsecond : ∀ token ∈ second, token.kind ≠ .endOfInput)
    (helse : ∀ token ∈ second.head?, token.kind ≠ .elseWord)
    (hflat : ∀ token ∈ first, token.kind.Flat)
    (hclosed : ∀ token ∈ first.getLast?, token.kind = .semicolon) :
    ReadsFirst mode first second nextId := by
  have helse' : (Surroundings.followedBy second).NoElse := helse
  have hadmits : (Surroundings.followedBy second).Admits (Cursor.ofTokens first nextId) := by
    refine ⟨Cursor.bounded_ofTokens first nextId, .inr ?_, .inr ?_⟩
    · rw [Cursor.ofTokens_eq hfirst]
      exact hflat
    · rw [Cursor.ofTokens_eq hfirst]
      exact hclosed
  obtain ⟨final, after, hrun, hempty, hthere⟩ := exists_run_program
    (local_nested helse' mode maxNesting) (consumes_statement _ _) #[] hadmits
  refine ⟨final, after, hrun, hempty, ?_⟩
  have hboth := hthere #[]
  rwa [Array.empty_append, Array.empty_append,
    ← Cursor.ofTokens_joined hfirst hsecond nextId] at hboth

theorem EndsByItself.readsFirst (h : EndsByItself mode first)
    (hfirst : ∀ token ∈ first, token.kind ≠ .endOfInput)
    (hsecond : ∀ token ∈ second, token.kind ≠ .endOfInput)
    (helse : ∀ token ∈ second.head?, token.kind ≠ .elseWord) (nextId : NodeId) :
    ReadsFirst mode first second nextId := by
  obtain ⟨⟨other, program, hprogram⟩, hcloses⟩ | ⟨hflat, hclosed⟩ := h
  · -- whether there are faults does not depend on the ids
    have hparse : (parse mode first nextId).program =
        .ok (Stmt.relabelAll (shift (nextId - other)) program) := by
      have hadd := parse_add mode first other (nextId - other)
      rw [UInt32.add_comm, UInt32.sub_add_cancel, hprogram] at hadd
      rw [hadd]
      rfl
    exact readsFirst_of_parse hfirst hsecond helse hparse hcloses
  · exact readsFirst_of_flat hfirst hsecond helse hflat hclosed

/-- What the cursor stands before is read as a program of its own, from its next id on. -/
theorem exists_run_behind {cursor : Cursor} (body : Array Stmt)
    (hrest : cursor.rest = (Cursor.ofTokens second cursor.nextId).rest)
    (hlast : cursor.last = (Cursor.ofTokens second cursor.nextId).last) :
    ∃ more last, (repeated (pass (nested mode maxNesting)) #[]).run
        (Cursor.ofTokens second cursor.nextId) = (.ok more, last) ∧
      (repeated (pass (nested mode maxNesting)) body).run cursor =
        (.ok (body ++ more), last.within ⟨[], cursor.read, cursor.drawn, cursor.faults⟩) := by
  let around : Surroundings := ⟨[], cursor.read, cursor.drawn, cursor.faults⟩
  have hplace : (Cursor.ofTokens second cursor.nextId).within around = cursor := by
    obtain ⟨rest, read, last, firstId, drawn, faults⟩ := cursor
    rw [Cursor.within, Cursor.mk.injEq]
    exact ⟨(List.append_nil _).trans hrest.symm, Nat.zero_add _, hlast.symm,
      UInt32.add_sub_cancel .., Nat.zero_add _, Array.append_empty⟩
  have helse : around.NoElse := by
    intro token htoken
    cases htoken
  have hadmits : around.Admits (Cursor.ofTokens second cursor.nextId) :=
    ⟨Cursor.bounded_ofTokens _ _, .inl rfl, .inl rfl⟩
  obtain ⟨more, last, hrun, hnone, hthere⟩ := exists_run_program
    (local_nested helse mode maxNesting) (consumes_statement _ _) #[] hadmits
  refine ⟨more, last, hrun, ?_⟩
  have hboth := hthere body
  have hend : (last.within around).rest = [] := by
    rw [Cursor.within, hnone]
    rfl
  rwa [Array.append_empty, run_repeated_of_nil hend, hplace] at hboth

/-- Reading the second program behind the first. -/
theorem exists_run_second (hsecond : ∀ token ∈ second, token.kind ≠ .endOfInput)
    {final : Array Stmt} {after : Cursor} (hempty : after.rest = [])
    (hlast : after.last = .endOfInput 0) :
    ∃ more last, (repeated (pass (nested mode maxNesting)) #[]).run
        (Cursor.ofTokens second after.nextId) = (.ok more, last) ∧
      (repeated (pass (nested mode maxNesting)) final).run (after.within (.followedBy second)) =
        (.ok (final ++ more), last.within ⟨[], after.read, after.drawn, after.faults⟩) := by
  have hplace : (after.within (.followedBy second)).rest =
        (Cursor.ofTokens second after.nextId).rest ∧
      after.last = (Cursor.ofTokens second after.nextId).last := by
    rw [Cursor.ofTokens_eq hsecond, hlast, Cursor.within, hempty]
    exact ⟨rfl, rfl⟩
  have hnext := Cursor.nextId_within (.followedBy second) after
  rw [← hnext] at hplace ⊢
  obtain ⟨more, last, hrun, hthere⟩ := exists_run_behind final hplace.1 hplace.2
  refine ⟨more, last, hrun, hthere.trans ?_⟩
  simp [Cursor.within, Surroundings.followedBy]

/-- **Reading composes.** The faults of two programs one behind the other are those of the
first and then those of the second, read alone. If there are none, the statements are those
of the first and then those of the second, whose ids are drawn behind those of the first. -/
theorem parse_joined (mode : InputMode) {first second : List Token} (nextId other : NodeId)
    (hfirst : ∀ token ∈ first, token.kind ≠ .endOfInput)
    (hsecond : ∀ token ∈ second, token.kind ≠ .endOfInput)
    (helse : ∀ token ∈ second.head?, token.kind ≠ .elseWord) (h : EndsByItself mode first) :
    let before := parse mode first nextId
    let behind := parse mode second before.nextId
    let both := parse mode (first ++ second) nextId
    both.faults = before.faults ++ (parse mode second other).faults ∧
      (both.faults = [] → ∃ program more, before.program = .ok program ∧
        behind.program = .ok more ∧
        both = ⟨.ok (program ++ more), behind.nextId, before.drawn + behind.drawn⟩) := by
  intro before behind both
  obtain ⟨final, after, hrun, hempty, hboth⟩ := h.readsFirst hfirst hsecond helse nextId
  have hlast : after.last = .endOfInput 0 := by
    rw [(leadsTo_of_run hrun).last, Cursor.ofTokens_eq hfirst]
  obtain ⟨more, last, hmore, hend⟩ := exists_run_second hsecond hempty hlast
  rw [hend] at hboth
  have hnext : before.nextId = after.nextId := congrArg Parsed.nextId (parse_eq_of_run hrun)
  rw [← hnext] at hmore
  have hbefore : before.faults = after.faults.toList := faults_of_run hrun
  have hbehind : behind.faults = last.faults.toList := faults_of_run hmore
  have hfaults : both.faults = before.faults ++ behind.faults := by
    rw [hbefore, hbehind, ← Array.toList_append]
    exact faults_of_run hboth
  refine ⟨hfaults.trans (congrArg _ (faults_parse second _ other)), fun hnone => ?_⟩
  obtain ⟨hnone, hnone'⟩ := List.append_eq_nil_iff.mp (hfaults.symm.trans hnone)
  rw [hbefore, Array.toList_eq_nil_iff] at hnone
  rw [hbehind, Array.toList_eq_nil_iff] at hnone'
  have hfirstRun : before = ⟨.ok final.toList, after.nextId, after.drawn⟩ :=
    parse_of_run hrun hnone
  have hsecondRun : behind = ⟨.ok more.toList, last.nextId, last.drawn⟩ :=
    parse_of_run hmore hnone'
  refine ⟨final.toList, more.toList, congrArg _ hfirstRun, congrArg _ hsecondRun, ?_⟩
  have hbothRun := parse_of_run hboth (by rw [Cursor.within, hnone, hnone']; rfl)
  have hdrawn : (last.within ⟨[], after.read, after.drawn, after.faults⟩).drawn =
      after.drawn + last.drawn := Nat.add_comm ..
  rw [Cursor.nextId_within, Array.toList_append, hdrawn] at hbothRun
  rw [hfirstRun, hsecondRun]
  exact hbothRun

/-- What is wrong with `print ;` says nothing about the `a;` behind it. -/
theorem parse_joined_of_fault :
    let mark (kind : TokenKind) (text : String) : Token := ⟨kind, text, none, 1⟩
    let first := [mark .printWord "print", mark .semicolon ";"]
    let second := [mark .identifier "a", mark .semicolon ";"]
    let both := parse .script (first ++ second) 0
    EndsByItself .script first ∧
      both.faults = (parse .script first 0).faults ++ (parse .script second 0).faults := by
  intro mark first second both
  have hends : EndsByItself .script first := .inr ⟨by decide, by decide⟩
  exact ⟨hends, (parse_joined .script 0 0 (by decide) (by decide) (by decide) hends).1⟩

end Programs

end CommandScript
