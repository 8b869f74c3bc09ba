import CommandScript.Proofs.Grammar.Acceptance
import CommandScript.Proofs.Grammar.Structure
import CommandScript.Proofs.Resolution.Table

/-!
# Ids over several programs

Sources are parsed one after the other with one counter of node ids. Whatever becomes of a
source, the next one starts where the counter was left, so the ids handed out over all sources
are one run of consecutive ids. As long as the counter does not come round they ascend, and
the references of all programs have ids of their own.

* `Turn`, `turns`: a source that is parsed when the counter stands at an id, and sources that
  are parsed in turn.
* `flatMap_handedOut`: the ids handed out over all sources.
* `nodup_nodeIds`: no id belongs to two references.
* `ascending_handedOut`: later sources have greater ids.
-/

namespace CommandScript

open Grammar (Cursor)

/-- What is to be parsed. -/
structure Source where
  mode : InputMode
  tokens : List Token

/-- A source that is parsed when the counter of ids stands at `first`. -/
structure Turn where
  source : Source
  first : NodeId

namespace Turn

def parsed (turn : Turn) : Parsed := parse turn.source.mode turn.source.tokens turn.first

/-- The ids that are handed out, whether or not a program comes of the source. -/
def handedOut (turn : Turn) : List NodeId := Cursor.idsFrom turn.first turn.parsed.drawn

/-- The ids of the variables and assignments of the program, if there is one. -/
def nodeIds (turn : Turn) : List NodeId :=
  match turn.parsed.program with
  | .ok program => (Stmt.referencesAll program).map Reference.id
  | .error _ => []

end Turn

/-- The sources in turn, the first of them when the counter stands at `first`. -/
def turns : NodeId → List Source → List Turn
  | _, [] => []
  | first, source :: rest => ⟨source, first⟩ :: turns (Turn.mk source first).parsed.nextId rest

/-! ## Consecutive ids -/

namespace Grammar.Cursor

variable {count more : Nat}

theorem toNat_add_ofNat (hsmall : count + more < 2 ^ 32) :
    (UInt32.ofNat count + UInt32.ofNat more).toNat = count + more := by
  rw [← UInt32.ofNat_add, UInt32.toNat_ofNat', Nat.mod_eq_of_lt hsmall]

theorem mem_idsFrom (hsmall : count + more < 2 ^ 32) {id : NodeId}
    (hid : id ∈ idsFrom (UInt32.ofNat count) more) :
    count ≤ id.toNat ∧ id.toNat < count + more := by
  obtain ⟨drawn, hdrawn, rfl⟩ := List.mem_map.mp hid
  have hlt := List.mem_range.mp hdrawn
  rw [toNat_add_ofNat (by omega)]
  omega

/-- Consecutive ids ascend until the counter comes round. -/
theorem ascending_idsFrom (hsmall : count + more < 2 ^ 32) :
    (idsFrom (UInt32.ofNat count) more).Pairwise (· < ·) := by
  refine List.pairwise_map.mpr (List.pairwise_lt_range.imp_of_mem ?_)
  intro earlier later hearlier hlater hlt
  have hearlier := List.mem_range.mp hearlier
  have hlater := List.mem_range.mp hlater
  rw [UInt32.lt_iff_toNat_lt, toNat_add_ofNat (by omega), toNat_add_ofNat (by omega)]
  omega

end Grammar.Cursor

/-! ## Turns -/

namespace Turn

/-- Each id that is handed out goes to at most one variable or assignment. -/
theorem nodeIds_subperm (turn : Turn) : turn.nodeIds.Subperm turn.handedOut := by
  unfold nodeIds
  split
  · rename_i program hprogram
    exact (parse_spec hprogram).2
  · exact List.nil_subperm

theorem handedOut_eq (turn : Turn) :
    turn.handedOut = Cursor.idsFrom turn.first turn.handedOut.length := by
  have hlength : turn.handedOut.length = turn.parsed.drawn := Cursor.length_idsFrom _ _
  rw [hlength, handedOut]

theorem nextId_parsed (turn : Turn) :
    turn.parsed.nextId = turn.first + UInt32.ofNat turn.handedOut.length := by
  rw [handedOut, Cursor.length_idsFrom]
  exact parse_nextId _ _ _

end Turn

/-- All ids handed out are consecutive. -/
theorem flatMap_handedOut (first : NodeId) (sources : List Source) :
    (turns first sources).flatMap Turn.handedOut =
      Cursor.idsFrom first ((turns first sources).flatMap Turn.handedOut).length := by
  induction sources generalizing first with
  | nil => rfl
  | cons source rest ih =>
    let turn : Turn := ⟨source, first⟩
    let later := (turns turn.parsed.nextId rest).flatMap Turn.handedOut
    have hlater : later =
        Cursor.idsFrom (first + UInt32.ofNat turn.handedOut.length) later.length := by
      rw [← turn.nextId_parsed]
      exact ih turn.parsed.nextId
    calc turn.handedOut ++ later
        = Cursor.idsFrom first turn.handedOut.length ++
            Cursor.idsFrom (first + UInt32.ofNat turn.handedOut.length) later.length := by
          rw [← turn.handedOut_eq, ← hlater]
      _ = Cursor.idsFrom first (turn.handedOut ++ later).length := by
          rw [← Cursor.idsFrom_add, List.length_append]

theorem turns_append (first : NodeId) (earlier later : List Source) :
    turns first (earlier ++ later) =
      turns first earlier ++
        turns (first + UInt32.ofNat ((turns first earlier).flatMap Turn.handedOut).length)
          later := by
  induction earlier generalizing first with
  | nil => exact (congrArg (turns · later) (UInt32.add_zero first)).symm
  | cons source rest ih =>
    simp only [List.cons_append, turns, ih, List.flatMap_cons, List.length_append,
      UInt32.ofNat_add, ← UInt32.add_assoc, Turn.nextId_parsed]

section Distinct

variable {count : Nat} {sources : List Source}

/-- Over all sources the ids ascend. -/
theorem ascending_handedOut
    (hfew : count + ((turns (UInt32.ofNat count) sources).flatMap Turn.handedOut).length <
      2 ^ 32) :
    ((turns (UInt32.ofNat count) sources).flatMap Turn.handedOut).Pairwise (· < ·) := by
  rw [flatMap_handedOut]
  exact Cursor.ascending_idsFrom hfew

/-- No two variables or assignments of the programs have the same id. -/
theorem nodup_nodeIds
    (hfew : count + ((turns (UInt32.ofNat count) sources).flatMap Turn.handedOut).length <
      2 ^ 32) :
    ((turns (UInt32.ofNat count) sources).flatMap Turn.nodeIds).Nodup := by
  have hsubperm : ∀ list : List Turn,
      (list.flatMap Turn.nodeIds).Subperm (list.flatMap Turn.handedOut) := by
    intro list
    induction list with
    | nil => exact List.nil_subperm
    | cons turn rest ih => exact turn.nodeIds_subperm.append ih
  have hnodup := (ascending_handedOut hfew).imp (S := (· ≠ ·)) UInt32.ne_of_lt
  obtain ⟨permuted, hperm, hsub⟩ := hsubperm (turns (UInt32.ofNat count) sources)
  exact hperm.nodup_iff.mp (hsub.nodup hnodup)

end Distinct

end CommandScript
