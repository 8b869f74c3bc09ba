import CommandScript.Proofs.Grammar.Numbering
import CommandScript.Proofs.Session.Relabelling

/-!
# Nodes keep their distances

A session parses all its inputs with one counter of ids. So the distances of an input have
keys that no earlier program has, and to make them known changes nothing for the nodes of
earlier programs: what is resolved keeps its distance, and what is not resolved stays so.

* `Session.sources`: the sources that a history parses.
* `Session.getElem?_addDistances`: the distances of an input leave the earlier ids alone.
* `Session.getElem?_distances_serve`: so does a history.
* `nodes_keep_distances`: ids over several programs, and the table of a session.
-/

namespace CommandScript.Session

variable {setting : Setting} {session next : Session}

/-! ## What a history parses -/

/-- The source that an action parses, if it parses one. -/
def sourceOf (session : Session) : HostAction → List Source
  | .run source _ | .parse source => [⟨session.mode, (scan session.words source).tokens⟩]
  | _ => []

/-- The sources that a history parses. -/
def sources (setting : Setting) : Session → List HostAction → List Source
  | _, [] => []
  | session, action :: rest =>
    session.sourceOf action ++
      match session.act setting action with
      | .ok (_, session) => session.sources setting rest
      | .error _ => []

theorem length_handedOut_sourceOf (session : Session) (action : HostAction) :
    ((turns session.nextId (session.sourceOf action)).flatMap Turn.handedOut).length =
      session.idsDrawn action := by
  cases action with
  | run source budget | parse source =>
    rw [sourceOf, turns, turns, List.flatMap_singleton]
    exact Grammar.Cursor.length_idsFrom _ _
  | _ => rfl

/-- The turns of a history, those of its first action before the others. -/
theorem turns_sources_cons {action : HostAction} {answer : HostAnswer}
    (hact : session.act setting action = .ok (answer, next)) (rest : List HostAction) :
    turns session.nextId (session.sources setting (action :: rest)) =
      turns session.nextId (session.sourceOf action) ++
        turns next.nextId (next.sources setting rest) := by
  rw [sources, hact, turns_append, length_handedOut_sourceOf, ← nextId_act hact]

theorem length_handedOut_sources (setting : Setting) (session : Session)
    (actions : List HostAction) :
    ((turns session.nextId (session.sources setting actions)).flatMap Turn.handedOut).length =
      session.handedOut setting actions := by
  induction actions generalizing session with
  | nil => rfl
  | cons action rest ih =>
    cases hact : session.act setting action with
    | ok result =>
      obtain ⟨answer, next⟩ := result
      rw [turns_sources_cons hact, List.flatMap_append, List.length_append,
        length_handedOut_sourceOf, ih, handedOut, hact]
    | error machine =>
      rw [sources, handedOut, hact, List.append_nil, length_handedOut_sourceOf]
      rfl

/-- A history that goes on ends where the rest of it ends. -/
theorem serve_append {before : List HostAction}
    (hfinished : (session.serve setting before).2 = .finished next) (later : List HostAction) :
    (session.serve setting (before ++ later)).2 = (next.serve setting later).2 := by
  induction before generalizing session with
  | nil =>
    obtain rfl := Ending.finished.inj hfinished
    rfl
  | cons action rest ih =>
    unfold serve at hfinished
    cases hact : session.act setting action with
    | error machine =>
      rw [hact] at hfinished
      cases hfinished
    | ok result =>
      rw [hact] at hfinished
      rw [List.cons_append, serve, hact]
      exact ih hfinished

/-- A history that goes on parses what its beginning parses, and then the rest. -/
theorem turns_sources_append {before : List HostAction}
    (hfinished : (session.serve setting before).2 = .finished next) (later : List HostAction) :
    turns session.nextId (session.sources setting (before ++ later)) =
      turns session.nextId (session.sources setting before) ++
        turns next.nextId (next.sources setting later) := by
  induction before generalizing session with
  | nil =>
    obtain rfl := Ending.finished.inj hfinished
    rfl
  | cons action rest ih =>
    unfold serve at hfinished
    cases hact : session.act setting action with
    | error machine =>
      rw [hact] at hfinished
      cases hfinished
    | ok result =>
      obtain ⟨answer, middle⟩ := result
      rw [hact] at hfinished
      rw [List.cons_append, turns_sources_cons hact, turns_sources_cons hact, ih hfinished,
        List.append_assoc]

/-! ## The table of distances -/

section Table

variable {total : Nat} (hnext : session.nextId = UInt32.ofNat total) {id : NodeId}
  (hid : id.toNat < total)

include hnext hid

/-- The distances of an input leave the ids that were handed out before alone. -/
theorem getElem?_addDistances {source : String}
    (hsmall : total + session.idsDrawn (.parse source) < 2 ^ 32) {program : List Stmt}
    {distances : List (NodeId × Nat)}
    (haccepted : session.accepted? source = some (program, distances)) :
    (session.interpreter.addDistances distances).distances[id]? =
      session.interpreter.distances[id]? := by
  obtain ⟨-, rfl, hids⟩ := accepted?_spec haccepted
  have hdrawn := hids 0
  rw [hnext] at hdrawn
  obtain ⟨-, hnew⟩ := nodup_of_drawn hdrawn hsmall
  refine getElem?_insertMany_other fun occurrence hoccurrence reference hreference heq => ?_
  have hmem : reference ∈ Stmt.referencesAll program := by
    rw [← Stmt.filterMap_referenceAll? program .top]
    exact List.mem_filterMap.mpr ⟨occurrence, hoccurrence, hreference⟩
  obtain ⟨hge, -⟩ := hnew _ (List.mem_map_of_mem hmem)
  rw [heq] at hge
  omega

theorem getElem?_distances_act {action : HostAction} {answer : HostAnswer}
    (hsmall : total + session.idsDrawn action < 2 ^ 32)
    (hact : session.act setting action = .ok (answer, next)) :
    next.interpreter.distances[id]? = session.interpreter.distances[id]? := by
  cases action with
  | run source budget =>
    rcases act_run_cases hact with ⟨-, rfl⟩ | ⟨machine, hlaunch, -, rfl⟩
    · exact congrArg (fun state : Interpreter => state.distances[id]?)
        (session.afterReading_interpreter source)
    · obtain ⟨⟨program, distances⟩, haccepted, rfl⟩ := Option.map_eq_some_iff.mp hlaunch
      have htable := getElem?_addDistances hnext hid hsmall haccepted
      have hconserved := (Machine.conserves_after setting budget
        ((session.interpreter.addDistances distances).start program)).distances
      have hstart : ((session.interpreter.addDistances distances).start program).state =
          session.interpreter.addDistances distances := by cases program <;> rfl
      rw [settle_interpreter, Interpreter.collectAtEnd_eq, hconserved, hstart, htable]
  | parse source =>
    have hparsed : (session.parse source).2 = next := (Prod.mk.inj (Except.ok.inj hact)).2
    rw [← hparsed, parse_eq, afterReading_interpreter]
  | _ =>
    obtain ⟨-, rfl⟩ := Prod.mk.inj (Except.ok.inj hact)
    rfl

/-- A history changes nothing for the ids that were handed out before it. -/
theorem getElem?_distances_serve {actions : List HostAction}
    (hsmall : total + session.handedOut setting actions < 2 ^ 32)
    (hfinished : (session.serve setting actions).2 = .finished next) :
    next.interpreter.distances[id]? = session.interpreter.distances[id]? := by
  induction actions generalizing session total with
  | nil =>
    obtain rfl := Ending.finished.inj hfinished
    rfl
  | cons action rest ih =>
    unfold serve at hfinished
    unfold handedOut at hsmall
    cases hact : session.act setting action with
    | error machine =>
      rw [hact] at hfinished
      cases hfinished
    | ok result =>
      obtain ⟨answer, middle⟩ := result
      rw [hact] at hfinished hsmall
      dsimp only at hfinished hsmall
      rw [← Nat.add_assoc] at hsmall
      have hmiddle : middle.nextId = UInt32.ofNat (total + session.idsDrawn action) := by
        rw [nextId_act hact, hnext, UInt32.ofNat_add]
      rw [ih hmiddle (Nat.lt_add_right _ hid) hsmall hfinished]
      exact getElem?_distances_act hnext hid (by omega) hact

end Table

/-- **Nodes keep their distances.** Sources are parsed one after the other with one counter,
and some of them may fail. Unless the counter comes round, all variables and assignments of
all programs have ids of their own, and every id that is handed out for a later source is
greater than every id for an earlier one. So, whenever a session that parses these sources
makes the distances of an input known, this changes nothing for the nodes of the programs that
it has parsed before: they have the distances that they had when they were parsed, or none. -/
theorem nodes_keep_distances {sources : List Source}
    (hfew : ((turns 0 sources).flatMap Turn.handedOut).length < 2 ^ 32) :
    ((turns 0 sources).flatMap Turn.nodeIds).Nodup ∧
      ((turns 0 sources).Pairwise fun earlier later =>
        ∀ id ∈ earlier.handedOut, ∀ other ∈ later.handedOut, id < other) ∧
      (∀ turn ∈ turns 0 sources, turn.nodeIds ⊆ turn.handedOut) ∧
      ∀ (setting : Setting) (sink : Sink) (before later : List HostAction) (source : String)
        (budget : Nat) (session next : Session) (program : List Stmt)
        (distances : List (NodeId × Nat)),
        (initial setting sink).sources setting (before ++ later ++ [.run source budget]) =
            sources →
          ((initial setting sink).serve setting before).2 = .finished session →
          (session.serve setting later).2 = .finished next →
          next.accepted? source = some (program, distances) →
          ∀ turn ∈ turns 0 ((initial setting sink).sources setting before),
            ∀ id ∈ turn.nodeIds,
              (next.interpreter.addDistances distances).distances[id]? =
                  next.interpreter.distances[id]? ∧
                next.interpreter.distances[id]? = session.interpreter.distances[id]? := by
  have hcount : 0 + ((turns 0 sources).flatMap Turn.handedOut).length < 2 ^ 32 := by
    rwa [Nat.zero_add]
  have hascending := @ascending_handedOut 0 sources hcount
  refine ⟨@nodup_nodeIds 0 sources hcount, (List.pairwise_flatMap.mp hascending).2,
    fun turn _ => turn.nodeIds_subperm.subset, ?_⟩
  rintro setting sink before later source budget session next program distances rfl hbefore
    hlater haccepted turn hturn id hid
  let start := initial setting sink
  let drawn := start.handedOut setting before
  have hboth : (start.serve setting (before ++ later)).2 = .finished next :=
    (serve_append hbefore later).trans hlater
  -- the ids of the whole history are those before, those in between and those of the input
  have htotal : drawn + session.handedOut setting later + next.idsDrawn (.run source budget) <
      2 ^ 32 := by
    have hstart : (0 : NodeId) = start.nextId := rfl
    rw [hstart, turns_sources_append hboth, turns_sources_append hbefore,
      List.flatMap_append, List.flatMap_append, List.length_append, List.length_append,
      length_handedOut_sources, length_handedOut_sources, length_handedOut_sources,
      handedOut_singleton] at hfew
    exact hfew
  have hearlier : id.toNat < drawn := by
    have hmem : id ∈ (turns 0 (start.sources setting before)).flatMap Turn.handedOut :=
      List.mem_flatMap.mpr ⟨turn, hturn, turn.nodeIds_subperm.subset hid⟩
    have hlength : ((turns 0 (start.sources setting before)).flatMap Turn.handedOut).length =
        drawn := length_handedOut_sources setting start before
    rw [flatMap_handedOut, hlength] at hmem
    have hbound := (@Grammar.Cursor.mem_idsFrom 0 drawn (by omega) id hmem).2
    omega
  have hsession : session.nextId = UInt32.ofNat drawn :=
    (nextId_serve (Prod.ext rfl hbefore)).trans (UInt32.zero_add _)
  have hnext : next.nextId = UInt32.ofNat (drawn + session.handedOut setting later) := by
    rw [nextId_serve (Prod.ext rfl hlater), hsession, UInt32.ofNat_add]
  exact ⟨getElem?_addDistances hnext (Nat.lt_add_right _ hearlier) htotal haccepted,
    getElem?_distances_serve hsession hearlier (by omega) hlater⟩

/-- A function leaves one of its references unresolved. Then an input fails, and a later one
resolves a reference to the same name. -/
theorem nodes_keep_distances_of_late_declaration :
    let setting : Setting := ⟨.resolved, some 1, fun _ _ _ => .ok .null⟩
    let start := initial setting .unlimited
    let before : List HostAction := [.run "fun f() { var n; n; late; }" 20]
    let later : List HostAction := [.run "n = (late" 20]
    let source := "fun g() { var late; late; }"
    let sources := start.sources setting (before ++ later ++ [.run source 20])
    ((turns 0 sources).flatMap Turn.handedOut).length < 2 ^ 32 ∧
      ((turns 0 sources).flatMap Turn.nodeIds) = [0, 1, 4] ∧
      ((turns 0 sources).flatMap Turn.nodeIds).Nodup ∧
      ∃ session next program distances,
        (start.serve setting before).2 = .finished session ∧
        (session.serve setting later).2 = .finished next ∧
        next.accepted? source = some (program, distances) ∧
        ∀ turn ∈ turns 0 (start.sources setting before), ∀ id ∈ turn.nodeIds,
          (next.interpreter.addDistances distances).distances[id]? =
              next.interpreter.distances[id]? ∧
            next.interpreter.distances[id]? = session.interpreter.distances[id]? := by
  intro setting start before later source sources
  have hfew : ((turns 0 sources).flatMap Turn.handedOut).length < 2 ^ 32 := by decide +kernel
  have hids : (turns 0 sources).flatMap Turn.nodeIds = [0, 1, 4] := by decide +kernel
  obtain ⟨hnodup, -, -, hkeeps⟩ := nodes_keep_distances hfew
  have hruns : (match (start.serve setting before).2 with
      | .unfinished _ => false
      | .finished session =>
        match (session.serve setting later).2 with
        | .unfinished _ => false
        | .finished next => (next.accepted? source).isSome) = true := by
    decide +kernel
  split at hruns
  · cases hruns
  · rename_i session hsession
    split at hruns
    · cases hruns
    · rename_i next hnext
      obtain ⟨⟨program, distances⟩, haccepted⟩ := Option.isSome_iff_exists.mp hruns
      exact ⟨hfew, hids, hnodup, session, next, program, distances, hsession, hnext, haccepted,
        hkeeps setting .unlimited before later source 20 session next program distances rfl
          hsession hnext haccepted⟩

end CommandScript.Session
