import CommandScript.Proofs.Grammar.Reading
import CommandScript.Proofs.Syntax.Lines

/-!
# Rules on a part of the tokens

Two cursors stand at the same point, but the second sees the tokens on other lines, may
see more of them at the end, and has read and drawn more before. A rule that succeeds from
the first cursor and does not look past its end does the same from the second.

If the first cursor does not see the end, its tokens end with a `;` or `}`. So a
rule of statements does the same even if it reads the last token, because what it has done
before has left that token to it.

* `Splice.Follows`: the relation of the cursors.
* `Splice.Parallel`: a rule does the same, provided that it leaves a token.
* `Splice.Mirrors`: a rule does the same even if it reads the last token.
* `parallel_bind`, `mirrors_bind`, `mirrors_bind_stays`, `mirrors_bind_consumes`: how
  sequences do.
-/

namespace CommandScript.Grammar

open Rule

/-- How the view of the second cursor differs from that of the first. -/
structure Splice where
  lines : Nat → Nat
  tail : List Token
  /-- The first cursor sees the end of all tokens. -/
  whole : Prop
  /-- The number of tokens that were read before. -/
  read : Nat
  /-- The number of ids that were drawn before. -/
  drawn : Nat

namespace Splice

structure Follows (splice : Splice) (cursor other : Cursor) : Prop where
  rest : other.rest = cursor.rest.map (·.mapLines splice.lines) ++ splice.tail
  last : splice.whole → splice.tail = [] ∧ other.last = cursor.last.mapLines splice.lines
  read : other.read = cursor.read + splice.read
  drawn : other.drawn = cursor.drawn + splice.drawn
  nextId : other.nextId = cursor.nextId
  faults : other.faults = #[]
  atLast : cursor.last.kind = .endOfInput
  atLast' : other.last.kind = .endOfInput
  closed : ¬ splice.whole → ∀ token ∈ cursor.rest.getLast?, Closes token.kind

/-- What the first cursor stands on is what the second stands on. -/
def Live (splice : Splice) (cursor : Cursor) : Prop := splice.whole ∨ cursor.rest ≠ []

/-- The second rule does from the second cursor what the first does from the first, if that
leaves a token. -/
def Parallel {α β : Type} (splice : Splice) (rule : Rule α) (other : Rule β) (g : α → β) : Prop :=
  ∀ cursor twin, splice.Follows cursor twin → ∀ a after, rule.run cursor = (.ok a, after) →
    after.faults = #[] → splice.Live after →
    ∃ final, other.run twin = (.ok (g a), final) ∧ splice.Follows after final

/-- The second rule does from the second cursor what the first does from the first, if that
has the property. -/
def Mirrors {α β : Type} (splice : Splice) (pre : Cursor → Prop) (rule : Rule α) (other : Rule β)
    (g : α → β) : Prop :=
  ∀ cursor twin, splice.Follows cursor twin → pre cursor →
    ∀ a after, rule.run cursor = (.ok a, after) → after.faults = #[] →
    ∃ final, other.run twin = (.ok (g a), final) ∧ splice.Follows after final

variable {α β γ δ : Type} {splice : Splice} {cursor twin after : Cursor}

theorem Live.before (h : splice.Live after) (hleads : cursor.LeadsTo after) :
    splice.Live cursor := by
  refine h.imp_right fun hafter hnone => hafter ?_
  exact List.suffix_nil.mp (hnone ▸ hleads.suffix)

theorem faults_before (h : after.faults = #[]) (hleads : cursor.LeadsTo after) :
    cursor.faults = #[] := by
  have hprefix := hleads.faults
  rw [h] at hprefix
  exact Array.toList_eq_nil_iff.mp (List.prefix_nil.mp hprefix)

/-- Whatever is left of the tokens ends with the same token. -/
theorem closed_after {kind : Token → Prop} (hleads : cursor.LeadsTo after)
    (h : ∀ token ∈ cursor.rest.getLast?, kind token) :
    ∀ token ∈ after.rest.getLast?, kind token := by
  obtain ⟨taken, htaken, -⟩ := hleads.taken
  intro token htoken
  refine h token ?_
  rw [htaken, List.getLast?_append, Option.mem_def.mp htoken]
  rfl

theorem Follows.peek (h : splice.Follows cursor twin) (hlive : splice.Live cursor) :
    twin.peek = cursor.peek.mapLines splice.lines := by
  unfold Cursor.peek
  rw [h.rest]
  cases hrest : cursor.rest with
  | cons token rest => rfl
  | nil =>
    obtain ⟨htail, hlast⟩ := h.last (hlive.resolve_right (not_not_intro hrest))
    rw [htail]
    exact hlast

/-- A rule that reads no last token leaves one. -/
theorem Follows.live_after (hfollows : splice.Follows cursor twin) (hlive : splice.Live cursor)
    (h : cursor.Alive → after.Alive) : splice.Live after := by
  by_cases hwhole : splice.whole
  · exact .inl hwhole
  · have hrest := hlive.resolve_left hwhole
    have hlast := List.getLast?_eq_some_getLast hrest
    obtain ⟨token, htoken, -⟩ := h ⟨_, hlast, hfollows.closed hwhole _ hlast⟩
    refine .inr fun hnone => ?_
    rw [hnone] at htoken
    cases htoken

theorem Mirrors.parallel {rule : Rule α} {other : Rule β} {g : α → β}
    (h : splice.Mirrors splice.Live rule other g) : splice.Parallel rule other g :=
  fun cursor twin hfollows a after hrun hfaults hlive =>
    h cursor twin hfollows (hlive.before (leadsTo_of_run hrun)) a after hrun hfaults

theorem Mirrors.mono {pre : Cursor → Prop} {rule : Rule α} {other : Rule β} {g : α → β}
    (h : splice.Mirrors splice.Live rule other g)
    (hpre : ∀ cursor, pre cursor → splice.Live cursor) :
    splice.Mirrors pre rule other g :=
  fun cursor twin hfollows hcursor => h cursor twin hfollows (hpre cursor hcursor)

/-! ## Sequences -/

theorem parallel_pure {a : α} {b : β} {g : α → β} (h : b = g a) :
    splice.Parallel (pure a) (pure b) g := by
  intro cursor twin hfollows found after hrun _ _
  obtain ⟨hfound, rfl⟩ := Prod.mk.inj hrun
  obtain rfl := Except.ok.inj hfound
  exact ⟨twin, by rw [h]; rfl, hfollows⟩

theorem parallel_bind {rule : Rule α} {other : Rule β} {next : α → Rule γ} {next' : β → Rule δ}
    {g : α → β} {k : γ → δ} (h : splice.Parallel rule other g)
    (hnext : ∀ a, splice.Parallel (next a) (next' (g a)) k) :
    splice.Parallel (rule >>= next) (other >>= next') k := by
  intro cursor twin hfollows c after hrun hfaults hlive
  obtain ⟨a, middle, hfirst, hsecond⟩ := run_bind_eq_ok hrun
  have hleads := leadsTo_of_run hsecond
  obtain ⟨final, hfinal, hmiddle⟩ := h cursor twin hfollows a middle hfirst
    (faults_before hfaults hleads) (hlive.before hleads)
  rw [run_bind_of_ok hfinal]
  exact hnext a middle final hmiddle c after hsecond hfaults hlive

theorem parallel_map {rule : Rule α} {other : Rule β} {g : α → β} {f : α → γ} {f' : β → δ}
    {k : γ → δ} (h : splice.Parallel rule other g) (hf : ∀ a, f' (g a) = k (f a)) :
    splice.Parallel (f <$> rule) (f' <$> other) k :=
  parallel_bind h fun a => parallel_pure (hf a)

theorem parallel_ite {condition : Prop} [Decidable condition] {rule rule' : Rule α}
    {other other' : Rule β} {g : α → β} (hthen : splice.Parallel rule other g)
    (helse : splice.Parallel rule' other' g) :
    splice.Parallel (if condition then rule else rule') (if condition then other else other')
      g := by
  split
  · exact hthen
  · exact helse

theorem parallel_fail (fault : Located ParseFault) (other : Rule β) (g : α → β) :
    splice.Parallel (fail fault : Rule α) other g := by
  intro cursor twin _ a after hrun
  cases hrun

/-- A rule that records a fault does not come into question. -/
theorem parallel_record {next : Unit → Rule α} (fault : Located ParseFault) (other : Rule β)
    (g : α → β) : splice.Parallel (record fault >>= next) other g := by
  intro cursor twin _ a after hrun hfaults
  obtain ⟨_, middle, hfirst, hsecond⟩ := run_bind_eq_ok hrun
  have hmiddle := faults_before hfaults (leadsTo_of_run hsecond)
  obtain ⟨-, rfl⟩ := Prod.mk.inj hfirst
  exact absurd hmiddle (Array.push_ne_empty)

/-! ## Sequences up to the last token -/

section Mirrors

variable {pre : Cursor → Prop}

theorem mirrors_pure {a : α} {b : β} {g : α → β} (h : b = g a) :
    splice.Mirrors pre (pure a) (pure b) g := by
  intro cursor twin hfollows _ found after hrun _
  obtain ⟨hfound, rfl⟩ := Prod.mk.inj hrun
  obtain rfl := Except.ok.inj hfound
  exact ⟨twin, by rw [h]; rfl, hfollows⟩

theorem mirrors_ite {condition : Prop} [Decidable condition]
    {rule rule' : Rule α} {other other' : Rule β} {g : α → β}
    (hthen : splice.Mirrors pre rule other g) (helse : splice.Mirrors pre rule' other' g) :
    splice.Mirrors pre (if condition then rule else rule') (if condition then other else other')
      g := by
  split
  · exact hthen
  · exact helse

variable {rule : Rule α} {other : Rule β} {next : α → Rule γ} {next' : β → Rule δ} {g : α → β}
  {k : γ → δ}

/-- What comes next must not look at the token that it finds. -/
theorem mirrors_bind (h : splice.Mirrors pre rule other g)
    (hnext : ∀ a, splice.Mirrors (fun _ => True) (next a) (next' (g a)) k) :
    splice.Mirrors pre (rule >>= next) (other >>= next') k := by
  intro cursor twin hfollows hpre c after hrun hfaults
  obtain ⟨a, middle, hfirst, hsecond⟩ := run_bind_eq_ok hrun
  obtain ⟨final, hfinal, hmiddle⟩ := h cursor twin hfollows hpre a middle hfirst
    (faults_before hfaults (leadsTo_of_run hsecond))
  rw [run_bind_of_ok hfinal]
  exact hnext a middle final hmiddle trivial c after hsecond hfaults

theorem mirrors_map {f : α → γ} {f' : β → δ} (h : splice.Mirrors pre rule other g)
    (hf : ∀ a, f' (g a) = k (f a)) : splice.Mirrors pre (f <$> rule) (f' <$> other) k :=
  mirrors_bind h fun a => mirrors_pure (hf a)

/-- The first rule leaves a token for what comes next, if there was one. -/
theorem mirrors_bind_stays (h : splice.Parallel rule other g) (hstays : rule.Stays)
    (hnext : ∀ a, splice.Mirrors splice.Live (next a) (next' (g a)) k) :
    splice.Mirrors splice.Live (rule >>= next) (other >>= next') k := by
  intro cursor twin hfollows hlive c after hrun hfaults
  obtain ⟨a, middle, hfirst, hsecond⟩ := run_bind_eq_ok hrun
  have hmiddle := hfollows.live_after hlive (hstays cursor · a middle hfirst)
  obtain ⟨final, hfinal, hthere⟩ := h cursor twin hfollows a middle hfirst
    (faults_before hfaults (leadsTo_of_run hsecond)) hmiddle
  rw [run_bind_of_ok hfinal]
  exact hnext a middle final hthere hmiddle c after hsecond hfaults

/-- What comes next finds a token, because it reads one. -/
theorem mirrors_bind_consumes (h : splice.Parallel rule other g)
    (hconsumes : ∀ a, (next a).Consumes)
    (hnext : ∀ a, splice.Mirrors splice.Live (next a) (next' (g a)) k) :
    splice.Mirrors pre (rule >>= next) (other >>= next') k := by
  intro cursor twin hfollows _ c after hrun hfaults
  obtain ⟨a, middle, hfirst, hsecond⟩ := run_bind_eq_ok hrun
  have hlast : middle.last.kind = .endOfInput :=
    (leadsTo_of_run hfirst).last ▸ hfollows.atLast
  have hmiddle : splice.Live middle := .inr ((hconsumes a).rest_ne_nil hlast hsecond)
  obtain ⟨final, hfinal, hthere⟩ := h cursor twin hfollows a middle hfirst
    (faults_before hfaults (leadsTo_of_run hsecond)) hmiddle
  rw [run_bind_of_ok hfinal]
  exact hnext a middle final hthere hmiddle c after hsecond hfaults

/-- The token that the cursor stands on is known after it was looked at. -/
theorem mirrors_peek {next : Token → Rule γ} {next' : Token → Rule δ}
    (hnext : ∀ token, splice.Mirrors (fun cursor => splice.Live cursor ∧ cursor.peek = token)
      (next token) (next' (token.mapLines splice.lines)) k) :
    splice.Mirrors splice.Live (Rule.peek >>= next) (Rule.peek >>= next') k := by
  intro cursor twin hfollows hlive c after hrun hfaults
  have htwin : (Rule.peek >>= next').run twin =
      (next' (cursor.peek.mapLines splice.lines)).run twin := by
    rw [← hfollows.peek hlive]
    rfl
  rw [htwin]
  exact hnext _ cursor twin hfollows ⟨hlive, rfl⟩ c after hrun hfaults

end Mirrors

/-! ## Single steps -/

theorem parallel_peek : splice.Parallel peek peek (·.mapLines splice.lines) := by
  intro cursor twin hfollows token after hrun _ hlive
  obtain ⟨htoken, rfl⟩ := Prod.mk.inj hrun
  obtain rfl := Except.ok.inj htoken
  refine ⟨twin, ?_, hfollows⟩
  exact congrArg (fun found => (Except.ok found, twin)) (hfollows.peek hlive)

theorem mirrors_skip : splice.Mirrors splice.Live skip skip id := by
  intro cursor twin hfollows hlive a after hrun _
  have hadvances := leadsTo_of_run hrun
  obtain ⟨hrest, hlast, hread, hdrawn, hnextId, hfaults, hatLast, hatLast', hclosed⟩ := hfollows
  have hlater := fun hwhole => closed_after hadvances (hclosed hwhole)
  unfold skip at hrun ⊢
  dsimp only at hrun ⊢
  cases hcursor : cursor.rest with
  | nil =>
    rw [hcursor] at hrun
    obtain ⟨-, rfl⟩ := Prod.mk.inj hrun
    have htail := (hlast (hlive.resolve_right (not_not_intro hcursor))).1
    rw [hcursor, htail] at hrest
    rw [hrest]
    exact ⟨twin, rfl, by rw [hrest, hcursor, htail], hlast, hread, hdrawn, hnextId, hfaults,
      hatLast, hatLast', hclosed⟩
  | cons token rest =>
    rw [hcursor] at hrun hrest
    obtain ⟨-, rfl⟩ := Prod.mk.inj hrun
    rw [hrest]
    refine ⟨_, rfl, rfl, hlast, ?_, hdrawn, hnextId, hfaults, hatLast, hatLast', hlater⟩
    simp only [hread]
    omega

/-- Skipping a token that closes nothing. -/
theorem mirrors_skip_bind {token : Token} (h : ¬ Closes token.kind) {next : Unit → Rule γ}
    {next' : Unit → Rule δ} {k : γ → δ}
    (hnext : splice.Mirrors splice.Live (next ()) (next' ()) k) :
    splice.Mirrors (fun cursor => splice.Live cursor ∧ cursor.peek = token) (skip >>= next)
      (skip >>= next') k := by
  rintro cursor twin hfollows ⟨hlive, hpeek⟩ c after hrun hfaults
  obtain ⟨a, middle, hfirst, hsecond⟩ := run_bind_eq_ok hrun
  have hmiddle := hfollows.live_after hlive
    fun halive => alive_skip h cursor ⟨hpeek, halive⟩ a middle hfirst
  obtain ⟨final, hfinal, hthere⟩ := mirrors_skip cursor twin hfollows hlive a middle hfirst
    (faults_before hfaults (leadsTo_of_run hsecond))
  rw [run_bind_of_ok hfinal]
  exact hnext middle final hthere hmiddle c after hsecond hfaults

theorem parallel_atEnd : splice.Parallel atEnd atEnd id := by
  intro cursor twin hfollows a after hrun _ hlive
  obtain ⟨ha, rfl⟩ := Prod.mk.inj hrun
  obtain rfl := Except.ok.inj ha
  have hempty : twin.rest.isEmpty = cursor.rest.isEmpty := by
    rw [hfollows.rest]
    cases hrest : cursor.rest with
    | cons token rest => rfl
    | nil => rw [(hfollows.last (hlive.resolve_right (not_not_intro hrest))).1]; rfl
  exact ⟨twin, by rw [id_eq, ← hempty]; rfl, hfollows⟩

theorem parallel_freshId : splice.Parallel freshId freshId id := by
  intro cursor twin hfollows id after hrun _ _
  obtain ⟨hid, rfl⟩ := Prod.mk.inj hrun
  obtain rfl := Except.ok.inj hid
  obtain ⟨hrest, hlast, hread, hdrawn, hnextId, hfaults, hatLast, hatLast', hclosed⟩ := hfollows
  refine ⟨{ twin with drawn := twin.drawn + 1 }, ?_, hrest, hlast, hread, ?_, ?_, hfaults,
    hatLast, hatLast', hclosed⟩
  · rw [id_eq, ← hnextId]
    rfl
  · simp only [hdrawn]
    omega
  · unfold Cursor.nextId at hnextId ⊢
    simp only [UInt32.ofNat_add, ← UInt32.add_assoc, hnextId]

theorem parallel_check (kind : TokenKind) : splice.Parallel (check kind) (check kind) id :=
  parallel_bind parallel_peek fun _ => parallel_pure rfl

theorem mirrors_accept? (kind : TokenKind) :
    splice.Mirrors splice.Live (accept? kind) (accept? kind)
      (Option.map (·.mapLines splice.lines)) := by
  refine mirrors_peek fun token => mirrors_ite ?_ ?_
  · exact mirrors_bind (mirrors_skip.mono fun _ h => h.1) fun _ => mirrors_pure rfl
  · exact mirrors_pure rfl

theorem parallel_accept? (kind : TokenKind) :
    splice.Parallel (accept? kind) (accept? kind) (Option.map (·.mapLines splice.lines)) :=
  (mirrors_accept? kind).parallel

theorem mirrors_accept (kind : TokenKind) :
    splice.Mirrors splice.Live (accept kind) (accept kind) id :=
  mirrors_bind (mirrors_accept? kind) fun token => mirrors_pure (by cases token <;> rfl)

theorem parallel_accept (kind : TokenKind) : splice.Parallel (accept kind) (accept kind) id :=
  (mirrors_accept kind).parallel

/-- A token that is not there is not missed behind the part. -/
theorem mirrors_accept_bind {kind : TokenKind} {next : Bool → Rule γ} {next' : Bool → Rule δ}
    {k : γ → δ} (htrue : splice.Mirrors (fun _ => True) (next true) (next' true) k)
    (hfalse : splice.Mirrors splice.Live (next false) (next' false) k) :
    splice.Mirrors splice.Live (accept kind >>= next) (accept kind >>= next') k := by
  intro cursor twin hfollows hlive c after hrun hfaults
  obtain ⟨found, middle, hfirst, hsecond⟩ := run_bind_eq_ok hrun
  obtain ⟨final, hfinal, hmiddle⟩ := mirrors_accept kind cursor twin hfollows hlive found middle
    hfirst (faults_before hfaults (leadsTo_of_run hsecond))
  rw [run_bind_of_ok hfinal]
  cases found with
  | true => exact htrue middle final hmiddle trivial c after hsecond hfaults
  | false =>
    have hlive' : splice.Live middle := eq_of_accept_false hfirst ▸ hlive
    exact hfalse middle final hmiddle hlive' c after hsecond hfaults

/-- What is looked for behind the part must not be there. -/
theorem mirrors_accept_anywhere {kind : TokenKind} (hkind : kind ≠ .endOfInput)
    (hcloses : ¬ Closes kind) (htail : ∀ token ∈ splice.tail.head?, token.kind ≠ kind)
    {next : Bool → Rule γ} {next' : Bool → Rule δ} {k : γ → δ}
    (htrue : splice.Mirrors splice.Live (next true) (next' true) k)
    (hfalse : splice.Mirrors (fun _ => True) (next false) (next' false) k) :
    splice.Mirrors (fun _ => True) (accept kind >>= next) (accept kind >>= next') k := by
  intro cursor twin hfollows _ c after hrun hfaults
  obtain ⟨found, middle, hfirst, hsecond⟩ := run_bind_eq_ok hrun
  have hmiddle := faults_before hfaults (leadsTo_of_run hsecond)
  by_cases hlive : splice.Live cursor
  · obtain ⟨final, hfinal, hthere⟩ := mirrors_accept kind cursor twin hfollows hlive found middle
      hfirst hmiddle
    rw [run_bind_of_ok hfinal]
    cases found with
    | true =>
      have hlive' := hfollows.live_after hlive (stays_accept hcloses cursor · true middle hfirst)
      exact htrue middle final hthere hlive' c after hsecond hfaults
    | false => exact hfalse middle final hthere trivial c after hsecond hfaults
  · -- neither the first cursor, at its end, nor the second finds the token
    have hrest : cursor.rest = [] := Classical.not_not.mp (not_or.mp hlive).2
    have hpeek : cursor.peek = cursor.last := by
      rw [Cursor.peek, hrest]
      rfl
    have hnone : (accept kind).run cursor = (.ok false, cursor) :=
      run_accept_of_ne (by rw [hpeek, hfollows.atLast]; exact hkind.symm)
    have hnone' : (accept kind).run twin = (.ok false, twin) := by
      refine run_accept_of_ne ?_
      rw [Cursor.peek, hfollows.rest, hrest]
      cases htokens : splice.tail with
      | nil => exact hfollows.atLast' ▸ hkind.symm
      | cons token rest => exact htail token (by rw [htokens]; rfl)
    obtain ⟨hfound, rfl⟩ := Prod.mk.inj (hfirst.symm.trans hnone)
    obtain rfl := Except.ok.inj hfound
    rw [run_bind_of_ok hnone']
    exact hfalse middle twin hfollows trivial c after hsecond hfaults

theorem mirrors_expected {pre : Cursor → Prop} (what : String) (other : Rule β) (g : α → β) :
    splice.Mirrors pre (expected what : Rule α) other g := by
  intro cursor twin _ _ a after hrun
  obtain ⟨token, middle, -, hsecond⟩ := run_bind_eq_ok hrun
  split at hsecond <;> cases hsecond

theorem mirrors_require (kind : TokenKind) (what : String) :
    splice.Mirrors splice.Live (require kind what) (require kind what)
      (·.mapLines splice.lines) := by
  refine mirrors_bind (mirrors_accept? kind) fun token => ?_
  cases token with
  | some token => exact mirrors_pure rfl
  | none => exact mirrors_expected what _ _

theorem parallel_require (kind : TokenKind) (what : String) :
    splice.Parallel (require kind what) (require kind what) (·.mapLines splice.lines) :=
  (mirrors_require kind what).parallel

/-! ## Repetition and recovery -/

/-- The pass of a repetition with another accumulator. -/
def Pass.map (g : α → β) : Pass α → Pass β
  | .again state => .again (g state)
  | .last state => .last (g state)

theorem parallel_repeated {pass : α → Rule (Pass α)} {pass' : β → Rule (Pass β)} {g : α → β}
    (hpass : ∀ state state', state' = g state →
      splice.Parallel (pass state) (pass' state') (Pass.map g))
    {state : α} {state' : β} (hstate : state' = g state) :
    splice.Parallel (repeated pass state) (repeated pass' state') g := by
  subst hstate
  intro cursor twin hfollows result after hrun hfaults hlive
  induction hlength : cursor.rest.length using Nat.strongRecOn generalizing state cursor twin with
  | _ length ih =>
    subst hlength
    rw [run_repeated] at hrun ⊢
    have hpassed := hpass state _ rfl cursor twin hfollows
    have hadvances := (pass state).advances cursor
    have htwin := (pass' (g state)).advances twin
    revert hrun hpassed hadvances htwin
    generalize (pass state).run cursor = outcome
    generalize (pass' (g state)).run twin = outcome'
    intro hrun hpassed hadvances htwin
    obtain ⟨found, middle⟩ := outcome
    match found with
    | .error fault => cases hrun
    | .ok (.last final) =>
      obtain ⟨hfinal, rfl⟩ := Prod.mk.inj hrun
      obtain rfl := Except.ok.inj hfinal
      obtain ⟨end', rfl, hend⟩ := hpassed _ _ rfl hfaults hlive
      exact ⟨end', rfl, hend⟩
    | .ok (.again next) =>
      dsimp only at hrun
      split at hrun
      · rename_i hread
        have hleads := leadsTo_of_run hrun
        obtain ⟨middle', rfl, hmiddle⟩ := hpassed _ _ rfl (faults_before hfaults hleads)
          (hlive.before hleads)
        have hread' : twin.read < middle'.read := by
          rw [hfollows.read, hmiddle.read]
          omega
        dsimp only [Pass.map]
        rw [if_pos hread']
        exact ih _ (hadvances.length_lt hread) middle middle' hmiddle hrun rfl
      · rename_i hread
        obtain ⟨hfinal, rfl⟩ := Prod.mk.inj hrun
        obtain rfl := Except.ok.inj hfinal
        obtain ⟨middle', rfl, hmiddle⟩ := hpassed _ _ rfl hfaults hlive
        have hread' : ¬ twin.read < middle'.read := by
          rw [hfollows.read, hmiddle.read]
          omega
        dsimp only [Pass.map]
        rw [if_neg hread']
        exact ⟨middle', rfl, hmiddle⟩

theorem mirrors_recover {pre : Cursor → Prop} {rule : Rule α} {other : Rule β} {g : α → β}
    (h : splice.Mirrors pre rule other g) :
    splice.Mirrors pre rule.recover other.recover (Option.map g) := by
  intro cursor twin hfollows hpre found after hrun hfaults
  unfold recover at hrun ⊢
  dsimp only at hrun ⊢
  split at hrun
  · rename_i a middle hmiddle
    obtain ⟨hfound, rfl⟩ := Prod.mk.inj hrun
    obtain rfl := Except.ok.inj hfound
    obtain ⟨final, hfinal, hend⟩ := h cursor twin hfollows hpre a middle hmiddle hfaults
    exact ⟨final, by rw [hfinal]; rfl, hend⟩
  · obtain ⟨-, rfl⟩ := Prod.mk.inj hrun
    exact absurd hfaults Array.push_ne_empty

theorem parallel_separated {item : Rule α} {other : Rule β} {g : α → β}
    (h : splice.Parallel item other g) (maxItems : Nat) (tooMany : ParseFault) :
    splice.Parallel (separated maxItems tooMany item) (separated maxItems tooMany other)
      (List.map g) := by
  have hnext : ∀ items : Array α, splice.Parallel (do return Pass.again (items.push (← item)))
      (do return Pass.again ((items.map g).push (← other))) (Pass.map (Array.map g)) :=
    fun items => parallel_bind h fun next => parallel_pure (by simp [Pass.map])
  refine parallel_bind h fun first => ?_
  refine parallel_bind (g := Array.map g) (parallel_repeated ?_ (by simp)) fun items =>
    parallel_pure (by simp)
  rintro items _ rfl
  refine parallel_bind (parallel_accept .comma) fun comma => ?_
  rw [Array.size_map]
  refine parallel_ite ?_ (parallel_pure rfl)
  refine parallel_ite ?_ (hnext items)
  exact parallel_bind parallel_peek fun token => parallel_record _ _ _

end Splice

end CommandScript.Grammar
