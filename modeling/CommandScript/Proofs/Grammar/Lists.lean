import CommandScript.Proofs.Grammar.Acceptance
import CommandScript.Proofs.Syntax.Spelling

/-!
# Items between commas

Items between commas are read one after the other; there is one more if a comma follows, so
the list ends where none does. A list in parentheses may be empty: the closing parenthesis
tells, because no item begins with one.

* `Rule.Reads`: a rule reads exactly the valid results, spelled by their tokens.
* `reads_separated`: at least one item.
* `accepts_list_bind`: any number of items up to a closing parenthesis.
-/

namespace CommandScript.Grammar

open Rule

/-- The rule reads exactly the valid results by their tokens, up to a token that may follow. -/
def Rule.Reads {α : Type} (rule : Rule α) (spelled : α → List Token → Prop) (ids : α → List NodeId)
    (valid : α → Prop) (follows : TokenKind → Prop) : Prop :=
  ∀ cursor a after, cursor.Bounded →
    (rule.Accepts cursor a after ↔
      (∃ tokens, cursor.Passes after tokens (ids a) ∧ spelled a tokens) ∧ valid a ∧
        follows after.peek.kind)

section Separated

variable {α : Type} {spelled : α → List Token → Prop} {ids : α → List NodeId} {valid : α → Prop}
  {follows : TokenKind → Prop} {item : Rule α} {maxItems : Nat} {tooMany : ParseFault}

/-- One more comma and item. -/
def itemPass (maxItems : Nat) (tooMany : ParseFault) (item : Rule α) (items : Array α) :
    Rule (Pass (Array α)) := do
  if ← accept .comma then
    if items.size = maxItems then record ⟨tooMany, (← peek).line⟩
    return .again (items.push (← item))
  else return .last items

theorem separated_eq : separated maxItems tooMany item = (do
    let first ← item
    Array.toList <$> repeated (itemPass maxItems tooMany item) #[first]) :=
  rfl

variable {items final : Array α} {cursor after : Cursor}

theorem accepts_itemPass_last (hcursor : cursor.Bounded) :
    (itemPass maxItems tooMany item items).Accepts cursor (.last final) after ↔
      cursor.peek.kind ≠ .comma ∧ final = items ∧ after = cursor := by
  unfold itemPass
  rw [accepts_accept_bind hcursor (by decide)]
  constructor
  · rintro (⟨comma, middle, -, -, -, hrest⟩ | ⟨hne, hrest⟩)
    · dsimp only at hrest
      rw [if_pos rfl] at hrest
      split at hrest
      · obtain ⟨_, _, hrecord, -⟩ := accepts_bind.mp (accepts_peek_bind.mp hrest)
        exact absurd hrecord not_accepts_record
      · obtain ⟨_, _, -, hpure⟩ := accepts_bind.mp hrest
        cases (accepts_pure.mp hpure).1
    · obtain ⟨hlast, rfl⟩ := accepts_pure.mp hrest
      exact ⟨hne, Pass.last.inj hlast, rfl⟩
  · rintro ⟨hne, rfl, rfl⟩
    exact .inr ⟨hne, accepts_pure.mpr ⟨rfl, rfl⟩⟩

theorem accepts_itemPass_again (hcursor : cursor.Bounded) :
    (itemPass maxItems tooMany item items).Accepts cursor (.again final) after ↔
      ∃ comma middle a, comma.kind = .comma ∧ cursor.Passes middle [comma] [] ∧
        items.size ≠ maxItems ∧ item.Accepts middle a after ∧ final = items.push a := by
  unfold itemPass
  rw [accepts_accept_bind hcursor (by decide)]
  constructor
  · rintro (⟨comma, middle, -, hcomma, hpasses, hrest⟩ | ⟨-, hrest⟩)
    · dsimp only at hrest
      rw [if_pos rfl] at hrest
      split at hrest
      · obtain ⟨_, _, hrecord, -⟩ := accepts_bind.mp (accepts_peek_bind.mp hrest)
        exact absurd hrecord not_accepts_record
      · rename_i hsize
        obtain ⟨a, _, ha, hpure⟩ := accepts_bind.mp hrest
        obtain ⟨hfinal, rfl⟩ := accepts_pure.mp hpure
        exact ⟨comma, middle, a, hcomma, hpasses, hsize, ha, Pass.again.inj hfinal⟩
    · cases (accepts_pure.mp hrest).1
  · rintro ⟨comma, middle, a, hcomma, hpasses, hsize, ha, rfl⟩
    refine .inl ⟨comma, middle, hpasses.bounded hcursor, hcomma, hpasses, ?_⟩
    dsimp only
    rw [if_pos rfl, if_neg hsize]
    exact accepts_bind.mpr ⟨a, after, ha, accepts_pure.mpr ⟨rfl, rfl⟩⟩

/-- What is read after a first item, together with that item. -/
theorem separated_of_accepts (h : item.Reads spelled ids valid follows) {start : Cursor} {first : α}
    (hstart : start.Bounded) (hfirst : item.Accepts start first cursor)
    (hrest : (repeated (itemPass maxItems tooMany item) items).Accepts cursor final after)
    (hsize : items.size ≤ maxItems) :
    ∃ more tokens, final.toList = items.toList ++ more ∧ final.size ≤ maxItems ∧
      (∀ a ∈ first :: more, valid a) ∧ Separated spelled (first :: more) tokens ∧
      start.Passes after tokens ((first :: more).flatMap ids) ∧ follows after.peek.kind ∧
      after.peek.kind ≠ .comma := by
  induction hlength : cursor.rest.length using Nat.strongRecOn
    generalizing start first cursor items with
  | _ length ih =>
    subst hlength
    obtain ⟨⟨tokens, hpasses, hspelled⟩, hvalid, hfollows⟩ := (h _ _ _ hstart).mp hfirst
    have hcursor := hpasses.bounded hstart
    rcases accepts_repeated.mp hrest with hlast | ⟨next, middle, hagain, hrest⟩
    · obtain ⟨hne, rfl, rfl⟩ := (accepts_itemPass_last hcursor).mp hlast
      exact ⟨[], tokens, (List.append_nil _).symm, hsize, by simpa using hvalid, .one hspelled,
        by simpa using hpasses, hfollows, hne⟩
    · obtain ⟨comma, between, a, hcomma, htoken, hne, ha, rfl⟩ :=
        (accepts_itemPass_again hcursor).mp hagain
      have hbetween := htoken.bounded hcursor
      obtain ⟨⟨others, hothers, -⟩, -, -⟩ := (h _ _ _ hbetween).mp ha
      have hread := (htoken.trans hothers).length_lt (by simp)
      rw [if_pos hread] at hrest
      obtain ⟨more, rest, hfinal, hle, hall, hseparated, hrest, hend⟩ :=
        ih _ ((leadsTo_of_run hagain.1).length_lt hread) hbetween ha hrest
          (by rw [Array.size_push]; omega) rfl
      refine ⟨a :: more, tokens ++ comma :: rest, ?_, hle, ?_, .more hspelled hcomma hseparated, ?_,
        hend⟩
      · rw [hfinal, Array.toList_push, List.append_assoc]
        rfl
      · exact List.forall_mem_cons.mpr ⟨hvalid, hall⟩
      · exact hpasses.trans (htoken.trans hrest)

/-- Separated items are read from the first one on. -/
theorem accepts_of_separated (h : item.Reads spelled ids valid follows) (hcomma : follows .comma)
    {start : Cursor} (hstart : start.Bounded) {first : α} {more : List α} {tokens : List Token}
    (hseparated : Separated spelled (first :: more) tokens)
    (hpasses : start.Passes after tokens ((first :: more).flatMap ids))
    (hvalid : ∀ a ∈ first :: more, valid a) (hfollows : follows after.peek.kind)
    (hne : after.peek.kind ≠ .comma) :
    ∃ cursor, item.Accepts start first cursor ∧ ∀ items : Array α,
      items.size + more.length ≤ maxItems → ∃ final : Array α,
        final.toList = items.toList ++ more ∧
        (repeated (itemPass maxItems tooMany item) items).Accepts cursor final after := by
  induction more generalizing start first tokens with
  | nil =>
    cases hseparated with
    | one hspelled =>
      rw [List.flatMap_singleton] at hpasses
      refine ⟨after, (h _ _ _ hstart).mpr ⟨⟨tokens, hpasses, hspelled⟩, ?_, hfollows⟩, ?_⟩
      · exact hvalid first List.mem_cons_self
      · intro items _
        refine ⟨items, (List.append_nil _).symm, accepts_repeated.mpr (.inl ?_)⟩
        exact (accepts_itemPass_last (hpasses.bounded hstart)).mpr ⟨hne, rfl, rfl⟩
  | cons next more ih =>
    cases hseparated with
    | @more _ _ _ comma before others hspelled hkind hseparated =>
      rw [List.flatMap_cons] at hpasses
      obtain ⟨cursor, hbefore, hbehind⟩ := hpasses.split
      have hcursor := hbefore.bounded hstart
      refine ⟨cursor, (h _ _ _ hstart).mpr ⟨⟨before, hbefore, hspelled⟩, ?_, ?_⟩, ?_⟩
      · exact hvalid first List.mem_cons_self
      · rw [hbehind.peek, hkind]
        exact hcomma
      · intro items hsize
        obtain ⟨between, htoken, hafter⟩ := hbehind.uncons
        obtain ⟨middle, hnext, hgoes⟩ := ih (htoken.bounded hcursor) hseparated hafter
          fun a ha => hvalid a (List.mem_cons_of_mem _ ha)
        rw [List.length_cons] at hsize
        obtain ⟨final, hfinal, hrest⟩ := hgoes (items.push next) (by rw [Array.size_push]; omega)
        refine ⟨final, by rw [hfinal, Array.toList_push, List.append_assoc]; rfl, ?_⟩
        have hroom : items.size ≠ maxItems := by omega
        have hagain : (itemPass maxItems tooMany item items).Accepts cursor
            (.again (items.push next)) middle :=
          (accepts_itemPass_again hcursor).mpr ⟨comma, _, next, hkind, htoken, hroom, hnext, rfl⟩
        obtain ⟨⟨_, hread, -⟩, -, -⟩ := (h _ _ _ (htoken.bounded hcursor)).mp hnext
        exact accepts_again hagain ((htoken.trans hread).length_lt (by simp)) hrest

/-- At least one item, and commas between them. -/
theorem reads_separated (h : item.Reads spelled ids valid follows) (hcomma : follows .comma)
    (hmax : 0 < maxItems) :
    (separated maxItems tooMany item).Reads (Separated spelled) (·.flatMap ids)
      (fun items => items ≠ [] ∧ items.length ≤ maxItems ∧ ∀ a ∈ items, valid a)
      (fun kind => follows kind ∧ kind ≠ .comma) := by
  intro cursor items after hcursor
  rw [separated_eq, accepts_bind]
  constructor
  · rintro ⟨first, middle, hfirst, hrest⟩
    obtain ⟨final, hfinal, rfl⟩ := accepts_map.mp hrest
    obtain ⟨more, tokens, hlist, hsize, hvalid, hseparated, hpasses, hend⟩ :=
      separated_of_accepts h hcursor hfirst hfinal hmax
    rw [List.singleton_append] at hlist
    rw [Array.size_eq_length_toList, hlist] at hsize
    rw [hlist]
    exact ⟨⟨tokens, hpasses, hseparated⟩, ⟨List.cons_ne_nil _ _, hsize, hvalid⟩, hend⟩
  · rintro ⟨⟨tokens, hpasses, hseparated⟩, ⟨hitems, hlength, hvalid⟩, hfollows, hne⟩
    obtain ⟨first, more, rfl⟩ := List.exists_cons_of_ne_nil hitems
    obtain ⟨middle, hfirst, hgoes⟩ :=
      accepts_of_separated h hcomma hcursor hseparated hpasses hvalid hfollows hne
    obtain ⟨final, hfinal, hrest⟩ := hgoes #[first] (by simpa [Nat.add_comm] using hlength)
    exact ⟨first, middle, hfirst, accepts_map.mpr ⟨final, hrest, hfinal.symm⟩⟩

theorem begins_of_separated
    (hbegins : ∀ a tokens, spelled a tokens → ∃ first rest, tokens = first :: rest ∧
      first.kind ≠ .rightParen)
    {first : α} {more : List α} {tokens : List Token}
    (h : Separated spelled (first :: more) tokens) :
    ∃ token rest, tokens = token :: rest ∧ token.kind ≠ .rightParen := by
  cases h with
  | one hspelled => exact hbegins _ _ hspelled
  | more hspelled _ _ =>
    obtain ⟨token, rest, rfl, htoken⟩ := hbegins _ _ hspelled
    exact ⟨token, _, rfl, htoken⟩

/-- Any number of items up to a closing parenthesis. -/
theorem accepts_list_bind {β : Type} (h : item.Reads spelled ids valid follows)
    (hcomma : follows .comma) (hparen : follows .rightParen) (hmax : 0 < maxItems)
    (hbegins : ∀ a tokens, spelled a tokens → ∃ first rest, tokens = first :: rest ∧
      first.kind ≠ .rightParen)
    {what : String} {rest : List α → Token → Rule β} {cursor after : Cursor} {result : β}
    (hcursor : cursor.Bounded) :
    (do
      let empty ← check .rightParen
      let items ← if empty then pure [] else separated maxItems tooMany item
      let closing ← require .rightParen what
      rest items closing).Accepts cursor result after ↔
      ∃ items tokens closing behind, behind.Bounded ∧ Separated spelled items tokens ∧
        closing.kind = .rightParen ∧ items.length ≤ maxItems ∧ (∀ a ∈ items, valid a) ∧
        cursor.Passes behind (tokens ++ [closing]) (items.flatMap ids) ∧
        (rest items closing).Accepts behind result after := by
  rw [accepts_check_bind]
  dsimp only
  by_cases hempty : cursor.peek.kind = .rightParen
  · rw [if_pos (by simpa using hempty), accepts_pure_bind,
      accepts_require_bind hcursor (by decide)]
    constructor
    · rintro ⟨closing, behind, hbehind, hkind, hpasses, hrest⟩
      exact ⟨[], [], closing, behind, hbehind, .none, hkind, Nat.zero_le _, by simp, hpasses, hrest⟩
    · rintro ⟨items, tokens, closing, behind, hbehind, hseparated, hkind, -, -, hpasses, hrest⟩
      cases items with
      | nil =>
        cases hseparated
        exact ⟨closing, behind, hbehind, hkind, hpasses, hrest⟩
      | cons first more =>
        obtain ⟨token, others, rfl, htoken⟩ := begins_of_separated hbegins hseparated
        exact absurd (hpasses.peek ▸ hempty) htoken
  · rw [if_neg (by simpa using hempty), accepts_bind]
    constructor
    · rintro ⟨items, middle, hitems, hrest⟩
      obtain ⟨⟨tokens, hpasses, hseparated⟩, ⟨-, hlength, hvalid⟩, -⟩ :=
        (reads_separated h hcomma hmax _ _ _ hcursor).mp hitems
      obtain ⟨closing, behind, hbehind, hkind, hclosing, hrest⟩ :=
        (accepts_require_bind (hpasses.bounded hcursor) (by decide)).mp hrest
      have hboth := hpasses.trans hclosing
      rw [List.append_nil] at hboth
      exact ⟨items, tokens, closing, behind, hbehind, hseparated, hkind, hlength, hvalid, hboth,
        hrest⟩
    · rintro ⟨items, tokens, closing, behind, hbehind, hseparated, hkind, hlength, hvalid, hpasses,
        hrest⟩
      obtain ⟨middle, hitems, hclosing⟩ := hpasses.split_last
      have hne : items ≠ [] := by
        rintro rfl
        cases hseparated
        exact hempty (hpasses.peek ▸ hkind)
      have hfollows : follows middle.peek.kind ∧ middle.peek.kind ≠ .comma := by
        rw [hclosing.peek, hkind]
        exact ⟨hparen, by decide⟩
      exact ⟨items, middle, (reads_separated h hcomma hmax _ _ _ hcursor).mpr
        ⟨⟨tokens, hitems, hseparated⟩, ⟨hne, hlength, hvalid⟩, hfollows⟩,
        (accepts_require_bind (hitems.bounded hcursor) (by decide)).mpr
          ⟨closing, behind, hbehind, hkind, hclosing, hrest⟩⟩

end Separated

end CommandScript.Grammar
