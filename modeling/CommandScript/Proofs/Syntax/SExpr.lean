import Mathlib.Data.List.Basic

/-!
# Trees written with parentheses

A tree is written as a word, or as a parenthesis around its parts with single blanks between
them. If no word is empty or has a blank, a line break or a parenthesis in it, then the text
tells where a tree ends: a word ends where one of these stands, and a parenthesis where it is
closed. So whatever is written can be read in one way only.

* `SExpr.chars`: how a tree is written.
* `SExpr.decodes`: a tree and what stands behind it are known from the text.
* `SExpr.joined_inj`: so are trees with a separator between them.
-/

namespace CommandScript

inductive SExpr where
  | atom (text : String)
  | list (parts : List SExpr)

/-- Texts with a separator between them. -/
def joined (separator : Char) : List (List Char) → List Char
  | [] => []
  | text :: rest => text ++ rest.flatMap (separator :: ·)

theorem intercalate_eq_joined (separator : Char) (texts : List (List Char)) :
    [separator].intercalate texts = joined separator texts := by
  induction texts with
  | nil => rfl
  | cons text rest ih =>
    cases rest with
    | nil => simp [joined, List.intercalate]
    | cons next rest =>
      rw [List.intercalate_cons_cons, ih]
      simp [joined]

/-- The characters that end a word. -/
def IsDelimiter (c : Char) : Prop := c ∈ [' ', '\n', '(', ')']

instance (c : Char) : Decidable (IsDelimiter c) := inferInstanceAs (Decidable (_ ∈ _))

/-- The text can be told from what stands around it. -/
def IsAtom (text : String) : Prop := text.toList ≠ [] ∧ ∀ c ∈ text.toList, ¬ IsDelimiter c

instance (text : String) : Decidable (IsAtom text) :=
  decidable_of_iff (text.toList ≠ [] ∧ text.toList.all (¬ IsDelimiter ·) = true) <|
    and_congr_right' (by simp)

namespace SExpr

/-- A parenthesis that starts with a word. -/
def node (head : String) (parts : List SExpr) : SExpr := .list (.atom head :: parts)

mutual

def chars : SExpr → List Char
  | .atom text => text.toList
  | .list parts => '(' :: (joined ' ' (charsAll parts) ++ [')'])

def charsAll : List SExpr → List (List Char)
  | [] => []
  | part :: rest => part.chars :: charsAll rest

end

mutual

/-- No word is empty or has a delimiter in it. -/
def Readable : SExpr → Prop
  | .atom text => IsAtom text
  | .list parts => ReadableAll parts

def ReadableAll : List SExpr → Prop
  | [] => True
  | part :: rest => part.Readable ∧ ReadableAll rest

end

theorem charsAll_eq (parts : List SExpr) : charsAll parts = parts.map chars := by
  induction parts with
  | nil => rfl
  | cons part rest ih => rw [charsAll, ih, List.map_cons]

theorem readableAll_iff {parts : List SExpr} :
    ReadableAll parts ↔ ∀ part ∈ parts, part.Readable := by
  induction parts with
  | nil => simp [ReadableAll]
  | cons part rest ih => rw [ReadableAll, ih, List.forall_mem_cons]

/-! ## Where a tree ends -/

/-- What may stand behind a tree. -/
def Follows (rest : List Char) : Prop := ∀ c ∈ rest.head?, c ≠ '(' ∧ IsDelimiter c

theorem follows_nil : Follows [] := fun _ hnone => nomatch hnone

theorem follows_cons {c : Char} {rest : List Char} (h : c ≠ '(') (hc : IsDelimiter c) :
    Follows (c :: rest) := by
  rintro d ⟨⟩
  exact ⟨h, hc⟩

/-- A word ends where the first delimiter stands. -/
theorem takeWhile_word {word rest : List Char} (hword : ∀ c ∈ word, ¬ IsDelimiter c)
    (hrest : Follows rest) : (word ++ rest).takeWhile (fun c => !decide (IsDelimiter c)) = word := by
  rw [List.takeWhile_append_of_pos (by simpa using hword)]
  cases rest with
  | nil => rw [List.takeWhile_nil, List.append_nil]
  | cons c rest =>
    rw [List.takeWhile_cons_of_neg (by simpa using (hrest c rfl).2), List.append_nil]

/-- A tree begins with a parenthesis exactly if it is not a word. -/
theorem exists_head {tree : SExpr} (h : tree.Readable) :
    ∃ c more, tree.chars = c :: more ∧ (IsDelimiter c → c = '(') ∧
      (c = '(' ↔ ∃ parts, tree = .list parts) := by
  cases tree with
  | atom text =>
    obtain ⟨hne, hword⟩ := h
    obtain ⟨c, more, hchars⟩ := List.exists_cons_of_ne_nil hne
    have hc := hword c (hchars ▸ List.mem_cons_self)
    have hparen : c ≠ '(' := by
      rintro rfl
      exact hc (by decide)
    exact ⟨c, more, hchars, fun hdelimiter => absurd hdelimiter hc, by simp [hparen]⟩
  | list parts => exact ⟨'(', _, rfl, fun _ => rfl, by simp⟩

/-- No tree begins like what stands behind one. -/
theorem not_follows_chars {tree : SExpr} (h : tree.Readable) (rest : List Char) :
    ¬ Follows (tree.chars ++ rest) := by
  obtain ⟨c, more, hchars, hc, -⟩ := exists_head h
  intro hfollows
  rw [hchars] at hfollows
  obtain ⟨hne, hdelimiter⟩ := hfollows c rfl
  exact hne (hc hdelimiter)

/-- The tree and what stands behind it are known from the text. -/
def Decodes (tree : SExpr) : Prop :=
  ∀ {other : SExpr} {rest rest' : List Char}, other.Readable → Follows rest → Follows rest' →
    tree.chars ++ rest = other.chars ++ rest' → tree = other ∧ rest = rest'

theorem atom_decodes {text : String} (h : (SExpr.atom text).Readable) :
    (SExpr.atom text).Decodes := by
  intro other rest rest' hother hrest hrest' heq
  cases other with
  | atom text' =>
    have htext : text.toList = text'.toList := by
      rw [← takeWhile_word h.2 hrest, ← takeWhile_word hother.2 hrest']
      exact congrArg _ heq
    obtain rfl := String.toList_inj.mp htext
    exact ⟨rfl, List.append_cancel_left heq⟩
  | list parts =>
    obtain ⟨c, more, hchars, -, hlist⟩ := exists_head h
    rw [hchars] at heq
    obtain ⟨_, hnone⟩ := hlist.mp (List.cons.inj heq).1
    cases hnone

section Joined

variable {separator : Char} {trees others : List SExpr} {rest rest' : List Char}

theorem follows_behind (hseparator : separator ≠ '(' ∧ IsDelimiter separator)
    (hrest : Follows rest) (texts : List (List Char)) :
    Follows (texts.flatMap (separator :: ·) ++ rest) := by
  cases texts with
  | nil => exact hrest
  | cons text texts => exact follows_cons hseparator.1 hseparator.2

/-- Trees that each have the separator before them. -/
theorem behind_inj (hseparator : separator ≠ '(' ∧ IsDelimiter separator)
    (htrees : ∀ tree ∈ trees, tree.Decodes) (hothers : ReadableAll others)
    (hrest : Follows rest) (hrest' : Follows rest') (hhead : rest.head? ≠ some separator)
    (hhead' : rest'.head? ≠ some separator)
    (h : (charsAll trees).flatMap (separator :: ·) ++ rest =
      (charsAll others).flatMap (separator :: ·) ++ rest') :
    trees = others ∧ rest = rest' := by
  induction trees generalizing others with
  | nil =>
    cases others with
    | nil => exact ⟨rfl, h⟩
    | cons other others => exact absurd (congrArg List.head? h) hhead
  | cons tree trees ih =>
    cases others with
    | nil => exact absurd (congrArg List.head? h).symm hhead'
    | cons other others =>
      obtain ⟨htree, htrees⟩ := List.forall_mem_cons.mp htrees
      simp only [charsAll, List.flatMap_cons, List.cons_append, List.append_assoc] at h
      obtain ⟨rfl, hbehind⟩ := htree hothers.1 (follows_behind hseparator hrest _)
        (follows_behind hseparator hrest' _) (List.cons.inj h).2
      obtain ⟨rfl, hlast⟩ := ih htrees hothers.2 hbehind
      exact ⟨rfl, hlast⟩

theorem joined_decodes (hseparator : separator ≠ '(' ∧ IsDelimiter separator)
    (htrees : ∀ tree ∈ trees, tree.Decodes) (hreadable : ReadableAll trees)
    (hothers : ReadableAll others) (hrest : Follows rest) (hrest' : Follows rest')
    (hhead : rest.head? ≠ some separator) (hhead' : rest'.head? ≠ some separator)
    (h : joined separator (charsAll trees) ++ rest = joined separator (charsAll others) ++ rest') :
    trees = others ∧ rest = rest' := by
  cases trees with
  | nil =>
    cases others with
    | nil => exact ⟨rfl, h⟩
    | cons other others =>
      simp only [charsAll, joined, List.nil_append, List.append_assoc] at h
      exact absurd (h ▸ hrest) (not_follows_chars hothers.1 _)
  | cons tree trees =>
    cases others with
    | nil =>
      simp only [charsAll, joined, List.nil_append, List.append_assoc] at h
      exact absurd (h ▸ hrest') (not_follows_chars hreadable.1 _)
    | cons other others =>
      obtain ⟨htree, htrees⟩ := List.forall_mem_cons.mp htrees
      simp only [charsAll, joined, List.append_assoc] at h
      obtain ⟨rfl, hbehind⟩ := htree hothers.1 (follows_behind hseparator hrest _)
        (follows_behind hseparator hrest' _) h
      obtain ⟨rfl, hlast⟩ :=
        behind_inj hseparator htrees hothers.2 hrest hrest' hhead hhead' hbehind
      exact ⟨rfl, hlast⟩

end Joined

theorem list_decodes {parts : List SExpr} (hparts : ∀ part ∈ parts, part.Decodes)
    (h : ReadableAll parts) : (SExpr.list parts).Decodes := by
  intro other rest rest' hother hrest hrest' heq
  cases other with
  | atom text =>
    obtain ⟨c, more, hchars, -, hlist⟩ := exists_head hother
    rw [hchars] at heq
    obtain ⟨_, hnone⟩ := hlist.mp (List.cons.inj heq).1.symm
    cases hnone
  | list others =>
    have hclosing : ∀ behind : List Char, Follows (')' :: behind) := fun _ =>
      follows_cons (by decide) (by decide)
    simp only [chars, List.cons_append, List.append_assoc] at heq
    obtain ⟨rfl, hlast⟩ := joined_decodes (by decide) hparts h hother (hclosing rest)
      (hclosing rest') (by simp) (by simp) (List.cons.inj heq).2
    exact ⟨rfl, (List.cons.inj hlast).2⟩

mutual

theorem decodes : ∀ {tree : SExpr}, tree.Readable → tree.Decodes
  | .atom _, h => atom_decodes h
  | .list _, h => list_decodes (decodes_all h) h

theorem decodes_all : ∀ {trees : List SExpr}, ReadableAll trees → ∀ tree ∈ trees, tree.Decodes
  | [], _ => List.forall_mem_nil _
  | _ :: _, ⟨htree, htrees⟩ => List.forall_mem_cons.mpr ⟨decodes htree, decodes_all htrees⟩

end

/-- Trees on lines of their own are known from the text. -/
theorem joined_inj {separator : Char} (hseparator : separator ≠ '(' ∧ IsDelimiter separator)
    {trees others : List SExpr} (htrees : ReadableAll trees) (hothers : ReadableAll others)
    (h : joined separator (charsAll trees) = joined separator (charsAll others)) :
    trees = others := by
  refine (joined_decodes hseparator (decodes_all htrees) htrees hothers follows_nil follows_nil
    (by simp) (by simp) ?_).1
  rw [h]

end SExpr

end CommandScript
