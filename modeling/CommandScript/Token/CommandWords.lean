import CommandScript.Text.LetterCase

/-!
# Command words

The words that start a command when they stand where a word may stand. They are kept
lowered, without repetition and in ascending order; look-up ignores letter case.

* `CommandWords.mem_insert`: a word is in the set after an insertion exactly when it was
  before or is the inserted word, lowered.
* `CommandWords.contains_iff`: look-up asks for the lowered word.
-/

namespace CommandScript

structure CommandWords where
  words : List String
  deriving DecidableEq

namespace CommandWords

def empty : CommandWords := ⟨[]⟩

/-- Inserts a word at its place in an ascending list, unless it is there already. -/
def insertAscending (word : String) : List String → List String
  | [] => [word]
  | first :: rest =>
    if word = first then first :: rest
    else if word < first then word :: first :: rest
    else first :: insertAscending word rest

theorem mem_insertAscending {w word : String} {words : List String} :
    w ∈ insertAscending word words ↔ w = word ∨ w ∈ words := by
  induction words with
  | nil => simp [insertAscending]
  | cons first rest ih =>
    unfold insertAscending
    split
    · rename_i h
      subst h
      simp
    · split
      · simp
      · simp only [List.mem_cons, ih]
        exact or_left_comm

def insert (set : CommandWords) (word : String) : CommandWords :=
  ⟨insertAscending (Text.lowered word) set.words⟩

theorem mem_insert {set : CommandWords} {w word : String} :
    w ∈ (set.insert word).words ↔ w = Text.lowered word ∨ w ∈ set.words :=
  mem_insertAscending

def insertAll (set : CommandWords) (words : List String) : CommandWords :=
  words.foldl insert set

def contains (set : CommandWords) (word : String) : Bool :=
  set.words.contains (Text.lowered word)

theorem contains_iff {set : CommandWords} {word : String} :
    set.contains word = true ↔ Text.lowered word ∈ set.words := by
  simp [contains]

/-- The command words known without any module. -/
def builtin : CommandWords :=
  empty.insertAll ["help", "create", "start", "end", "finish", "begin", "react",
    "reaction", "scheme", "open", "close", "command", "exit"]

end CommandWords

end CommandScript
