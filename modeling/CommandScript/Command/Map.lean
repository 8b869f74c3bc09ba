import CommandScript.Value

/-!
# Command maps

What a module receives with a command: lists of values under keys, in the order in which
the keys first appeared. Flags are kept under `flags` and positional values under
`arguments`, which are always there; every parameter has its own name as key.

* `CommandMap.append`: adds values under a key, creating the key if it is new.
* `CommandMap.get?_append`: afterwards that key holds the values in addition, and every
  other key what it held.
* `CommandMap.text`: the map as text.
-/

namespace CommandScript

structure CommandMap where
  entries : List (String × List Value)

namespace CommandMap

def flagsKey : String := "flags"

def argumentsKey : String := "arguments"

def empty : CommandMap := ⟨[(flagsKey, []), (argumentsKey, [])]⟩

def get? (map : CommandMap) (key : String) : Option (List Value) := map.entries.lookup key

/-- Adds values under a key of a list of entries, or at the end under a new one. -/
def appendEntry (key : String) (values : List Value) :
    List (String × List Value) → List (String × List Value)
  | [] => [(key, values)]
  | (other, held) :: rest =>
    if key = other then (other, held ++ values) :: rest
    else (other, held) :: appendEntry key values rest

def append (map : CommandMap) (key : String) (values : List Value) : CommandMap :=
  ⟨appendEntry key values map.entries⟩

theorem get?_append (map : CommandMap) (key other : String) (values : List Value) :
    (map.append key values).get? other =
      if other = key then some ((map.get? key).getD [] ++ values) else map.get? other := by
  obtain ⟨entries⟩ := map
  simp only [append, get?]
  induction entries with
  | nil =>
    by_cases h : other = key
    · simp [appendEntry, h]
    · simp [appendEntry, List.lookup_cons, h, beq_false_of_ne h]
  | cons entry rest ih =>
    obtain ⟨name, held⟩ := entry
    unfold appendEntry
    by_cases hk : key = name
    · subst hk
      by_cases h : other = key
      · simp [h]
      · simp [List.lookup_cons, h, beq_false_of_ne h]
    · rw [if_neg hk]
      by_cases h : other = name
      · have : other ≠ key := fun e => hk (e.symm.trans h)
        subst h
        simp [this]
      · simp [List.lookup_cons, beq_false_of_ne h, beq_false_of_ne hk, ih]

def pushFlag (map : CommandMap) (flag : String) : CommandMap :=
  map.append flagsKey [.string flag]

def pushArgument (map : CommandMap) (value : Value) : CommandMap :=
  map.append argumentsKey [value]

def extendParameter (map : CommandMap) (name : String) (values : List Value) : CommandMap :=
  map.append name values

def flags (map : CommandMap) : List Value := (map.get? flagsKey).getD []

def arguments (map : CommandMap) : List Value := (map.get? argumentsKey).getD []

def hasFlag (map : CommandMap) (flag : String) : Bool :=
  map.flags.any fun value => value.same (.string flag)

def keys (map : CommandMap) : List String := map.entries.map Prod.fst

/-- Equality of lists of values as programs see it. -/
def sameValues : List Value → List Value → Bool
  | [], [] => true
  | a :: as, b :: bs => a.same b && sameValues as bs
  | _, _ => false

/-- Maps are the same if they hold the same values under the same keys in the same order. -/
def sameEntries : List (String × List Value) → List (String × List Value) → Bool
  | [], [] => true
  | (a, as) :: rest, (b, bs) :: others => a = b && sameValues as bs && sameEntries rest others
  | _, _ => false

def same (map other : CommandMap) : Bool := sameEntries map.entries other.entries

def entryText (entry : String × List Value) : String :=
  entry.1 ++ ": [" ++ ", ".intercalate (entry.2.map Value.text) ++ "]"

def text (map : CommandMap) : String :=
  "\x7b" ++ ", ".intercalate (map.entries.map entryText) ++ "\x7d"

end CommandMap

end CommandScript
