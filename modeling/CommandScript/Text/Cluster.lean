import CommandScript.Text.BreakClass

/-!
# Clusters

A reader sees a text as a row of clusters: a character together with the marks on it, a
Hangul syllable, a conjunct of consonants, a flag made of two regional indicators, or
pictographs that are joined to one. Between two characters of a text there is either a
boundary, or the second continues the cluster of the first.

* `continues`: whether a character continues the cluster before it.
* `clusters`: the clusters of a text.
* `flatten_clusters`: the clusters put together are the text.
-/

namespace CommandScript.Text

namespace BreakClass

/-- Nothing belongs to a control, and a control belongs to nothing. -/
def standsAlone : BreakClass → Bool
  | .carriageReturn | .lineFeed | .control => true
  | _ => false

def isMark : BreakClass → Bool
  | .extending | .joiner | .spacing => true
  | _ => false

/-- Whether two neighbours are parts of one Hangul syllable. -/
def inOneSyllable : BreakClass → BreakClass → Bool
  | .leading, .leading | .leading, .vowel => true
  | .leading, .openSyllable | .leading, .closedSyllable => true
  | .openSyllable, .vowel | .openSyllable, .trailing => true
  | .vowel, .vowel | .vowel, .trailing => true
  | .closedSyllable, .trailing | .trailing, .trailing => true
  | _, _ => false

end BreakClass

/-- Whether the nearest character that is not skipped has the given class. -/
def nearestIs (cls : BreakClass) (skipped : Char → Bool) (before : List Char) : Bool :=
  match before.dropWhile skipped with
  | nearest :: _ => breakClass nearest = cls
  | [] => false

/-- Whether a consonant with a linker among its marks comes right before. -/
def opensConjunct (before : List Char) : Bool :=
  (before.takeWhile isConjunctPart).any isLinker && nearestIs .consonant isConjunctPart before

/-- Whether a pictograph with nothing but extending marks comes right before. -/
def opensPictograph (before : List Char) : Bool :=
  nearestIs .pictograph (breakClass · = .extending) before

/-- Whether the regional indicators right before leave one without a partner. -/
def opensFlag (before : List Char) : Bool :=
  (before.takeWhile (breakClass · = .regional)).length % 2 = 1

/-- Whether `next` continues the cluster that ends the characters before it, which are
given nearest first. -/
def continues (before : List Char) (next : Char) : Bool :=
  match before with
  | [] => false
  | last :: earlier =>
    match breakClass last, breakClass next with
    | .carriageReturn, .lineFeed => true
    | left, right =>
      if left.standsAlone || right.standsAlone then false
      else
        left.inOneSyllable right || right.isMark || left = .introducing ||
          (right = .consonant && opensConjunct before) ||
          (left = .joiner && right = .pictograph && opensPictograph earlier) ||
          (right = .regional && opensFlag before)

/-- The clusters of `text` after some characters. These and the cluster that they end with
are given nearest first. -/
def clustersAfter (before cluster : List Char) : (text : List Char) → List (List Char)
  | [] => [cluster.reverse]
  | next :: rest =>
    if continues before next then clustersAfter (next :: before) (next :: cluster) rest
    else cluster.reverse :: clustersAfter (next :: before) [next] rest

def clusters : List Char → List (List Char)
  | [] => []
  | first :: rest => clustersAfter [first] [first] rest

theorem flatten_clustersAfter (before cluster text : List Char) :
    (clustersAfter before cluster text).flatten = cluster.reverse ++ text := by
  induction text generalizing before cluster with
  | nil => simp [clustersAfter]
  | cons next rest ih =>
    rw [clustersAfter]
    split
    · simp [ih]
    · simp [ih]

theorem flatten_clusters (text : List Char) : (clusters text).flatten = text := by
  cases text with
  | nil => rfl
  | cons first rest => exact flatten_clustersAfter [first] [first] rest

end CommandScript.Text
