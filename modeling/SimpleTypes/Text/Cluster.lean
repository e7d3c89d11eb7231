import SimpleTypes.Text.BreakClass

/-!
# Clusters

A text is cut into extended grapheme clusters: the pieces a reader takes for
single characters, such as a letter with its accents, a flag, or a family of
faces. Whether a character continues a cluster depends only on what the cluster
holds so far, so the cut is one walk from left to right.

Nothing is lost and nothing is added by cutting (`flatten_clusters`).
-/

namespace SimpleTypes.Text

namespace BreakClass

/-- A boundary on both sides, except inside a carriage return and line feed. -/
def isEdge : BreakClass → Bool
  | .carriageReturn | .lineFeed | .control => true
  | _ => false

/-- Belongs to whatever stands before it. -/
def trails : BreakClass → Bool
  | .extend | .joiner | .spacing => true
  | _ => false

/-- The second goes on with the Hangul syllable that the first is part of. -/
def continuesSyllable : BreakClass → BreakClass → Bool
  | .leading, .leading | .leading, .vowel => true
  | .leading, .openSyllable | .leading, .closedSyllable => true
  | .openSyllable, .vowel | .openSyllable, .trailing => true
  | .vowel, .vowel | .vowel, .trailing => true
  | .closedSyllable, .trailing | .trailing, .trailing => true
  | _, _ => false

end BreakClass

-- ---------------------------------------------------------------------------
-- Looking back over a cluster, latest character first
-- ---------------------------------------------------------------------------

/-- A consonant, and behind it marks that include a linker. The marks already
passed included one if `linked`. -/
def endsInConjunct (linked : Bool) : List Char → Bool
  | [] => false
  | c :: earlier =>
    if isLinker c then endsInConjunct true earlier
    else
      match BreakClass.ofChar c with
      | .extend => !isNonJoiner c && endsInConjunct linked earlier
      | .joiner => endsInConjunct linked earlier
      | .consonant => linked
      | _ => false

/-- A pictograph and any marks behind it. -/
def endsInPictograph : List Char → Bool
  | [] => false
  | c :: earlier =>
    match BreakClass.ofChar c with
    | .extend => endsInPictograph earlier
    | .pictograph => true
    | _ => false

/-- An odd number of regional indicators. -/
def endsInLoneIndicator : List Char → Bool
  | [] => false
  | c :: earlier => BreakClass.ofChar c == .indicator && !endsInLoneIndicator earlier

/-- Whether `c` continues a cluster, given latest character first. -/
def continues (cluster : List Char) (c : Char) : Bool :=
  match cluster with
  | [] => false
  | last :: earlier =>
    let before := BreakClass.ofChar last
    let after := BreakClass.ofChar c
    if before.isEdge || after.isEdge then before == .carriageReturn && after == .lineFeed
    else
      after.trails || before == .prepend || before.continuesSyllable after ||
        (after == .consonant && endsInConjunct false cluster) ||
        (after == .pictograph && before == .joiner && endsInPictograph earlier) ||
        (after == .indicator && endsInLoneIndicator cluster)

-- ---------------------------------------------------------------------------
-- Cutting
-- ---------------------------------------------------------------------------

/-- The clusters of the remaining text, with `cluster` the current one, latest
character first. -/
def clustersFrom (cluster : List Char) : List Char → List (List Char)
  | [] => [cluster.reverse]
  | c :: rest =>
    if continues cluster c then clustersFrom (c :: cluster) rest
    else cluster.reverse :: clustersFrom [c] rest

def clusters : List Char → List (List Char)
  | [] => []
  | c :: rest => clustersFrom [c] rest

theorem flatten_clustersFrom (cluster cs : List Char) :
    (clustersFrom cluster cs).flatten = cluster.reverse ++ cs := by
  induction cs generalizing cluster with
  | nil => simp [clustersFrom]
  | cons c rest ih =>
    unfold clustersFrom
    split <;> simp [ih]

@[simp] theorem flatten_clusters (cs : List Char) : (clusters cs).flatten = cs := by
  cases cs with
  | nil => rfl
  | cons c rest => simp [clusters, flatten_clustersFrom]

end SimpleTypes.Text
