import TierCalc.Text.ClusterClass

/-!
# Clusters

What a reader sees as one character may be several: a letter with its marks, the syllable of an alphabet that is
written in blocks, a pair of letters that stands for a flag, emoji joined by joiners. `Cluster.step` goes through a text
and tells for every character whether it belongs to the cluster of the one before it.

* A control stands alone, but a line feed joins the carriage return before it.
* What follows a control starts afresh: it is taken for an ordinary character, whatever it is.
* A sign that belongs to the character after it takes any character but a control, and that character is then taken
  for an ordinary one.
-/

namespace TierCalc.Text.Cluster

/-- What is known of the characters so far. -/
inductive State where
  | any
  | carriageReturn
  | control
  | prepended
  | leading
  | vowel
  | trailing
  | picture
  | joinedPicture
  | oddFlags
  | evenFlags
deriving DecidableEq, Repr

/-- What a character of a class does when nothing about the ones before it matters. -/
def start : Class → Bool × State
  | .carriageReturn => (false, .carriageReturn)
  | .lineFeed | .control => (false, .control)
  | .prepended => (false, .prepended)
  | .extending | .joiner | .spacing => (true, .any)
  | .leading => (false, .leading)
  | .vowel | .openBlock => (false, .vowel)
  | .trailing | .closedBlock => (false, .trailing)
  | .flag => (false, .oddFlags)
  | .picture => (false, .picture)
  | .other => (false, .any)

/-- Whether a character of a class belongs to the cluster so far, and the state after it. -/
def transition : State → Class → Bool × State
  | .carriageReturn, .lineFeed => (true, .any)
  | .carriageReturn, _ | .control, _ => (false, .any)
  | .leading, .leading => (true, .leading)
  | .leading, .vowel | .leading, .openBlock => (true, .vowel)
  | .leading, .closedBlock => (true, .trailing)
  | .vowel, .vowel => (true, .vowel)
  | .vowel, .trailing | .trailing, .trailing => (true, .trailing)
  | .prepended, c =>
      match c with
      | .carriageReturn | .lineFeed | .control => start c
      | _ => (true, .any)
  | .picture, .extending => (true, .picture)
  | .picture, .joiner => (true, .joinedPicture)
  | .joinedPicture, .picture => (true, .picture)
  | .oddFlags, .flag => (true, .evenFlags)
  | _, c => start c

/-- Whether a character belongs to the cluster so far, and the state after it. -/
def step (s : State) (c : Char) : Bool × State := transition s (.ofChar c)

end TierCalc.Text.Cluster
