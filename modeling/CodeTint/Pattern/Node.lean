import CodeTint.Text.Chars

/-!
# Patterns as trees

The tree of a pattern says what the pattern matches; groups and flags have done their work when the
tree is built and leave no trace in it.
-/

namespace CodeTint

/-! ## Sets of characters

A bracket or an escape of a pattern stands for a set of characters. The set is kept as the
expression that was written, and a character is tested against the expression. -/

/-- The classes of characters that patterns have names for. -/
inductive CharClass where
  | digit
  | blank
  | word
deriving Repr, DecidableEq

namespace CharClass

def mem : CharClass → Char → Bool
  | digit => isDecimalDigit
  | blank => isBlank
  | word => isWord

def asciiMem : CharClass → Char → Bool
  | digit => isAsciiDigit
  | blank => isAsciiBlank
  | word => isAsciiWord

end CharClass

/-- An expression for a set of characters. -/
inductive CharSet where
  | empty
  | range (first last : Char)
  | ofClass (name : CharClass)
  | asciiClass (name : CharClass)
  | complement (s : CharSet)
  | union (s t : CharSet)
  | inter (s t : CharSet)
  | caseClosed (s : CharSet)
  | asciiCaseClosed (s : CharSet)
deriving Repr, DecidableEq

namespace CharSet

/-- Whether the character belongs to the set. A set closed under case holds each character that has
a case variant in the set. -/
def mem : CharSet → Char → Bool
  | empty, _ => false
  | range first last, c => first ≤ c && c ≤ last
  | ofClass name, c => name.mem c
  | asciiClass name, c => name.asciiMem c
  | complement s, c => !s.mem c
  | union s t, c => s.mem c || t.mem c
  | inter s t, c => s.mem c && t.mem c
  | caseClosed s, c => s.mem c || (caseVariants c).any s.mem
  | asciiCaseClosed s, c => s.mem c || (asciiCaseVariants c).any s.mem

def single (c : Char) : CharSet :=
  range c c

def all : CharSet :=
  complement empty

def negatedIf (negated : Bool) (set : CharSet) : CharSet :=
  if negated then complement set else set

def ascii : CharSet :=
  range '\x00' '\x7f'

def unionOf : List CharSet → CharSet
  | [] => empty
  | [s] => s
  | s :: sets => union s (unionOf sets)

end CharSet

/-! ## Trees -/

/-- The places at which a word stands in relation to its neighbours. The two half edges look at one
side only. -/
inductive WordEdge where
  | boundary
  | inside
  | wordStart
  | wordEnd
  | startHalf
  | endHalf
deriving Repr, DecidableEq

/-- Conditions on a place, which match no character themselves. -/
inductive Assertion where
  | textStart
  | textEnd
  | lineStart
  | lineEnd
  /-- A line start where a line may also end in a carriage return, alone or before a line feed. -/
  | anyLineStart
  | anyLineEnd
  /-- An edge between words, whose characters are those of ASCII only if `ascii` is set. -/
  | word (edge : WordEdge) (ascii : Bool)
deriving Repr, DecidableEq

inductive Node where
  | empty
  | one (set : CharSet)
  | assertion (a : Assertion)
  | seq (first second : Node)
  | alt (first second : Node)
  /-- The body `least` times or more, and at most `most` times if that is given. A greedy repetition
  prefers more rounds to fewer. -/
  | repetition (body : Node) (least : Nat) (most : Option Nat) (greedy : Bool)
deriving Repr, DecidableEq

namespace Node

def seqOf : List Node → Node
  | [] => empty
  | node :: nodes => nodes.foldl seq node

def altOf : List Node → Node
  | [] => empty
  | [node] => node
  | node :: nodes => alt node (altOf nodes)

end Node

end CodeTint
