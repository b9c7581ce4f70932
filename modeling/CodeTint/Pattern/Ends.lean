import CodeTint.Pattern.Basic
import CodeTint.Pattern.Node

/-!
# What a pattern matches from a given place

`Node.ends` lists the places at which a match that begins at a given place can end, the preferred
one first: an earlier alternative comes before a later one, and a greedy repetition lists the ends
of longer runs first. A place that is reached twice is kept where it is reached first, since
whatever follows has the same success from it both times; this keeps the lists as short as the text.

If the first round of an unbounded repetition matches nothing, the repetition may end there, and it
does so at the place in the order that this round has. A later round that matches nothing is left
out: from the same place a further round can reach nothing new. Neither can a further round of a
body that is such a repetition itself, as its own rounds have been everywhere.
-/

namespace CodeTint

/-! ## Places in order of preference -/

/-- Places in order of preference, each kept where it was added first. -/
structure Places where
  /-- The offsets of the places, as the bits of a number. -/
  seen : Nat
  /-- The places, the least preferred first. -/
  reversed : List Cursor

namespace Places

def empty : Places := ⟨0, []⟩

def has (p : Places) (c : Cursor) : Bool :=
  p.seen.testBit c.offset

/-- The places with `c` as the least preferred one, unless it is among them. -/
def add (p : Places) (c : Cursor) : Places :=
  if p.has c then p else ⟨p.seen ||| (1 <<< c.offset), c :: p.reversed⟩

def toList (p : Places) : List Cursor :=
  p.reversed.reverse

end Places

/-- The places of the list, each kept where it stands first. -/
def distinct : List Cursor → List Cursor
  | [] => []
  | [c] => [c]
  | cs => (cs.foldl Places.add Places.empty).toList

/-- The ends that `step` reaches from the given places, in order of preference. -/
def endsFrom (step : Cursor → List Cursor) : List Cursor → List Cursor
  | [] => []
  | [c] => step c
  | cs => distinct (cs.flatMap step)

/-! ## Conditions on a place -/

namespace WordEdge

/-- Whether the edge lies between a place whose neighbour before is a word character (`before`) and
whose neighbour after is one (`after`). -/
def holds (edge : WordEdge) (before after : Bool) : Bool :=
  match edge with
  | boundary => before != after
  | inside => before == after
  | wordStart => !before && after
  | wordEnd => before && !after
  | startHalf => !before
  | endHalf => !after

end WordEdge

namespace Assertion

def holds (a : Assertion) (c : Cursor) : Bool :=
  match a with
  | textStart => c.before.isNone
  | textEnd => c.rest.isEmpty
  | lineStart => c.before.all (· = '\n')
  | lineEnd => c.rest.head?.all (· = '\n')
  | anyLineStart =>
    c.before.all fun x => x = '\n' || (x = '\r' && c.rest.head? != some '\n')
  | anyLineEnd =>
    c.rest.head?.all fun x => x = '\r' || (x = '\n' && c.before != some '\r')
  | word edge ascii =>
    let isWordChar := if ascii then isAsciiWord else isWord
    edge.holds (c.before.any isWordChar) (c.rest.head?.any isWordChar)

end Assertion

/-! ## Repetitions -/

/-- The place `c` and the places after one, two, … members of the set that follow it, at most `most`
of them if that is given. -/
def memberRun (set : CharSet) : (most : Option Nat) → (passed rest : List Char) → (offset : Nat) →
    List Cursor
  | _, passed, [], offset => [⟨passed, [], offset⟩]
  | most, passed, x :: rest, offset =>
    ⟨passed, x :: rest, offset⟩ ::
      if most != some 0 && set.mem x then
        memberRun set (most.map (· - 1)) (x :: passed) rest (offset + x.utf8Size)
      else []

def runEnds (set : CharSet) (least : Nat) (most : Option Nat) (greedy : Bool) (c : Cursor) :
    List Cursor :=
  let run := (memberRun set most c.passed c.rest c.offset).drop least
  if greedy then run.reverse else run

/-- The places reached by exactly `count` rounds of `step`. -/
def afterRounds (step : Cursor → List Cursor) : (count : Nat) → List Cursor → List Cursor
  | _, [] => []
  | 0, cs => cs
  | count + 1, cs => afterRounds step count (endsFrom step cs)

/-- Adds to `found` the ends of any number of further rounds from `c`, rounds that match nothing
left out. Every round moves ahead, so that `fuel` need only exceed the number of characters after
`c`. -/
def exploreRounds (step : Cursor → List Cursor) (greedy : Bool) :
    (fuel : Nat) → (found : Places) → (c : Cursor) → Places
  | 0, found, _ => found
  | fuel + 1, found, c =>
    if found.has c then found
    else
      let further (found : Places) : Places :=
        (step c).foldl
          (fun found d =>
            if d.offset = c.offset then found else exploreRounds step greedy fuel found d)
          found
      if greedy then (further found).add c else further (found.add c)

/-- Adds to `found` the ends of one or more rounds from `c`, or of one round if there are none
`again`. A first round that matches nothing ends the repetition where it began. -/
def oneOrMoreRounds (step : Cursor → List Cursor) (again greedy : Bool) (found : Places)
    (c : Cursor) : Places :=
  (step c).foldl
    (fun found d =>
      if d.offset = c.offset || !again then found.add d
      else exploreRounds step greedy (d.rest.length + 1) found d)
    found

/-- The places found so far in a repetition with an upper bound, and the combinations of rounds left
and offset that were tried. -/
structure Trials where
  tried : List (Nat × Nat)
  found : Places

/-- Adds the ends of at most `count` further rounds from `c`. -/
def exploreUpTo (step : Cursor → List Cursor) (greedy : Bool) :
    (count : Nat) → (trials : Trials) → (c : Cursor) → Trials
  | 0, trials, c => { trials with found := trials.found.add c }
  | count + 1, trials, c =>
    if trials.tried.contains (count + 1, c.offset) then trials
    else
      let trials := { trials with tried := (count + 1, c.offset) :: trials.tried }
      let further (trials : Trials) : Trials :=
        (step c).foldl (exploreUpTo step greedy count) trials
      if greedy then
        let trials := further trials
        { trials with found := trials.found.add c }
      else further { trials with found := trials.found.add c }

/-- The ends of a repetition whose single rounds lead from a place to the places that `step` gives;
`again` says whether a further round may lead somewhere new. -/
def repetitionEnds (step : Cursor → List Cursor) (again : Bool) (least : Nat) (most : Option Nat)
    (greedy : Bool) (c : Cursor) : List Cursor :=
  match most, least with
  | some most, least =>
    let trials := (afterRounds step least [c]).foldl (exploreUpTo step greedy (most - least))
      ⟨[], Places.empty⟩
    trials.found.toList
  | none, 0 =>
    if greedy then ((oneOrMoreRounds step again greedy Places.empty c).add c).toList
    else (oneOrMoreRounds step again greedy (Places.empty.add c) c).toList
  | none, least + 1 =>
    ((afterRounds step least [c]).foldl (oneOrMoreRounds step again greedy) Places.empty).toList

namespace Node

/-- Whether every match takes a character at least. -/
def takesSome : Node → Bool
  | empty | assertion _ => false
  | one _ => true
  | seq first second => first.takesSome || second.takesSome
  | alt first second => first.takesSome && second.takesSome
  | repetition body least _ _ => least != 0 && body.takesSome

/-- Whether one round leads wherever several rounds do, as with a repetition that may stop after any
round and has no empty ones. -/
def isClosed : Node → Bool
  | repetition body 0 none _ => body.takesSome || body.isClosed
  | repetition body 1 none _ => body.isClosed
  | _ => false

end Node

/-! ## The ends of a match -/

/-- The places at which a match that begins at the given place can end, the preferred one first. -/
def Node.ends : Node → Cursor → List Cursor
  | .empty, c => [c]
  | .one set, c =>
    match c.rest with
    | [] => []
    | x :: rest => if set.mem x then [⟨x :: c.passed, rest, c.offset + x.utf8Size⟩] else []
  | .assertion a, c => if a.holds c then [c] else []
  | .seq first second, c => endsFrom second.ends (first.ends c)
  | .alt first second, c =>
    match first.ends c, second.ends c with
    | [], ends => ends
    | ends, [] => ends
    | ends, others => distinct (ends ++ others)
  | .repetition body least most greedy, c =>
    match body with
    | .one set => runEnds set least most greedy c
    | _ => repetitionEnds body.ends (!body.isClosed) least most greedy c

end CodeTint
