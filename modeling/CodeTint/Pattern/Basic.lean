import CodeTint.Text.Cursor

/-!
# Searching with a pattern

A pattern is known by what a search for it finds: the next match from a place of a text. Nothing
more is asked of a search here than that its match lies at the place or behind it, in the same text.
A match may be empty; `Pattern.findNonEmpty` passes over the empty ones.
-/

namespace CodeTint

/-- A pattern ready to search with. -/
structure Pattern where
  /-- The match that a search from the place finds. -/
  find : Cursor → Option Stretch
  /-- A match is a stretch of the text, and does not begin before the search. -/
  find_range : ∀ {c : Cursor} {s : Stretch}, find c = some s → c ≤ s.start ∧ s.start ≤ s.stop

namespace Pattern

/-- Where the match ends that is found at the place itself. -/
def matchEnd (p : Pattern) (c : Cursor) : Option Cursor :=
  match p.find c with
  | some found => if found.start = c then some found.stop else none
  | none => none

/-- Looks for a match that is not empty: an empty one is passed over, and the search goes on one
character behind it. `fuel` need only exceed the number of characters after the place. -/
def findNonEmptyWithin (p : Pattern) : (fuel : Nat) → (c : Cursor) → Option Stretch
  | 0, _ => none
  | fuel + 1, c =>
    match p.find c with
    | none => none
    | some found =>
      if found.isEmpty then
        match found.stop.next? with
        | none => none
        | some c => findNonEmptyWithin p fuel c
      else some found

/-- The first match that is not empty and begins at the given place or later. -/
def findNonEmpty (p : Pattern) (c : Cursor) : Option Stretch :=
  p.findNonEmptyWithin (c.rest.length + 1) c

end Pattern

end CodeTint
