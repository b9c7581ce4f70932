import CodeTint.Json.Basic

/-!
# Walking through drafts

What becomes of a draft that is skipped, read in full, or taken for something that it is not: either
the walk reaches the end of the value, or it meets the first fault that concerns it.
-/

namespace CodeTint

/-! ## Mismatches and skipping -/

/-- The fault for who wants another kind of value than the draft is: the text of a single value is
read to its end first, that of an array or an object is not. -/
def Draft.mismatch : Draft → Fault
  | .absent fault => fault
  | .brokenString whenRead _ => whenRead
  | .brokenToken _ whenRead _ => whenRead
  | .hugeNumber => .malformed
  | .looseString => .malformed
  | _ => .mismatch

mutual

/-- Passes over a value that nobody wants to know. -/
def Draft.skip : Draft → Except Fault Unit
  | .absent fault => .error fault
  | .brokenString _ whenSkipped => .error whenSkipped
  | .brokenToken _ _ whenSkipped => .error whenSkipped
  | .array items => items.skip
  | .object members => members.skip
  | _ => .ok ()

def DraftItems.skip : DraftItems → Except Fault Unit
  | .closed => .ok ()
  | .cut fault => .error fault
  | .more item items => do
    item.skip
    items.skip

def DraftMembers.skip : DraftMembers → Except Fault Unit
  | .closed => .ok ()
  | .cut fault => .error fault
  | .odd _ => .error .malformed
  | .badName fault => .error fault
  | .more _ value members => do
    value.skip
    members.skip

end

/-- What follows the last item that was wanted: the end of the array, or else a fault. -/
def DraftItems.close : DraftItems → Except Fault Unit
  | .closed => .ok ()
  | .cut fault => .error fault
  | .more _ _ => .error .malformed

/-- What follows the last member that was wanted: the end of the object, or else a fault. -/
def DraftMembers.close : DraftMembers → Except Fault Unit
  | .closed => .ok ()
  | .cut fault => .error fault
  | .odd _ => .error .malformed
  | .badName _ => .error .malformed
  | .more _ _ _ => .error .malformed

/-! ## Nesting -/

/-- How many arrays and objects may be open within each other, the one that would be too many
counted; none if there is no limit. -/
abbrev Nesting := Option Nat

def textNesting : Nesting := some 128

/-- What is left when an array or an object is entered. -/
def Nesting.enter : Nesting → Except Fault Nesting
  | none => .ok none
  | some (n + 2) => .ok (some (n + 1))
  | some _ => .error .malformed

mutual

/-- Reads a value in full, whatever it is. -/
def Draft.settle (nesting : Nesting) : Draft → Except Fault Unit
  | .array items => do items.settle (← nesting.enter)
  | .object members => do members.settle (← nesting.enter)
  | .null => .ok ()
  | .bool _ => .ok ()
  | .number _ => .ok ()
  | .string _ => .ok ()
  | draft => .error draft.mismatch

def DraftItems.settle (nesting : Nesting) : DraftItems → Except Fault Unit
  | .closed => .ok ()
  | .cut fault => .error fault
  | .more item items => do
    item.settle nesting
    items.settle nesting

/-- Reads the members in full, and their names. -/
def DraftMembers.settle (nesting : Nesting) : DraftMembers → Except Fault Unit
  | .closed => .ok ()
  | .cut fault => .error fault
  | .odd _ => .error .malformed
  | .badName fault => .error fault
  | .more none _ _ => .error .malformed
  | .more (some _) value members => do
    value.settle nesting
    members.settle nesting

end

mutual

/-- The value of a draft without faults, whose objects may repeat a name: the last member counts. -/
def Draft.toJson (nesting : Nesting) : Draft → Except Fault Json
  | .null => .ok .null
  | .bool value => .ok (.bool value)
  | .number value => .ok (.number value)
  | .string text => .ok (.string text)
  | .array items => do return .array (← items.toJsonList (← nesting.enter))
  | .object members => do return .ofMembers (← members.toJsonList (← nesting.enter))
  | draft => .error draft.mismatch

def DraftItems.toJsonList (nesting : Nesting) : DraftItems → Except Fault (List Json)
  | .closed => .ok []
  | .cut fault => .error fault
  | .more item items => do
    let item ← item.toJson nesting
    return item :: (← items.toJsonList nesting)

/-- The names and values of the members, as they follow each other. -/
def DraftMembers.toJsonList (nesting : Nesting) : DraftMembers → Except Fault (List (String × Json))
  | .closed => .ok []
  | .cut fault => .error fault
  | .odd _ => .error .malformed
  | .badName fault => .error fault
  | .more none _ _ => .error .malformed
  | .more (some name) value members => do
    let value ← value.toJson nesting
    return (name, value) :: (← members.toJsonList nesting)

end

end CodeTint
