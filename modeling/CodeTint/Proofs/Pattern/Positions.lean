import CodeTint.Proofs.Pattern.Search
import CodeTint.Proofs.Text.Cursor

/-!
# Searches from the positions of a text

What a search finds, said with the positions of a string instead of places. A search for a match
finds the leftmost one. A search for a match that is not empty finds the match of the first position
whose match is not empty, and as long as it does not begin behind that position it may begin
anywhere (`findNonEmpty_from_positions`).
-/

namespace CodeTint

/-! ## Positions

A position of a string lies on a border between two of its characters. Each of them is a place of
the text (`Cursor.atPos`); there are no other places behind the beginning of the text
(`Cursor.exists_atPos`), and their order is the same (`Cursor.atPos_le_iff`). -/

namespace Cursor

variable {text : String} {pos other : text.Pos} {c : Cursor}

/-- The place at the position. -/
def atPos (pos : text.Pos) : Cursor :=
  (atStart text.toList 0).pass (takeBytes pos.offset.byteIdx text.toList)
    (dropBytes pos.offset.byteIdx text.toList)

theorem exists_append_of_pos (pos : text.Pos) :
    ∃ before behind, text.toList = before ++ behind ∧ pos.offset.byteIdx = byteSize before := by
  refine ⟨_, _, by rw [← String.toList_append, ← pos.splits.eq_append], ?_⟩
  rw [pos.splits.offset_eq_rawEndPos, String.byteIdx_rawEndPos, byteSize_toList]

theorem atStart_le_atPos (pos : text.Pos) : atStart text.toList 0 ≤ atPos pos := by
  obtain ⟨before, behind, htext, hoffset⟩ := exists_append_of_pos pos
  refine le_pass _ ?_
  rw [atStart, hoffset, htext, takeBytes_append, dropBytes_append]

theorem offset_atPos (pos : text.Pos) : (atPos pos).offset = pos.offset.byteIdx := by
  obtain ⟨before, behind, htext, hoffset⟩ := exists_append_of_pos pos
  show 0 + byteSize (takeBytes pos.offset.byteIdx text.toList) = _
  rw [hoffset, htext, takeBytes_append, Nat.zero_add]

theorem atPos_le_iff : atPos pos ≤ atPos other ↔ pos ≤ other := by
  rw [String.Pos.le_iff, String.Pos.Raw.le_iff, ← offset_atPos, ← offset_atPos]
  exact ⟨offset_le, le_of_offset_le (atStart_le_atPos pos) (atStart_le_atPos other)⟩

theorem atPos_lt_iff : atPos pos < atPos other ↔ pos < other := by
  rw [String.Pos.lt_iff, String.Pos.Raw.lt_iff, ← offset_atPos, ← offset_atPos]
  exact ⟨fun h => (lt_iff.mp h).2, lt_of_offset_lt (atStart_le_atPos pos) (atStart_le_atPos other)⟩

/-- Every place of the text is at a position. -/
theorem exists_atPos (h : atStart text.toList 0 ≤ c) : ∃ pos : text.Pos, atPos pos = c :=
  ⟨⟨⟨c.offset⟩, isValid_offset h⟩, eq_of_offset_eq (atStart_le_atPos _) h (offset_atPos _)⟩

end Cursor

namespace Pattern

variable {p : Pattern} {text : String} {pos start stop other : text.Pos} {s : Stretch}

/-- The match that is found at the one position ends at the other. -/
def MatchesAt (p : Pattern) {text : String} (start stop : text.Pos) : Prop :=
  p.find (.atPos start) = some ⟨.atPos start, .atPos stop⟩

/-- The match at the position `start` is not empty, and those of earlier positions are. -/
structure FirstNonEmpty (p : Pattern) {text : String} (pos start stop : text.Pos) : Prop where
  le_start : pos ≤ start
  matchesAt : p.MatchesAt start stop
  start_lt_stop : start < stop
  before : ∀ other stop', pos ≤ other → other < start → p.MatchesAt other stop' → stop' = other

/-! ## Matches at positions -/

theorem matchesAt_iff :
    p.MatchesAt start stop ↔ p.matchEnd (.atPos start) = some (.atPos stop) :=
  matchEnd_eq_some_iff.symm

theorem MatchesAt.le (h : p.MatchesAt start stop) : start ≤ stop :=
  Cursor.atPos_le_iff.mp (le_of_matchEnd (matchesAt_iff.mp h))

theorem exists_positions (hle : .atPos pos ≤ s.start) (hstop : s.start ≤ s.stop) :
    ∃ start stop : text.Pos, s = ⟨.atPos start, .atPos stop⟩ := by
  have hstart := (Cursor.atStart_le_atPos pos).trans hle
  obtain ⟨start, hs⟩ := Cursor.exists_atPos hstart
  obtain ⟨stop, hs'⟩ := Cursor.exists_atPos (hstart.trans hstop)
  exact ⟨start, stop, by rw [hs, hs']⟩

theorem Takes.exists_positions (h : p.Takes s) (hle : .atPos pos ≤ s.start) :
    ∃ start stop : text.Pos, s = ⟨.atPos start, .atPos stop⟩ ∧ p.MatchesAt start stop ∧
      start < stop := by
  obtain ⟨start, stop, rfl⟩ := Pattern.exists_positions hle h.start_lt_stop.le
  exact ⟨start, stop, rfl, matchesAt_iff.mpr h.ends, Cursor.atPos_lt_iff.mp h.start_lt_stop⟩

theorem MatchesAt.takes (h : p.MatchesAt start stop) (hne : stop ≠ start) :
    p.Takes ⟨.atPos start, .atPos stop⟩ := by
  refine ⟨matchesAt_iff.mp h, lt_of_le_of_ne (Cursor.atPos_le_iff.mpr h.le) fun heq => hne ?_⟩
  exact Std.le_antisymm (Cursor.atPos_le_iff.mp heq.ge) h.le

/-! ## Searches -/

section Leftmost

variable [p.Leftmost]

/-- A search finds the match of the first position that has one. -/
theorem find_atPos_eq_some_iff :
    p.find (.atPos pos) = some ⟨.atPos start, .atPos stop⟩ ↔
      pos ≤ start ∧ p.MatchesAt start stop ∧
        ∀ other stop', pos ≤ other → other < start → ¬p.MatchesAt other stop' := by
  constructor
  · intro h
    obtain ⟨hle, hend, hnone⟩ := find_eq_some h
    refine ⟨Cursor.atPos_le_iff.mp hle, matchesAt_iff.mpr hend, fun other stop' hpos hlt h' => ?_⟩
    have hother := hnone _ (Cursor.atPos_le_iff.mpr hpos) (Cursor.atPos_lt_iff.mpr hlt)
    rw [matchesAt_iff.mp h'] at hother
    cases hother
  · rintro ⟨hle, hmatch, hnone⟩
    have hend := matchesAt_iff.mp hmatch
    cases hfind : p.find (.atPos pos) with
    | none =>
        have := find_eq_none_iff.mp hfind _ (Cursor.atPos_le_iff.mpr hle)
        rw [hend] at this
        cases this
    | some s =>
        -- Neither of the two matches begins before the other.
        obtain ⟨hles, hends, -⟩ := find_eq_some hfind
        have hfirst := start_le_of_find_eq_some hfind (Cursor.atPos_le_iff.mpr hle) hend
        obtain ⟨start', stop', rfl⟩ := exists_positions hles (le_of_matchEnd hends)
        have hge : start ≤ start' := Std.not_lt.mp fun hlt =>
          hnone start' stop' (Cursor.atPos_le_iff.mp hles) hlt (matchesAt_iff.mpr hends)
        obtain rfl : start' = start := Std.le_antisymm (Cursor.atPos_le_iff.mp hfirst) hge
        have hstop : Cursor.atPos stop' = .atPos stop := Option.some.inj (hends.symm.trans hend)
        rw [hstop]

theorem findNonEmpty_atPos_eq_some_iff :
    p.findNonEmpty (.atPos pos) = some s ↔
      ∃ start stop : text.Pos, s = ⟨.atPos start, .atPos stop⟩ ∧
        p.FirstNonEmpty pos start stop := by
  rw [findNonEmpty_eq_some_iff]
  constructor
  · intro h
    obtain ⟨start, stop, rfl, hmatch, hlt⟩ := h.takes.exists_positions h.le_start
    refine ⟨start, stop, rfl, Cursor.atPos_le_iff.mp h.le_start, hmatch, hlt, ?_⟩
    intro other stop' hpos hother hmatch'
    by_contra hne
    have hle := h.first _ (Cursor.atPos_le_iff.mpr hpos) (hmatch'.takes hne)
    exact absurd (Cursor.atPos_lt_iff.mpr hother) (not_lt_of_ge hle)
  · rintro ⟨start, stop, rfl, hle, hmatch, hlt, hbefore⟩
    refine ⟨Cursor.atPos_le_iff.mpr hle,
      ⟨matchesAt_iff.mp hmatch, Cursor.atPos_lt_iff.mpr hlt⟩, fun t hct ht => ?_⟩
    obtain ⟨other, stop', rfl, hmatch', hlt'⟩ := ht.exists_positions hct
    refine Cursor.atPos_le_iff.mpr (Std.not_lt.mp fun hother => ?_)
    obtain rfl := hbefore other stop' (Cursor.atPos_le_iff.mp hct) hother hmatch'
    exact Std.lt_irrefl hlt'

theorem findNonEmpty_atPos_eq_none_iff :
    p.findNonEmpty (.atPos pos) = none ↔
      ∀ start stop : text.Pos, pos ≤ start → p.MatchesAt start stop → stop = start := by
  rw [findNonEmpty_eq_none_iff]
  constructor
  · intro h start stop hle hmatch
    by_contra hne
    exact h _ (Cursor.atPos_le_iff.mpr hle) (hmatch.takes hne)
  · intro h t hct ht
    obtain ⟨start, stop, rfl, hmatch, hlt⟩ := ht.exists_positions hct
    obtain rfl := h start stop (Cursor.atPos_le_iff.mp hct) hmatch
    exact Std.lt_irrefl hlt

end Leftmost

/-- The positions of a text are all that a search knows of it. A search for a match finds the match
of the first position that has one. A search for a match that is not empty finds the match of the
first position whose match is not empty, and nothing if there is no such position. A search that
begins further on, but not behind what was found, finds the same. -/
theorem findNonEmpty_from_positions (p : Pattern) [p.Leftmost] (text : String) (pos : text.Pos) :
    (∀ start stop : text.Pos, p.find (.atPos pos) = some ⟨.atPos start, .atPos stop⟩ ↔
      pos ≤ start ∧ p.MatchesAt start stop ∧
        ∀ other stop', pos ≤ other → other < start → ¬p.MatchesAt other stop') ∧
    (∀ s, p.findNonEmpty (.atPos pos) = some s ↔
      ∃ start stop : text.Pos, s = ⟨.atPos start, .atPos stop⟩ ∧
        p.FirstNonEmpty pos start stop) ∧
    (p.findNonEmpty (.atPos pos) = none ↔
      ∀ start stop : text.Pos, pos ≤ start → p.MatchesAt start stop → stop = start) ∧
    ∀ later : text.Pos, pos ≤ later →
      (∀ s ∈ p.findNonEmpty (.atPos pos), .atPos later ≤ s.start) →
        p.findNonEmpty (.atPos later) = p.findNonEmpty (.atPos pos) := by
  refine ⟨fun _ _ => find_atPos_eq_some_iff, fun _ => findNonEmpty_atPos_eq_some_iff,
    findNonEmpty_atPos_eq_none_iff, fun later hle hfound => ?_⟩
  have hlater := Cursor.atPos_le_iff.mpr hle
  cases hfind : p.findNonEmpty (.atPos pos) with
  | none => exact findNonEmpty_eq_none_of_le hfind hlater
  | some s => exact findNonEmpty_eq_of_le hfind hlater (hfound s hfind)

/-- Only the empty text is matched before the first character, which is two bytes long, so that the
search may as well begin behind it. -/
theorem findNonEmpty_from_positions_behind_empty :
    let p := (Node.repetition (.one (.single 'b')) 0 none true).pattern
    let start : "äbb".Pos := ⟨⟨0⟩, by decide⟩
    let later : "äbb".Pos := ⟨⟨2⟩, by decide⟩
    start ≤ later ∧ p.MatchesAt start start ∧
      p.findNonEmpty (.atPos later) =
        some ⟨⟨['ä'], ['b', 'b'], 2⟩, ⟨['b', 'b', 'ä'], [], 4⟩⟩ := by
  intro p start later
  have hle : start ≤ later := by decide
  have hfind : p.findNonEmpty (.atPos start) =
      some ⟨⟨['ä'], ['b', 'b'], 2⟩, ⟨['b', 'b', 'ä'], [], 4⟩⟩ := by decide +kernel
  refine ⟨hle, by unfold MatchesAt; decide +kernel, ?_⟩
  rw [← hfind]
  refine (findNonEmpty_from_positions p "äbb" start).2.2.2 later hle fun s hs => ?_
  obtain rfl := Option.some.inj (hfind.symm.trans hs)
  exact ⟨[], by decide +kernel, by decide +kernel⟩

end Pattern

end CodeTint
