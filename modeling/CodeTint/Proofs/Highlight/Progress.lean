import CodeTint.Proofs.Highlight.Visits

/-!
# A scan goes forward

The loops of a scan are written with fuel. Here they are stated without it, as relations that list
the places they pass: `Pattern.Searches` for the search that passes over empty matches, and
`Highlighter.Runs` for the scan. Both come to an end, and the lists say after how many rounds: a
search is made at most once for each remaining character and once more, and a scan has at most as
many parts as the text has characters.

Whatever is cut out of the text on the way (`Highlighter.Cuts`) lies between two places of the text
that the scan knows in this order, so that it is a stretch of whole characters. The order of a
region is the point: its closing is searched from the end of its opening, and its opening from a
place that the scan may have passed long before it comes to the region.
-/

namespace CodeTint

/-! ## Slices -/

/-- The text has a slice from the one byte to the other: they are in order, and both are borders of
its characters. -/
structure IsSlice (text : String) (start stop : Nat) : Prop where
  start_le_stop : start ≤ stop
  stop_le : stop ≤ text.utf8ByteSize
  isValid_start : (⟨start⟩ : String.Pos.Raw).IsValid text
  isValid_stop : (⟨stop⟩ : String.Pos.Raw).IsValid text

theorem isSlice_of_le {text : String} {c d : Cursor} (hc : .atStart text.toList 0 ≤ c)
    (hcd : c ≤ d) : IsSlice text c.offset d.offset := by
  refine ⟨Cursor.offset_le hcd, ?_, Cursor.isValid_offset hc, Cursor.isValid_offset (hc.trans hcd)⟩
  rw [← Cursor.offset_atEnd_atStart]
  exact Cursor.offset_le (Cursor.le_atEnd_of_le (hc.trans hcd))

theorem isSlice_to_end {text : String} {c : Cursor} (hc : .atStart text.toList 0 ≤ c) :
    IsSlice text c.offset text.utf8ByteSize := by
  have hslice := isSlice_of_le hc (Cursor.le_atEnd_of_le hc)
  rwa [Cursor.offset_atEnd_atStart] at hslice

theorem Covers.isSlice {text : String} {a b : Cursor} {spans : List Span} {span : Span}
    (hcovers : Covers a spans b) (ha : .atStart text.toList 0 ≤ a) (hspan : span ∈ spans) :
    IsSlice text span.start span.stop := by
  obtain ⟨c, d, hac, hcd, -, heq⟩ := hcovers.exists_places hspan
  rw [heq]
  exact isSlice_of_le (ha.trans hac) hcd

theorem Cursor.rest_eq_nil_iff_offset_eq {text : String} {c : Cursor}
    (hc : .atStart text.toList 0 ≤ c) : c.rest = [] ↔ c.offset = text.utf8ByteSize := by
  have hend := Cursor.offset_add_byteSize (Cursor.le_atEnd_of_le hc)
  have hrest : byteSize (Cursor.atStart text.toList 0).atEnd.rest = 0 := rfl
  rw [Cursor.offset_atEnd_atStart, hrest] at hend
  rw [← byteSize_eq_zero_iff]
  omega

/-! ## Searches -/

namespace Pattern

variable {p : Pattern} {c d : Cursor} {places : List Cursor} {found : Option Stretch}

/-- A search for a match that is not empty, with the places from which it looks for a match: behind
an empty match it looks again, one character further on. -/
inductive Searches (p : Pattern) : Cursor → List Cursor → Option Stretch → Prop
  | missing {c : Cursor} (find : p.find c = none) : Searches p c [c] none
  | found {c : Cursor} {s : Stretch} (find : p.find c = some s) (nonempty : s.isEmpty = false) :
      Searches p c [c] (some s)
  | again {c next : Cursor} {s : Stretch} {places : List Cursor} {found : Option Stretch}
      (find : p.find c = some s) (empty : s.isEmpty) (next_eq : s.stop.next? = some next)
      (rest : Searches p next places found) : Searches p c (c :: places) found
  | ended {c : Cursor} {s : Stretch} (find : p.find c = some s) (empty : s.isEmpty)
      (next_eq : s.stop.next? = none) : Searches p c [c] none

theorem le_stop_of_find {s : Stretch} (h : p.find c = some s) : c ≤ s.stop :=
  (p.find_range h).1.trans (p.find_range h).2

theorem Searches.le (hsearch : p.Searches c places found) (hd : d ∈ places) : c ≤ d := by
  induction hsearch with
  | missing | found | ended => exact (List.mem_singleton.mp hd).ge
  | @again c next s places found hfind _ hnext _ ih =>
      rcases List.mem_cons.mp hd with rfl | hd
      · exact le_refl d
      · exact ((le_stop_of_find hfind).trans (Cursor.next_le hnext)).trans (ih hd)

/-- A search ends: it looks at most once from each place behind which characters remain, and once
from the end of the text. -/
theorem exists_searches (p : Pattern) (c : Cursor) :
    ∃ places, p.Searches c places (p.findNonEmpty c) ∧ places.length ≤ c.rest.length + 1 := by
  suffices hfuel : ∀ (fuel : Nat) (c : Cursor), c.rest.length < fuel →
      ∃ places, p.Searches c places (p.findNonEmptyWithin fuel c) ∧
        places.length ≤ c.rest.length + 1 from hfuel _ c (Nat.lt_succ_self _)
  intro fuel
  induction fuel with
  | zero => exact fun c hc => absurd hc (Nat.not_lt_zero _)
  | succ fuel ih =>
      intro c hc
      rw [findNonEmptyWithin]
      cases hfind : p.find c with
      | none => exact ⟨[c], .missing hfind, Nat.le_add_left 1 _⟩
      | some s =>
          cases hempty : s.isEmpty with
          | false =>
              refine ⟨[c], ?_, Nat.le_add_left 1 _⟩
              simpa [hempty] using Searches.found hfind hempty
          | true =>
              simp only [hempty, if_true]
              cases hnext : s.stop.next? with
              | none => exact ⟨[c], .ended hfind hempty hnext, Nat.le_add_left 1 _⟩
              | some e =>
                  have hlength := Nat.lt_of_lt_of_le (Cursor.rest_length_lt_of_next hnext)
                    (Cursor.rest_length_le (le_stop_of_find hfind))
                  obtain ⟨places, hsearch, hplaces⟩ :=
                    ih e (Nat.lt_of_lt_of_le hlength (Nat.le_of_lt_succ hc))
                  refine ⟨c :: places, .again hfind hempty hnext hsearch, ?_⟩
                  rw [List.length_cons]
                  omega

/-- Where nothing but the empty match is found, the search goes on behind the next character. -/
example : (Node.repetition (.one (.single 'b')) 0 none true).pattern.Searches
    (.atStart ['ä', 'b'] 0) [⟨[], ['ä', 'b'], 0⟩, ⟨['ä'], ['b'], 2⟩]
    (some ⟨⟨['ä'], ['b'], 2⟩, ⟨['b', 'ä'], [], 3⟩⟩) :=
  .again rfl rfl rfl (.found rfl rfl)

end Pattern

namespace Highlighter

variable {h : Highlighter} {text : String} {watches : List Watch} {c : Cursor}

/-! ## The scan -/

/-- The scan from a place on, with the places at which its parts begin, and their spans. -/
inductive Runs (h : Highlighter) : List Watch → Cursor → List Cursor → List Span → Prop
  | done {watches : List Watch} {c : Cursor} (ends : c.rest = []) : Runs h watches c [] []
  | step {watches : List Watch} {c : Cursor} {places : List Cursor} {spans : List Span}
      (goes_on : c.rest ≠ [])
      (rest : Runs h (refreshAll c watches)
        (h.scanPart c (bestCandidate (refreshAll c watches))).next places spans) :
      Runs h watches c (c :: places)
        ((h.scanPart c (bestCandidate (refreshAll c watches))).spans ++ spans)

/-- A scan ends, and each of its parts takes a character at least. -/
theorem Remembers.exists_runs : ∀ (fuel : Nat) {watches : List Watch} {c : Cursor},
    h.Remembers watches c → c.rest.length < fuel →
      ∃ places, h.Runs watches c places (h.scanFrom fuel watches c) ∧
        places.length ≤ c.rest.length := by
  intro fuel
  induction fuel with
  | zero => exact fun _ hc => absurd hc (Nat.not_lt_zero _)
  | succ fuel ih =>
      intro watches c hrem hfuel
      rw [scanFrom]
      by_cases hc : c.rest = []
      · exact ⟨[], by simpa [hc] using Runs.done hc, Nat.zero_le _⟩
      · have hlt := hrem.lt_next hc
        have hlength := Cursor.rest_length_lt hlt
        obtain ⟨places, hruns, hplaces⟩ := ih (hrem.refresh hlt.le)
          (Nat.lt_of_lt_of_le hlength (Nat.le_of_lt_succ hfuel))
        refine ⟨c :: places, by simpa [hc] using Runs.step hc hruns, ?_⟩
        rw [List.length_cons]
        omega

theorem Reaches.atStart_le (hreach : h.Reaches text watches c) : .atStart text.toList 0 ≤ c := by
  induction hreach with
  | start => exact le_refl _
  | step hreach hc ih => exact ih.trans (hreach.remembers.lt_next hc).le

/-! ## What is cut out of the text -/

/-- In a state of the scan, at the place `c`, the candidate is the rule that begins. -/
def Begins (h : Highlighter) (text : String) (c : Cursor) (candidate : Candidate) : Prop :=
  ∃ watches, h.Reaches text watches c ∧ bestCandidate (refreshAll c watches) = some candidate

/-- The rule that begins in a state of the scan is a region, and the match is what closes it. -/
inductive Closes (h : Highlighter) (text : String) : Candidate → Stretch → Prop
  | region {c : Cursor} {candidate : Candidate} {category : Category} {opening closing : Pattern}
      {illegal : Option Pattern} {close : Stretch} (begins : h.Begins text c candidate)
      (rule_eq : candidate.rule = .region category opening closing illegal)
      (find : closing.findNonEmpty candidate.begin.stop = some close) :
      Closes h text candidate close

/-- The scan looks for the pattern from the place: for the beginning of a rule from where it is, and
for the closing of a region from the end of the opening. -/
inductive LooksFor (h : Highlighter) (text : String) : Pattern → Cursor → Prop
  | beginning {watches : List Watch} {c : Cursor} {rule : CompiledRule} {p : Pattern}
      (reaches : h.Reaches text watches c) (rule_mem : rule ∈ h.rules)
      (mem : p ∈ rule.beginPatterns) : LooksFor h text p c
  | closing {c : Cursor} {candidate : Candidate} {category : Category} {opening closing : Pattern}
      {illegal : Option Pattern} (begins : h.Begins text c candidate)
      (rule_eq : candidate.rule = .region category opening closing illegal) :
      LooksFor h text closing candidate.begin.stop

/-- The slices that are taken of the text. -/
inductive Cuts (h : Highlighter) (text : String) : Nat → Nat → Prop
  /-- What is left behind a match, to pass over a character if the match is empty. -/
  | behindMatch {p : Pattern} {c d : Cursor} {places : List Cursor} {found : Option Stretch}
      {s : Stretch} (looks : h.LooksFor text p c) (searches : p.Searches c places found)
      (mem : d ∈ places) (find : p.find d = some s) : Cuts h text s.stop.offset text.utf8ByteSize
  /-- The gap before a rule. -/
  | gap {c : Cursor} {candidate : Candidate} (begins : h.Begins text c candidate) :
      Cuts h text c.offset candidate.begin.start.offset
  /-- The gap behind which no rule begins. -/
  | lastGap {watches : List Watch} {c : Cursor} (reaches : h.Reaches text watches c)
      (best : bestCandidate (refreshAll c watches) = none) : Cuts h text c.offset text.utf8ByteSize
  /-- The text up to the closing of a region, which is searched for what is illegal. -/
  | upToClosing {candidate : Candidate} {close : Stretch} (closes : h.Closes text candidate close) :
      Cuts h text 0 close.start.offset
  /-- The part of it in which the search begins, the body of the region. -/
  | body {candidate : Candidate} {close : Stretch} (closes : h.Closes text candidate close) :
      Cuts h text candidate.begin.stop.offset close.start.offset
  /-- The text of a span of a part. -/
  | partSpan {watches : List Watch} {c : Cursor} {span : Span}
      (reaches : h.Reaches text watches c)
      (mem : span ∈ (h.scanPart c (bestCandidate (refreshAll c watches))).spans) :
      Cuts h text span.start span.stop
  /-- The text of a span of the whole. -/
  | span {span : Span} (mem : span ∈ h.highlight text) : Cuts h text span.start span.stop

variable {candidate : Candidate}

theorem Begins.le (hbegins : h.Begins text c candidate) :
    .atStart text.toList 0 ≤ c ∧ c ≤ candidate.begin.start ∧
      candidate.begin.start < candidate.begin.stop := by
  obtain ⟨watches, hreach, hbest⟩ := hbegins
  obtain ⟨-, hle, hlt⟩ := hreach.remembers.candidate_spec hbest
  exact ⟨hreach.atStart_le, hle, hlt⟩

theorem Begins.atStart_le_stop (hbegins : h.Begins text c candidate) :
    .atStart text.toList 0 ≤ candidate.begin.stop := by
  obtain ⟨hc, hle, hlt⟩ := hbegins.le
  exact (hc.trans hle).trans hlt.le

theorem Closes.le {close : Stretch} (hcloses : h.Closes text candidate close) :
    .atStart text.toList 0 ≤ candidate.begin.stop ∧ candidate.begin.stop ≤ close.start := by
  cases hcloses with
  | region hbegins _ hfind =>
      exact ⟨hbegins.atStart_le_stop, (Pattern.findNonEmpty_range hfind).1⟩

theorem LooksFor.atStart_le {p : Pattern} (hlooks : h.LooksFor text p c) :
    .atStart text.toList 0 ≤ c := by
  cases hlooks with
  | beginning hreach => exact hreach.atStart_le
  | closing hbegins => exact hbegins.atStart_le_stop

theorem LooksFor.isSlice_behind {p : Pattern} {d : Cursor} {places : List Cursor}
    {found : Option Stretch} {s : Stretch} (hlooks : h.LooksFor text p c)
    (hsearch : p.Searches c places found) (hd : d ∈ places) (hfind : p.find d = some s) :
    IsSlice text s.stop.offset text.utf8ByteSize :=
  isSlice_to_end ((hlooks.atStart_le.trans (hsearch.le hd)).trans (Pattern.le_stop_of_find hfind))

/-- Nothing is cut out of a text that is not a slice of it. -/
theorem Cuts.isSlice {start stop : Nat} (hcuts : h.Cuts text start stop) :
    IsSlice text start stop := by
  cases hcuts with
  | behindMatch hlooks hsearch hd hfind => exact hlooks.isSlice_behind hsearch hd hfind
  | gap hbegins =>
      obtain ⟨hc, hle, -⟩ := hbegins.le
      exact isSlice_of_le hc hle
  | lastGap hreach _ => exact isSlice_to_end hreach.atStart_le
  | upToClosing hcloses => exact isSlice_of_le (le_refl _) (hcloses.le.1.trans hcloses.le.2)
  | body hcloses => exact isSlice_of_le hcloses.le.1 hcloses.le.2
  | partSpan hreach hspan => exact hreach.remembers.covers.isSlice hreach.atStart_le hspan
  | span hspan => exact (h.covers_highlight text).isSlice (le_refl _) hspan

/-- Whatever the patterns match, and if it is nothing at all, a scan ends and stays within its text.
Without fuel it comes to its end in at most as many parts as there are characters. In each of its
states it is at a border of two characters, at the end exactly if no bytes are left, and otherwise
the next state is further on. A search for a match that is not empty ends, having looked at most
once for each remaining character and once more. Whatever is cut out of the text is a slice of it.
-/
theorem scan_progresses (h : Highlighter) (text : String) :
    (∃ places spans,
      h.Runs (h.rules.map (⟨·, .unknown⟩)) (.atStart text.toList 0) places spans ∧
        h.highlight text = joinSpans spans ∧ places.length ≤ text.length) ∧
    (∀ watches c, h.Reaches text watches c →
      IsSlice text 0 c.offset ∧ (c.rest = [] ↔ c.offset = text.utf8ByteSize) ∧
        (c.rest ≠ [] →
          c.offset < (h.scanPart c (bestCandidate (refreshAll c watches))).next.offset)) ∧
    (∀ (p : Pattern) (c : Cursor), ∃ places,
      p.Searches c places (p.findNonEmpty c) ∧ places.length ≤ c.rest.length + 1) ∧
    ∀ start stop, h.Cuts text start stop → IsSlice text start stop := by
  refine ⟨?_, fun watches c hreach => ?_, Pattern.exists_searches, fun _ _ hcuts => hcuts.isSlice⟩
  · obtain ⟨places, hruns, hplaces⟩ :=
      (Remembers.unknown h (.atStart text.toList 0)).exists_runs _ (Nat.lt_succ_self _)
    exact ⟨places, _, hruns, rfl, hplaces⟩
  · have hc := hreach.atStart_le
    exact ⟨isSlice_of_le (le_refl _) hc, Cursor.rest_eq_nil_iff_offset_eq hc,
      fun hrest => (Cursor.lt_iff.mp (hreach.remembers.lt_next hrest)).2⟩

/-- A quote that is not closed is passed as plain text, and the number behind it is cut out. -/
theorem scan_progresses_behind_quote :
    let watches := refreshAll (.atStart "\"12".toList 0)
      (quotesAndNumbers.rules.map (⟨·, .unknown⟩))
    let behind : Cursor := ⟨['"'], ['1', '2'], 1⟩
    quotesAndNumbers.Reaches "\"12" watches behind ∧
      1 < (quotesAndNumbers.scanPart behind
        (bestCandidate (refreshAll behind watches))).next.offset ∧
      quotesAndNumbers.Cuts "\"12" 1 3 ∧ IsSlice "\"12" 1 3 := by
  intro watches behind
  obtain ⟨-, hstates, -, hslices⟩ := scan_progresses quotesAndNumbers "\"12"
  have hreach : quotesAndNumbers.Reaches "\"12" watches behind := .step .start (by decide)
  have hmem : (⟨some .number, 1, 3⟩ : Span) ∈ quotesAndNumbers.highlight "\"12" := by decide
  have hcuts : quotesAndNumbers.Cuts "\"12" 1 3 := .span hmem
  exact ⟨hreach, (hstates watches behind hreach).2.2 (by decide), hcuts, hslices 1 3 hcuts⟩

end Highlighter

end CodeTint
