import CodeTint.Proofs.Alakon.Patterns
import CodeTint.Proofs.Pattern.Munch
import CodeTint.Proofs.Text.Runs

/-!
# What the patterns of numbers match

The numbers with a sign, and where a pattern finds them: it takes the longest number of its kind
with which the text begins, if the first digit does not directly follow a word character
(`takesLongest_hexNumber`, `takesLongest_signedNumber`). That condition stands in the middle of the
patterns, behind the sign; digits that follow a leading point are free of it (`HasEdge`).
-/

namespace CodeTint

namespace Alakon

/-! ## Characters -/

def isHexDigit (x : Char) : Bool :=
  ('a' ≤ x && x ≤ 'f') || ('A' ≤ x && x ≤ 'F') || isAsciiDigit x

def isDigitOrPoint (x : Char) : Bool :=
  isAsciiDigit x || x = '.'

abbrev charOf (x : Char) : Language Char :=
  oneOf (· = x)

abbrev eitherOf (x y : Char) : Language Char :=
  oneOf fun z => z = x || z = y

theorem consistsOf_charOf {p : Char → Bool} {x : Char} (hx : p x) : ConsistsOf p (charOf x) :=
  consistsOf_oneOf fun _ h => of_decide_eq_true h ▸ hx

theorem consistsOf_eitherOf {p : Char → Bool} {x y : Char} (hx : p x) (hy : p y) :
    ConsistsOf p (eitherOf x y) := by
  refine consistsOf_oneOf fun z hz => ?_
  rcases Bool.or_eq_true_iff.mp hz with hz | hz
  · exact of_decide_eq_true hz ▸ hx
  · exact of_decide_eq_true hz ▸ hy

theorem mem_single (x : Char) : (CharSet.single x).mem = (· = x) := by
  funext y
  rw [CharSet.single, CharSet.mem, Bool.eq_iff_iff, Bool.and_eq_true, decide_eq_true_iff,
    decide_eq_true_iff, decide_eq_true_iff]
  exact ⟨fun h => Char.le_antisymm h.2 h.1, fun h => h ▸ ⟨Char.le_refl _, Char.le_refl _⟩⟩

theorem mem_eitherSet (x y : Char) : (eitherSet x y).mem = fun z => z = x || z = y := by
  funext z
  rw [eitherSet, CharSet.mem, mem_single, mem_single]

theorem munches_charNode (x : Char) : (charNode x).Munches (charOf x) := by
  have h := Node.munches_one (.single x)
  rwa [mem_single] at h

theorem munches_eitherSet (x y : Char) : (Node.one (eitherSet x y)).Munches (eitherOf x y) := by
  have h := Node.munches_one (eitherSet x y)
  rwa [mem_eitherSet] at h

theorem munches_digits : (someNode digitSet).Munches (someOf isAsciiDigit) :=
  Node.munches_someOf digitSet

/-! ## Numbers -/

def minus : Language Char :=
  optionally (charOf '-')

def unsignedHexNumbers : Language Char :=
  charOf '0' * (eitherOf 'x' 'X' * someOf isHexDigit)

/-- The numbers `-?0[xX][0-9A-Fa-f]+`. -/
def hexNumbers : Language Char :=
  minus * unsignedHexNumbers

/-- Digits with a fraction that may be empty, or a fraction alone. -/
def mantissas : Language Char :=
  someOf isAsciiDigit * optionally (charOf '.' * anyOf isAsciiDigit) +
    charOf '.' * someOf isAsciiDigit

def exponents : Language Char :=
  eitherOf 'e' 'E' * optionally (eitherOf '-' '+') * someOf isAsciiDigit

def unsignedDecimalNumbers : Language Char :=
  mantissas * optionally exponents

/-- The numbers `-?([0-9]+(\.[0-9]*)?|\.[0-9]+)([eE][-+]?[0-9]+)?`. -/
def decimalNumbers : Language Char :=
  minus * unsignedDecimalNumbers

theorem consistsOf_mantissas : ConsistsOf isDigitOrPoint mantissas := by
  have hdigit : ∀ x, isAsciiDigit x → isDigitOrPoint x := fun x hx => by simp [isDigitOrPoint, hx]
  have hfraction : ConsistsOf isDigitOrPoint (charOf '.' * anyOf isAsciiDigit) :=
    (consistsOf_charOf rfl).mul (consistsOf_anyOf hdigit)
  have hwhole := (consistsOf_someOf hdigit).mul hfraction.optionally
  exact hwhole.add ((consistsOf_charOf rfl).mul (consistsOf_someOf hdigit))

theorem beginsWith_exponents {p : Char → Bool} (he : p 'e') (hE : p 'E') :
    BeginsWith p exponents :=
  ((consistsOf_eitherOf he hE).beginsWith.mul (.inl (nil_notMem_oneOf _))).mul
    (.inl (nil_notMem_mul (nil_notMem_oneOf _)))

theorem nil_notMem_exponents : [] ∉ exponents :=
  nil_notMem_mul (nil_notMem_mul (nil_notMem_oneOf _))

/-- Behind a mantissa an exponent cannot be taken for more of it. -/
theorem apart_mantissas_exponents : Apart mantissas (optionally exponents) :=
  apart_of_consistsOf consistsOf_mantissas (beginsWith_exponents rfl rfl).optionally

theorem nil_notMem_mantissas : [] ∉ mantissas :=
  nil_notMem_add (nil_notMem_mul (nil_notMem_someOf _)) (nil_notMem_mul (nil_notMem_oneOf _))

/-- What a number consists of behind its sign begins with a digit or a point. -/
structure IsUnsigned (U : Language Char) : Prop where
  beginsWith : BeginsWith isDigitOrPoint U
  nil_notMem : [] ∉ U

theorem isUnsigned_unsignedHexNumbers : IsUnsigned unsignedHexNumbers where
  beginsWith := (consistsOf_charOf rfl).beginsWith.mul (.inl (nil_notMem_oneOf _))
  nil_notMem := nil_notMem_mul (nil_notMem_oneOf _)

theorem isUnsigned_unsignedDecimalNumbers : IsUnsigned unsignedDecimalNumbers where
  beginsWith := consistsOf_mantissas.beginsWith.mul (.inl nil_notMem_mantissas)
  nil_notMem := nil_notMem_mul nil_notMem_mantissas

theorem IsUnsigned.exists_cons {U : Language Char} (hU : IsUnsigned U) {u : List Char}
    (hu : u ∈ U) : ∃ x more, u = x :: more ∧ isDigitOrPoint x := by
  cases u with
  | nil => exact absurd hu hU.nil_notMem
  | cons x more => exact ⟨x, more, rfl, hU.beginsWith _ hu⟩

theorem IsUnsigned.apart_minus {U : Language Char} (hU : IsUnsigned U) : Apart minus U :=
  apart_of_beginsWith (consistsOf_charOf rfl).optionally hU.beginsWith

/-! ## Matches behind the sign -/

/-- The pattern of hexadecimal numbers behind the sign, but for the edge that is asked for there. -/
def unsignedHexNode : Node :=
  .seq (charNode '0') (.seq (.one (eitherSet 'x' 'X')) (someNode hexDigitSet))

theorem munches_unsignedHexNode : unsignedHexNode.Munches unsignedHexNumbers := by
  have hmark : BeginsWith (fun z => z = 'x' || z = 'X') (eitherOf 'x' 'X') :=
    (consistsOf_oneOf fun _ h => h).beginsWith
  have hdigits : Apart (eitherOf 'x' 'X') (someOf isHexDigit) :=
    apart_of_beginsWith (consistsOf_eitherOf rfl rfl) (consistsOf_someOf fun _ h => h).beginsWith
  have hzero : Apart (charOf '0') (eitherOf 'x' 'X' * someOf isHexDigit) :=
    apart_of_beginsWith (consistsOf_charOf rfl) (hmark.mul (.inl (nil_notMem_oneOf _)))
  exact (munches_charNode '0').seq
    ((munches_eitherSet 'x' 'X').seq (Node.munches_someOf hexDigitSet) hdigits) hzero

theorem munches_fractionNode :
    fractionNode.Munches (optionally (charOf '.' * anyOf isAsciiDigit)) := by
  have hapart : Apart (charOf '.') (anyOf isAsciiDigit) :=
    apart_of_beginsWith (consistsOf_charOf rfl) (consistsOf_anyOf fun _ h => h).beginsWith
  exact ((munches_charNode '.').seq (Node.munches_anyOf digitSet) hapart).option

theorem munches_exponentNode : exponentNode.Munches (optionally exponents) := by
  have hmark : Apart (eitherOf 'e' 'E') (optionally (eitherOf '-' '+')) :=
    apart_of_beginsWith (consistsOf_eitherOf rfl rfl)
      (consistsOf_oneOf fun _ h => h).beginsWith.optionally
  have hsign : ConsistsOf (fun x => !isAsciiDigit x)
      (eitherOf 'e' 'E' * optionally (eitherOf '-' '+')) :=
    (consistsOf_eitherOf rfl rfl).mul (consistsOf_eitherOf rfl rfl).optionally
  have hdigits := apart_of_beginsWith hsign (consistsOf_someOf fun _ h => h).beginsWith
  exact (((munches_eitherSet 'e' 'E').seq (munches_eitherSet '-' '+').option hmark).seq
    munches_digits hdigits).option

/-- Digits with or without a fraction, or a fraction alone, and no edge asked for. -/
def mantissaNode : Node :=
  .alt (.seq (someNode digitSet) fractionNode) (.seqOf [charNode '.', someNode digitSet])

theorem munches_point_digits :
    (Node.seq (charNode '.') (someNode digitSet)).Munches (charOf '.' * someOf isAsciiDigit) := by
  have hapart : Apart (charOf '.') (someOf isAsciiDigit) :=
    apart_of_beginsWith (consistsOf_charOf rfl) (consistsOf_someOf fun _ h => h).beginsWith
  exact (munches_charNode '.').seq munches_digits hapart

theorem munches_mantissaNode : mantissaNode.Munches mantissas := by
  have hdigits : ConsistsOf isAsciiDigit (someOf isAsciiDigit) := consistsOf_someOf fun _ h => h
  have hpoint : ConsistsOf (fun x => !isAsciiDigit x) (charOf '.') := consistsOf_charOf rfl
  have hfraction : BeginsWith (fun x => !isAsciiDigit x) (charOf '.' * anyOf isAsciiDigit) :=
    hpoint.beginsWith.mul (.inl (nil_notMem_oneOf _))
  have hwhole := munches_digits.seq munches_fractionNode
    (apart_of_consistsOf hdigits hfraction.optionally)
  exact hwhole.alt munches_point_digits (hdigits.beginsWith.mul (.inl (nil_notMem_someOf _)))
    (hpoint.beginsWith.mul (.inl (nil_notMem_oneOf _))) (nil_notMem_mul (nil_notMem_someOf _))
    (nil_notMem_mul (nil_notMem_oneOf _))

theorem munches_unsignedDecimalNode :
    (Node.seq mantissaNode exponentNode).Munches unsignedDecimalNumbers :=
  munches_mantissaNode.seq munches_exponentNode apart_mantissas_exponents

/-! ## The edge in front of the first digit -/

/-- A digit follows that stands directly behind a word character. -/
def hasDigitBehindWord (c : Cursor) : Bool :=
  c.rest.head?.any isAsciiDigit && c.before.any isAsciiWord

/-- What has to begin with a digit may begin behind an edge, unless the digit stands directly behind
a word character. -/
theorem choose_edgeNode {goOn : Cursor → Option Cursor} {c : Cursor}
    (hnone : c.rest.head?.any isAsciiDigit = false → goOn c = none) :
    edgeNode.choose goOn c = if hasDigitBehindWord c then none else goOn c := by
  rw [edgeNode, Node.choose_assertion]
  by_cases hdigit : c.rest.head?.any isAsciiDigit
  · have hword : c.rest.head?.any isAsciiWord := by
      rw [any_isAsciiWord_eq, hdigit, Bool.true_or]
    cases hbefore : c.before.any isAsciiWord <;>
      simp [Assertion.holds, WordEdge.holds, hasDigitBehindWord, hdigit, hword, hbefore]
  · rw [hnone (by simpa using hdigit), ite_self, ite_self]

/-- The first digit of the number does not directly follow a word character, or it follows a point
with which the number begins; the number follows the character `before`. -/
def HasEdge (before : Option Char) (number : List Char) : Prop :=
  let lead := number.takeWhile (!isAsciiDigit ·)
  '.' ∈ lead ∨ (lead.getLast?.or before).any isAsciiWord = false

theorem hasEdge_append_iff {sign u : List Char} {x : Char} (hsign : sign ∈ minus)
    (hx : isDigitOrPoint x) (c : Cursor) (back : List Char) :
    HasEdge c.before (sign ++ x :: u) ↔
      hasDigitBehindWord (c.pass sign (x :: u ++ back)) = false := by
  have hlead : ∀ y ∈ sign, (!isAsciiDigit y) = true := by
    rcases mem_optionally.mp hsign with rfl | ⟨y, hy, rfl⟩
    · exact fun y hy => absurd hy List.not_mem_nil
    · obtain rfl := of_decide_eq_true hy
      exact List.forall_mem_singleton.mpr rfl
  rw [HasEdge, List.takeWhile_append_of_pos hlead]
  by_cases hdigit : isAsciiDigit x
  · have hpoint : '.' ∉ sign := by
      rcases mem_optionally.mp hsign with rfl | ⟨y, hy, rfl⟩
      · exact List.not_mem_nil
      · obtain rfl := of_decide_eq_true hy
        decide
    simp [hdigit, hpoint, hasDigitBehindWord]
  · obtain rfl : x = '.' := by simpa [isDigitOrPoint, hdigit] using hx
    simp [hasDigitBehindWord, hdigit]

/-! ## Matches -/

/-- The pattern takes the longest word of the language, if there is an edge in front of its first
digit. -/
def TakesLongest (p : Pattern) (L : Language Char) : Prop :=
  ∀ c d, p.matchEnd c = some d ↔ ∃ number back, IsLongest L c.rest number back ∧
    HasEdge c.before number ∧ d = c.pass number back

/-- The sign is taken if it is there: without it there is nothing to take where the sign is. -/
theorem choose_signNode {node : Node} {U : Language Char} (hmunches : node.Munches U)
    (hU : IsUnsigned U) {c : Cursor} {sign rest : List Char}
    (hsign : IsLongest minus c.rest sign rest) :
    signNode.choose (fun c => if hasDigitBehindWord c then none else node.choose some c) c =
      if hasDigitBehindWord (c.pass sign rest) then none
      else node.choose some (c.pass sign rest) := by
  have hsignNode : signNode.Munches minus := (munches_charNode '-').option
  refine hsignNode.choose_eq c _ sign rest hsign fun hnone word rest' hrest hword => ?_
  rcases hsign.eq_or_head? hword hrest with ⟨rfl, rfl⟩ | ⟨x, hx, hhead⟩
  · exact hnone
  · have hfail : node.choose some (c.pass word rest') = none := by
      refine hmunches.choose_eq_none _ some fun u hu hpre => hU.nil_notMem ?_
      rw [← hU.apart_minus.eq_nil hsign.mem hx hhead hu hpre]
      exact hu
    simp only [hfail, ite_self]

/-- A sign, and behind it what takes the longest unsigned number if there is an edge. -/
theorem takesLongest_of_munches {number node : Node} {U : Language Char}
    (hmunches : node.Munches U) (hU : IsUnsigned U)
    (hchoose : number.choose some = signNode.choose fun c =>
      if hasDigitBehindWord c then none else node.choose some c) :
    TakesLongest number.pattern (minus * U) := by
  intro c d
  rw [Node.matchEnd_pattern, ← Node.choose_some, hchoose]
  constructor
  · intro hd
    obtain ⟨sign, rest, hsign⟩ : ∃ sign rest, IsLongest minus c.rest sign rest :=
      exists_isLongest (mem_optionally.mpr (.inl rfl)) List.nil_prefix
    rw [choose_signNode hmunches hU hsign] at hd
    split at hd
    · cases hd
    · rename_i hedge
      obtain ⟨u, back, hu⟩ : ∃ u back, IsLongest U rest u back := by
        by_contra hnone
        have hfail := hmunches.choose_eq_none (c.pass sign rest) some fun u hu hpre =>
          hnone (exists_isLongest hu hpre)
        rw [hfail] at hd
        cases hd
      obtain ⟨x, more, rfl, hx⟩ := hU.exists_cons hu.mem
      rw [hmunches.choose_eq _ some _ back hu (stuckBehind_some _ _ _ _), Cursor.pass_pass] at hd
      refine ⟨_, back, hsign.mul hU.apart_minus hu, ?_, (Option.some.inj hd).symm⟩
      rw [hasEdge_append_iff hsign.mem hx c back, ← hu.text_eq]
      simpa using hedge
  · rintro ⟨number, back, hnumber, hedge, rfl⟩
    obtain ⟨sign, u, rest, rfl, hsign, hu⟩ := hnumber.exists_of_mul hU.apart_minus
    obtain ⟨x, more, rfl, hx⟩ := hU.exists_cons hu.mem
    rw [hasEdge_append_iff hsign.mem hx c back, ← hu.text_eq] at hedge
    rw [choose_signNode hmunches hU hsign, if_neg (by simpa using hedge),
      hmunches.choose_eq _ some _ back hu (stuckBehind_some _ _ _ _), Cursor.pass_pass]

theorem not_prefix_of_any_head? {L : Language Char} {p : Char → Bool} {text : List Char}
    (hL : BeginsWith p L) (hnil : [] ∉ L) (htext : text.head?.any p = false) :
    ∀ word ∈ L, ¬word <+: text := by
  rintro word hword ⟨more, rfl⟩
  obtain ⟨x, word, rfl⟩ := List.exists_cons_of_ne_nil fun h => hnil (h ▸ hword)
  have hx : p x := hL _ hword
  rw [List.cons_append, List.head?_cons, Option.any_some, hx] at htext
  cases htext

theorem not_prefix_of_no_point {text : List Char} (htext : text.head?.any (· = '.') = false) :
    ∀ word ∈ charOf '.' * someOf isAsciiDigit, ¬word <+: text :=
  not_prefix_of_any_head?
    ((consistsOf_oneOf fun _ h => h).beginsWith.mul (.inl (nil_notMem_oneOf _)))
    (nil_notMem_mul (nil_notMem_oneOf _)) htext

theorem takesLongest_hexNumber : TakesLongest hexNumber hexNumbers := by
  refine takesLongest_of_munches munches_unsignedHexNode isUnsigned_unsignedHexNumbers ?_
  have hnode : hexNumberNode.choose some =
      signNode.choose (edgeNode.choose (unsignedHexNode.choose some)) := by
    simp only [hexNumberNode, Node.seqOf, List.foldl, unsignedHexNode, Node.choose_seq_eq]
  rw [hnode]
  congr 1
  funext c
  refine choose_edgeNode fun hdigit => ?_
  have hbegins : BeginsWith isAsciiDigit unsignedHexNumbers :=
    (consistsOf_charOf rfl).beginsWith.mul (.inl (nil_notMem_oneOf _))
  exact munches_unsignedHexNode.choose_eq_none c some (not_prefix_of_any_head? hbegins
    isUnsigned_unsignedHexNumbers.nil_notMem hdigit)

/-- The edge is asked for in front of the digits; a point in their place needs none. -/
theorem choose_mantissaNode (goOn : Cursor → Option Cursor) (c : Cursor) :
    (Node.alt (.seqOf [edgeNode, someNode digitSet, fractionNode])
        (.seqOf [charNode '.', someNode digitSet])).choose goOn c =
      if hasDigitBehindWord c then none else mantissaNode.choose goOn c := by
  have hdigits : BeginsWith isAsciiDigit (someOf isAsciiDigit) :=
    (consistsOf_someOf fun _ h => h).beginsWith
  have hwhole : (Node.seqOf [edgeNode, someNode digitSet, fractionNode]).choose goOn c =
      if hasDigitBehindWord c then none
      else (Node.seq (someNode digitSet) fractionNode).choose goOn c := by
    simp only [Node.seqOf, List.foldl, Node.choose_seq_eq]
    exact choose_edgeNode fun hdigit => munches_digits.choose_eq_none c _
      (not_prefix_of_any_head? hdigits (nil_notMem_someOf _) hdigit)
  rw [Node.choose_alt, hwhole, mantissaNode, Node.choose_alt]
  by_cases hword : hasDigitBehindWord c
  · -- A digit is no point.
    obtain ⟨hdigit, -⟩ := Bool.and_eq_true_iff.mp hword
    obtain ⟨x, rest, hrest, hx⟩ := exists_cons_of_any_head? hdigit
    have hpoint : c.rest.head?.any (· = '.') = false := by
      rw [hrest, List.head?_cons, Option.any_some, decide_eq_false_iff_not]
      rintro rfl
      cases hx
    have hnone : (Node.seqOf [charNode '.', someNode digitSet]).choose goOn c = none :=
      munches_point_digits.choose_eq_none c goOn (not_prefix_of_no_point hpoint)
    rw [if_pos hword, if_pos hword, hnone, Option.none_or]
  · rw [if_neg hword, if_neg hword]

theorem takesLongest_signedNumber : TakesLongest signedNumber decimalNumbers := by
  refine takesLongest_of_munches munches_unsignedDecimalNode isUnsigned_unsignedDecimalNumbers ?_
  have hnode : signedNumberNode.choose some = signNode.choose
      ((Node.alt (.seqOf [edgeNode, someNode digitSet, fractionNode])
        (.seqOf [charNode '.', someNode digitSet])).choose (exponentNode.choose some)) := by
    rw [← Node.choose_seq_eq, ← Node.choose_seq_eq]
    simp only [signedNumberNode, Node.seqOf, List.foldl, Node.choose_seq_eq]
  rw [hnode]
  congr 1
  funext c
  rw [choose_mantissaNode, Node.choose_seq]

end Alakon

end CodeTint
