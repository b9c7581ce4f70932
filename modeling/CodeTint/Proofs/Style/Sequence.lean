import CodeTint.Style.Basic
import CodeTint.Proofs.Text.Literals

/-!
# Escape sequences of styles

Between the beginning of the escape sequence of a style and the letter that ends it stand digits and
semicolons only. It is never the sequence that ends every style: no effect and no color begins its
parameters with 0 (`exists_parameters`).
-/

namespace CodeTint

/-! ## Parameters as text -/

/-- Parameters as they are written, with a semicolon between any two. -/
def parametersText (parameters : List Nat) : List Char :=
  [';'].intercalate (parameters.map decimalDigits)

theorem toList_intercalate_toString (parameters : List Nat) :
    (";".intercalate (parameters.map toString)).toList = parametersText parameters := by
  rw [String.toList_intercalate, List.map_map, parametersText]
  exact congrArg _ (List.map_congr_left fun n _ => toList_toString n)

theorem splitOn_parametersText {parameters : List Nat} (h : parameters ≠ []) :
    (parametersText parameters).splitOn ';' = parameters.map decimalDigits := by
  refine List.splitOn_intercalate ';' (fun digits hdigits => ?_) (by simpa using h)
  obtain ⟨n, -, rfl⟩ := List.mem_map.mp hdigits
  exact not_mem_decimalDigits (by decide) n

theorem not_mem_parametersText {c : Char} (hsemicolon : c ≠ ';') (hc : digitValue? 10 c = none)
    (parameters : List Nat) : c ∉ parametersText parameters := by
  have hnot := not_mem_decimalDigits hc
  induction parameters with
  | nil => exact List.not_mem_nil
  | cons n parameters ih =>
      cases parameters with
      | nil =>
          rw [parametersText, List.map_singleton, List.intercalate_singleton]
          exact hnot n
      | cons m parameters =>
          rw [parametersText, List.map_cons, List.map_cons, List.intercalate_cons_cons,
            List.mem_append, List.mem_append, List.mem_singleton, not_or, not_or]
          exact ⟨⟨hnot n, hsemicolon⟩, ih⟩

theorem eq_of_parametersText_eq_zero {parameters : List Nat}
    (h : parametersText parameters = ['0']) : parameters = [0] := by
  have hne : parameters ≠ [] := by
    rintro rfl
    cases h
  have hsplit := splitOn_parametersText hne
  rw [h, show ['0'].splitOn ';' = [['0']] by decide] at hsplit
  obtain ⟨n, rfl, hn⟩ := List.map_eq_singleton_iff.mp hsplit.symm
  have hvalue := digitsValue?_decimalDigits n
  rw [hn] at hvalue
  exact congrArg (fun n => [n]) (Option.some.inj hvalue).symm

/-! ## Parameters of styles -/

theorem Effects.ne_zero_of_mem_sgrParameters {effects : Effects} :
    ∀ n ∈ effects.sgrParameters, n ≠ 0 := by
  intro n hn
  obtain ⟨effect, -, rfl⟩ := List.mem_map.mp hn
  cases effect <;> decide

theorem NamedColor.sgrParameter_ne_zero (color : NamedColor) (layer : Layer) :
    color.sgrParameter layer ≠ 0 := by
  cases layer <;> cases color <;> decide

theorem Color.ne_zero_of_head?_sgrParameters (color : Color) (layer : Layer) :
    ∀ n ∈ (color.sgrParameters layer).head?, n ≠ 0 := by
  have hextended : layer.extended ≠ 0 := by cases layer <;> decide
  unfold Color.sgrParameters
  split
  · exact fun n hn => nomatch hn
  · rintro n ⟨⟩
    exact NamedColor.sgrParameter_ne_zero _ layer
  · split
    · rintro n ⟨⟩
      exact NamedColor.sgrParameter_ne_zero _ layer
    · rintro n ⟨⟩
      exact hextended
  · rintro n ⟨⟩
    exact hextended

namespace Style

theorem sgrParameters_ne_zero (style : Style) : style.sgrParameters ≠ [0] := by
  intro heq
  have hhead : ∀ n ∈ style.sgrParameters.head?, n ≠ 0 := by
    rw [sgrParameters, List.append_assoc, List.head?_append, List.head?_append]
    intro n hn
    rcases Option.or_eq_some_iff.mp hn with hn | ⟨-, hn⟩
    · exact Effects.ne_zero_of_mem_sgrParameters n (List.mem_of_head? hn)
    · rcases Option.or_eq_some_iff.mp hn with hn | ⟨-, hn⟩
      · exact Color.ne_zero_of_head?_sgrParameters _ _ n hn
      · exact Color.ne_zero_of_head?_sgrParameters _ _ n hn
  exact hhead 0 (by rw [heq]; rfl) rfl

/-- The escape sequence of a style is framed, and does not end styles. -/
theorem exists_parameters {style : Style} {sequence : String}
    (h : style.sgrSequence? = some sequence) :
    ∃ parameters : List Char, sequence = "\x1b[" ++ String.ofList parameters ++ "m" ∧
      'm' ∉ parameters ∧ parameters ≠ ['0'] := by
  unfold sgrSequence? at h
  split at h
  · cases h
  · refine ⟨parametersText style.sgrParameters, ?_,
      not_mem_parametersText (by decide) (by decide) _,
      fun hzero => style.sgrParameters_ne_zero (eq_of_parametersText_eq_zero hzero)⟩
    rw [← Option.some.inj h, ← toList_intercalate_toString, String.ofList_toList]

end Style

/-! ## Escape sequences of styles are read back

A terminal reads the parameters of an escape sequence from left to right. The first of them tells
whether it selects something by itself, or together with which of those that follow it
(`Sgr.Selects`), so that there is only one way to read a list of parameters (`Sgr.ReadAs.unique`),
even though a component of a color may be the same number as an effect. What is read of the sequence
of a style is the style, without effects that are not declared and with the names of colors that
have one (`Style.sgrSequence?_read_back`). -/

/-! ### Reading parameters -/

/-- An effect, or a color of text or of its background. -/
inductive Selection where
  | effect (effect : Effect)
  | color (layer : Layer) (color : Color)
deriving Repr, DecidableEq

namespace Sgr

/-- What a parameter means where something new begins. -/
inductive Meaning where
  | effect (effect : Effect)
  | named (layer : Layer) (color : NamedColor)
  /-- A color of the palette or a mixed color follows. -/
  | extended (layer : Layer)
deriving Repr, DecidableEq

def meaning? (parameter : Nat) : Option Meaning :=
  match parameter with
  | 1 => some (.effect .bold)
  | 2 => some (.effect .faint)
  | 3 => some (.effect .italic)
  | 4 => some (.effect .underline)
  | 7 => some (.effect .reverse)
  | 9 => some (.effect .strikethrough)
  | 38 => some (.extended .foreground)
  | 48 => some (.extended .background)
  | n =>
    if 30 ≤ n ∧ n ≤ 37 then (NamedColor.ofIndex? (n - 30)).map (.named .foreground)
    else if 40 ≤ n ∧ n ≤ 47 then (NamedColor.ofIndex? (n - 40)).map (.named .background)
    else if 90 ≤ n ∧ n ≤ 97 then (NamedColor.ofIndex? (n - 90 + 8)).map (.named .foreground)
    else if 100 ≤ n ∧ n ≤ 107 then (NamedColor.ofIndex? (n - 100 + 8)).map (.named .background)
    else none

/-- The parameters, and no fewer of them, select something. -/
inductive Selects : List Nat → Selection → Prop
  | effect {n : Nat} {effect : Effect} (means : meaning? n = some (.effect effect)) :
      Selects [n] (.effect effect)
  | named {n : Nat} {layer : Layer} {color : NamedColor}
      (means : meaning? n = some (.named layer color)) :
      Selects [n] (.color layer (.named color))
  | indexed {n : Nat} {layer : Layer} (means : meaning? n = some (.extended layer))
      (index : UInt8) :
      Selects [n, 5, index.toNat] (.color layer (.indexed index))
  | rgb {n : Nat} {layer : Layer} (means : meaning? n = some (.extended layer))
      (red green blue : UInt8) :
      Selects [n, 2, red.toNat, green.toNat, blue.toNat] (.color layer (.rgb red green blue))

/-- All of the parameters are read, and select one thing after the other. -/
inductive ReadAs : List Nat → List Selection → Prop
  | nil : ReadAs [] []
  | cons {parameters others : List Nat} {selection : Selection} {selections : List Selection}
      (first : Selects parameters selection) (rest : ReadAs others selections) :
      ReadAs (parameters ++ others) (selection :: selections)

section Read

variable {parameters parameters' others others' : List Nat} {selection selection' : Selection}
  {selections selections' : List Selection}

/-- However the parameters go on, it is clear where the first thing ends, and what it is. -/
theorem Selects.unique (h : Selects parameters selection) (h' : Selects parameters' selection')
    (heq : parameters ++ others = parameters' ++ others') :
    selection = selection' ∧ others = others' := by
  cases h with
  | effect means => cases h' <;> simp_all
  | named means => cases h' <;> simp_all
  | indexed means index => cases h' <;> simp_all [UInt8.toNat_inj]
  | rgb means red green blue => cases h' <;> simp_all [UInt8.toNat_inj]

theorem Selects.ne_nil (h : Selects parameters selection) : parameters ≠ [] := by
  cases h <;> exact List.cons_ne_nil _ _

/-- Parameters are read in one way at most. -/
theorem ReadAs.unique (h : ReadAs parameters selections) (h' : ReadAs parameters selections') :
    selections = selections' := by
  induction h generalizing selections' with
  | nil =>
      generalize hnil : ([] : List Nat) = all at h'
      cases h' with
      | nil => rfl
      | cons first rest => exact absurd (List.append_eq_nil_iff.mp hnil.symm).1 first.ne_nil
  | @cons parameters others selection selections first rest ih =>
      generalize heq : parameters ++ others = all at h'
      cases h' with
      | nil => exact absurd (List.append_eq_nil_iff.mp heq).1 first.ne_nil
      | cons first' rest' =>
          obtain ⟨rfl, rfl⟩ := first.unique first' heq
          rw [ih rest']

theorem ReadAs.append (h : ReadAs parameters selections) (h' : ReadAs others selections') :
    ReadAs (parameters ++ others) (selections ++ selections') := by
  induction h with
  | nil => exact h'
  | cons first _ ih =>
      rw [List.append_assoc]
      exact .cons first ih

theorem Selects.readAs (h : Selects parameters selection) : ReadAs parameters [selection] :=
  List.append_nil parameters ▸ .cons h .nil

end Read

/-- The parameters that the text between the opening of an escape sequence and its last letter
writes, if there is any text. -/
def parametersOf? (text : List Char) : Option (List Nat) :=
  if text = [] then some [] else (text.splitOn ';').mapM (digitsValue? 10)

theorem mapM_digitsValue?_decimalDigits (parameters : List Nat) :
    (parameters.map decimalDigits).mapM (digitsValue? 10) = some parameters := by
  induction parameters with
  | nil => rfl
  | cons n parameters ih =>
      rw [List.map_cons, List.mapM_cons, digitsValue?_decimalDigits, ih]
      rfl

theorem parametersText_ne_nil {parameters : List Nat} (h : parameters ≠ []) :
    parametersText parameters ≠ [] := by
  intro hnil
  have hsplit := splitOn_parametersText h
  rw [hnil, show [].splitOn ';' = [[]] by rfl] at hsplit
  obtain ⟨n, -, hn⟩ := List.map_eq_singleton_iff.mp hsplit.symm
  exact Nat.toDigits_ne_nil hn

theorem parametersOf?_parametersText (parameters : List Nat) :
    parametersOf? (parametersText parameters) = some parameters := by
  by_cases h : parameters = []
  · subst h
    rfl
  · rw [parametersOf?, if_neg (parametersText_ne_nil h), splitOn_parametersText h,
      mapM_digitsValue?_decimalDigits]

end Sgr

/-! ### What a terminal makes of a sequence -/

namespace Style

def select (style : Style) : Selection → Style
  | .effect effect => { style with effects := style.effects.union ⟨effect.bit⟩ }
  | .color .foreground color => { style with foreground := color }
  | .color .background color => { style with background := color }

/-- Plain text is shown in the style behind the escape sequence, or without any sequence. -/
inductive IsShownBy : Style → Option String → Prop
  | nothing : IsShownBy plain none
  | sequence {text : List Char} {parameters : List Nat} {selections : List Selection}
      (written : Sgr.parametersOf? text = some parameters)
      (read : Sgr.ReadAs parameters selections) :
      IsShownBy (selections.foldl select plain) (some ("\x1b[" ++ String.ofList text ++ "m"))

theorem text_eq_of_framed_eq {text text' : List Char}
    (h : "\x1b[" ++ String.ofList text ++ "m" = "\x1b[" ++ String.ofList text' ++ "m") :
    text = text' := by
  simpa using congrArg String.toList h

theorem IsShownBy.unique {style other : Style} {sequence : Option String}
    (h : style.IsShownBy sequence) (h' : other.IsShownBy sequence) : style = other := by
  cases h with
  | nothing => cases h'; rfl
  | @sequence text parameters selections written read =>
      generalize hsequence : "\x1b[" ++ String.ofList text ++ "m" = framed at h'
      cases h' with
      | sequence written' read' =>
          obtain rfl := text_eq_of_framed_eq hsequence
          obtain rfl := Option.some.inj (written.symm.trans written')
          rw [read.unique read']

end Style

/-! ### Colors by name -/

namespace Color

/-- The color by its name, if it is one of the palette that has a name. -/
def byName : Color → Color
  | indexed index =>
    match NamedColor.ofIndex? index.toNat with
    | some color => named color
    | none => indexed index
  | color => color

def selections (color : Color) (layer : Layer) : List Selection :=
  if color.byName = default then [] else [.color layer color.byName]

theorem byName_eq_default_iff {color : Color} : color.byName = default ↔ color = default := by
  cases color with
  | indexed index =>
      rw [byName]
      split <;> simp
  | _ => simp [byName]

theorem sgrParameters_byName (color : Color) (layer : Layer) :
    color.byName.sgrParameters layer = color.sgrParameters layer := by
  cases color with
  | indexed index =>
      rw [byName]
      split
      next named hnamed => rw [sgrParameters, sgrParameters, hnamed]
      next => rfl
  | _ => rfl

end Color

namespace Sgr

theorem meaning?_effect (effect : Effect) :
    meaning? effect.sgrParameter = some (.effect effect) := by
  cases effect <;> rfl

theorem meaning?_named (layer : Layer) (color : NamedColor) :
    meaning? (color.sgrParameter layer) = some (.named layer color) := by
  cases layer <;> cases color <;> rfl

theorem meaning?_extended (layer : Layer) : meaning? layer.extended = some (.extended layer) := by
  cases layer <;> rfl

theorem readAs_effects (effects : List Effect) :
    ReadAs (effects.map (·.sgrParameter)) (effects.map .effect) := by
  induction effects with
  | nil => exact .nil
  | cons effect effects ih => exact .cons (.effect (meaning?_effect effect)) ih

theorem readAs_color (color : Color) (layer : Layer) :
    ReadAs (color.sgrParameters layer) (color.selections layer) := by
  cases color with
  | default => exact .nil
  | named color => exact (Selects.named (meaning?_named layer color)).readAs
  | indexed index =>
      rw [Color.sgrParameters, Color.selections, Color.byName]
      cases NamedColor.ofIndex? index.toNat with
      | some color => exact (Selects.named (meaning?_named layer color)).readAs
      | none => exact (Selects.indexed (meaning?_extended layer) index).readAs
  | rgb red green blue => exact (Selects.rgb (meaning?_extended layer) red green blue).readAs

end Sgr

/-! ### Declared effects -/

namespace Effects

def declaredBits : UInt16 := 63

theorem bits_eq_or (bits : UInt16) :
    bits = (bits &&& declaredBits) ||| (bits &&& ~~~declaredBits) := by
  have hall : declaredBits.toBitVec ||| ~~~declaredBits.toBitVec = BitVec.allOnes 16 := by decide
  apply UInt16.eq_of_toBitVec_eq
  rw [UInt16.toBitVec_or, UInt16.toBitVec_and, UInt16.toBitVec_and, UInt16.toBitVec_not,
    ← BitVec.and_or_distrib_left, hall, BitVec.and_allOnes]

theorem contains_and_declaredBits (bits : UInt16) (effect : Effect) :
    contains ⟨bits &&& declaredBits⟩ effect = contains ⟨bits⟩ effect := by
  have hbit : declaredBits &&& effect.bit = effect.bit := by cases effect <;> rfl
  rw [contains, contains, UInt16.and_assoc, hbit]

theorem ofList_toList_of_lt : ∀ bits < 64,
    ofList (toList ⟨UInt16.ofNat bits⟩) = ⟨UInt16.ofNat bits⟩ := by
  decide

theorem ofList_toList (effects : Effects) :
    ofList effects.toList = ⟨effects.bits &&& declaredBits⟩ := by
  have htoList : effects.toList = toList ⟨effects.bits &&& declaredBits⟩ :=
    List.filter_congr fun effect _ => (contains_and_declaredBits effects.bits effect).symm
  have hlt : (effects.bits &&& declaredBits).toNat < 64 := by
    rw [UInt16.toNat_and]
    exact Nat.lt_succ_of_le Nat.and_le_right
  have hofList := ofList_toList_of_lt _ hlt
  rw [UInt16.ofNat_toNat] at hofList
  rw [htoList, hofList]

/-- A set without undeclared bits is known by its effects. -/
theorem ofList_toList_of_undeclared {effects : Effects} (h : effects.undeclared = 0) :
    ofList effects.toList = effects := by
  have hbits := bits_eq_or effects.bits
  rw [show effects.bits &&& ~~~declaredBits = 0 from h, UInt16.or_zero] at hbits
  rw [ofList_toList, ← hbits]

end Effects

/-! ### Styles -/

namespace Style

def selections (style : Style) : List Selection :=
  style.effects.toList.map .effect ++ style.foreground.selections .foreground ++
    style.background.selections .background

/-- The style as a terminal shows it: with its declared effects only, and with the names of colors
that have one. -/
def shown (style : Style) : Style :=
  ⟨style.foreground.byName, style.background.byName, .ofList style.effects.toList⟩

theorem readAs_sgrParameters (style : Style) :
    Sgr.ReadAs style.sgrParameters style.selections :=
  ((Sgr.readAs_effects _).append (Sgr.readAs_color _ _)).append (Sgr.readAs_color _ _)

theorem foldl_select_effects (effects : List Effect) (style : Style) :
    (effects.map .effect).foldl select style =
      { style with effects :=
          ⟨effects.foldl (fun bits effect => bits ||| effect.bit) style.effects.bits⟩ } := by
  induction effects generalizing style with
  | nil => rfl
  | cons effect effects ih => rw [List.map_cons, List.foldl_cons, ih]; rfl

theorem foldl_select_foreground (color : Color) (style : Style) (h : style.foreground = .default) :
    (color.selections .foreground).foldl select style =
      { style with foreground := color.byName } := by
  rw [Color.selections]
  split
  next hdefault => rw [hdefault, ← h]; rfl
  next => rfl

theorem foldl_select_background (color : Color) (style : Style) (h : style.background = .default) :
    (color.selections .background).foldl select style =
      { style with background := color.byName } := by
  rw [Color.selections]
  split
  next hdefault => rw [hdefault, ← h]; rfl
  next => rfl

theorem foldl_select_selections (style : Style) :
    style.selections.foldl select plain = style.shown := by
  rw [selections, List.foldl_append, List.foldl_append, foldl_select_effects,
    foldl_select_foreground _ _ rfl, foldl_select_background _ _ rfl]
  rfl

/-- The text of the parameters stands between the opening of the sequence and its last letter. -/
theorem sgrSequence?_of_not_isPlain {style : Style} (h : style.isPlain = false) :
    style.sgrSequence? =
      some ("\x1b[" ++ String.ofList (parametersText style.sgrParameters) ++ "m") := by
  rw [sgrSequence?, h, ← toList_intercalate_toString, String.ofList_toList]
  rfl

theorem eq_plain_of_isPlain {style : Style} (h : style.isPlain) : style = plain := by
  obtain ⟨foreground, background, ⟨bits⟩⟩ := style
  obtain ⟨⟨rfl, rfl⟩, rfl⟩ : (foreground = .default ∧ background = .default) ∧ bits = 0 := by
    simpa [isPlain, Effects.isEmpty] using h
  rfl

/-- The sequence of a style shows plain text in that style. -/
theorem isShownBy_sgrSequence? (style : Style) : style.shown.IsShownBy style.sgrSequence? := by
  cases h : style.isPlain with
  | true =>
      rw [eq_plain_of_isPlain h]
      exact .nothing
  | false =>
      rw [sgrSequence?_of_not_isPlain h, ← foldl_select_selections]
      exact .sequence (Sgr.parametersOf?_parametersText _) style.readAs_sgrParameters

/-- Only the names of colors count. -/
theorem sgrSequence?_congr {style other : Style} (heffects : style.effects = other.effects)
    (hforeground : style.foreground.byName = other.foreground.byName)
    (hbackground : style.background.byName = other.background.byName) :
    style.sgrSequence? = other.sgrSequence? := by
  have hparameters : style.sgrParameters = other.sgrParameters := by
    rw [sgrParameters, sgrParameters, ← style.foreground.sgrParameters_byName,
      ← style.background.sgrParameters_byName, heffects, hforeground, hbackground,
      Color.sgrParameters_byName, Color.sgrParameters_byName]
  have hdefault : style.foreground = .default ↔ other.foreground = .default := by
    rw [← Color.byName_eq_default_iff, hforeground, Color.byName_eq_default_iff]
  have hdefault' : style.background = .default ↔ other.background = .default := by
    rw [← Color.byName_eq_default_iff, hbackground, Color.byName_eq_default_iff]
  have hplain : style.isPlain = other.isPlain := by
    simp only [isPlain, hdefault, hdefault', heffects]
  rw [sgrSequence?, sgrSequence?, hparameters, hplain]

/-- The escape sequence of a style can be read back. Its parameters, which stand between the opening
and the last letter of the sequence, can be read in one way only, and without remainder. What they
select, or the plain style if there is no sequence, is the style with its declared effects and with
the names of colors that have one. Of two styles that have only declared effects, the sequences are
therefore the same if the effects are, and the colors have the same names. -/
theorem sgrSequence?_read_back (style : Style) :
    (∀ sequence, style.sgrSequence? = some sequence → ∃ text parameters,
      sequence = "\x1b[" ++ String.ofList text ++ "m" ∧
        Sgr.parametersOf? text = some parameters ∧
          ∃! selections, Sgr.ReadAs parameters selections) ∧
    (∀ shown : Style, shown.IsShownBy style.sgrSequence? ↔
      shown = ⟨style.foreground.byName, style.background.byName, .ofList style.effects.toList⟩) ∧
    ∀ other : Style, style.effects.undeclared = 0 → other.effects.undeclared = 0 →
      (style.sgrSequence? = other.sgrSequence? ↔ style.effects = other.effects ∧
        style.foreground.byName = other.foreground.byName ∧
        style.background.byName = other.background.byName) := by
  have hshown := style.isShownBy_sgrSequence?
  refine ⟨fun sequence hsequence => ?_,
    fun shown => ⟨fun h => h.unique hshown, fun h => h ▸ hshown⟩,
    fun other hdeclared hdeclared' => ⟨fun heq => ?_, ?_⟩⟩
  · have hplain : style.isPlain = false := by
      refine eq_false_of_ne_true fun hplain => ?_
      rw [sgrSequence?, if_pos hplain] at hsequence
      cases hsequence
    rw [sgrSequence?_of_not_isPlain hplain] at hsequence
    exact ⟨_, _, (Option.some.inj hsequence).symm, Sgr.parametersOf?_parametersText _,
      _, style.readAs_sgrParameters, fun _ h => h.unique style.readAs_sgrParameters⟩
  · have hother := other.isShownBy_sgrSequence?
    rw [← heq] at hother
    obtain ⟨hforeground, hbackground, heffects⟩ :=
      Style.mk.inj (hshown.unique hother)
    rw [Effects.ofList_toList_of_undeclared hdeclared,
      Effects.ofList_toList_of_undeclared hdeclared'] at heffects
    exact ⟨heffects, hforeground, hbackground⟩
  · rintro ⟨heffects, hforeground, hbackground⟩
    exact sgrSequence?_congr heffects hforeground hbackground

/-- A color of the palette and the color that it names, and components that look like effects. -/
theorem sgrSequence?_read_back_low_index :
    let style : Style := ⟨.indexed 3, .rgb 1 5 38, .ofList [.bold, .strikethrough]⟩
    let other : Style := ⟨.named .yellow, .rgb 1 5 38, .ofList [.bold, .strikethrough]⟩
    style.effects.undeclared = 0 ∧ other.effects.undeclared = 0 ∧
      style.sgrSequence? = some "\x1b[1;9;33;48;2;1;5;38m" ∧
      style.sgrSequence? = other.sgrSequence? ∧ other.IsShownBy style.sgrSequence? := by
  intro style other
  obtain ⟨-, hshown, hsame⟩ := sgrSequence?_read_back style
  have hdeclared : style.effects.undeclared = 0 := by decide
  have hdeclared' : other.effects.undeclared = 0 := by decide
  exact ⟨hdeclared, hdeclared', by decide +kernel, (hsame other hdeclared hdeclared').mpr
    ⟨rfl, rfl, rfl⟩, (hshown other).mpr (by decide)⟩

end Style

end CodeTint
