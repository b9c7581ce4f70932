import CodeTint.Config.Basic
import CodeTint.Proofs.Grammar.RoundTrip
import CodeTint.Proofs.Json.Editing
import CodeTint.Proofs.Style.EffectsText

/-!
# Settings through JSON

Settings come back from their JSON form, and so they do when the form is edited: a field may be left
out where it has its initial value, which for a style is the style of its category in a theme that
is not given, and for the parts of a style that is given those of the plain one; and members that no
one knows may be put in (`Config.decoder_of_edits`).
-/

namespace CodeTint

open Decoder (decodes_byte decodes_choice decodes_of_editsRecord decodes_option_null decodes_string)
open Json (EditsRecord FieldForm editsRecord_nil editsRecord_self)

/-! ## Colors and effects -/

theorem NamedColor.decodes_toJson (color : NamedColor) (depth : Nat) :
    NamedColor.decoder.Decodes depth color.toJson color := by
  cases color <;> exact decodes_choice rfl

theorem Color.decodes_rgb (red green blue : UInt8) (depth : Nat) :
    Color.rgbDecoder.Decodes (depth + 1)
      (.array [.ofNat red.toNat, .ofNat green.toNat, .ofNat blue.toNat]) (red, green, blue) := by
  intro reading written hallows hwritten
  obtain ⟨others, rfl, hothers⟩ := hwritten.exists_array
  obtain ⟨inner, henter, hinner⟩ := Reading.enter_of_allows hallows
  cases hothers with
  | cons hred hothers =>
  cases hothers with
  | cons hgreen hothers =>
  cases hothers with
  | cons hblue hothers =>
  cases hothers
  rw [Draft.ofJson, rgbDecoder, Decoder.tuple, henter]
  simp only [bind, Except.bind, DraftItems.ofList, Decoder.fieldsFromItems, Decoder.field,
    decodes_byte _ red inner _ hinner hred, decodes_byte _ green inner _ hinner hgreen,
    decodes_byte _ blue inner _ hinner hblue]
  rfl

theorem Color.decodes_toJson (color : Color) (depth : Nat) :
    Color.decoder.Decodes (depth + 2) color.toJson color := by
  cases color with
  | default => exact decodes_choice rfl
  | named color => exact ((color.decodes_toJson _).map Color.named).choice rfl
  | indexed index => exact ((decodes_byte _ index).map Color.indexed).choice rfl
  | rgb red green blue =>
      refine Decoder.Decodes.choice ?_ rfl
      exact (Color.decodes_rgb red green blue depth).map _

theorem Color.isTextual_toJson (color : Color) : color.toJson.IsTextual 2 := by
  cases color with
  | default => exact .string _ _
  | named color =>
      exact Json.isTextual_ofMembers (List.forall_mem_singleton.mpr (.string _ color.name))
  | indexed index =>
      exact Json.isTextual_ofMembers (List.forall_mem_singleton.mpr (.byte _ index.toNat_lt))
  | rgb red green blue =>
      refine Json.isTextual_ofMembers (List.forall_mem_singleton.mpr (.array ?_))
      exact List.forall_mem_cons.mpr ⟨.byte _ red.toNat_lt, List.forall_mem_cons.mpr
        ⟨.byte _ green.toNat_lt, List.forall_mem_singleton.mpr (.byte _ blue.toNat_lt)⟩⟩

theorem Effects.decodes_toJson (effects : Effects) (depth : Nat) :
    Effects.decoder.Decodes depth effects.toJson effects :=
  (decodes_string depth effects.write).filterMap effects.read?_write

/-! ## Styles -/

namespace Style

def fieldForms : List FieldForm :=
  [⟨"fg", plain.foreground.toJson, Eq⟩, ⟨"bg", plain.background.toJson, Eq⟩,
    ⟨"flags", plain.effects.toJson, Eq⟩]

/-- The JSON form of a style without fields that are as in the plain style, and with members of
other names. -/
def Edits : Json → Json → Prop :=
  EditsRecord fieldForms

theorem decodes_of_edits (style : Style) {edited : Json} (h : Edits style.toJson edited)
    (depth : Nat) : Style.decoder.Decodes (depth + 3) edited style := by
  refine decodes_of_editsRecord
    (.unedited (fun color => color.decodes_toJson depth) rfl style.foreground
      (.unedited (fun color => color.decodes_toJson depth) rfl style.background
        (.unedited (fun effects => effects.decodes_toJson _) rfl style.effects .nil)))
    (by decide) ?_ rfl rfl h
  simp [Decoder.Given.Commutes]

theorem edits_self (style : Style) : Edits style.toJson style.toJson :=
  editsRecord_self (.cons ⟨rfl, rfl⟩ (.cons ⟨rfl, rfl⟩ (.cons ⟨rfl, rfl⟩ .nil)))

theorem decodes_toJson (style : Style) (depth : Nat) :
    Style.decoder.Decodes (depth + 3) style.toJson style :=
  style.decodes_of_edits style.edits_self depth

/-- The JSON form with its members in the order in which they are declared. -/
def asDeclared (style : Style) : Json :=
  .object [("fg", style.foreground.toJson), ("bg", style.background.toJson),
    ("flags", style.effects.toJson)]

theorem toJson_reorders (style : Style) : style.toJson.Reorders style.asDeclared :=
  Json.ofMembers_reorders (by simp) (.cons (.refl _) (.cons (.refl _) (.cons (.refl _) .nil)))

theorem isTextual_toJson (style : Style) : style.toJson.IsTextual 3 :=
  Json.isTextual_ofMembers (List.forall_mem_cons.mpr ⟨style.foreground.isTextual_toJson,
    List.forall_mem_cons.mpr ⟨style.background.isTextual_toJson,
      List.forall_mem_singleton.mpr (.string _ style.effects.write)⟩⟩)

end Style

/-! ## Themes -/

namespace Theme

def fieldForms : List FieldForm :=
  [⟨"string", initial.string.toJson, Style.Edits⟩, ⟨"number", initial.number.toJson, Style.Edits⟩,
    ⟨"keyword", initial.keyword.toJson, Style.Edits⟩,
    ⟨"built_in", initial.builtIn.toJson, Style.Edits⟩]

/-- The JSON form of a theme without styles that are as in the initial theme, with the other styles
edited, and with members of other names. -/
def Edits : Json → Json → Prop :=
  EditsRecord fieldForms

theorem decodes_of_edits (theme : Theme) {edited : Json} (h : Edits theme.toJson edited)
    (depth : Nat) : Theme.decoder.Decodes (depth + 4) edited theme := by
  have hstyle : ∀ (style : Style) edited, Style.Edits style.toJson edited →
      Style.decoder.Decodes (depth + 3) edited style := fun style _ h =>
    style.decodes_of_edits h depth
  have hself : ∀ style : Style, Style.decoder.Decodes (depth + 3) style.toJson style := fun style =>
    style.decodes_toJson depth
  refine decodes_of_editsRecord
    (.edited hstyle hself rfl theme.string (.edited hstyle hself rfl theme.number
      (.edited hstyle hself rfl theme.keyword (.edited hstyle hself rfl theme.builtIn .nil))))
    (by decide) ?_ rfl rfl h
  simp [Decoder.Given.Commutes]

theorem edits_self (theme : Theme) : Edits theme.toJson theme.toJson :=
  editsRecord_self (.cons ⟨rfl, theme.string.edits_self⟩ (.cons ⟨rfl, theme.number.edits_self⟩
    (.cons ⟨rfl, theme.keyword.edits_self⟩ (.cons ⟨rfl, theme.builtIn.edits_self⟩ .nil))))

def asDeclared (theme : Theme) : Json :=
  .object [("string", theme.string.asDeclared), ("number", theme.number.asDeclared),
    ("keyword", theme.keyword.asDeclared), ("built_in", theme.builtIn.asDeclared)]

theorem toJson_reorders (theme : Theme) : theme.toJson.Reorders theme.asDeclared :=
  Json.ofMembers_reorders (by simp) (.cons (.mk _ theme.string.toJson_reorders)
    (.cons (.mk _ theme.number.toJson_reorders) (.cons (.mk _ theme.keyword.toJson_reorders)
      (.cons (.mk _ theme.builtIn.toJson_reorders) .nil))))

theorem isTextual_toJson (theme : Theme) : theme.toJson.IsTextual 4 :=
  Json.isTextual_ofMembers (List.forall_mem_cons.mpr ⟨theme.string.isTextual_toJson,
    List.forall_mem_cons.mpr ⟨theme.number.isTextual_toJson,
      List.forall_mem_cons.mpr ⟨theme.keyword.isTextual_toJson,
        List.forall_mem_singleton.mpr theme.builtIn.isTextual_toJson⟩⟩⟩)

end Theme

/-! ## Grammars and output -/

theorem Preset.decodes_toJson (preset : Preset) (depth : Nat) :
    Preset.decoder.Decodes depth preset.toJson preset := by
  cases preset <;> exact decodes_choice rfl

namespace GrammarConfig

def fieldForms : List FieldForm :=
  [⟨"preset", Config.initial.grammar.preset.toJson, Eq⟩]

def Edits : Json → Json → Prop :=
  EditsRecord fieldForms

theorem decodes_of_edits (config : GrammarConfig) {edited : Json} (h : Edits config.toJson edited)
    (depth : Nat) : GrammarConfig.decoder.Decodes (depth + 1) edited config := by
  refine decodes_of_editsRecord
    (.unedited (fun preset => preset.decodes_toJson depth) rfl config.preset .nil)
    (by decide) ?_ rfl rfl h
  simp

theorem edits_self (config : GrammarConfig) : Edits config.toJson config.toJson :=
  editsRecord_self (.cons ⟨rfl, rfl⟩ .nil)

theorem isTextual_toJson (config : GrammarConfig) : config.toJson.IsTextual 4 :=
  Json.isTextual_ofMembers (List.forall_mem_singleton.mpr (.string _ config.preset.name))

end GrammarConfig

theorem OutputFormat.decodes_toJson (format : OutputFormat) (depth : Nat) :
    OutputFormat.decoder.Decodes depth format.toJson format := by
  cases format <;> exact decodes_choice rfl

namespace OutputConfig

/-- The shape of the grammar that is written, or null. -/
def shapeToJson (shape : Option HostShape) : Json :=
  (shape.map (·.toJson)).getD .null

theorem decodes_shapeToJson (shape : Option HostShape) (depth : Nat) :
    (Decoder.option HostShape.decoder).Decodes depth (shapeToJson shape) shape := by
  cases shape with
  | none => exact decodes_option_null _ depth
  | some shape => exact (shape.decodes_toJson depth).option nofun

def fieldForms : List FieldForm :=
  [⟨"format", Config.initial.output.format.toJson, Eq⟩,
    ⟨"host_shape", shapeToJson Config.initial.output.hostShape, Eq⟩]

def Edits : Json → Json → Prop :=
  EditsRecord fieldForms

theorem decodes_of_edits (config : OutputConfig) {edited : Json} (h : Edits config.toJson edited)
    (depth : Nat) : OutputConfig.decoder.Decodes (depth + 1) edited config := by
  refine decodes_of_editsRecord
    (.unedited (fun format => format.decodes_toJson depth) rfl config.format
      (.unedited (fun shape => decodes_shapeToJson shape depth) rfl config.hostShape .nil))
    (by decide) ?_ rfl rfl h
  simp [Decoder.Given.Commutes]

theorem edits_self (config : OutputConfig) : Edits config.toJson config.toJson :=
  editsRecord_self (.cons ⟨rfl, rfl⟩ (.cons ⟨rfl, rfl⟩ .nil))

def asDeclared (config : OutputConfig) : Json :=
  .object [("format", config.format.toJson), ("host_shape", shapeToJson config.hostShape)]

theorem toJson_reorders (config : OutputConfig) : config.toJson.Reorders config.asDeclared :=
  Json.ofMembers_reorders (by simp) (.cons (.refl _) (.cons (.refl _) .nil))

theorem isTextual_toJson (config : OutputConfig) : config.toJson.IsTextual 4 := by
  refine Json.isTextual_ofMembers (List.forall_mem_cons.mpr ⟨.string _ config.format.name,
    List.forall_mem_singleton.mpr ?_⟩)
  cases config.hostShape with
  | none => exact .null _
  | some shape => exact .string _ shape.name

end OutputConfig

/-! ## Settings -/

namespace Config

def fieldForms : List FieldForm :=
  [⟨"grammar", initial.grammar.toJson, GrammarConfig.Edits⟩,
    ⟨"output", initial.output.toJson, OutputConfig.Edits⟩,
    ⟨"theme", initial.theme.toJson, Theme.Edits⟩]

/-- The JSON form of settings, edited at any level: without fields that are as in the record that
holds where nothing is given, and with members of names that no field has. -/
def Edits : Json → Json → Prop :=
  EditsRecord fieldForms

theorem decodes_of_edits (config : Config) {edited : Json} (h : Edits config.toJson edited) :
    Config.decoder.Decodes 5 edited config := by
  refine decodes_of_editsRecord
    (.edited (fun grammar _ h => grammar.decodes_of_edits h 3)
      (fun grammar => grammar.decodes_of_edits grammar.edits_self 3) rfl config.grammar
      (.edited (fun output _ h => output.decodes_of_edits h 3)
        (fun output => output.decodes_of_edits output.edits_self 3) rfl config.output
        (.edited (fun theme _ h => theme.decodes_of_edits h 0)
          (fun theme => theme.decodes_of_edits theme.edits_self 0) rfl config.theme .nil)))
    (by decide) ?_ rfl rfl h
  simp [Decoder.Given.Commutes]

theorem edits_self (config : Config) : Edits config.toJson config.toJson :=
  editsRecord_self (.cons ⟨rfl, config.grammar.edits_self⟩ (.cons ⟨rfl, config.output.edits_self⟩
    (.cons ⟨rfl, config.theme.edits_self⟩ .nil)))

/-- The JSON form with the members of every object in the order in which they are declared. -/
def asDeclared (config : Config) : Json :=
  .object [("grammar", config.grammar.toJson), ("output", config.output.asDeclared),
    ("theme", config.theme.asDeclared)]

theorem toJson_reorders (config : Config) : config.toJson.Reorders config.asDeclared :=
  Json.ofMembers_reorders (by simp) (.cons (.refl _)
    (.cons (.mk _ config.output.toJson_reorders) (.cons (.mk _ config.theme.toJson_reorders) .nil)))

theorem isTextual_toJson (config : Config) : config.toJson.IsTextual 5 :=
  Json.isTextual_ofMembers (List.forall_mem_cons.mpr ⟨config.grammar.isTextual_toJson,
    List.forall_mem_cons.mpr ⟨config.output.isTextual_toJson,
      List.forall_mem_singleton.mpr config.theme.isTextual_toJson⟩⟩)

/-- Settings come back from their JSON form, from the value as well as from a compact or a pretty
text of it, in whatever order the members of objects are written there. They also come back when the
form is edited, any number of fields at once and at any level: without fields that are as in the
record that holds where nothing is given, and with members of names that no field has. -/
theorem decoder_of_edits (config : Config) :
    (∀ written, config.toJson.Reorders written →
      decoder.ofJson written = .ok config ∧ decoder.ofText written.compact = .ok config ∧
        decoder.ofText written.pretty = .ok config) ∧
      config.toJson.Reorders config.asDeclared ∧
      Edits config.toJson config.toJson ∧
      ∀ edited, Edits config.toJson edited → decoder.ofJson edited = .ok config ∧
        ∀ text, edited.SaidBy text → decoder.ofText text = .ok config := by
  refine ⟨fun written hwritten => ?_, config.toJson_reorders, config.edits_self,
    fun edited hedits => ?_⟩
  · have hdecodes := config.decodes_of_edits config.edits_self
    have htextual := config.isTextual_toJson.of_reorders hwritten
    exact ⟨hdecodes.ofJson hwritten,
      hdecodes.ofText (by decide) hwritten (Json.spelledBy_compact htextual),
      hdecodes.ofText (by decide) hwritten (Json.spelledBy_pretty htextual)⟩
  · have hdecodes := config.decodes_of_edits hedits
    exact ⟨hdecodes.ofJson (.same edited), fun text hsaid =>
      hdecodes.ofText_of_saidBy (by decide) (.same edited) hsaid⟩

/-- The extended grammar, and keywords of a mixed color and with a bit that no effect has. -/
def reddish : Config where
  grammar := ⟨.extended⟩
  output := initial.output
  theme := { Theme.initial with keyword := ⟨.rgb 200 0 16, .default, ⟨0x8001⟩⟩ }

/-- What a file may say of the style: nothing of its background, but something that no one knows. -/
def reddishKeyword : Json :=
  .object [("weight", .ofNat 7), ("fg", (Color.rgb 200 0 16).toJson),
    ("flags", .string "BOLD | 0x8000")]

/-- What a file may say of the settings: nothing of the output and of the other styles. -/
def reddishFile : Json :=
  .object [("grammar", reddish.grammar.toJson), ("theme", .object [("keyword", reddishKeyword)]),
    ("version", .null)]

theorem edits_reddishFile : Edits reddish.toJson reddishFile := by
  have hkeyword : Style.Edits reddish.theme.keyword.toJson reddishKeyword :=
    .put_in (by decide) (.leave_out (.tail _ (.head _)) (.keep (.mk (.head _) rfl)
      (.keep (.mk (.tail _ (.tail _ (.head _))) rfl) editsRecord_nil)))
  have htheme : Theme.Edits reddish.theme.toJson (.object [("keyword", reddishKeyword)]) :=
    .leave_out (.tail _ (.tail _ (.tail _ (.head _)))) (.keep
      (.mk (.tail _ (.tail _ (.head _))) hkeyword) (.leave_out (.tail _ (.head _))
        (.leave_out (.head _) editsRecord_nil)))
  exact .keep (.mk (.head _) reddish.grammar.edits_self) (.leave_out (.tail _ (.head _))
    (.keep (.mk (.tail _ (.tail _ (.head _))) htheme) (.put_in (by decide) editsRecord_nil)))

theorem isTextual_reddishFile : reddishFile.IsTextual 5 := by
  have hkeyword : reddishKeyword.IsTextual 3 :=
    .object (List.forall_mem_cons.mpr ⟨.byte _ (by decide), List.forall_mem_cons.mpr
      ⟨(Color.rgb 200 0 16).isTextual_toJson, List.forall_mem_singleton.mpr (.string _ _)⟩⟩)
  exact .object (List.forall_mem_cons.mpr ⟨reddish.grammar.isTextual_toJson,
    List.forall_mem_cons.mpr ⟨.object (List.forall_mem_singleton.mpr hkeyword),
      List.forall_mem_singleton.mpr (.null _)⟩⟩)

/-- The text of the file gives the settings. -/
theorem decoder_of_edits_reddish :
    Edits reddish.toJson reddishFile ∧
      reddishFile.compact = "\x7b\"grammar\":\x7b\"preset\":\"extended\"\x7d," ++
        "\"theme\":\x7b\"keyword\":\x7b\"weight\":7,\"fg\":\x7b\"Rgb\":[200,0,16]\x7d," ++
          "\"flags\":\"BOLD | 0x8000\"\x7d\x7d,\"version\":null\x7d" ∧
      decoder.ofText reddishFile.compact = .ok reddish := by
  obtain ⟨-, -, -, hedited⟩ := decoder_of_edits reddish
  exact ⟨edits_reddishFile, by decide +kernel, (hedited _ edits_reddishFile).2 _
    (Json.spelledBy_compact isTextual_reddishFile).saidBy⟩

end Config

end CodeTint
