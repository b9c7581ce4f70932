import CodeTint.Command.Run

/-!
# The grammar of the command line

Arguments are read in groups (`Group`): an option and its value, the option `--dump-grammar` with or
without a shape, or the input. They fall apart into groups in one way at most (`SplitsInto.unique`).
Reading them succeeds if they do and one group at most is the input (`parseFrom_of_splitsInto`), and
only then (`exists_splitsInto_of_parseFrom`). The groups set what they say one after another, so
that the last one of a kind decides (`foldl_set_eq`).
-/

namespace CodeTint

/-! ## Names of values -/

theorem OutputFormat.ofName_eq_ok_iff {name : String} {format : OutputFormat} :
    ofName name = .ok format ↔ name = format.name := by
  constructor
  · intro h
    unfold ofName at h
    split at h <;> cases h <;> rfl
  · rintro rfl
    cases format <;> rfl

theorem Preset.ofName_eq_ok_iff {name : String} {preset : Preset} :
    ofName name = .ok preset ↔ name = preset.name := by
  constructor
  · intro h
    unfold ofName at h
    split at h <;> cases h <;> rfl
  · rintro rfl
    cases preset <;> rfl

theorem HostShape.ofName_eq_ok_iff {name : String} {shape : HostShape} :
    ofName name = .ok shape ↔ name = shape.name := by
  constructor
  · intro h
    unfold ofName at h
    split at h <;> cases h <;> rfl
  · rintro rfl
    cases shape <;> rfl

theorem readName_bind_eq_ok_iff {α β : Type} {ofName : String → Except String α} {name : String}
    {next : α → Except UsageError β} {result : β} :
    (readName ofName name >>= next) = .ok result ↔
      ∃ value, ofName name = .ok value ∧ next value = .ok result := by
  unfold readName
  cases ofName name with
  | ok value => exact ⟨fun h => ⟨value, rfl, h⟩, by rintro ⟨_, ⟨⟩, h⟩; exact h⟩
  | error message => exact ⟨by rintro ⟨⟩, by rintro ⟨_, ⟨⟩, -⟩⟩

attribute [ext] Arguments

namespace Arguments

/-! ## Groups of arguments -/

/-- Arguments that are read together. -/
inductive Group where
  | config (path : String)
  | format (value : OutputFormat)
  | preset (value : Preset)
  | dumpGrammar (shape : Option HostShape)
  | input (argument : String)
deriving Repr, DecidableEq

namespace Group

def arguments : Group → List String
  | config path => ["--config", path]
  | format value => ["--format", value.name]
  | preset value => ["--preset", value.name]
  | dumpGrammar none => ["--dump-grammar"]
  | dumpGrammar (some shape) => ["--dump-grammar", shape.name]
  | input argument => [argument]

def options : List String :=
  ["--config", "--format", "--preset", "--dump-grammar", "-h", "--help"]

/-- Whether the group can stand before the given arguments. An argument without a dash would be
taken for the shape that is missing, and the input must not look like an option. -/
def Precedes (behind : List String) : Group → Prop
  | dumpGrammar none => ∀ next ∈ behind.head?, beginsWithDash next
  | input argument => argument = "-" ∨ ¬beginsWithDash argument
  | _ => True

def config? : Group → Option String
  | config path => some path
  | _ => none

def format? : Group → Option OutputFormat
  | format value => some value
  | _ => none

def preset? : Group → Option Preset
  | preset value => some value
  | _ => none

def isDumpGrammar : Group → Bool
  | dumpGrammar _ => true
  | _ => false

def shape? : Group → Option HostShape
  | dumpGrammar shape => shape
  | _ => none

def input? : Group → Option String
  | input argument => some argument
  | _ => none

theorem eq_input_of_input?_eq_some {group : Group} {argument : String}
    (h : group.input? = some argument) : group = input argument := by
  unfold input? at h
  split at h <;> cases h
  rfl

end Group

/-- The arguments are those of the groups, one after another. -/
inductive SplitsInto : List String → List Group → Prop
  | nil : SplitsInto [] []
  | cons (group : Group) {behind : List String} {groups : List Group}
      (precedes : group.Precedes behind) (rest : SplitsInto behind groups) :
      SplitsInto (group.arguments ++ behind) (group :: groups)

/-- What is set when the group has been read. -/
def set (parsed : Arguments) : Group → Arguments
  | .config path => { parsed with config := some path }
  | .format value => { parsed with format := some value }
  | .preset value => { parsed with preset := some value }
  | .dumpGrammar shape =>
    { parsed with dumpGrammar := true, dumpShape := shape.or parsed.dumpShape }
  | .input argument =>
    { parsed with input := if argument = "-" then parsed.input else some argument }

/-! ## Splitting in one way -/

variable {parsed result : Arguments} {inputGiven : Bool} {arguments behind : List String}
variable {group : Group} {groups : List Group}

theorem Group.not_mem_options {argument : String} (h : (input argument).Precedes behind) :
    argument ∉ options := by
  have hoptions : ∀ option ∈ options, ¬(option = "-" ∨ ¬beginsWithDash option) := by decide
  exact fun hmem => hoptions argument hmem h

/-- The group that the arguments begin with. -/
def Group.first? : List String → Option Group
  | "--config" :: path :: _ => some (.config path)
  | "--format" :: name :: _ => (OutputFormat.ofName name).toOption.map .format
  | "--preset" :: name :: _ => (Preset.ofName name).toOption.map .preset
  | ["--dump-grammar"] => some (.dumpGrammar none)
  | "--dump-grammar" :: next :: _ =>
    if beginsWithDash next then some (.dumpGrammar none)
    else (HostShape.ofName next).toOption.map fun shape => .dumpGrammar (some shape)
  | argument :: _ => some (.input argument)
  | [] => none

theorem Group.first?_arguments_append (h : group.Precedes behind) :
    first? (group.arguments ++ behind) = some group := by
  cases group with
  | config path => rfl
  | format value => cases value <;> rfl
  | preset value => cases value <;> rfl
  | dumpGrammar shape =>
      cases shape with
      | some shape => cases shape <;> rfl
      | none =>
          cases behind with
          | nil => rfl
          | cons next behind => exact if_pos (h next rfl)
  | input argument =>
      have hargument := not_mem_options h
      show first? (argument :: behind) = _
      unfold first?
      split <;> simp_all [options]

theorem SplitsInto.unique {groups' : List Group} (h : SplitsInto arguments groups)
    (h' : SplitsInto arguments groups') : groups = groups' := by
  induction h generalizing groups' with
  | nil =>
      generalize heq : ([] : List String) = arguments at h'
      cases h' with
      | nil => rfl
      | cons group precedes rest =>
          have hfirst := Group.first?_arguments_append precedes
          rw [← heq] at hfirst
          cases hfirst
  | @cons group behind groups precedes rest ih =>
      have hfirst := Group.first?_arguments_append precedes
      generalize heq : group.arguments ++ behind = arguments at h'
      cases h' with
      | nil =>
          rw [heq] at hfirst
          cases hfirst
      | cons group' precedes' rest' =>
          rw [heq, Group.first?_arguments_append precedes'] at hfirst
          obtain rfl := Option.some.inj hfirst
          obtain rfl := List.append_cancel_left heq
          rw [ih rest']

/-! ## Reading groups -/

theorem parseFrom_option (h : group.Precedes behind) (hinput : group.input? = none) :
    parseFrom parsed inputGiven (group.arguments ++ behind) =
      parseFrom (parsed.set group) inputGiven behind := by
  cases group with
  | config path => rfl
  | format value => cases value <;> rfl
  | preset value => cases value <;> rfl
  | dumpGrammar shape =>
      cases shape with
      | some shape => cases shape <;> rfl
      | none =>
          cases behind with
          | nil => rfl
          | cons next behind => exact if_pos (h next rfl)
  | input argument => cases hinput

theorem beginsWithDash_and_ne_eq_false_iff {argument : String} :
    (beginsWithDash argument && decide (argument ≠ "-")) = false ↔
      argument = "-" ∨ ¬beginsWithDash argument := by
  rw [Bool.and_eq_false_iff, or_comm, decide_eq_false_iff_not, Decidable.not_not, Bool.not_eq_true]

theorem parseFrom_input {argument : String} (h : (Group.input argument).Precedes behind) :
    parseFrom parsed false (argument :: behind) =
      parseFrom (parsed.set (.input argument)) true behind := by
  have hoption := Group.not_mem_options h
  have hdash := beginsWithDash_and_ne_eq_false_iff.mpr h
  simp only [Group.options, List.mem_cons, List.not_mem_nil, or_false, not_or] at hoption
  rw [parseFrom.eq_def]
  simp only [hoption, hdash, decide_false, Bool.or_false, Bool.false_eq_true, if_false]
  rfl

/-- Groups are read one after another. -/
theorem parseFrom_of_splitsInto (h : SplitsInto arguments groups)
    (hinputs : inputGiven.toNat + (groups.filterMap Group.input?).length ≤ 1) :
    parseFrom parsed inputGiven arguments = .ok (.run (groups.foldl set parsed)) := by
  induction h generalizing parsed inputGiven with
  | nil => rfl
  | cons group precedes rest ih =>
      rw [List.filterMap_cons] at hinputs
      cases hinput : group.input? with
      | none =>
          rw [hinput] at hinputs
          exact (parseFrom_option precedes hinput).trans (ih hinputs)
      | some argument =>
          obtain rfl := Group.eq_input_of_input?_eq_some hinput
          rw [hinput, List.length_cons] at hinputs
          cases inputGiven with
          | true =>
              rw [Bool.toNat_true] at hinputs
              omega
          | false =>
              rw [Bool.toNat_false] at hinputs
              exact (parseFrom_input precedes).trans (ih (by rw [Bool.toNat_true]; omega))

/-- What has been read successfully are groups. -/
theorem exists_splitsInto_of_parseFrom
    (h : parseFrom parsed inputGiven arguments = .ok (.run result)) :
    ∃ groups, SplitsInto arguments groups ∧
      inputGiven.toNat + (groups.filterMap Group.input?).length ≤ 1 ∧
      groups.foldl set parsed = result := by
  -- Each case reads one group; those that end in an error or ask for help have no result.
  fun_induction parseFrom parsed inputGiven arguments with
  | case1 parsed inputGiven =>
      cases h
      exact ⟨[], .nil, Bool.toNat_le inputGiven, rfl⟩
  | case2 => cases h
  | case3 parsed inputGiven path rest ih =>
      obtain ⟨groups, hsplit, hinputs, hresult⟩ := ih h
      exact ⟨.config path :: groups, .cons (.config path) trivial hsplit, hinputs, hresult⟩
  | case4 => cases h
  | case5 parsed inputGiven name rest _ ih =>
      obtain ⟨format, hname, hrest⟩ := readName_bind_eq_ok_iff.mp h
      obtain rfl := OutputFormat.ofName_eq_ok_iff.mp hname
      obtain ⟨groups, hsplit, hinputs, hresult⟩ := ih format hrest
      exact ⟨.format format :: groups, .cons (.format format) trivial hsplit, hinputs, hresult⟩
  | case6 => cases h
  | case7 parsed inputGiven name rest _ _ ih =>
      obtain ⟨preset, hname, hrest⟩ := readName_bind_eq_ok_iff.mp h
      obtain rfl := Preset.ofName_eq_ok_iff.mp hname
      obtain ⟨groups, hsplit, hinputs, hresult⟩ := ih preset hrest
      exact ⟨.preset preset :: groups, .cons (.preset preset) trivial hsplit, hinputs, hresult⟩
  | case8 parsed inputGiven =>
      cases h
      exact ⟨[.dumpGrammar none], .cons (.dumpGrammar none) (by rintro _ ⟨⟩) .nil,
        Bool.toNat_le inputGiven, rfl⟩
  | case9 parsed inputGiven next rest hdash _ _ _ ih =>
      obtain ⟨groups, hsplit, hinputs, hresult⟩ := ih h
      have hnext : (Group.dumpGrammar none).Precedes (next :: rest) := by
        rintro _ ⟨⟩
        exact hdash
      exact ⟨.dumpGrammar none :: groups, .cons (.dumpGrammar none) hnext hsplit, hinputs, hresult⟩
  | case10 parsed inputGiven name rest _ _ _ _ ih =>
      obtain ⟨shape, hname, hrest⟩ := readName_bind_eq_ok_iff.mp h
      obtain rfl := HostShape.ofName_eq_ok_iff.mp hname
      obtain ⟨groups, hsplit, hinputs, hresult⟩ := ih shape hrest
      exact ⟨.dumpGrammar (some shape) :: groups, .cons (.dumpGrammar (some shape)) trivial hsplit,
        hinputs, hresult⟩
  | case11 => cases h
  | case12 => cases h
  | case13 => cases h
  | case14 parsed inputGiven argument rest _ _ _ _ _ hdash hgiven input ih =>
      obtain ⟨groups, hsplit, hinputs, hresult⟩ := ih h
      have hargument : (Group.input argument).Precedes rest :=
        beginsWithDash_and_ne_eq_false_iff.mp (Bool.eq_false_iff.mpr hdash)
      have hcount : inputGiven.toNat + ((groups.filterMap Group.input?).length + 1) ≤ 1 := by
        rw [Bool.toNat_true] at hinputs
        rw [Bool.not_eq_true] at hgiven
        rw [hgiven, Bool.toNat_false]
        omega
      exact ⟨.input argument :: groups, .cons (.input argument) hargument hsplit, hcount, hresult⟩

/-! ## What the groups set -/

/-- What the last group says that says something of the kind. -/
def lastOf? {α : Type} (value? : Group → Option α) (groups : List Group) : Option α :=
  (groups.filterMap value?).getLast?

/-- What groups set of which one at most is the input. -/
def ofGroups (groups : List Group) : Arguments where
  config := lastOf? Group.config? groups
  format := lastOf? Group.format? groups
  preset := lastOf? Group.preset? groups
  dumpGrammar := groups.any Group.isDumpGrammar
  dumpShape := lastOf? Group.shape? groups
  input := (groups.filterMap Group.input?).head?.filter (· ≠ "-")

/-- The last group that sets a field decides about it. -/
theorem foldl_set_eq {α : Type} {field : Arguments → Option α} {value? : Group → Option α}
    (hset : ∀ parsed group, field (set parsed group) = (value? group).or (field parsed)) :
    field (groups.foldl set parsed) = (lastOf? value? groups).or (field parsed) := by
  induction groups generalizing parsed with
  | nil => rfl
  | cons group groups ih =>
      rw [List.foldl_cons, ih, hset, lastOf?, lastOf?, List.filterMap_cons]
      cases value? group with
      | none => rfl
      | some value =>
          cases hlast : (groups.filterMap value?).getLast? <;> simp [List.getLast?_cons, hlast]

theorem foldl_set_empty {α : Type} {field : Arguments → Option α} {value? : Group → Option α}
    (hset : ∀ parsed group, field (set parsed group) = (value? group).or (field parsed))
    (hempty : field empty = none) : field (groups.foldl set empty) = lastOf? value? groups := by
  rw [foldl_set_eq hset, hempty, Option.or_none]

theorem dumpGrammar_foldl_set :
    (groups.foldl set parsed).dumpGrammar =
      (parsed.dumpGrammar || groups.any Group.isDumpGrammar) := by
  induction groups generalizing parsed with
  | nil => exact (Bool.or_false _).symm
  | cons group groups ih =>
      rw [List.foldl_cons, ih, List.any_cons]
      cases group <;> simp [set, Group.isDumpGrammar]

theorem input_foldl_set (h : (groups.filterMap Group.input?).length ≤ 1) :
    (groups.foldl set empty).input = (groups.filterMap Group.input?).head?.filter (· ≠ "-") := by
  have hset : ∀ (parsed : Arguments) (group : Group),
      (set parsed group).input = (group.input?.filter (· ≠ "-")).or parsed.input := by
    intro parsed group
    cases group with
    | input argument =>
        by_cases hdash : argument = "-" <;> simp [set, Group.input?, Option.filter, hdash]
    | _ => rfl
  rw [foldl_set_empty hset rfl, lastOf?, ← List.filter_filterMap]
  cases hinputs : groups.filterMap Group.input? with
  | nil => rfl
  | cons argument others =>
      rw [hinputs, List.length_cons] at h
      obtain rfl : others = [] := List.eq_nil_of_length_eq_zero (by omega)
      by_cases hdash : argument = "-" <;> simp [Option.filter, hdash]

theorem foldl_set_eq_ofGroups (h : (groups.filterMap Group.input?).length ≤ 1) :
    groups.foldl set empty = ofGroups groups := by
  have hconfig : (groups.foldl set empty).config = lastOf? Group.config? groups :=
    foldl_set_empty (fun parsed group => by cases group <;> rfl) rfl
  have hformat : (groups.foldl set empty).format = lastOf? Group.format? groups :=
    foldl_set_empty (fun parsed group => by cases group <;> rfl) rfl
  have hpreset : (groups.foldl set empty).preset = lastOf? Group.preset? groups :=
    foldl_set_empty (fun parsed group => by cases group <;> rfl) rfl
  have hshape : (groups.foldl set empty).dumpShape = lastOf? Group.shape? groups :=
    foldl_set_empty (fun parsed group => by cases group <;> rfl) rfl
  exact Arguments.ext hconfig hformat hpreset dumpGrammar_foldl_set hshape (input_foldl_set h)

/-- Reading the arguments sets something just if they fall apart into groups of which one at most is
the input, and it sets what these groups say. They fall apart in one way only. Where help is asked
for, they do not. -/
theorem parse_eq_run_iff_splitsInto (arguments : List String) :
    ((∃ parsed, parse arguments = .ok (.run parsed)) ↔
      ∃ groups, SplitsInto arguments groups ∧ (groups.filterMap Group.input?).length ≤ 1) ∧
    (∀ parsed, parse arguments = .ok (.run parsed) ↔
      ∃ groups, SplitsInto arguments groups ∧ (groups.filterMap Group.input?).length ≤ 1 ∧
        parsed = ofGroups groups) ∧
    ∀ groups groups', SplitsInto arguments groups → SplitsInto arguments groups' →
      groups = groups' := by
  have hread : ∀ parsed, parse arguments = .ok (.run parsed) ↔
      ∃ groups, SplitsInto arguments groups ∧ (groups.filterMap Group.input?).length ≤ 1 ∧
        parsed = ofGroups groups := by
    intro parsed
    constructor
    · intro h
      obtain ⟨groups, hsplit, hinputs, hresult⟩ := exists_splitsInto_of_parseFrom h
      rw [Bool.toNat_false, Nat.zero_add] at hinputs
      exact ⟨groups, hsplit, hinputs, hresult.symm.trans (foldl_set_eq_ofGroups hinputs)⟩
    · rintro ⟨groups, hsplit, hinputs, rfl⟩
      rw [← foldl_set_eq_ofGroups hinputs]
      exact parseFrom_of_splitsInto hsplit (by rwa [Bool.toNat_false, Nat.zero_add])
  refine ⟨⟨?_, ?_⟩, hread, fun groups groups' h h' => h.unique h'⟩
  · rintro ⟨parsed, h⟩
    obtain ⟨groups, hsplit, hinputs, -⟩ := (hread parsed).mp h
    exact ⟨groups, hsplit, hinputs⟩
  · rintro ⟨groups, hsplit, hinputs⟩
    exact ⟨_, (hread _).mpr ⟨groups, hsplit, hinputs, rfl⟩⟩

/-- Of options that are given twice the last one counts, but the shape stays when it is left out.
What looks like an option may be the value of one. -/
theorem parse_eq_run_of_repeated_options :
    let arguments := ["--dump-grammar", "legacy", "--config", "-h", "--format", "html",
      "--dump-grammar", "-", "--format", "tokens"]
    ∃ groups, SplitsInto arguments groups ∧
      ofGroups groups = ⟨some "-h", some .tokens, none, true, some .legacy, none⟩ ∧
      ∀ groups', SplitsInto arguments groups' → groups' = groups := by
  intro arguments
  obtain ⟨-, hread, hunique⟩ := parse_eq_run_iff_splitsInto arguments
  obtain ⟨groups, hsplit, -, hgroups⟩ :=
    (hread ⟨some "-h", some .tokens, none, true, some .legacy, none⟩).mp (by rfl)
  exact ⟨groups, hsplit, hgroups.symm, fun groups' h => hunique groups' groups h hsplit⟩

end Arguments

end CodeTint
