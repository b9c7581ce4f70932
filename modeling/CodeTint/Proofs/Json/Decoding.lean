import Mathlib.Data.List.Nodup
import Mathlib.Data.List.Pairwise
import CodeTint.Proofs.Json.Texts

/-!
# Reading back what was written

`Decoder.Decodes` says that a decoder makes a thing of a value, in whatever order the members of the
value are written, and whether it is read from a text or from the value itself
(`Decoder.Decodes.ofJson`, `Decoder.Decodes.ofText`). Each way to put decoders together has a lemma
that says of which values the new decoder makes what.

For a record (`Decoder.decodes_record`) each field that is given changes the record in its own way,
so that the order does not count because these changes do not disturb each other.
-/

namespace CodeTint

/-! ## Room for nesting -/

/-- Arrays and objects may be within each other up to the given depth. -/
def Nesting.Allows (nesting : Nesting) (depth : Nat) : Prop :=
  ∀ n ∈ nesting, depth < n

theorem Nesting.Allows.enter {nesting : Nesting} {depth : Nat} (h : nesting.Allows (depth + 1)) :
    ∃ inner : Nesting, nesting.enter = .ok inner ∧ inner.Allows depth := by
  cases nesting with
  | none => exact ⟨none, rfl, nofun⟩
  | some n =>
      have hn := h n rfl
      obtain ⟨n, rfl⟩ : ∃ k, n = k + 2 := ⟨n - 2, by omega⟩
      refine ⟨some (n + 1), rfl, fun k hk => ?_⟩
      obtain rfl := Option.some.inj hk
      omega

theorem Reading.enter_of_allows {reading : Reading} {depth : Nat}
    (h : reading.nesting.Allows (depth + 1)) :
    ∃ inner, reading.enter = .ok inner ∧ inner.nesting.Allows depth := by
  obtain ⟨nesting, henter, hallows⟩ := h.enter
  exact ⟨{ reading with nesting }, by rw [enter, henter]; rfl, hallows⟩

theorem settle_ofList {nesting : Nesting} {items : List Json}
    (h : ∀ item ∈ items, (Draft.ofJson item).settle nesting = .ok ()) :
    (DraftItems.ofList items).settle nesting = .ok () := by
  induction items with
  | nil => rfl
  | cons item items ih =>
      obtain ⟨hitem, hitems⟩ := List.forall_mem_cons.mp h
      rw [DraftItems.ofList, DraftItems.settle, hitem]
      exact ih hitems

theorem settle_ofList_members {nesting : Nesting} {members : List (String × Json)}
    (h : ∀ member ∈ members, (Draft.ofJson member.2).settle nesting = .ok ()) :
    (DraftMembers.ofList members).settle nesting = .ok () := by
  induction members with
  | nil => rfl
  | cons member members ih =>
      obtain ⟨hmember, hmembers⟩ := List.forall_mem_cons.mp h
      rw [DraftMembers.ofList, DraftMembers.settle, hmember]
      exact ih hmembers

theorem settle_ofJson {depth : Nat} {value : Json} (h : value.IsTextual depth) :
    ∀ {nesting : Nesting}, nesting.Allows depth →
      (Draft.ofJson value).settle nesting = .ok () := by
  induction h with
  | null => exact fun _ => rfl
  | bool => exact fun _ => rfl
  | byte => exact fun _ => rfl
  | string => exact fun _ => rfl
  | array _ ih =>
      intro nesting hallows
      obtain ⟨inner, henter, hinner⟩ := hallows.enter
      rw [Draft.ofJson, Draft.settle, henter]
      exact settle_ofList fun item hitem => ih item hitem hinner
  | object _ ih =>
      intro nesting hallows
      obtain ⟨inner, henter, hinner⟩ := hallows.enter
      rw [Draft.ofJson, Draft.settle, henter]
      exact settle_ofList_members fun member hmember => ih member hmember hinner

mutual

theorem skip_ofJson : ∀ value : Json, (Draft.ofJson value).skip = .ok ()
  | .null | .bool _ | .number _ | .string _ => rfl
  | .array items => skip_ofList items
  | .object members => skip_ofList_members members

theorem skip_ofList : ∀ items : List Json, (DraftItems.ofList items).skip = .ok ()
  | [] => rfl
  | item :: items => by
      rw [DraftItems.ofList, DraftItems.skip, skip_ofJson item]
      exact skip_ofList items

theorem skip_ofList_members :
    ∀ members : List (String × Json), (DraftMembers.ofList members).skip = .ok ()
  | [] => rfl
  | (_, value) :: members => by
      rw [DraftMembers.ofList, DraftMembers.skip, skip_ofJson value]
      exact skip_ofList_members members

end

namespace Decoder

variable {α β : Type} {decoder : Decoder α} {depth : Nat} {value : Json} {a : α}

/-- The decoder makes `a` of the value, in whatever order the members of its objects are written,
where it may nest up to the given depth. -/
def Decodes (decoder : Decoder α) (depth : Nat) (value : Json) (a : α) : Prop :=
  ∀ reading written, reading.nesting.Allows depth → value.Reorders written →
    decoder reading (Draft.ofJson written) = .ok a

/-! ## Values and texts -/

theorem Decodes.ofJson (h : decoder.Decodes depth value a) {written : Json}
    (hwritten : value.Reorders written) : decoder.ofJson written = .ok a := by
  rw [Decoder.ofJson, h ⟨none, false⟩ written nofun hwritten]

/-- What is decoded from a value is decoded from any text that says it. -/
theorem Decodes.ofText_of_saidBy (h : decoder.Decodes depth value a) (hdepth : depth < 128)
    {written : Json} (hwritten : value.Reorders written) {text : String}
    (hsaid : written.SaidBy text) : decoder.ofText text = .ok a := by
  have hallows : textNesting.Allows depth := by
    intro n hn
    obtain rfl := Option.some.inj hn
    exact hdepth
  rw [Decoder.ofText, show DraftText.ofString text = _ from hsaid]
  simp only [h ⟨textNesting, false⟩ written hallows hwritten]
  rfl

theorem Decodes.ofText (h : decoder.Decodes depth value a) (hdepth : depth < 128)
    {written : Json} (hwritten : value.Reorders written) {text : String}
    (hspelled : written.SpelledBy text.toList) : decoder.ofText text = .ok a :=
  h.ofText_of_saidBy hdepth hwritten hspelled.saidBy

/-- One thing at most is decoded from a value. -/
theorem Decodes.unique {a' : α} (h : decoder.Decodes depth value a)
    (h' : decoder.Decodes depth value a') : a = a' :=
  Except.ok.inj ((h ⟨none, false⟩ value nofun (.same value)).symm.trans
    (h' ⟨none, false⟩ value nofun (.same value)))

/-! ## Single values -/

theorem decodes_string (depth : Nat) (text : String) :
    string.Decodes depth (.string text) text := by
  intro reading written _ hwritten
  obtain rfl := Json.reorders_string_iff.mp hwritten
  rfl

theorem decodes_byte (depth : Nat) (n : UInt8) : byte.Decodes depth (.ofNat n.toNat) n := by
  intro reading written _ hwritten
  have hn : (n.toNat : Int) < 256 := by exact_mod_cast n.toNat_lt
  obtain rfl : written = .ofNat n.toNat := by
    cases hwritten
    rfl
  simp [Json.ofNat, Draft.ofJson, byte, hn]

theorem Decodes.filterMap {convert : α → Option β} {b : β} (h : decoder.Decodes depth value a)
    (hconvert : convert a = some b) : (decoder.filterMap convert).Decodes depth value b := by
  intro reading written hallows hwritten
  simp only [Decoder.filterMap, h reading written hallows hwritten, bind, Except.bind, hconvert]

theorem decodes_choice {variants : List (Variant α)} {name : String} {names : List String}
    (h : variants.find? (·.hasName name) = some (.plain names a)) :
    (choice variants).Decodes depth (.string name) a := by
  intro reading written _ hwritten
  obtain rfl := Json.reorders_string_iff.mp hwritten
  show choice variants reading (.string name) = _
  simp only [choice, h]
  rfl

/-- A case that holds something is an object, with the name of the case before what it holds. -/
theorem Decodes.choice {variants : List (Variant α)} {name own : String}
    (h : decoder.Decodes depth value a)
    (hfind : variants.find? (·.hasName name) = some (.holding own decoder)) :
    (choice variants).Decodes (depth + 1) (.ofMembers [(name, value)]) a := by
  intro reading written hallows hwritten
  have hnames : ([(name, value)].map (·.1)).Nodup := List.nodup_singleton name
  obtain ⟨written, rfl, others, hothers, hperm⟩ :=
    (Json.reorders_ofMembers_iff hnames).mp hwritten
  obtain ⟨inner, henter, hinner⟩ := Reading.enter_of_allows hallows
  obtain ⟨member, _, hmember, hnil, rfl⟩ := List.forall₂_cons_left_iff.mp hothers
  obtain rfl := List.forall₂_nil_left_iff.mp hnil
  obtain rfl := List.singleton_perm.mp hperm
  obtain ⟨_, hreorders⟩ := hmember
  rw [Draft.ofJson, Decoder.choice, henter]
  simp only [bind, Except.bind, DraftMembers.ofList, hfind, Variant.ofContent,
    h inner _ hinner hreorders]
  rfl

theorem Decodes.map (h : decoder.Decodes depth value a) (f : α → β) :
    Decodes (fun reading draft => f <$> decoder reading draft) depth value (f a) := by
  intro reading written hallows hwritten
  simp only [h reading written hallows hwritten]
  rfl

theorem Decodes.option (h : decoder.Decodes depth value a) (hvalue : value ≠ .null) :
    (option decoder).Decodes depth value (some a) := by
  intro reading written hallows hwritten
  have hread := h reading written hallows hwritten
  cases written with
  | null =>
      cases hwritten
      exact absurd rfl hvalue
  | _ =>
      show some <$> decoder reading _ = _
      rw [hread]
      rfl

theorem decodes_option_null (decoder : Decoder α) (depth : Nat) :
    (Decoder.option decoder).Decodes depth .null none := by
  intro reading written _ hwritten
  cases hwritten
  rfl

/-! ## Lists -/

theorem items_ofList {toJson : α → Json} {reading : Reading}
    (hallows : reading.nesting.Allows depth) {as : List α}
    (h : ∀ a ∈ as, decoder.Decodes depth (toJson a) a) {written : List Json}
    (hwritten : List.Forall₂ Json.Reorders (as.map toJson) written) :
    items decoder reading (DraftItems.ofList written) = .ok as := by
  induction as generalizing written with
  | nil =>
      cases hwritten
      rfl
  | cons a as ih =>
      obtain ⟨ha, has⟩ := List.forall_mem_cons.mp h
      cases hwritten with
      | cons hitem hitems =>
          rw [DraftItems.ofList, items, ha reading _ hallows hitem, ih has hitems]
          rfl

theorem decodes_list {toJson : α → Json} {as : List α}
    (h : ∀ a ∈ as, decoder.Decodes depth (toJson a) a) :
    (list decoder).Decodes (depth + 1) (.array (as.map toJson)) as := by
  intro reading written hallows hwritten
  obtain ⟨others, rfl, hothers⟩ := hwritten.exists_array
  obtain ⟨inner, henter, hinner⟩ := Reading.enter_of_allows hallows
  rw [Draft.ofJson, list, henter]
  exact items_ofList hinner h hothers

theorem decodes_strings (depth : Nat) (texts : List String) :
    (list string).Decodes (depth + 1) (.ofStrings texts) texts :=
  decodes_list fun text _ => decodes_string depth text

/-! ## Records -/

/-- What a member of an object does to a record. -/
structure Given (α : Type) where
  name : String
  value : Json
  change : α → α

/-- What is given for a record, in the order of its fields. A field may be left out if it is not
required. -/
inductive Fills (depth : Nat) : List (Field α) → List (Given α) → Prop
  | nil : Fills depth [] []
  | given {β : Type} {decoder : Decoder β} {value : Json} {b : β} {name : String} {required : Bool}
      {set : β → α → α} {fields : List (Field α)} {givens : List (Given α)}
      (decodes : decoder.Decodes depth value b) (others : Fills depth fields givens) :
      Fills depth (field name required decoder set :: fields) (⟨name, value, set b⟩ :: givens)
  | left_out {field : Field α} {fields : List (Field α)} {givens : List (Given α)}
      (required : field.required = false) (others : Fills depth fields givens) :
      Fills depth (field :: fields) givens

/-- Of two things given it does not matter which changes the record first. -/
def Given.Commutes (given other : Given α) : Prop :=
  ∀ a, other.change (given.change a) = given.change (other.change a)

/-- What is given is given for a field of its name, which reads it. -/
def Given.IsRead (fields : List (Field α)) (depth : Nat) (given : Given α) : Prop :=
  ∃ field ∈ fields, field.name = given.name ∧
    ∀ reading written a, reading.nesting.Allows depth → given.value.Reorders written →
      field.read reading (Draft.ofJson written) a = .ok (given.change a)

def Given.member (given : Given α) : String × Json :=
  (given.name, given.value)

/-- The record with everything that is given. -/
def fill (givens : List (Given α)) (start : α) : α :=
  givens.foldl (fun a given => given.change a) start

section Fills

variable {fields : List (Field α)} {givens givens' : List (Given α)}

theorem Fills.sublist (h : Fills depth fields givens) :
    (givens.map (·.name)).Sublist (fields.map (·.name)) := by
  induction h with
  | nil => exact .slnil
  | given _ _ ih => exact ih.cons_cons _
  | left_out _ _ ih => exact ih.cons _

theorem Given.IsRead.cons {given : Given α} (h : given.IsRead fields depth) (field : Field α) :
    given.IsRead (field :: fields) depth := by
  obtain ⟨own, hown, hread⟩ := h
  exact ⟨own, List.mem_cons_of_mem _ hown, hread⟩

theorem Fills.isRead (h : Fills depth fields givens) :
    ∀ given ∈ givens, given.IsRead fields depth := by
  induction h with
  | nil => exact fun _ hgiven => absurd hgiven List.not_mem_nil
  | @given β decoder value b name required set fields givens hdecodes _ ih =>
      refine List.forall_mem_cons.mpr ⟨⟨_, List.mem_cons_self, rfl, ?_⟩, fun given hgiven =>
        (ih given hgiven).cons _⟩
      intro reading written a hallows hwritten
      show (return set (← decoder reading (Draft.ofJson written)) a) = _
      rw [hdecodes reading written hallows hwritten]
      rfl
  | left_out _ _ ih => exact fun given hgiven => (ih given hgiven).cons _

theorem Fills.name_mem_of_required (h : Fills depth fields givens) :
    ∀ field ∈ fields, field.required → field.name ∈ givens.map (·.name) := by
  induction h with
  | nil => exact fun _ hfield => absurd hfield List.not_mem_nil
  | given _ _ ih =>
      exact List.forall_mem_cons.mpr ⟨fun _ => List.mem_cons_self, fun field hfield hrequired =>
        List.mem_cons_of_mem _ (ih field hfield hrequired)⟩
  | left_out hoptional _ ih =>
      exact List.forall_mem_cons.mpr ⟨fun hrequired => absurd hrequired (by simp [hoptional]), ih⟩

theorem find?_name_eq_some (hnames : (fields.map (·.name)).Nodup) {field : Field α}
    (hfield : field ∈ fields) : fields.find? (·.name = field.name) = some field := by
  refine (find?_eq_some_iff_of_unique ?_).mpr ⟨hfield, decide_eq_true rfl⟩
  intro one hone other hother hname hname'
  exact List.inj_on_of_nodup_map hnames hone hother
    ((of_decide_eq_true hname).trans (of_decide_eq_true hname').symm)

section Members

variable {reading : Reading} {before : List String} {start a : α}

theorem fieldsFromMembers_closed
    (h : ∀ field ∈ fields, field.required → field.name ∈ before) :
    fieldsFromMembers reading fields before start .closed = .ok start := by
  have hmissing : (fields.any fun field =>
      field.required && !before.contains field.name) = false := by
    refine List.any_eq_false.mpr fun field hfield hmissing => ?_
    rw [Bool.and_eq_true, Bool.not_eq_true'] at hmissing
    rw [List.contains_iff_mem.mpr (h field hfield hmissing.1)] at hmissing
    cases hmissing.2
  rw [fieldsFromMembers, hmissing]
  rfl

theorem fieldsFromMembers_more {field : Field α} {draft : Draft} {members : DraftMembers}
    (hnames : (fields.map (·.name)).Nodup) (hfield : field ∈ fields)
    (hbefore : field.name ∉ before) (hread : field.read reading draft start = .ok a) :
    fieldsFromMembers reading fields before start (.more (some field.name) draft members) =
      fieldsFromMembers reading fields (field.name :: before) a members := by
  have hcontains : before.contains field.name = false := by simpa using hbefore
  rw [fieldsFromMembers, find?_name_eq_some hnames hfield, hcontains]
  show (field.read reading draft start >>= _) = _
  rw [hread]
  rfl

/-- The members of an object change the record one after the other. -/
theorem fieldsFromMembers_eq_fill (hnames : (fields.map (·.name)).Nodup)
    (hallows : reading.nesting.Allows depth) {written : List (String × Json)}
    (hwritten : List.Forall₂ (fun given => Json.MemberReorders given.member) givens written)
    (hread : ∀ given ∈ givens, given.IsRead fields depth) (hnodup : (givens.map (·.name)).Nodup)
    (hbefore : ∀ given ∈ givens, given.name ∉ before)
    (hrequired : ∀ field ∈ fields, field.required →
      field.name ∈ before ∨ field.name ∈ givens.map (·.name)) :
    fieldsFromMembers reading fields before start (DraftMembers.ofList written) =
      .ok (fill givens start) := by
  induction givens generalizing written before start with
  | nil =>
      cases hwritten
      exact fieldsFromMembers_closed fun field hfield hreq =>
        (hrequired field hfield hreq).resolve_right List.not_mem_nil
  | cons given givens ih =>
      obtain ⟨⟨field, hfield, hname, hown⟩, hread⟩ := List.forall_mem_cons.mp hread
      obtain ⟨hnew, hnodup⟩ := List.nodup_cons.mp hnodup
      obtain ⟨hfresh, hbefore⟩ := List.forall_mem_cons.mp hbefore
      cases hwritten with
      | cons hmember hwritten =>
          obtain ⟨_, hreorders⟩ := hmember
          rw [DraftMembers.ofList, ← hname, fieldsFromMembers_more hnames hfield (hname ▸ hfresh)
            (hown reading _ start hallows hreorders)]
          refine ih hwritten hread hnodup (fun other hother hmem => ?_) fun other hother hreq => ?_
          · rcases List.mem_cons.mp hmem with heq | hmem
            · exact hnew (List.mem_map.mpr ⟨other, hother, heq.trans hname⟩)
            · exact hbefore other hother hmem
          · rcases hrequired other hother hreq with hmem | hmem
            · exact .inl (List.mem_cons_of_mem _ hmem)
            · rcases List.mem_cons.mp hmem with heq | hmem
              · exact .inl (List.mem_cons.mpr (.inl (heq.trans hname.symm)))
              · exact .inr hmem

end Members

/-- Changes that do not disturb each other may be made in any order. -/
theorem fill_perm (hcommute : givens.Pairwise Given.Commutes) (hperm : givens.Perm givens')
    (start : α) : fill givens start = fill givens' start := by
  refine hperm.foldl_eq' (fun given hgiven other hother a => ?_) start
  have hsymm : Std.Symm (Given.Commutes (α := α)) := ⟨fun _ _ h a => (h a).symm⟩
  by_cases heq : given = other
  · rw [heq]
  · exact hcommute.forall hgiven hother heq a

/-- Some field has the name of the member. -/
def knows (fields : List (Field α)) (member : String × Json) : Bool :=
  (fields.find? (·.name = member.1)).isSome

theorem knows_iff {member : String × Json} :
    knows fields member ↔ ∃ field ∈ fields, field.name = member.1 := by
  simp [knows]

/-- Members of names that no field has are passed over. -/
theorem fieldsFromMembers_filter_knows {reading : Reading} (before : List String) (start : α)
    (members : List (String × Json)) :
    fieldsFromMembers reading fields before start
        (DraftMembers.ofList (members.filter (knows fields))) =
      fieldsFromMembers reading fields before start (DraftMembers.ofList members) := by
  induction members generalizing before start with
  | nil => rfl
  | cons member members ih =>
      obtain ⟨name, value⟩ := member
      cases hfind : fields.find? (·.name = name) with
      | none =>
          rw [List.filter_cons_of_neg (by simp [knows, hfind]), ih, DraftMembers.ofList,
            fieldsFromMembers, hfind, skip_ofJson]
          rfl
      | some field =>
          rw [List.filter_cons_of_pos (by simp [knows, hfind]), DraftMembers.ofList,
            DraftMembers.ofList, fieldsFromMembers, fieldsFromMembers, hfind]
          simp only [ih]

/-- A record is read from an object in which everything is given that it requires, in whatever
order, and whatever else is given there. -/
theorem decodes_of_isRead {start : α} {members unknown : List (String × Json)}
    (hread : ∀ given ∈ givens, given.IsRead fields depth)
    (hrequired : ∀ field ∈ fields, field.required → field.name ∈ givens.map (·.name))
    (hnames : (fields.map (·.name)).Nodup) (hgivens : (givens.map (·.name)).Nodup)
    (hcommute : givens.Pairwise Given.Commutes)
    (hunknown : ∀ member ∈ unknown, ∀ field ∈ fields, field.name ≠ member.1)
    (hmembers : members.Perm (givens.map Given.member ++ unknown)) :
    (record fields start).Decodes (depth + 1) (.object members) (fill givens start) := by
  intro reading written hallows hwritten
  obtain ⟨written, rfl, others, hothers, hperm⟩ := hwritten.exists_object
  obtain ⟨inner, henter, hinner⟩ := Reading.enter_of_allows hallows
  -- Without what no field knows, the members in their order are those of the same things given in
  -- another order.
  have hknown : (members.filter (knows fields)).Perm (givens.map Given.member) := by
    have hgiven : (givens.map Given.member).filter (knows fields) = givens.map Given.member := by
      refine List.filter_eq_self.mpr fun member hmember => ?_
      obtain ⟨given, hgiven, rfl⟩ := List.mem_map.mp hmember
      obtain ⟨field, hfield, hname, -⟩ := hread given hgiven
      exact knows_iff.mpr ⟨field, hfield, hname⟩
    have hrest : unknown.filter (knows fields) = [] := by
      refine List.filter_eq_nil_iff.mpr fun member hmember hknows => ?_
      obtain ⟨field, hfield, hname⟩ := knows_iff.mp hknows
      exact hunknown member hmember field hfield hname
    have hperm := hmembers.filter (knows fields)
    rwa [List.filter_append, hgiven, hrest, List.append_nil] at hperm
  have hkept : List.Forall₂ Json.MemberReorders (members.filter (knows fields))
      (others.filter (knows fields)) := by
    refine List.rel_filter (fun member other hmember => ?_) hothers
    show knows fields member ↔ knows fields other
    rw [knows_iff, knows_iff, hmember.name_eq]
  have hcomp : Relation.Comp (List.Forall₂ fun given => Json.MemberReorders given.member)
      List.Perm givens (written.filter (knows fields)) := by
    obtain ⟨others', hothers', hperm'⟩ := List.perm_comp_forall₂ hknown.symm hkept
    exact ⟨others', List.forall₂_map_left_iff.mp hothers',
      hperm'.trans (hperm.filter (knows fields))⟩
  rw [List.forall₂_comp_perm_eq_perm_comp_forall₂] at hcomp
  obtain ⟨givens', hperm', hmembers'⟩ := hcomp
  rw [Draft.ofJson, record, henter, fill_perm hcommute hperm']
  show fieldsFromMembers inner fields [] start (DraftMembers.ofList written) = _
  rw [← fieldsFromMembers_filter_knows]
  refine fieldsFromMembers_eq_fill hnames hinner hmembers'
    (fun given hgiven => hread given (hperm'.mem_iff.mpr hgiven))
    ((hperm'.map _).nodup_iff.mp hgivens) (fun _ _ => List.not_mem_nil)
    (fun field hfield hreq => .inr ?_)
  exact (hperm'.map _).mem_iff.mp (hrequired field hfield hreq)

/-- What is given for the fields of a record may be given in any order. -/
theorem decodes_record {start : α} (h : Fills depth fields givens)
    (hnames : (fields.map (·.name)).Nodup) (hcommute : givens.Pairwise Given.Commutes)
    (hvalue : value = .ofMembers (givens.map Given.member)) (ha : a = fill givens start) :
    (record fields start).Decodes (depth + 1) value a := by
  have hgivens : (givens.map (·.name)).Nodup := h.sublist.nodup hnames
  have hperm : (putMembers (givens.map Given.member)).Perm (givens.map Given.member ++ []) := by
    rw [List.append_nil]
    refine putMembers_perm ?_
    rwa [List.map_map]
  rw [hvalue, ha]
  exact decodes_of_isRead h.isRead h.name_mem_of_required hnames hgivens hcommute
    (fun _ hmember => absurd hmember List.not_mem_nil) hperm

end Fills

/-! ## Tagged records -/

section Tagged

variable {name kind : String} {variants : List (String × Decoder α)} {reading : Reading}
  {found : Decoder α} {front back : List (String × Json)}

theorem findTag_of_found (hname : name ∉ back.map (·.1))
    (hsettle : ∀ member ∈ back, (Draft.ofJson member.2).settle reading.nesting = .ok ()) :
    findTag name variants reading (some found) (DraftMembers.ofList back) =
      .ok (found, DraftMembers.ofList back) := by
  induction back with
  | nil => rfl
  | cons member back ih =>
      obtain ⟨own, value⟩ := member
      obtain ⟨hmember, hback⟩ := List.forall_mem_cons.mp hsettle
      rw [List.map_cons, List.mem_cons, not_or] at hname
      rw [DraftMembers.ofList, findTag, if_neg (Ne.symm hname.1), hmember]
      show (findTag name variants reading (some found) _ >>= _) = _
      rw [ih hname.2 hback]
      rfl

theorem findTag_append (hlookup : variants.lookup kind = some found)
    (hname : name ∉ (front ++ back).map (·.1))
    (hsettle : ∀ member ∈ front ++ back,
      (Draft.ofJson member.2).settle reading.nesting = .ok ()) :
    findTag name variants reading none
        (DraftMembers.ofList (front ++ (name, .string kind) :: back)) =
      .ok (found, DraftMembers.ofList (front ++ back)) := by
  induction front with
  | nil =>
      have htag : tag variants reading (Draft.ofJson (.string kind)) = .ok found := by
        simp only [tag, filterMap, Draft.ofJson, string, bind, Except.bind, hlookup]
      rw [List.nil_append, DraftMembers.ofList, findTag, if_pos rfl, htag]
      exact findTag_of_found hname hsettle
  | cons member front ih =>
      obtain ⟨own, value⟩ := member
      rw [List.cons_append] at hname hsettle
      obtain ⟨hmember, hsettle⟩ := List.forall_mem_cons.mp hsettle
      rw [List.map_cons, List.mem_cons, not_or] at hname
      rw [List.cons_append, DraftMembers.ofList, findTag, if_neg (Ne.symm hname.1), hmember]
      show (findTag name variants reading none _ >>= _) = _
      rw [ih hname.2 hsettle]
      rfl

/-- A tagged record is what the decoder of its kind makes of the other members. -/
theorem decodes_tagged {members : List (String × Json)}
    (hlookup : variants.lookup kind = some decoder)
    (hnames : (((name, Json.string kind) :: members).map (·.1)).Nodup)
    (htextual : ∀ member ∈ members, member.2.IsTextual depth)
    (h : decoder.Decodes (depth + 1) (.ofMembers members) a) :
    (tagged name variants).Decodes (depth + 1) (.ofMembers ((name, .string kind) :: members))
      a := by
  intro reading written hallows hwritten
  obtain ⟨written, rfl, others, hothers, hperm⟩ :=
    (Json.reorders_ofMembers_iff hnames).mp hwritten
  obtain ⟨inner, henter, hinner⟩ := Reading.enter_of_allows hallows
  cases hothers with
  | @cons _ tagMember _ others htag hothers =>
      obtain ⟨_, hkind⟩ := htag
      obtain rfl := Json.reorders_string_iff.mp hkind
      obtain ⟨front, back, rfl⟩ := List.append_of_mem (hperm.mem_iff.mp List.mem_cons_self)
      have hperm' : others.Perm (front ++ back) := (hperm.trans List.perm_middle).cons_inv
      obtain ⟨hname, hnodup⟩ := List.nodup_cons.mp hnames
      have hrest := (Json.reorders_ofMembers_iff hnodup).mpr ⟨_, rfl, others, hothers, hperm'⟩
      have hname' : name ∉ (front ++ back).map (·.1) := by
        rwa [← (hperm'.map (·.1)).mem_iff, Json.map_fst_eq hothers]
      have hsettle := (Json.isTextual_ofMembers htextual).of_reorders hrest
      cases hsettle with
      | object hsettle =>
          have hfind := findTag_append hlookup hname' fun member hmember =>
            settle_ofJson (hsettle member hmember) hinner
          have hread := h ⟨none, true⟩ _ nofun hrest
          rw [Draft.ofJson] at hread
          rw [Draft.ofJson, tagged, henter]
          show (findTag name variants inner none _ >>= _) = _
          rw [hfind]
          show fromSettled decoder (.object (DraftMembers.ofList (front ++ back))) = _
          rw [fromSettled, hread]

end Tagged

end Decoder

end CodeTint
