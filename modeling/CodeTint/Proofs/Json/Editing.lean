import CodeTint.Proofs.Json.Decoding
import CodeTint.Proofs.Json.Records

/-!
# Editing what was written

The JSON form of a record may be edited without a change of what is read from it. A field of the
value that the record starts from may be left out, since it keeps that value; members of names that
no field has may be put in, since nobody reads them; and what a field holds may be edited in turn
(`Json.EditsRecord`). All of this can be done at once, to any of the fields
(`Decoder.decodes_of_editsRecord`).
-/

namespace CodeTint

/-! ## Editing records -/

namespace Json

/-- A field as it stands in the JSON form of a record: its name, its value in the record that is
read where nothing is given, and how a value may be edited. -/
structure FieldForm where
  name : String
  initial : Json
  edits : Json → Json → Prop

/-- The other member is of the same field, with its value edited. -/
inductive EditsMember (forms : List FieldForm) : String × Json → String × Json → Prop
  | mk {form : FieldForm} {value edited : Json} (form_mem : form ∈ forms)
      (edits : form.edits value edited) :
      EditsMember forms (form.name, value) (form.name, edited)

/-- The other object has some of the members, edited, and others of names that no field has. What is
left out are fields with their initial values. -/
inductive EditsRecord (forms : List FieldForm) : Json → Json → Prop
  | mk {members kept left_out edited unknown written : List (String × Json)}
      (members_perm : members.Perm (kept ++ left_out))
      (kept_edited : List.Forall₂ (EditsMember forms) kept edited)
      (left_out_initial : ∀ member ∈ left_out, ∃ form ∈ forms, member = (form.name, form.initial))
      (unknown_names : ∀ member ∈ unknown, ∀ form ∈ forms, form.name ≠ member.1)
      (written_perm : written.Perm (edited ++ unknown)) :
      EditsRecord forms (.object members) (.object written)

section Steps

variable {forms : List FieldForm} {members written : List (String × Json)}

/-! An object may be edited member by member. -/

theorem editsRecord_nil : EditsRecord forms (.object []) (.object []) :=
  .mk (.refl ([] ++ [])) .nil (fun _ hmember => absurd hmember List.not_mem_nil)
    (fun _ hmember => absurd hmember List.not_mem_nil) (.refl ([] ++ []))

theorem EditsRecord.keep {member edited : String × Json} (hedits : EditsMember forms member edited)
    (h : EditsRecord forms (.object members) (.object written)) :
    EditsRecord forms (.object (member :: members)) (.object (edited :: written)) := by
  obtain ⟨hperm, hkept, hleft_out, hunknown, hwritten⟩ := h
  exact .mk (hperm.cons member) (.cons hedits hkept) hleft_out hunknown (hwritten.cons edited)

theorem EditsRecord.leave_out {form : FieldForm} (hform : form ∈ forms)
    (h : EditsRecord forms (.object members) (.object written)) :
    EditsRecord forms (.object ((form.name, form.initial) :: members)) (.object written) := by
  obtain ⟨hperm, hkept, hleft_out, hunknown, hwritten⟩ := h
  exact .mk ((hperm.cons _).trans List.perm_middle.symm) hkept
    (List.forall_mem_cons.mpr ⟨⟨form, hform, rfl⟩, hleft_out⟩) hunknown hwritten

theorem EditsRecord.put_in {member : String × Json}
    (hname : ∀ form ∈ forms, form.name ≠ member.1)
    (h : EditsRecord forms (.object members) (.object written)) :
    EditsRecord forms (.object members) (.object (member :: written)) := by
  obtain ⟨hperm, hkept, hleft_out, hunknown, hwritten⟩ := h
  exact .mk hperm hkept hleft_out (List.forall_mem_cons.mpr ⟨hname, hunknown⟩)
    ((hwritten.cons member).trans List.perm_middle.symm)

end Steps

/-- An object of fields that may stay as they are may stay as it is. -/
theorem editsRecord_self {forms : List FieldForm} {members : List (String × Json)}
    (h : List.Forall₂ (fun form member => form.name = member.1 ∧ form.edits member.2 member.2)
      forms members) :
    EditsRecord forms (.ofMembers members) (.ofMembers members) := by
  have hperm : (putMembers members).Perm (putMembers members ++ []) := by rw [List.append_nil]
  have hkept : List.Forall₂ (EditsMember forms) (putMembers members) (putMembers members) := by
    refine List.forall₂_same.mpr fun (name, value) hmember => ?_
    obtain ⟨form, hform, rfl, hedits⟩ := exists_mem_of_forall₂ h (mem_putMembers hmember)
    exact .mk hform hedits
  exact .mk hperm hkept (fun _ hmember => absurd hmember List.not_mem_nil)
    (fun _ hmember => absurd hmember List.not_mem_nil) hperm

end Json

namespace Decoder

open Json

variable {α : Type} {depth : Nat} {fields : List (Field α)} {forms : List FieldForm}
  {givens : List (Given α)} {start : α}

/-! ## What the fields of a record hold -/

/-- What the fields of a record hold, in their order: whatever a value is edited to, it is read as
the same thing, and this changes nothing where the value is the initial one. -/
inductive Withstands (depth : Nat) (start : α) :
    List (Field α) → List FieldForm → List (Given α) → Prop
  | nil : Withstands depth start [] [] []
  | cons {β : Type} {decoder : Decoder β} {set : β → α → α} {form : FieldForm} {value : Json}
      {b : β} {fields : List (Field α)} {forms : List FieldForm} {givens : List (Given α)}
      (decodes : ∀ edited, form.edits value edited → decoder.Decodes depth edited b)
      (initial : value = form.initial → set b start = start)
      (others : Withstands depth start fields forms givens) :
      Withstands depth start (field form.name false decoder set :: fields) (form :: forms)
        (⟨form.name, value, set b⟩ :: givens)

namespace Withstands

theorem edited {β : Type} {decoder : Decoder β} {set : β → α → α} {toJson : β → Json}
    {name : String} {edits : Json → Json → Prop} {initial : β}
    (decodes : ∀ b edited, edits (toJson b) edited → decoder.Decodes depth edited b)
    (decodes_toJson : ∀ b, decoder.Decodes depth (toJson b) b) (hset : set initial start = start)
    (b : β) (others : Withstands depth start fields forms givens) :
    Withstands depth start (field name false decoder set :: fields)
      (⟨name, toJson initial, edits⟩ :: forms) (⟨name, toJson b, set b⟩ :: givens) := by
  refine @cons α depth start β decoder set ⟨name, toJson initial, edits⟩ (toJson b) b fields forms
    givens (decodes b) (fun hinitial => ?_) others
  have hb : decoder.Decodes depth (toJson initial) b :=
    (show toJson b = toJson initial from hinitial) ▸ decodes_toJson b
  obtain rfl := hb.unique (decodes_toJson initial)
  exact hset

theorem unedited {β : Type} {decoder : Decoder β} {set : β → α → α} {toJson : β → Json}
    {name : String} {initial : β} (decodes_toJson : ∀ b, decoder.Decodes depth (toJson b) b)
    (hset : set initial start = start) (b : β)
    (others : Withstands depth start fields forms givens) :
    Withstands depth start (field name false decoder set :: fields)
      (⟨name, toJson initial, Eq⟩ :: forms) (⟨name, toJson b, set b⟩ :: givens) :=
  edited (fun b _ heq => heq ▸ decodes_toJson b) decodes_toJson hset b others

theorem map_name_fields (h : Withstands depth start fields forms givens) :
    fields.map (·.name) = forms.map (·.name) := by
  induction h with
  | nil => rfl
  | cons _ _ _ ih => exact congrArg (_ :: ·) ih

theorem map_name_givens (h : Withstands depth start fields forms givens) :
    givens.map (·.name) = forms.map (·.name) := by
  induction h with
  | nil => rfl
  | cons _ _ _ ih => exact congrArg (_ :: ·) ih

theorem required_eq_false (h : Withstands depth start fields forms givens) :
    ∀ field ∈ fields, field.required = false := by
  induction h with
  | nil => exact fun _ hfield => absurd hfield List.not_mem_nil
  | cons _ _ _ ih => exact List.forall_mem_cons.mpr ⟨rfl, ih⟩

theorem of_mem (h : Withstands depth start fields forms givens)
    (hnames : (forms.map (·.name)).Nodup) :
    ∀ given ∈ givens, ∀ form ∈ forms, form.name = given.name →
      (∀ edited, form.edits given.value edited →
        Given.IsRead fields depth ⟨given.name, edited, given.change⟩) ∧
      (given.value = form.initial → given.change start = start) := by
  induction h with
  | nil => exact fun _ hgiven => absurd hgiven List.not_mem_nil
  | @cons β decoder set form value b fields forms givens hdecodes hinitial hothers ih =>
      obtain ⟨hnew, hnames⟩ := List.nodup_cons.mp hnames
      refine List.forall_mem_cons.mpr ⟨List.forall_mem_cons.mpr ⟨fun _ => ⟨?_, hinitial⟩, ?_⟩, ?_⟩
      · refine fun edited hedits => ⟨_, List.mem_cons_self, rfl, ?_⟩
        intro reading written a hallows hwritten
        exact read_field_eq_ok_iff.mpr
          ⟨b, hdecodes edited hedits reading written hallows hwritten, rfl⟩
      · exact fun other hother hname => absurd (List.mem_map.mpr ⟨other, hother, hname⟩) hnew
      · intro given hgiven
        refine List.forall_mem_cons.mpr ⟨fun hname => ?_, fun other hother hname => ?_⟩
        · refine absurd ?_ hnew
          rw [← hothers.map_name_givens]
          exact List.mem_map.mpr ⟨given, hgiven, hname.symm⟩
        · obtain ⟨hread, hchange⟩ := ih hnames given hgiven other hother hname
          exact ⟨fun edited hedits => (hread edited hedits).cons _, hchange⟩

end Withstands

/-! ## Reading what was edited -/

theorem fill_eq_foldl (givens : List (Given α)) (start : α) :
    fill givens start = (givens.map (·.change)).foldl (fun a change => change a) start := by
  rw [List.foldl_map]
  rfl

theorem pairwise_commutes_iff :
    givens.Pairwise Given.Commutes ↔ (givens.map (·.change)).Pairwise fun change other =>
      ∀ a, other (change a) = change (other a) := by
  rw [List.pairwise_map]
  rfl

theorem fill_eq_self (h : ∀ given ∈ givens, given.change start = start) :
    fill givens start = start := by
  induction givens with
  | nil => rfl
  | cons given givens ih =>
      obtain ⟨hgiven, hgivens⟩ := List.forall_mem_cons.mp h
      rw [fill, List.foldl_cons, hgiven]
      exact ih hgivens

/-- The members for what is given, in another order, are those for the same things in that order. -/
theorem exists_map_member_eq {members : List (String × Json)}
    (h : (givens.map Given.member).Perm members) :
    ∃ givens', givens.Perm givens' ∧ givens'.map Given.member = members := by
  have hcomp : Relation.Comp (List.Forall₂ fun given member => Given.member given = member)
      List.Perm givens members :=
    ⟨_, List.forall₂_map_right_iff.mpr (List.forall₂_same.mpr fun _ _ => rfl), h⟩
  rw [List.forall₂_comp_perm_eq_perm_comp_forall₂] at hcomp
  obtain ⟨givens', hperm, heq⟩ := hcomp
  refine ⟨givens', hperm, ?_⟩
  rwa [← List.forall₂_eq_eq_eq, List.forall₂_map_left_iff]

/-- Members that were edited are given for the same fields, and change the record as before. -/
theorem Withstands.exists_isRead (h : Withstands depth start fields forms givens)
    (hnames : (forms.map (·.name)).Nodup) {kept : List (Given α)}
    (hkept : ∀ given ∈ kept, given ∈ givens) {edited : List (String × Json)}
    (hedited : List.Forall₂ (EditsMember forms) (kept.map Given.member) edited) :
    ∃ others : List (Given α), others.map Given.member = edited ∧
      others.map (·.name) = kept.map (·.name) ∧ others.map (·.change) = kept.map (·.change) ∧
      ∀ other ∈ others, other.IsRead fields depth := by
  induction kept generalizing edited with
  | nil =>
      cases hedited
      exact ⟨[], rfl, rfl, rfl, nofun⟩
  | cons given kept ih =>
      obtain ⟨hgiven, hrest⟩ := List.forall_mem_cons.mp hkept
      obtain ⟨name, value, change⟩ := given
      cases hedited with
      | cons hmember hedited =>
          obtain ⟨others, rfl, hname, hchange, hread⟩ := ih hrest hedited
          cases hmember with
          | @mk form _ value' hform hedits =>
              have hown := (h.of_mem hnames _ hgiven form hform rfl).1 value' hedits
              exact ⟨⟨form.name, value', change⟩ :: others, rfl, congrArg (_ :: ·) hname,
                congrArg (_ :: ·) hchange, List.forall_mem_cons.mpr ⟨hown, hread⟩⟩

section Kept

variable {kept left_out : List (Given α)} (hperm : givens.Perm (kept ++ left_out))
include hperm

/-- What changes nothing need not be given. -/
theorem fill_kept (hcommute : givens.Pairwise Given.Commutes)
    (hleft_out : ∀ given ∈ left_out, given.change start = start) :
    fill kept start = fill givens start := by
  rw [fill_perm hcommute (hperm.trans List.perm_append_comm), fill, fill, List.foldl_append]
  exact congrArg (fun start => fill kept start) (fill_eq_self hleft_out).symm

theorem pairwise_commutes_kept (hcommute : givens.Pairwise Given.Commutes) :
    kept.Pairwise Given.Commutes :=
  ((hperm.pairwise_iff fun h a => (h a).symm).mp hcommute).sublist
    (List.sublist_append_left kept left_out)

theorem nodup_names_kept (hnames : (givens.map (·.name)).Nodup) : (kept.map (·.name)).Nodup :=
  ((List.sublist_append_left kept left_out).map _).nodup ((hperm.map _).nodup_iff.mp hnames)

end Kept

/-- A record is read from whatever its JSON form is edited to. -/
theorem decodes_of_editsRecord (h : Withstands depth start fields forms givens)
    (hnames : (forms.map (·.name)).Nodup) (hcommute : givens.Pairwise Given.Commutes)
    {full written : Json} {a : α} (hfull : full = .ofMembers (givens.map Given.member))
    (ha : a = fill givens start) (hedits : EditsRecord forms full written) :
    (record fields start).Decodes (depth + 1) written a := by
  obtain ⟨hperm, hedited, hinitial, hunknown, hwritten⟩ := hedits
  obtain rfl := Json.object.inj hfull
  have hgivens : (givens.map (·.name)).Nodup := h.map_name_givens ▸ hnames
  have hmembers : (putMembers (givens.map Given.member)).Perm (givens.map Given.member) :=
    putMembers_perm (by rwa [List.map_map])
  -- What is given falls apart into what is kept and what is left out.
  obtain ⟨givens', hperm', hsplit⟩ := exists_map_member_eq (hmembers.symm.trans hperm)
  obtain ⟨kept, left_out, rfl, rfl, rfl⟩ := List.map_eq_append_iff.mp hsplit
  have hmem : ∀ given ∈ kept ++ left_out, given ∈ givens := fun given => hperm'.mem_iff.mpr
  have hleft_out : ∀ given ∈ left_out, given.change start = start := by
    intro given hgiven
    obtain ⟨form, hform, hmember⟩ := hinitial _ (List.mem_map.mpr ⟨given, hgiven, rfl⟩)
    obtain ⟨hname, hvalue⟩ := Prod.mk.inj hmember
    exact (h.of_mem hnames given (hmem given (List.mem_append_right _ hgiven)) form hform
      hname.symm).2 hvalue
  obtain ⟨others, rfl, hname, hchange, hread⟩ := h.exists_isRead hnames
    (fun given hgiven => hmem given (List.mem_append_left _ hgiven)) hedited
  rw [ha, ← fill_kept hperm' hcommute hleft_out, fill_eq_foldl kept, ← hchange, ← fill_eq_foldl]
  refine decodes_of_isRead hread ?_ (h.map_name_fields ▸ hnames)
    (hname ▸ nodup_names_kept hperm' hgivens) ?_ ?_ hwritten
  · intro field hfield hrequired
    rw [h.required_eq_false field hfield] at hrequired
    cases hrequired
  · rw [pairwise_commutes_iff, hchange, ← pairwise_commutes_iff]
    exact pairwise_commutes_kept hperm' hcommute
  · intro member hmember field hfield
    have hname : field.name ∈ forms.map (·.name) :=
      h.map_name_fields ▸ List.mem_map.mpr ⟨field, hfield, rfl⟩
    obtain ⟨form, hform, hname⟩ := List.mem_map.mp hname
    exact hname ▸ hunknown member hmember form hform

end Decoder

end CodeTint
