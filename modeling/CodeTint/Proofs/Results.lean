import Mathlib.Data.List.Forall2

/-!
# Results that may be missing

What is read may turn out to be nothing, or an error. A list whose items are read one by one has a
result if each of them has one, and the results stand in the order of the items.
-/

namespace CodeTint

theorem bind_eq_ok_iff {ε α β : Type} {x : Except ε α} {next : α → Except ε β} {b : β} :
    (x >>= next) = .ok b ↔ ∃ a, x = .ok a ∧ next a = .ok b := by
  cases x <;> simp [bind, Except.bind]

theorem mapM_eq_some_iff_forall₂ {α β : Type} {read : α → Option β} {items : List α}
    {results : List β} :
    items.mapM read = some results ↔
      List.Forall₂ (fun item result => read item = some result) items results := by
  induction items generalizing results with
  | nil => simp [eq_comm]
  | cons item items ih =>
      rw [List.mapM_cons, List.forall₂_cons_left_iff]
      simp only [← ih]
      cases read item <;> cases items.mapM read <;> simp [eq_comm]

theorem isSome_mapM_iff {α β : Type} {read : α → Option β} {items : List α} :
    (items.mapM read).isSome ↔ ∀ item ∈ items, (read item).isSome := by
  induction items with
  | nil => simp
  | cons item items ih =>
      rw [List.mapM_cons, List.forall_mem_cons, ← ih]
      cases read item <;> cases items.mapM read <;> simp

theorem mapM_eq_ok_iff_forall₂ {ε α β : Type} {read : α → Except ε β} {items : List α}
    {results : List β} :
    items.mapM read = .ok results ↔
      List.Forall₂ (fun item result => read item = .ok result) items results := by
  induction items generalizing results with
  | nil => simp [pure, Except.pure, eq_comm]
  | cons item items ih =>
      rw [List.mapM_cons, List.forall₂_cons_left_iff]
      simp only [← ih]
      cases read item <;> cases items.mapM read <;>
        simp [bind, Except.bind, pure, Except.pure, eq_comm]

theorem exists_of_mem_mapM {ε α β : Type} {read : α → Except ε β} {items : List α}
    {results : List β} {result : β} (h : items.mapM read = .ok results)
    (hresult : result ∈ results) :
    ∃ item ∈ items, read item = .ok result := by
  have hlists := mapM_eq_ok_iff_forall₂.mp h
  clear h
  induction hlists with
  | nil => cases hresult
  | cons hread _ ih =>
      rcases List.mem_cons.mp hresult with rfl | hresult
      · exact ⟨_, List.mem_cons_self, hread⟩
      · obtain ⟨item, hitem, hread⟩ := ih hresult
        exact ⟨item, List.mem_cons_of_mem _ hitem, hread⟩

theorem exists_mapM_eq_ok_iff {ε α β : Type} {read : α → Except ε β} {items : List α} :
    (∃ results, items.mapM read = .ok results) ↔
      ∀ item ∈ items, ∃ result, read item = .ok result := by
  induction items with
  | nil => simp [pure, Except.pure]
  | cons item items ih =>
      rw [List.mapM_cons, List.forall_mem_cons, ← ih]
      cases read item <;> cases items.mapM read <;> simp [bind, Except.bind, pure, Except.pure]

/-- An item that may be missing is read if it is there. -/
theorem exists_of_mapM_eq_ok_some {ε α β : Type} {read : α → Except ε β} {item : Option α}
    {result : β} (h : item.mapM read = .ok (some result)) :
    ∃ value ∈ item, read value = .ok result := by
  cases item with
  | none => cases h
  | some value =>
      cases hread : read value with
      | error e => simp [Option.mapM_some, hread, Functor.map, Except.map] at h
      | ok other =>
          obtain rfl : other = result := by
            simpa [Option.mapM_some, hread, Functor.map, Except.map] using h
          exact ⟨value, rfl, hread⟩

/-- What is related to a list that is split at an item is split there as well. -/
theorem forall₂_append_cons_left_iff {α β : Type} {R : α → β → Prop} {front back : List α}
    {item : α} {results : List β} :
    List.Forall₂ R (front ++ item :: back) results ↔
      ∃ frontResults result backResults, results = frontResults ++ result :: backResults ∧
        List.Forall₂ R front frontResults ∧ R item result ∧ List.Forall₂ R back backResults := by
  induction front generalizing results with
  | nil =>
      rw [List.nil_append, List.forall₂_cons_left_iff]
      constructor
      · rintro ⟨result, backResults, hitem, hback, rfl⟩
        exact ⟨[], result, backResults, rfl, .nil, hitem, hback⟩
      · rintro ⟨frontResults, result, backResults, rfl, hfront, hitem, hback⟩
        obtain rfl := List.forall₂_nil_left_iff.mp hfront
        exact ⟨result, backResults, hitem, hback, rfl⟩
  | cons first front ih =>
      rw [List.cons_append, List.forall₂_cons_left_iff]
      simp only [ih]
      constructor
      · rintro ⟨firstResult, _, hfirst, ⟨others, result, backResults, rfl, hothers, hrest⟩, rfl⟩
        exact ⟨firstResult :: others, result, backResults, rfl, .cons hfirst hothers, hrest⟩
      · rintro ⟨frontResults, result, backResults, rfl, hfront, hrest⟩
        obtain ⟨firstResult, others, hfirst, hothers, rfl⟩ := List.forall₂_cons_left_iff.mp hfront
        exact ⟨firstResult, _, hfirst, ⟨_, _, _, rfl, hothers, hrest⟩, rfl⟩

end CodeTint
