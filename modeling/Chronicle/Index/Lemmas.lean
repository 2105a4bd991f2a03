import Chronicle.Index.Basic

/-!
# Laws of sorted indexes

Everything an operation does to an index is said through `get?`.

* `get?_insert_self`, `get?_insert_of_ne`, `get?_erase_self`, `get?_erase_of_ne`: an insertion or an
  erasure changes what is found under its own key and nothing else;
* `mem_entries_iff`: the entries are what `get?` finds;
* `eq_of_get?_eq`: **an index is determined by what is found under each key.**
-/

namespace Chronicle

namespace SortKey

variable {κ : Type} [SortKey κ] {a b : κ}

/-- Two keys are apart when one comes before the other. -/
theorem before_or_before_iff : (before a b || before b a) = true ↔ a ≠ b := by
  constructor
  · rintro h rfl
    simp [irrefl] at h
  · intro h
    cases k₁ : before a b <;> cases k₂ : before b a <;> simp
    exact h (connected k₁ k₂)

theorem ne_of_before (h : before a b = true) : a ≠ b :=
  before_or_before_iff.1 (by simp [h])

end SortKey

namespace Index

variable {κ ν : Type} [SortKey κ]

/-! ## Look-up in a list of entries -/

theorem lookup_cons_self (k : κ) (v : ν) (es : List (κ × ν)) :
    lookup k ((k, v) :: es) = some v := by
  simp [lookup, SortKey.irrefl]

theorem lookup_cons_of_ne {k : κ} {e : κ × ν} (h : k ≠ e.1) (es : List (κ × ν)) :
    lookup k (e :: es) = lookup k es := by
  simp only [lookup, SortKey.before_or_before_iff.2 h, ite_true]

theorem lookup_insertEntry_self (k : κ) (v : ν) (es : List (κ × ν)) :
    lookup k (insertEntry k v es) = some v := by
  induction es with
  | nil => exact lookup_cons_self k v []
  | cons e rest ih =>
    simp only [insertEntry]
    split
    · exact lookup_cons_self k v _
    · split
      · rename_i h
        rw [lookup_cons_of_ne (SortKey.ne_of_before h).symm, ih]
      · exact lookup_cons_self k v _

theorem lookup_insertEntry_of_ne {k k' : κ} (h : k' ≠ k) (v : ν) (es : List (κ × ν)) :
    lookup k' (insertEntry k v es) = lookup k' es := by
  induction es with
  | nil => exact lookup_cons_of_ne h []
  | cons e rest ih =>
    simp only [insertEntry]
    split
    · exact lookup_cons_of_ne h _
    · split
      · simp only [lookup, ih]
      · rename_i h₁ h₂
        have hk : k = e.1 := SortKey.connected (by simpa using h₁) (by simpa using h₂)
        rw [lookup_cons_of_ne h, lookup_cons_of_ne (hk ▸ h)]

/-- In ascending entries, what is found under a key is the one entry with that key. -/
theorem lookup_eq_some_iff {k : κ} {v : ν} {es : List (κ × ν)}
    (h : es.Pairwise fun a b => SortKey.before a.1 b.1 = true) :
    lookup k es = some v ↔ (k, v) ∈ es := by
  induction es with
  | nil => simp [lookup]
  | cons e rest ih =>
    obtain ⟨he, hrest⟩ := List.pairwise_cons.1 h
    by_cases hk : k = e.1
    · subst hk
      -- no later entry has the key of the first one
      have hr : (e.1, v) ∉ rest := fun hm => SortKey.ne_of_before (he _ hm) rfl
      rw [lookup_cons_self e.1 e.2 rest, List.mem_cons, or_iff_left hr, Option.some.injEq]
      exact ⟨fun hv => hv ▸ rfl, fun hv => hv ▸ rfl⟩
    · rw [lookup_cons_of_ne hk, ih hrest, List.mem_cons]
      exact ⟨.inr, fun hm => hm.resolve_left fun hv => hk (congrArg Prod.fst hv)⟩

/-! ## Look-up after each operation -/

variable {t u : Index κ ν} {k k' : κ} {v : ν}

@[simp] theorem get?_empty (k : κ) : (empty : Index κ ν).get? k = none := rfl

theorem mem_entries_iff : (k, v) ∈ t.entries ↔ t.get? k = some v :=
  (lookup_eq_some_iff t.ascending).symm

@[simp] theorem get?_insert_self (t : Index κ ν) (k : κ) (v : ν) :
    (t.insert k v).get? k = some v :=
  lookup_insertEntry_self k v t.entries

theorem get?_insert_of_ne (h : k' ≠ k) : (t.insert k v).get? k' = t.get? k' :=
  lookup_insertEntry_of_ne h v t.entries

@[simp] theorem get?_erase_self (t : Index κ ν) (k : κ) : (t.erase k).get? k = none := by
  refine Option.eq_none_iff_forall_ne_some.2 fun v h => ?_
  have hm := (List.mem_filter.1 (mem_entries_iff.2 h)).2
  exact SortKey.before_or_before_iff.1 hm rfl

theorem get?_erase_of_ne (h : k' ≠ k) : (t.erase k).get? k' = t.get? k' := by
  refine Option.ext fun v => ?_
  rw [← mem_entries_iff, ← mem_entries_iff]
  exact List.mem_filter.trans (and_iff_left (SortKey.before_or_before_iff.2 h.symm))

/-! ## Equality -/

/-- Two indexes that find the same under every key list the same entries. -/
theorem eq_of_get?_eq (h : ∀ k, t.get? k = u.get? k) : t = u := by
  obtain ⟨es, hes⟩ := t
  obtain ⟨fs, hfs⟩ := u
  have hmem : ∀ e, e ∈ es ↔ e ∈ fs := fun e => by
    rw [← lookup_eq_some_iff hes, ← lookup_eq_some_iff hfs]
    exact iff_of_eq (congrArg (· = some e.2) (h e.1))
  have : es = fs := by
    clear h
    induction es generalizing fs with
    | nil =>
      cases fs with
      | nil => rfl
      | cons f fs => exact absurd ((hmem f).2 List.mem_cons_self) List.not_mem_nil
    | cons e es ih =>
      cases fs with
      | nil => exact absurd ((hmem e).1 List.mem_cons_self) List.not_mem_nil
      | cons f fs =>
        obtain ⟨he, hes'⟩ := List.pairwise_cons.1 hes
        obtain ⟨hf, hfs'⟩ := List.pairwise_cons.1 hfs
        -- each head comes first in both lists, so the heads agree
        have hef : e = f := by
          rcases List.mem_cons.1 ((hmem e).1 List.mem_cons_self) with h₁ | h₁
          · exact h₁
          · rcases List.mem_cons.1 ((hmem f).2 List.mem_cons_self) with h₂ | h₂
            · exact h₂.symm
            · exact absurd (hf e h₁) (by simp [SortKey.asymm (he f h₂)])
        subst hef
        refine congrArg (e :: ·) (ih hes' fs hfs' fun g => ⟨fun hg => ?_, fun hg => ?_⟩)
        · exact ((List.mem_cons.1 ((hmem g).1 (List.mem_cons_of_mem _ hg))).resolve_left
            fun hge => SortKey.ne_of_before (he g hg) (hge ▸ rfl))
        · exact ((List.mem_cons.1 ((hmem g).2 (List.mem_cons_of_mem _ hg))).resolve_left
            fun hge => SortKey.ne_of_before (hf g hg) (hge ▸ rfl))
  subst this
  rfl

/-! ## Listings -/

theorem mem_keys_iff : k ∈ t.keys ↔ t.contains k = true := by
  simp only [keys, contains, List.mem_map, Option.isSome_iff_exists]
  constructor
  · rintro ⟨e, he, rfl⟩
    exact ⟨e.2, mem_entries_iff.1 he⟩
  · rintro ⟨v, hv⟩
    exact ⟨(k, v), mem_entries_iff.2 hv, rfl⟩

/-- The keys are listed in strictly ascending order. -/
theorem pairwise_keys (t : Index κ ν) :
    t.keys.Pairwise fun a b => SortKey.before a b = true :=
  List.pairwise_map.2 t.ascending

end Index
end Chronicle
