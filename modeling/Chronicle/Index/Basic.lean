/-!
# Sorted indexes

An index holds at most one value per key and lists its entries in strictly ascending key order, so
two indexes with the same values under the same keys are equal.

* `SortKey`: a type of keys with a strict total order; texts are ordered by code point, pairs by
  their first component and then by their second;
* `Index`: entries in strictly ascending order;
* `Index.get?`, `Index.insert`, `Index.erase`, `Index.keys`, `Index.values`.
-/

namespace Chronicle

/-- A type whose elements are put in a strict total order. -/
class SortKey (κ : Type) where
  before : κ → κ → Bool
  irrefl : ∀ a, before a a = false
  trans : ∀ {a b c}, before a b = true → before b c = true → before a c = true
  connected : ∀ {a b}, before a b = false → before b a = false → a = b

/-- Texts are ordered by code point. -/
instance : SortKey String where
  before a b := decide (a < b)
  irrefl a := decide_eq_false (String.lt_irrefl a)
  trans h k := decide_eq_true (String.lt_trans (of_decide_eq_true h) (of_decide_eq_true k))
  connected h k :=
    String.le_antisymm (String.not_lt.1 (of_decide_eq_false k))
      (String.not_lt.1 (of_decide_eq_false h))

namespace SortKey

variable {κ : Type} [SortKey κ]

theorem asymm {a b : κ} (h : before a b = true) : before b a = false := by
  cases k : before b a
  · rfl
  · exact absurd (trans h k) (by simp [irrefl])

end SortKey

/-- Pairs are ordered by the first components and, where these agree, by the second. -/
instance {α β : Type} [DecidableEq α] [SortKey α] [SortKey β] : SortKey (α × β) where
  before a b := SortKey.before a.1 b.1 || (decide (a.1 = b.1) && SortKey.before a.2 b.2)
  irrefl a := by simp [SortKey.irrefl]
  trans {a b c} h k := by
    simp only [Bool.or_eq_true, Bool.and_eq_true, decide_eq_true_eq] at h k ⊢
    rcases h with h | ⟨e, h⟩ <;> rcases k with k | ⟨f, k⟩
    · exact .inl (SortKey.trans h k)
    · exact .inl (f ▸ h)
    · exact .inl (e ▸ k)
    · exact .inr ⟨e.trans f, SortKey.trans h k⟩
  connected {a b} h k := by
    simp only [Bool.or_eq_false_iff] at h k
    have e : a.1 = b.1 := SortKey.connected h.1 k.1
    simp only [e, decide_true, Bool.true_and] at h k
    exact Prod.ext e (SortKey.connected h.2 k.2)

/-- Values under keys, in strictly ascending order of the keys. -/
structure Index (κ ν : Type) [SortKey κ] where
  entries : List (κ × ν)
  ascending : entries.Pairwise fun a b => SortKey.before a.1 b.1 = true

namespace Index

variable {κ ν : Type} [SortKey κ]

/-! ## Entries in order -/

/-- Puts `v` under `k` into ascending entries, in the place of an entry that is there already. -/
def insertEntry (k : κ) (v : ν) : List (κ × ν) → List (κ × ν)
  | [] => [(k, v)]
  | e :: rest =>
    if SortKey.before k e.1 then (k, v) :: e :: rest
    else if SortKey.before e.1 k then e :: insertEntry k v rest
    else (k, v) :: rest

theorem mem_insertEntry {k : κ} {v : ν} {es : List (κ × ν)} {e : κ × ν}
    (h : e ∈ insertEntry k v es) : e = (k, v) ∨ e ∈ es := by
  induction es with
  | nil => exact .inl (by simpa [insertEntry] using h)
  | cons f rest ih =>
    simp only [insertEntry] at h
    split at h
    · simpa using h
    · split at h
      · rcases List.mem_cons.1 h with rfl | h
        · simp
        · rcases ih h with h | h
          · exact .inl h
          · exact .inr (List.mem_cons_of_mem _ h)
      · rcases List.mem_cons.1 h with rfl | h
        · simp
        · exact .inr (List.mem_cons_of_mem _ h)

theorem pairwise_insertEntry (k : κ) (v : ν) {es : List (κ × ν)}
    (h : es.Pairwise fun a b => SortKey.before a.1 b.1 = true) :
    (insertEntry k v es).Pairwise fun a b => SortKey.before a.1 b.1 = true := by
  induction es with
  | nil => simp [insertEntry]
  | cons f rest ih =>
    obtain ⟨hf, hrest⟩ := List.pairwise_cons.1 h
    simp only [insertEntry]
    split
    · rename_i hk
      refine List.pairwise_cons.2 ⟨fun e he => ?_, h⟩
      rcases List.mem_cons.1 he with rfl | he
      · exact hk
      · exact SortKey.trans hk (hf e he)
    · split
      · rename_i hk
        refine List.pairwise_cons.2 ⟨fun e he => ?_, ih hrest⟩
        rcases mem_insertEntry he with rfl | he
        · exact hk
        · exact hf e he
      · rename_i h₁ h₂
        have : k = f.1 := SortKey.connected (by simpa using h₁) (by simpa using h₂)
        exact List.pairwise_cons.2 ⟨this ▸ hf, hrest⟩

/-! ## Operations -/

/-- The index without entries. -/
def empty : Index κ ν := ⟨[], .nil⟩

instance : Inhabited (Index κ ν) := ⟨empty⟩

/-- The value under `k` in a list of entries. -/
def lookup (k : κ) : List (κ × ν) → Option ν
  | [] => none
  | e :: rest => if SortKey.before k e.1 || SortKey.before e.1 k then lookup k rest else some e.2

/-- The value under `k`. -/
def get? (t : Index κ ν) (k : κ) : Option ν :=
  lookup k t.entries

/-- Puts `v` under `k`, over any value that was there. -/
def insert (t : Index κ ν) (k : κ) (v : ν) : Index κ ν :=
  ⟨insertEntry k v t.entries, pairwise_insertEntry k v t.ascending⟩

/-- Drops the entry under `k`, if there is one. -/
def erase (t : Index κ ν) (k : κ) : Index κ ν :=
  ⟨t.entries.filter fun e => SortKey.before k e.1 || SortKey.before e.1 k, t.ascending.filter _⟩

/-- The keys, ascending. -/
def keys (t : Index κ ν) : List κ :=
  t.entries.map (·.1)

/-- The values, in ascending order of their keys. -/
def values (t : Index κ ν) : List ν :=
  t.entries.map (·.2)

/-- Whether there is a value under `k`. -/
def contains (t : Index κ ν) (k : κ) : Bool :=
  (t.get? k).isSome

/-- The number of entries. -/
def size (t : Index κ ν) : Nat :=
  t.entries.length

end Index
end Chronicle
