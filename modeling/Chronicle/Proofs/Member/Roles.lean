import Mathlib.Data.Finset.Basic
import Mathlib.Data.List.Destutter
import Mathlib.Data.List.Sort
import Chronicle.Member.Roles
import Chronicle.Proofs.Text.Trim
/-!
# Role lists and the sets they stand for

The roles that a list grants are a set. Its normalized form lists this set in ascending order, so
two lists have the same normalized form exactly when they grant the same roles.

* `Roles.granted`: the set that a list stands for;
* `Roles.Ascending`, `Roles.ascending_normalize`, `Roles.mem_normalize`;
* **`Roles.normalize_eq_iff`**, `Roles.granted_nonempty_iff`;
* `Roles.Canonical`, `Roles.canonical_normalize`: what is recorded;
* `Roles.destutter_eq_normalize`: sorting first and dropping repeats then;
* `Roles.SetLaw`, **`Roles.setLaw`**: normalized lists are sets.
-/

namespace Chronicle

namespace Roles

variable {role r : String} {roles held : List String}

/-- The set of roles that a list grants: its entries that are not blank, trimmed. -/
def granted (roles : List String) : Finset String :=
  ((roles.filter fun r => !Text.allBlank r).map Text.trim).toFinset

/-- The list is ascending, each role once. -/
def Ascending (roles : List String) : Prop := roles.Pairwise (· < ·)

theorem mem_place : r ∈ place role roles ↔ r = role ∨ r ∈ roles := by
  induction roles with
  | nil => simp [place]
  | cons x rest ih =>
    unfold place
    by_cases hlt : role < x
    · rw [if_pos hlt, List.mem_cons]
    · rw [if_neg hlt]
      by_cases heq : role = x
      · rw [if_pos heq, List.mem_cons, heq, ← or_assoc, or_self]
      · rw [if_neg heq, List.mem_cons, List.mem_cons, ih]
        exact or_left_comm

theorem ascending_place (h : Ascending roles) : Ascending (place role roles) := by
  induction roles with
  | nil => exact List.pairwise_singleton _ _
  | cons x rest ih =>
    obtain ⟨hx, hrest⟩ := List.pairwise_cons.1 h
    unfold place
    by_cases hlt : role < x
    · rw [if_pos hlt]
      refine List.pairwise_cons.2 ⟨fun y hy => ?_, h⟩
      rcases List.mem_cons.1 hy with rfl | hy
      · exact hlt
      · exact lt_trans hlt (hx y hy)
    · rw [if_neg hlt]
      by_cases heq : role = x
      · rwa [if_pos heq]
      · rw [if_neg heq]
        refine List.pairwise_cons.2 ⟨fun y hy => ?_, ih hrest⟩
        rcases mem_place.1 hy with rfl | hy
        · exact lt_of_le_of_ne (not_lt.1 hlt) (Ne.symm heq)
        · exact hx y hy

/-- A normalized list is ascending. -/
theorem ascending_normalize (roles : List String) : Ascending (normalize roles) := by
  unfold normalize
  generalize (roles.map Text.trim).filter (· ≠ "") = named
  induction named with
  | nil => exact List.Pairwise.nil
  | cons x rest ih => exact ascending_place ih

theorem mem_foldr_place : r ∈ roles.foldr place [] ↔ r ∈ roles := by
  induction roles with
  | nil => rfl
  | cons x rest ih => rw [List.foldr_cons, mem_place, ih, List.mem_cons]

/-- A normalized list holds the roles that are granted. -/
theorem mem_normalize : r ∈ normalize roles ↔ r ∈ granted roles := by
  unfold normalize granted
  rw [mem_foldr_place, List.mem_toFinset, List.mem_map, List.mem_filter, List.mem_map]
  constructor
  · rintro ⟨⟨x, hx, rfl⟩, hne⟩
    have hb : Text.allBlank x ≠ true := fun hb => by
      simp [Text.trim_eq_empty_iff.2 hb] at hne
    exact ⟨x, List.mem_filter.2 ⟨hx, by simpa using hb⟩, rfl⟩
  · rintro ⟨x, hx, rfl⟩
    obtain ⟨hx, hb⟩ := List.mem_filter.1 hx
    refine ⟨⟨x, hx, rfl⟩, ?_⟩
    have hne : Text.trim x ≠ "" := fun he => by
      simp [Text.trim_eq_empty_iff.1 he] at hb
    simpa using hne

theorem toFinset_normalize (roles : List String) : (normalize roles).toFinset = granted roles := by
  ext r
  rw [List.mem_toFinset, mem_normalize]

/-- **Role sets.** An ascending list is the normalized form of every list that grants its roles. -/
theorem normalize_eq_iff (h : Ascending held) :
    held = normalize roles ↔ held.toFinset = granted roles := by
  rw [← toFinset_normalize]
  constructor
  · intro he
    rw [← he]
  · intro he
    refine List.Pairwise.eq_of_mem_iff h (ascending_normalize roles) fun r => ?_
    rw [← List.mem_toFinset, he, List.mem_toFinset]

/-- Roles are granted as soon as an entry is not blank. -/
theorem granted_nonempty_iff :
    granted roles ≠ ∅ ↔ ∃ r ∈ roles, Text.allBlank r = false := by
  unfold granted
  rw [Ne, List.toFinset_eq_empty_iff, List.map_eq_nil_iff, List.filter_eq_nil_iff]
  simp

theorem normalize_isEmpty : (normalize roles).isEmpty = true ↔ granted roles = ∅ := by
  rw [← toFinset_normalize, List.toFinset_eq_empty_iff, List.isEmpty_iff]

/-- Roles as they are recorded: at least one, ascending, each trimmed and none empty. -/
def Canonical (roles : List String) : Prop :=
  roles ≠ [] ∧ Ascending roles ∧ ∀ r ∈ roles, Text.trim r = r ∧ r ≠ ""

/-- A normalized role is trimmed and not empty. -/
theorem trimmed_of_mem_normalize (h : r ∈ normalize roles) : Text.trim r = r ∧ r ≠ "" := by
  unfold normalize at h
  rw [mem_foldr_place] at h
  obtain ⟨hmap, hne⟩ := List.mem_filter.1 h
  obtain ⟨x, -, rfl⟩ := List.mem_map.1 hmap
  exact ⟨Text.trim_trim x, of_decide_eq_true hne⟩

theorem canonical_normalize (h : (normalize roles).isEmpty = false) :
    Canonical (normalize roles) := by
  refine ⟨?_, ascending_normalize roles, fun r => trimmed_of_mem_normalize⟩
  intro hnil
  rw [hnil] at h
  cases h

/-- Normalizing changes nothing about an ascending list of trimmed roles. -/
theorem normalize_eq_self (hasc : Ascending roles) (h : ∀ r ∈ roles, Text.trim r = r ∧ r ≠ "") :
    normalize roles = roles := by
  refine List.Pairwise.eq_of_mem_iff (ascending_normalize roles) hasc fun r => ?_
  have hmap : roles.map Text.trim = roles := by
    rw [List.map_congr_left fun r hr => (h r hr).1]
    exact List.map_id' roles
  unfold normalize
  rw [mem_foldr_place, hmap, List.mem_filter, decide_eq_true_eq]
  exact ⟨And.left, fun hr => ⟨hr, (h r hr).2⟩⟩

theorem Canonical.normalize_eq (h : Canonical roles) : normalize roles = roles :=
  normalize_eq_self h.2.1 h.2.2

/-! ## Lists as sets -/

theorem normalize_eq_normalize_iff {roles' : List String} :
    normalize roles = normalize roles' ↔ granted roles = granted roles' := by
  rw [normalize_eq_iff (ascending_normalize roles), toFinset_normalize]

/-- A role is granted if it is not empty and an entry trims to it. -/
theorem mem_granted_iff : r ∈ granted roles ↔ r ≠ "" ∧ ∃ entry ∈ roles, Text.Trims entry r := by
  rw [← mem_normalize]
  unfold normalize
  rw [mem_foldr_place, List.mem_filter, List.mem_map, decide_eq_true_eq, and_comm]
  simp only [Text.trims_iff, eq_comm]

/-- It does not matter how the entries are sorted: dropping what repeats its neighbour leaves the
normalized list. -/
theorem destutter_eq_normalize {sorted : List String}
    (perm : sorted.Perm ((roles.map Text.trim).filter (· ≠ "")))
    (ascending : sorted.Pairwise (· ≤ ·)) : sorted.destutter (· ≠ ·) = normalize roles := by
  rw [ascending.destutter_eq_dedup]
  have hlt : Ascending sorted.dedup := by
    have hle := ascending.sublist (List.dedup_sublist sorted)
    exact (hle.and (List.nodup_dedup sorted)).imp fun h => lt_of_le_of_ne h.1 h.2
  refine List.Pairwise.eq_of_mem_iff hlt (ascending_normalize roles) fun r => ?_
  unfold normalize
  rw [List.mem_dedup, perm.mem_iff, mem_foldr_place]

/-- The normalized form of a list is the set that the list stands for, in ascending order. -/
structure SetLaw (roles : List String) : Prop where
  mem_iff : ∀ r, r ∈ granted roles ↔ r ≠ "" ∧ ∃ entry ∈ roles, Text.Trims entry r
  toFinset : (normalize roles).toFinset = granted roles
  ascending : (normalize roles).Pairwise fun a b => Text.codes a < Text.codes b
  trimmed : ∀ r ∈ normalize roles, Text.allBlank r = false ∧ Text.trim r = r
  again : normalize (normalize roles) = normalize roles
  same_iff : ∀ roles', normalize roles = normalize roles' ↔ granted roles = granted roles'
  /-- White space around entries, their order and their number do not matter. -/
  entries : ∀ roles', (∀ r, r ∈ roles.map Text.trim ↔ r ∈ roles'.map Text.trim) →
    normalize roles = normalize roles'
  sorted : ∀ sorted : List String, sorted.Perm ((roles.map Text.trim).filter (· ≠ "")) →
    sorted.Pairwise (· ≤ ·) → sorted.destutter (· ≠ ·) = normalize roles

/-- **Sets.** Every role list is normalized to the set that it stands for. -/
theorem setLaw (roles : List String) : SetLaw roles where
  mem_iff r := mem_granted_iff
  toFinset := toFinset_normalize roles
  ascending := (ascending_normalize roles).imp Text.codes_lt_iff.2
  trimmed := by
    intro r hr
    obtain ⟨htrim, hne⟩ := trimmed_of_mem_normalize hr
    refine ⟨Bool.eq_false_iff.2 fun hb => hne ?_, htrim⟩
    rw [← htrim, Text.trim_eq_empty_iff]
    exact hb
  again := normalize_eq_self (ascending_normalize roles) fun _ => trimmed_of_mem_normalize
  same_iff roles' := normalize_eq_normalize_iff
  entries := by
    intro roles' h
    refine List.Pairwise.eq_of_mem_iff (ascending_normalize roles) (ascending_normalize roles')
      fun r => ?_
    unfold normalize
    rw [mem_foldr_place, mem_foldr_place, List.mem_filter, List.mem_filter, h]
  sorted _ := destutter_eq_normalize

example : normalize ["OWNER ", "", " ADMIN", "OWNER"] = ["ADMIN", "OWNER"] := by decide

end Roles
end Chronicle
