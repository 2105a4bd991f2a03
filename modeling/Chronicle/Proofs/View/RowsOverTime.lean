import Mathlib
import Chronicle.Proofs.Text.Trim
import Chronicle.Proofs.View.Scope
/-!
# Rows over time

Rows are put into a table and taken out, in any order, and now and then the table is cleared. What
is found under a key is told by the rows that were put under it since it was last emptied, and by
nothing else: it is the first of those with the greatest sequence. Every row stands under its own
key, so a listing that goes by a field of the rows lists what is found under the keys with this field.

* `RowWrite`, `RowWrite.since`: writes, and the rows that they leave to tell of a key;
* `Table.after`: writes one after the other, on a table without rows;
* `Table.get?_after`: **the row under a key**;
* `Table.RowLaw`, `Table.rowLaw`: what a table holds;
* `Table.mem_part_iff`, `Table.pairwise_part`: what a table lists;
* **`Table.rows_over_time`**: what the tables of the views hold and list.
-/

namespace Chronicle

/-! ## Writes -/

/-- A write to a table, or the end of all its rows. -/
inductive RowWrite (κ ρ : Type) where
  /-- Puts a row in, unless the row of its key has reached its sequence. -/
  | put (row : ρ)
  /-- Takes the row of `key` out, if there is one. -/
  | drop (key : κ)
  | clear

namespace RowWrite

variable {κ ρ : Type} [Row ρ κ]

/-- The key that is written to. Clearing a table is about all keys. -/
def key? : RowWrite κ ρ → Option κ
  | put row => some (Row.key row)
  | drop key => some key
  | clear => none

variable [DecidableEq κ] {ws : List (RowWrite κ ρ)} {w : RowWrite κ ρ} {k key : κ}

/-- Whether the write leaves no row under `key`, whatever was there. -/
def empties (key : κ) : RowWrite κ ρ → Bool
  | put _ => false
  | drop k => k = key
  | clear => true

/-- The row that the write puts under `key`. -/
def under? (key : κ) : RowWrite κ ρ → Option ρ
  | put row => if Row.key row = key then some row else none
  | _ => none

/-- The rows that were put under `key` since it was last emptied. -/
def since (ws : List (RowWrite κ ρ)) (key : κ) : List ρ :=
  (ws.rtakeWhile fun w => !w.empties key).filterMap fun w => w.under? key

theorem since_concat (ws : List (RowWrite κ ρ)) (w : RowWrite κ ρ) (key : κ) :
    since (ws ++ [w]) key
      = if w.empties key then [] else since ws key ++ (w.under? key).toList := by
  unfold since
  rw [List.rtakeWhile_concat]
  cases w.empties key with
  | true => rfl
  | false =>
    rw [Bool.not_false, if_pos rfl, List.filterMap_append]
    cases h : w.under? key <;> simp [h]

theorem since_concat_put (ws : List (RowWrite κ ρ)) (row : ρ) :
    since (ws ++ [.put row]) (Row.key row) = since ws (Row.key row) ++ [row] := by
  rw [since_concat]
  simp [empties, under?]

/-- A write to one key adds nothing to the rows of the other keys, and takes none of them away. -/
theorem since_concat_of_ne (hw : w.key? = some k) (hk : k ≠ key) :
    since (ws ++ [w]) key = since ws key := by
  rw [since_concat]
  cases w with
  | put row =>
    obtain rfl := Option.some.inj hw
    simp [empties, under?, hk]
  | drop k' =>
    obtain rfl := Option.some.inj hw
    simp [empties, under?, hk]
  | clear => cases hw

/-- Writes to other keys do not matter. -/
theorem since_filter (ws : List (RowWrite κ ρ)) (key : κ) :
    since (ws.filter fun w => w.key? = none ∨ w.key? = some key) key = since ws key := by
  induction ws using List.reverseRecOn with
  | nil => rfl
  | append_singleton ws w ih =>
    rw [List.filter_append]
    by_cases hw : w.key? = none ∨ w.key? = some key
    · rw [List.filter_cons_of_pos (by simpa using hw), List.filter_nil, since_concat,
        since_concat, ih]
    · rw [List.filter_cons_of_neg (by simpa using hw), List.filter_nil, List.append_nil, ih]
      obtain ⟨hclear, hother⟩ := not_or.1 hw
      obtain ⟨k, hk⟩ := Option.ne_none_iff_exists'.1 hclear
      exact (since_concat_of_ne hk fun he => hother (hk.trans (congrArg some he))).symm

end RowWrite

/-! ## The table behind writes -/

namespace Table

variable {κ ρ : Type} [SortKey κ] [Row ρ κ]

/-- The table behind a write. -/
def write (t : Table κ ρ) : RowWrite κ ρ → Table κ ρ
  | .put row => t.put row
  | .drop key => t.drop key
  | .clear => Index.empty

/-- The table behind writes, one after the other, on a table without rows. -/
def after (ws : List (RowWrite κ ρ)) : Table κ ρ :=
  ws.foldl write Index.empty

variable {t : Table κ ρ} {ws : List (RowWrite κ ρ)} {w : RowWrite κ ρ} {k key : κ} {row r : ρ}

theorem after_concat (ws : List (RowWrite κ ρ)) (w : RowWrite κ ρ) :
    after (ws ++ [w]) = (after ws).write w := by
  unfold after
  rw [List.foldl_append]
  rfl

/-- Behind any writes, every row stands under its own key. -/
theorem keyed_after (ws : List (RowWrite κ ρ)) : Table.Keyed (after ws) := by
  induction ws using List.reverseRecOn with
  | nil => exact keyed_empty
  | append_singleton ws w ih =>
    rw [after_concat]
    cases w with
    | put row => exact ih.put row
    | drop key => exact ih.drop key
    | clear => exact keyed_empty

/-- A write to one key leaves the other keys as they are. -/
theorem get?_write_of_ne (hw : w.key? = some k) (hk : k ≠ key) :
    (t.write w).get? key = t.get? key := by
  cases w with
  | put row =>
    obtain rfl := Option.some.inj hw
    exact get?_put_of_ne t (Ne.symm hk)
  | drop k' =>
    obtain rfl := Option.some.inj hw
    exact Index.get?_erase_of_ne (Ne.symm hk)
  | clear => cases hw

section Law

variable [DecidableEq κ]

/-- **The row under a key** is the first one with the greatest sequence among those that were put
there since the key was last emptied. -/
theorem get?_after (ws : List (RowWrite κ ρ)) (key : κ) :
    (after ws).get? key = (RowWrite.since ws key).argmax Row.sequence := by
  induction ws using List.reverseRecOn with
  | nil => rfl
  | append_singleton ws w ih =>
    rw [after_concat]
    cases w with
    | put row =>
      by_cases hk : Row.key row = key
      · subst hk
        rw [RowWrite.since_concat_put, List.argmax_concat, ← ih]
        change ((after ws).put row).get? (Row.key row) = _
        -- the row is held back exactly by one that is not behind it
        rcases put_cases (after ws) row with ⟨held, hget, hseq, hput⟩ | ⟨hall, hput⟩
        · rw [hput, hget]
          exact (if_neg (not_lt.2 hseq)).symm
        · rw [hput, Index.get?_insert_self]
          cases hget : (after ws).get? (Row.key row) with
          | none => rfl
          | some held => exact (if_pos (hall held hget)).symm
      · rw [get?_write_of_ne rfl hk, RowWrite.since_concat_of_ne rfl hk, ih]
    | drop k =>
      by_cases hk : k = key
      · subst hk
        rw [RowWrite.since_concat, if_pos (by simp [RowWrite.empties])]
        exact Index.get?_erase_self _ k
      · rw [get?_write_of_ne rfl hk, RowWrite.since_concat_of_ne rfl hk, ih]
    | clear =>
      rw [RowWrite.since_concat]
      rfl

example :
    let row (roles : List String) (sequence : Int) : MemberRow :=
      ⟨"iam", "ann", roles, sequence, ⟨0⟩, ⟨0⟩, "iam"⟩
    (after [.put (row [] 3), .clear, .put (row ["A"] 1), .put (row ["B"] 2), .put (row ["C"] 2)]).get?
      ("iam", "ann") = some (row ["B"] 2) := by
  decide

/-- A row that comes late, behind one that is not behind it, changes nothing. -/
theorem after_concat_late (hr : r ∈ RowWrite.since ws (Row.key row))
    (late : Row.sequence row ≤ Row.sequence r) : after (ws ++ [.put row]) = after ws := by
  rw [after_concat]
  change (after ws).put row = _
  cases hget : (after ws).get? (Row.key row) with
  | none =>
    rw [get?_after, List.argmax_eq_none] at hget
    rw [hget] at hr
    cases hr
  | some held =>
    have hheld : Row.sequence r ≤ Row.sequence held := by
      rw [get?_after] at hget
      exact List.le_of_mem_argmax hr hget
    exact put_eq_self hget (late.trans hheld)

/-- What a table holds behind writes. -/
structure RowLaw (ws : List (RowWrite κ ρ)) : Prop where
  keyed : ∀ key row, (after ws).get? key = some row → Row.key row = key
  /-- The first with the greatest sequence of the rows that were put under the key since it was last
  emptied, and nothing if there are none. -/
  get?_eq : ∀ key, (after ws).get? key = (RowWrite.since ws key).argmax Row.sequence
  late : ∀ row, (∃ r ∈ RowWrite.since ws (Row.key row), Row.sequence row ≤ Row.sequence r) →
    after (ws ++ [.put row]) = after ws
  apart : ∀ w k, w.key? = some k → ∀ key, k ≠ key →
    (after (ws ++ [w])).get? key = (after ws).get? key
  /-- Had the other keys not been written to, the same row would be there. -/
  alone : ∀ key, (after (ws.filter fun w => w.key? = none ∨ w.key? = some key)).get? key
    = (after ws).get? key

theorem rowLaw (ws : List (RowWrite κ ρ)) : RowLaw ws where
  keyed key row h := keyed_after ws h
  get?_eq := get?_after ws
  late := by
    rintro row ⟨r, hr, late⟩
    exact after_concat_late hr late
  apart := by
    intro w k hw key hk
    rw [after_concat, get?_write_of_ne hw hk]
  alone key := by
    rw [get?_after, get?_after, RowWrite.since_filter]

end Law

/-! ## Listings -/

section Select

variable {p : ρ → Bool}

/-- The rows that are listed are those that are found under their own keys. -/
theorem mem_select_iff (keyed : t.Keyed) :
    row ∈ t.select p ↔ t.get? (Row.key row) = some row ∧ p row = true := by
  unfold select Index.values
  rw [List.mem_filter, List.mem_map]
  refine and_congr_left fun _ => ⟨?_, fun h => ⟨(Row.key row, row), Index.mem_entries_iff.2 h, rfl⟩⟩
  rintro ⟨⟨k, row⟩, hmem, rfl⟩
  have hget := Index.mem_entries_iff.1 hmem
  rwa [keyed hget]

/-- Rows are listed in strictly ascending order of their keys. -/
theorem pairwise_select (keyed : t.Keyed) :
    (t.select p).Pairwise fun a b => SortKey.before (Row.key a) (Row.key b) = true := by
  unfold select Index.values
  refine List.Pairwise.filter p (List.pairwise_map.2 (t.ascending.imp_of_mem ?_))
  intro a b ha hb hab
  rwa [keyed (Index.mem_entries_iff.1 ha), keyed (Index.mem_entries_iff.1 hb)]

end Select

section Part

variable {α β : Type} [DecidableEq α] [SortKey α] [SortKey β] [Row ρ (α × β)]
  {t : Table (α × β) ρ} {a : α}

/-- The rows with one first part of the key are those that are found under it. -/
theorem mem_part_iff (keyed : t.Keyed) :
    row ∈ t.select (fun row => (Row.key row).1 == a) ↔ ∃ b, t.get? (a, b) = some row := by
  rw [mem_select_iff keyed, beq_iff_eq]
  constructor
  · rintro ⟨hget, rfl⟩
    exact ⟨(Row.key row).2, hget⟩
  · rintro ⟨b, hget⟩
    have hkey : Row.key row = (a, b) := keyed hget
    exact ⟨hkey ▸ hget, congrArg Prod.fst hkey⟩

/-- The rows with one first part of the key are listed in strictly ascending order of the other. -/
theorem pairwise_part (keyed : t.Keyed) (a : α) :
    (t.select fun row => (Row.key row).1 == a).Pairwise fun r s =>
      SortKey.before (Row.key r).2 (Row.key s).2 = true := by
  refine (pairwise_select keyed).imp_of_mem fun {r s} hr hs hbefore => ?_
  have hpart : (Row.key r).1 = (Row.key s).1 :=
    (eq_of_beq ((mem_select_iff keyed).1 hr).2).trans
      (eq_of_beq ((mem_select_iff keyed).1 hs).2).symm
  change (SortKey.before (Row.key r).1 (Row.key s).1 ||
    (decide ((Row.key r).1 = (Row.key s).1) && SortKey.before (Row.key r).2 (Row.key s).2))
      = true at hbefore
  rwa [hpart, SortKey.irrefl, decide_eq_true rfl, Bool.false_or, Bool.true_and] at hbefore

end Part
end Table

/-- The order of mail texts: by template, then by language, both by code points. -/
def MailTextKey.Precedes (a b : MailTextKey) : Prop :=
  Text.codes a.template < Text.codes b.template ∨
    a.template = b.template ∧ Text.codes a.language < Text.codes b.language

theorem MailTextKey.precedes_iff {a b : MailTextKey} :
    a.Precedes b ↔ SortKey.before a b = true := by
  change _ ↔ (decide (a.template < b.template) ||
    (decide (a.template = b.template) && decide (a.language < b.language))) = true
  simp [Precedes, Text.codes_lt_iff]

/-- **Rows over time.** Behind any writes to the tables of policies, of mail texts and of members,
every row stands under its own key, and the row under a key is the first one with the greatest
sequence among those that were put there since the key was last taken out or the table cleared. So a
row that comes late changes nothing, and writes to one key change no other one. The default of an
instance is the row under its identifier if this row is flagged as a default. The mail texts and the
members of an instance are listed each once, the mail texts by template and language and the members
by user. -/
theorem Table.rows_over_time :
    (∀ (S : Type) (ws : List (RowWrite String (PolicyRow S))), RowLaw ws ∧
      ∀ iam row, PolicyRow.default? (after ws) iam = some row ↔
        (after ws).get? iam = some row ∧ row.isDefault = true) ∧
    (∀ (v : Views) (ws : List (RowWrite (String × MailTextKey) MailTextRow)), RowLaw ws ∧
      ∀ iam, let listed := { v with mailText := after ws }.mailTexts iam
        (∀ row, row ∈ listed ↔ ∃ key, (after ws).get? (iam, key) = some row) ∧
        listed.Pairwise fun a b => a.key.Precedes b.key) ∧
    ∀ (v : Views) (ws : List (RowWrite (String × String) MemberRow)), RowLaw ws ∧
      ∀ iam, let listed := { v with member := after ws }.members iam
        (∀ row, row ∈ listed ↔ ∃ user, (after ws).get? (iam, user) = some row) ∧
        listed.Pairwise fun a b => Text.codes a.user < Text.codes b.user := by
  refine ⟨fun S ws => ⟨rowLaw ws, fun iam row => PolicyRow.default?_eq_some_iff⟩,
    fun v ws => ⟨rowLaw ws, fun iam => ⟨fun row => mem_part_iff (keyed_after ws), ?_⟩⟩,
    fun v ws => ⟨rowLaw ws, fun iam => ⟨fun row => mem_part_iff (keyed_after ws), ?_⟩⟩⟩
  · exact (pairwise_part (keyed_after ws) iam).imp MailTextKey.precedes_iff.2
  · exact (pairwise_part (keyed_after ws) iam).imp fun h =>
      Text.codes_lt_iff.2 (of_decide_eq_true h)

end Chronicle
