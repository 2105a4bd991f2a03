import Chronicle.Proofs.Loop.Overlap
import Chronicle.Proofs.View.Agreement
/-!
# Starting again from an older watermark

A view that starts again from an older watermark folds events that it has folded before. Every row is
folded on its own, from the events about its key. A row that is there has reached all of them, so it
stays as it is up to an event that ends it, and from there on everything is as it was the first time.
A row that is gone has left no trace. If the first event about it puts it in, everything is as it was
the first time; if that event changes it, there is nothing to change and the fold fails.

* `Instruction.move`, `Projection.moveAt`: what an instruction and an event do to one row;
* `Projection.Lawful.refold_some`, `Projection.Lawful.refold_none`: one row that is folded again;
* `Projection.Lawful.foldlM_iff`: rows are folded on their own;
* `Projection.Orphans`: a row that is gone is changed before it is put in;
* `Projection.Lawful.refold_iff`: when the last events of a list can be folded again;
* **`ViewKind.harmless_iff`**: when a stream can be folded again from anywhere.
-/

namespace Chronicle

variable {κ ρ : Type} [Row ρ κ]

/-- What an instruction does to the row of its key. -/
def Instruction.move : Instruction κ ρ → Option ρ → Except Error (Option ρ)
  | .put row, none => .ok (some row)
  | .put row, some held => .ok (some (if Row.sequence row ≤ Row.sequence held then held else row))
  | .revise _ missing _ _, none => .error missing
  | .revise _ _ s change, some held =>
    .ok (some (if s ≤ Row.sequence held then held else change held))
  | .drop _, _ => .ok none

namespace Projection

/-- The event is about the row of a key. -/
def About (p : Projection κ ρ) (key : κ) (e : Event) : Prop :=
  ∃ i, p.instruction e = .ok i ∧ i.key = key

/-- The event changes the row of a key, which has to be there. -/
def Revises (p : Projection κ ρ) (key : κ) (e : Event) : Prop :=
  ∃ missing s change, p.instruction e = .ok (.revise key missing s change)

/-- The first of the events that is about a key changes its row. -/
def RevisedFirst (p : Projection κ ρ) (key : κ) (es : List Event) : Prop :=
  ∃ before e after, es = before ++ e :: after ∧ (∀ e' ∈ before, ¬p.About key e') ∧ p.Revises key e

/-- There is no row under a key, and the first of the events about it changes its row. -/
def Orphans [SortKey κ] (p : Projection κ ρ) (t : Table κ ρ) (es : List Event) (key : κ) : Prop :=
  t.get? key = none ∧ p.RevisedFirst key es

variable {p : Projection κ ρ} {e : Event} {es pre post : List Event} {key : κ}

theorem revisedFirst_cons_of_not (h : ¬p.About key e) :
    p.RevisedFirst key (e :: es) ↔ p.RevisedFirst key es := by
  constructor
  · rintro ⟨before, a, after, hes, hbefore, ha⟩
    cases before with
    | nil =>
      obtain ⟨rfl, -⟩ := List.cons.inj hes
      obtain ⟨missing, s, change, hi⟩ := ha
      exact absurd ⟨_, hi, rfl⟩ h
    | cons b before =>
      obtain ⟨-, rfl⟩ := List.cons.inj hes
      exact ⟨before, a, after, rfl, fun e' he' => hbefore e' (List.mem_cons_of_mem _ he'), ha⟩
  · rintro ⟨before, a, after, rfl, hbefore, ha⟩
    exact ⟨e :: before, a, after, rfl, List.forall_mem_cons.2 ⟨h, hbefore⟩, ha⟩

theorem revisedFirst_cons_of_about (h : p.About key e) :
    p.RevisedFirst key (e :: es) ↔ p.Revises key e := by
  constructor
  · rintro ⟨before, a, after, hes, hbefore, ha⟩
    cases before with
    | nil =>
      obtain ⟨rfl, -⟩ := List.cons.inj hes
      exact ha
    | cons b before =>
      obtain ⟨rfl, -⟩ := List.cons.inj hes
      exact absurd h (hbefore _ List.mem_cons_self)
  · exact fun ha => ⟨[], e, es, rfl, nofun, ha⟩

/-! ## One row -/

section rows

variable {held held' : Option ρ} {row : ρ} {i : Instruction κ ρ} {n : Int}

/-- An instruction leaves behind the row that was there, or one that has reached the event. -/
theorem Lawful.sequence_of_move (hp : p.Lawful) (hi : p.instruction e = .ok i)
    (h : i.move held = .ok (some row)) :
    held = some row ∧ e.sequence ≤ Row.sequence row ∨ Row.sequence row = e.sequence := by
  cases i with
  | put new =>
    have hnew := hp.put hi
    cases held with
    | none =>
      cases h
      exact .inr hnew
    | some old =>
      by_cases hs : Row.sequence new ≤ Row.sequence old
      · rw [Instruction.move, if_pos hs] at h
        cases h
        exact .inl ⟨rfl, by omega⟩
      · rw [Instruction.move, if_neg hs] at h
        cases h
        exact .inr hnew
  | revise k missing s change =>
    obtain ⟨rfl, hc⟩ := hp.revise hi
    cases held with
    | none => cases h
    | some old =>
      by_cases hs : e.sequence ≤ Row.sequence old
      · rw [Instruction.move, if_pos hs] at h
        cases h
        exact .inl ⟨rfl, hs⟩
      · rw [Instruction.move, if_neg hs] at h
        cases h
        exact .inr (hc old).2
  | drop k => cases h

/-- An instruction leaves a row alone that has reached the event, unless it ends it. -/
theorem Lawful.move_of_reached (hp : p.Lawful) (hi : p.instruction e = .ok i)
    (reached : e.sequence ≤ Row.sequence row) :
    i.move (some row) = .ok (some row) ∨ ∀ held, i.move held = .ok none := by
  cases i with
  | put new =>
    have hnew := hp.put hi
    rw [Instruction.move, if_pos (by omega)]
    exact .inl rfl
  | revise k missing s change =>
    obtain ⟨rfl, -⟩ := hp.revise hi
    rw [Instruction.move, if_pos reached]
    exact .inl rfl
  | drop k => exact .inr fun held => rfl

variable [DecidableEq κ]

/-- What an event does to the row of a key. -/
def moveAt (p : Projection κ ρ) (key : κ) (held : Option ρ) (e : Event) :
    Except Error (Option ρ) :=
  match p.instruction e with
  | .error err => .error err
  | .ok i => if i.key = key then i.move held else .ok held

theorem moveAt_of_key (hi : p.instruction e = .ok i) (hkey : i.key = key) :
    p.moveAt key held e = i.move held := by
  simp [moveAt, hi, hkey]

theorem moveAt_of_ne (hi : p.instruction e = .ok i) (hkey : i.key ≠ key) :
    p.moveAt key held e = .ok held := by
  simp [moveAt, hi, hkey]

/-- What moves one row can be read. -/
theorem exists_instruction_of_moveAt (h : p.moveAt key held e = .ok held') :
    ∃ i, p.instruction e = .ok i := by
  unfold moveAt at h
  cases hi : p.instruction e with
  | error err => simp [hi] at h
  | ok i => exact ⟨i, rfl⟩

theorem foldlM_concat_eq_ok (h : (es ++ [e]).foldlM (p.moveAt key) held = .ok held') :
    ∃ mid, es.foldlM (p.moveAt key) held = .ok mid ∧ p.moveAt key mid e = .ok held' := by
  rw [List.foldlM_append] at h
  obtain ⟨mid, hmid, h⟩ := exists_of_bind_eq_ok h
  exact ⟨mid, hmid, by rwa [← bind_pure (p.moveAt key mid e)]⟩

/-- A row has reached every event about it. -/
theorem Lawful.le_of_foldlM (hp : p.Lawful) (asc : es.Pairwise fun a b => a.sequence < b.sequence)
    (h : es.foldlM (p.moveAt key) held = .ok (some row)) (he : e ∈ es) (about : p.About key e) :
    e.sequence ≤ Row.sequence row := by
  induction es using List.reverseRecOn generalizing row with
  | nil => cases he
  | append_singleton es a ih =>
    obtain ⟨mid, hes, ha⟩ := foldlM_concat_eq_ok h
    obtain ⟨i, hi⟩ := exists_instruction_of_moveAt ha
    obtain ⟨hasc, -, hlt⟩ := List.pairwise_append.1 asc
    have hea : e ∈ es ∨ e = a := by simpa using he
    by_cases hkey : i.key = key
    · rw [moveAt_of_key hi hkey] at ha
      have hle : e.sequence ≤ a.sequence := by
        rcases hea with hmem | rfl
        · exact Int.le_of_lt (hlt e hmem a List.mem_cons_self)
        · exact Int.le_refl _
      rcases hp.sequence_of_move hi ha with ⟨-, hs⟩ | hs <;> omega
    · rw [moveAt_of_ne hi hkey] at ha
      rcases hea with hmem | rfl
      · exact ih hasc (hes.trans ha) hmem
      · obtain ⟨j, hj, hkey'⟩ := about
        cases hi.symm.trans hj
        exact absurd hkey' hkey

/-- A row is behind everything that is behind the events it was folded from. -/
theorem Lawful.lt_of_foldlM (hp : p.Lawful) (hes : ∀ e ∈ es, e.sequence < n)
    (h : es.foldlM (p.moveAt key) none = .ok (some row)) : Row.sequence row < n := by
  induction es using List.reverseRecOn generalizing row with
  | nil => cases h
  | append_singleton es a ih =>
    obtain ⟨mid, hfold, ha⟩ := foldlM_concat_eq_ok h
    obtain ⟨i, hi⟩ := exists_instruction_of_moveAt ha
    have hbefore (r : ρ) (hr : mid = some r) : Row.sequence r < n :=
      ih (fun e he => hes e (List.mem_append_left _ he)) (hr ▸ hfold)
    by_cases hkey : i.key = key
    · rw [moveAt_of_key hi hkey] at ha
      rcases hp.sequence_of_move hi ha with ⟨hsame, -⟩ | hs
      · exact hbefore row hsame
      · have := hes a (by simp)
        omega
    · rw [moveAt_of_ne hi hkey] at ha
      exact hbefore row (Except.ok.inj ha)

/-- **A row that is there** stays as it is up to an event that ends it, and from there on it is as it
was the first time. -/
theorem Lawful.refold_some (hp : p.Lawful) (h : es.foldlM (p.moveAt key) held = .ok (some row))
    (reached : ∀ e ∈ es, p.About key e → e.sequence ≤ Row.sequence row) :
    es.foldlM (p.moveAt key) (some row) = .ok (some row) := by
  induction es generalizing held with
  | nil => rfl
  | cons e es ih =>
    rw [List.foldlM_cons] at h ⊢
    obtain ⟨mid, hmid, h⟩ := exists_of_bind_eq_ok h
    obtain ⟨i, hi⟩ := exists_instruction_of_moveAt hmid
    have hrest := ih h fun e' he' => reached e' (List.mem_cons_of_mem _ he')
    by_cases hkey : i.key = key
    · rw [moveAt_of_key hi hkey] at hmid ⊢
      rcases hp.move_of_reached hi (reached e List.mem_cons_self ⟨i, hi, hkey⟩) with hsame | hends
      · rw [hsame]
        exact hrest
      · rw [hends] at hmid ⊢
        cases hmid
        exact h
    · rw [moveAt_of_ne hi hkey]
      exact hrest

/-- **A row that is gone** is as it was the first time, unless it is changed before it is put in. -/
theorem Lawful.refold_none (hp : p.Lawful) (h : es.foldlM (p.moveAt key) held = .ok none)
    (older : ∀ r, held = some r → ∀ e ∈ es, Row.sequence r < e.sequence) :
    es.foldlM (p.moveAt key) none = .ok none ∧ ¬p.RevisedFirst key es ∨
      (∃ err, es.foldlM (p.moveAt key) none = .error err) ∧ p.RevisedFirst key es := by
  induction es generalizing held with
  | nil => exact .inl ⟨rfl, by rintro ⟨before, e, after, hes, -⟩; simp at hes⟩
  | cons e es ih =>
    rw [List.foldlM_cons] at h ⊢
    obtain ⟨mid, hmid, h⟩ := exists_of_bind_eq_ok h
    obtain ⟨i, hi⟩ := exists_instruction_of_moveAt hmid
    by_cases hkey : i.key = key
    · rw [revisedFirst_cons_of_about ⟨i, hi, hkey⟩]
      rw [moveAt_of_key hi hkey] at hmid ⊢
      cases i with
      | put new =>
        -- a row that was there the first time was older, so it was replaced
        have hnew : mid = some new := by
          cases held with
          | none => exact (Except.ok.inj hmid).symm
          | some old =>
            have hseq := hp.put hi
            have hlt := older old rfl e List.mem_cons_self
            rw [Instruction.move, if_neg (by omega)] at hmid
            exact (Except.ok.inj hmid).symm
        subst hnew
        refine .inl ⟨h, ?_⟩
        rintro ⟨missing, s, change, hr⟩
        cases hi.symm.trans hr
      | revise k missing s change =>
        obtain rfl : k = key := hkey
        exact .inr ⟨⟨missing, rfl⟩, missing, s, change, hi⟩
      | drop k =>
        cases hmid
        refine .inl ⟨h, ?_⟩
        rintro ⟨missing, s, change, hr⟩
        cases hi.symm.trans hr
    · have hnot : ¬p.About key e := by
        rintro ⟨j, hj, hkey'⟩
        cases hi.symm.trans hj
        exact hkey hkey'
      rw [revisedFirst_cons_of_not hnot]
      rw [moveAt_of_ne hi hkey] at hmid ⊢
      cases hmid
      exact ih h fun r hr e' he' => older r hr e' (List.mem_cons_of_mem _ he')

/-! ## All rows -/

variable [SortKey κ] {t t' : Table κ ρ}

/-- A put moves the row of its key and no other one. -/
theorem get?_put (t : Table κ ρ) (new : ρ) (key : κ) :
    (if Row.key new = key then (Instruction.put new).move (t.get? key)
      else .ok (t.get? key)) = .ok ((t.put new).get? key) := by
  by_cases hkey : Row.key new = key
  · subst hkey
    rw [if_pos rfl]
    unfold Table.put
    cases hg : t.get? (Row.key new) with
    | none => simp [Instruction.move]
    | some held =>
      by_cases hs : Row.sequence new ≤ Row.sequence held <;> simp [Instruction.move, hs, hg]
  · rw [if_neg hkey, Table.get?_put_of_ne t (Ne.symm hkey)]

/-- A fold moves every row as the event says. -/
theorem Lawful.moveAt_of_fold (hp : p.Lawful) (hk : t.Keyed) (h : p.fold t e = .ok t') (key : κ) :
    p.moveAt key (t.get? key) e = .ok (t'.get? key) := by
  rcases fold_cases h with ⟨new, hi, rfl⟩ | ⟨k, missing, s, change, row, hi, hg, hr⟩ | ⟨k, hi, rfl⟩
  · rw [← get?_put t new key]
    unfold moveAt
    rw [hi]
    rfl
  · obtain ⟨rfl, hc⟩ := hp.revise hi
    rcases hr with ⟨hs, rfl⟩ | ⟨hs, rfl⟩
    · by_cases hkey : k = key
      · subst hkey
        have hmove : p.moveAt k (t'.get? k) e = _ := moveAt_of_key hi rfl
        rw [hmove, hg, Instruction.move, if_pos hs]
      · exact moveAt_of_ne hi hkey
    · have hown : Row.key (change row) = k := by rw [(hc row).1, hk hg]
      rw [← get?_put t (change row) key]
      by_cases hkey : k = key
      · subst hkey
        have hmove : p.moveAt k (t.get? k) e = _ := moveAt_of_key hi rfl
        rw [hmove, if_pos hown, hg, Instruction.move, Instruction.move, (hc row).2]
      · rw [moveAt_of_ne hi hkey, if_neg (by rwa [hown])]
  · by_cases hkey : k = key
    · subst hkey
      have hmove : p.moveAt k (t.get? k) e = _ := moveAt_of_key hi rfl
      rw [hmove, Table.drop, Index.get?_erase_self]
      rfl
    · rw [moveAt_of_ne hi hkey, Table.drop, Index.get?_erase_of_ne (Ne.symm hkey)]

/-- A fold does not fail where the row of the event can be moved. -/
theorem exists_fold_of_moveAt (hi : p.instruction e = .ok i)
    (h : p.moveAt i.key (t.get? i.key) e = .ok held) : ∃ t', p.fold t e = .ok t' := by
  rw [moveAt_of_key hi rfl] at h
  obtain ⟨edit, hedit⟩ : ∃ edit, i.edit t.get? = .ok edit := by
    cases hg : t.get? i.key with
    | some row => exact Instruction.exists_edit hg
    | none =>
      rw [hg] at h
      cases i with
      | put row => exact ⟨_, rfl⟩
      | drop k => exact ⟨_, rfl⟩
      | revise k missing s change => cases h
  have hread : p.edit t e = .ok edit := by rw [Projection.edit, hi, ← hedit]
  exact ⟨edit.apply t, fold_of_edit hread⟩

/-- **Rows on their own.** To fold events is to move every row on its own. -/
theorem Lawful.foldlM_iff (hp : p.Lawful) (hk : t.Keyed)
    (legible : ∀ e ∈ es, ∃ i, p.instruction e = .ok i) :
    es.foldlM p.fold t = .ok t' ↔
      ∀ key, es.foldlM (p.moveAt key) (t.get? key) = .ok (t'.get? key) := by
  induction es generalizing t with
  | nil =>
    constructor
    · rintro ⟨⟩ key
      rfl
    · exact fun h => congrArg Except.ok (Index.eq_of_get?_eq fun key => Except.ok.inj (h key))
  | cons e es ih =>
    have hrest (e' : Event) (he' : e' ∈ es) := legible e' (List.mem_cons_of_mem _ he')
    obtain ⟨i, hi⟩ := legible e List.mem_cons_self
    constructor
    · intro h key
      rw [List.foldlM_cons] at h ⊢
      obtain ⟨t₁, hf, h⟩ := exists_of_bind_eq_ok h
      rw [hp.moveAt_of_fold hk hf key]
      exact (ih (keyed_fold hf hk) hrest).1 h key
    · intro h
      have hown := h i.key
      rw [List.foldlM_cons] at hown ⊢
      obtain ⟨held, hheld, -⟩ := exists_of_bind_eq_ok hown
      obtain ⟨t₁, hf⟩ := exists_fold_of_moveAt hi hheld
      rw [hf]
      refine (ih (keyed_fold hf hk) hrest).2 fun key => ?_
      have hkey := h key
      rwa [List.foldlM_cons, hp.moveAt_of_fold hk hf key] at hkey

end rows

variable [SortKey κ] {t t' : Table κ ρ}

/-- What is folded can be read. -/
theorem exists_instruction_of_foldlM (h : es.foldlM p.fold t = .ok t') :
    ∀ e ∈ es, ∃ i, p.instruction e = .ok i := by
  induction es generalizing t with
  | nil => nofun
  | cons e es ih =>
    rw [List.foldlM_cons] at h
    obtain ⟨t₁, hf, h⟩ := exists_of_bind_eq_ok h
    refine List.forall_mem_cons.2 ⟨?_, ih h⟩
    rcases fold_cases hf with ⟨_, hi, -⟩ | ⟨_, _, _, _, _, hi, -⟩ | ⟨_, hi, -⟩ <;> exact ⟨_, hi⟩

open Classical in
/-- One row, when the last events of a list are folded again. -/
theorem Lawful.refold_row (hp : p.Lawful)
    (asc : (pre ++ post).Pairwise fun a b => a.sequence < b.sequence)
    (h : p.rowsAfter (pre ++ post) = .ok t) (key : κ) :
    post.foldlM (p.moveAt key) (t.get? key) = .ok (t.get? key) ∧ ¬p.Orphans t post key ∨
      (∃ err, post.foldlM (p.moveAt key) (t.get? key) = .error err) ∧ p.Orphans t post key := by
  have hall := (hp.foldlM_iff Table.keyed_empty (exists_instruction_of_foldlM h)).1 h key
  have hrest := hall
  rw [List.foldlM_append] at hrest
  obtain ⟨held, hpre, hpost⟩ := exists_of_bind_eq_ok hrest
  unfold Orphans
  cases hg : t.get? key with
  | some row =>
    rw [hg] at hall hpost
    have hreached : ∀ e ∈ post, p.About key e → e.sequence ≤ Row.sequence row :=
      fun e he => hp.le_of_foldlM asc hall (List.mem_append_right _ he)
    exact .inl ⟨hp.refold_some hpost hreached, fun horphan => nomatch horphan.1⟩
  | none =>
    rw [hg] at hpost
    have holder : ∀ r, held = some r → ∀ e ∈ post, Row.sequence r < e.sequence := by
      rintro r rfl e he
      exact hp.lt_of_foldlM (fun e' he' => (List.pairwise_append.1 asc).2.2 e' he' e he) hpre
    exact (hp.refold_none hpost holder).imp (And.imp_right fun hnot horphan => hnot horphan.2)
      (And.imp_right fun hfirst => ⟨rfl, hfirst⟩)

/-- **Folding the last events again.** It leaves the rows as they are or it fails, and it fails
exactly if a row that is gone is changed before it is put in. -/
theorem Lawful.refold_iff (hp : p.Lawful)
    (asc : (pre ++ post).Pairwise fun a b => a.sequence < b.sequence)
    (h : p.rowsAfter (pre ++ post) = .ok t) :
    (post.foldlM p.fold t = .ok t ↔ ∀ key, ¬p.Orphans t post key) ∧
      ∀ t', post.foldlM p.fold t = .ok t' → t' = t := by
  classical
  have legible : ∀ e ∈ post, ∃ i, p.instruction e = .ok i :=
    fun e he => exists_instruction_of_foldlM h e (List.mem_append_right _ he)
  have hrows (u : Table κ ρ) : post.foldlM p.fold t = .ok u ↔
      ∀ key, post.foldlM (p.moveAt key) (t.get? key) = .ok (u.get? key) :=
    hp.foldlM_iff (keyed_rowsAfter h) legible
  refine ⟨⟨fun hok key horphan => ?_, fun hno => ?_⟩, fun t' hok => ?_⟩
  · rcases hp.refold_row asc h key with ⟨-, hnot⟩ | ⟨⟨err, herr⟩, -⟩
    · exact hnot horphan
    · cases herr.symm.trans ((hrows t).1 hok key)
  · refine (hrows t).2 fun key => ?_
    rcases hp.refold_row asc h key with ⟨hsame, -⟩ | ⟨-, horphan⟩
    · exact hsame
    · exact absurd horphan (hno key)
  · refine Index.eq_of_get?_eq fun key => ?_
    rcases hp.refold_row asc h key with ⟨hsame, -⟩ | ⟨⟨err, herr⟩, -⟩
    · exact Except.ok.inj (((hrows t').1 hok key).symm.trans hsame)
    · cases herr.symm.trans ((hrows t').1 hok key)

/-- Where no row ends, none is gone that any event is about. -/
theorem Lawful.not_orphans (hp : p.Lawful) (h : p.rowsAfter es = .ok t)
    (hd : ∀ e ∈ es, ¬p.Drops e) (hsub : ∀ e ∈ post, e ∈ es) (key : κ) : ¬p.Orphans t post key := by
  rintro ⟨hnone, before, e, after, rfl, -, missing, s, change, hi⟩
  obtain ⟨row, hg, -⟩ := hp.reached_of_mem h (hsub e (by simp)) hd _ hi
  cases hnone.symm.trans hg

end Projection

/-! ## Streams -/

/-- **Older watermarks.** Take a stream that commands led to and those of its events that a view
follows. They can be folded in order. Then those behind any number of them are folded again: this
leaves the rows as they are or it fails, and it fails exactly if, for some key, the row is gone and
the first event about it is a change. So it never fails for a view in which no row ends. -/
theorem ViewKind.harmless_iff (v : ViewKind) (schemas : Option SchemaSet) (errands : List Errand)
    (kind id : String) (k : Nat) :
    let log := ({ schemas := schemas } : EventLog).after errands
    let es := (log.history kind id).filter v.query.admits
    ∃ t, v.projection.rowsAfter es = .ok t ∧
      ((es.drop k).foldlM v.projection.fold t = .ok t ↔
        ∀ key, ¬v.projection.Orphans t (es.drop k) key) ∧
      (∀ t', (es.drop k).foldlM v.projection.fold t = .ok t' → t' = t) ∧
      (v.Lasting log → (es.drop k).foldlM v.projection.fold t = .ok t) := by
  intro log es
  have hnil : ({ schemas := schemas } : EventLog).events = [] := rfl
  have n : log.Numbered := (EventLog.kept_after hnil errands).numbered
  obtain ⟨T, hT⟩ := EventLog.exists_agrees_after hnil errands kind id
  have hes : es = (log.ofStream kind id).filter v.query.admits := by
    rw [← n.history_eq]
  have hrows : v.projection.rowsAfter es = .ok (T v) := by
    rw [hes]
    exact hT.follows v
  have hasc : (es.take k ++ es.drop k).Pairwise fun a b => a.sequence < b.sequence := by
    rw [List.take_append_drop, hes]
    exact (List.pairwise_map.1 (n.sequence kind id).pairwise).filter _
  have hsplit : v.projection.rowsAfter (es.take k ++ es.drop k) = .ok (T v) := by
    rwa [List.take_append_drop]
  obtain ⟨hiff, hsame⟩ := v.lawful.refold_iff hasc hsplit
  refine ⟨T v, hrows, hiff, hsame, fun lasting => hiff.2 ?_⟩
  refine v.lawful.not_orphans hrows (fun e he => ?_) fun e he => List.mem_of_mem_drop he
  rw [hes] at he
  obtain ⟨hstream, hadmits⟩ := List.mem_filter.1 he
  exact lasting e (List.mem_filter.1 hstream).1 hadmits

/-- A policy is added, changed and removed. The change cannot be folded again, because nothing is left
of the row. -/
theorem ViewKind.not_harmless_of_removed_row :
    let log := EventLog.fresh.after
      [⟨⟨.lockout (.org "acme"), .add ⟨5, true⟩⟩, "root", ⟨0⟩⟩,
        ⟨⟨.lockout (.org "acme"), .change ⟨3, true⟩⟩, "root", ⟨0⟩⟩,
        ⟨⟨.lockout (.org "acme"), .remove⟩, "root", ⟨0⟩⟩]
    let es := (log.history "org" "acme").filter lockout.query.admits
    ∃ t, lockout.projection.rowsAfter es = .ok t ∧
      (es.drop 1).foldlM lockout.projection.fold t
        = .error (.violation (.missingRow "projections.lockout_policies" "acme" 2)) := by
  intro log es
  let before := EventLog.fresh.after
    [⟨⟨.lockout (.org "acme"), .add ⟨5, true⟩⟩, "root", ⟨0⟩⟩,
      ⟨⟨.lockout (.org "acme"), .change ⟨3, true⟩⟩, "root", ⟨0⟩⟩]
  have hbefore : before.Kept := EventLog.kept_after rfl _
  have n : log.Numbered := (EventLog.kept_after rfl _).numbered
  -- the policy is in effect, so it is removed
  have hlog : log = before.record (.policy (.org "acme") (.lockout .removed)) "root" ⟨0⟩ := by
    let c : Command := ⟨.lockout (.org "acme"), .remove⟩
    obtain ⟨a, ha, -⟩ := hbefore.loads c.subject
    have hanswer : (c.subject.decider.replay c.subject.decider.fresh
        (before.ofStream "org" "acme")).map (fun a => c.subject.decider.answer c.request a.state)
          = .ok (.ok (PolicyEvent.lockout .removed)) := by
      decide +kernel
    have hload : c.subject.decider.replay c.subject.decider.fresh (before.ofStream "org" "acme")
        = .ok a := by
      rw [← hbefore.numbered.history_eq]
      exact ha
    rw [hload] at hanswer
    exact c.land_of_answer hbefore.numbered ha (Except.ok.inj hanswer) (by decide +kernel)
  have hruns : (lockout.projection.rowsAfter es).map
      (fun t => ((es.drop 1).foldlM lockout.projection.fold t).map fun _ => ())
        = .ok (.error (.violation (.missingRow "projections.lockout_policies" "acme" 2))) := by
    have hes : es = (log.ofStream "org" "acme").filter lockout.query.admits := by
      rw [← n.history_eq]
    rw [hes, hlog]
    decide +kernel
  cases hrows : lockout.projection.rowsAfter es with
  | error err =>
    rw [hrows] at hruns
    cases hruns
  | ok t =>
    rw [hrows] at hruns
    have hagain : ((es.drop 1).foldlM lockout.projection.fold t).map (fun _ => ()) = _ :=
      Except.ok.inj hruns
    refine ⟨t, rfl, ?_⟩
    cases hfold : (es.drop 1).foldlM lockout.projection.fold t with
    | error err =>
      rw [hfold] at hagain
      exact congrArg Except.error (Except.error.inj hagain)
    | ok t' =>
      rw [hfold] at hagain
      cases hagain

end Chronicle
