import Mathlib.Data.List.DropRight
import Mathlib.Data.List.TakeWhile
import Mathlib.Data.String.Basic
import Chronicle.Text.Blank
/-!
# Trimmed texts

Trimming takes the white space at both ends of a text away, and nothing else. So the text that is
left is the only one that can be left.

* `Text.trim_eq_empty_iff`, `Text.trim_trim`: what trims to nothing, and trimming twice;
* `Text.whiteSpace`, `Text.isBlank_iff`: white space, one code point after the other;
* `Text.Trims`: what it means that one text is another one trimmed;
* **`Text.trims_iff`**: `Text.trim` gives this text;
* `Text.codes`, `Text.codes_lt_iff`: the order of texts, by code points.
-/

namespace Chronicle.Text

variable {cs : List Char} {s t : String}

/-! ## Trimming twice -/

theorem trimChars_eq_nil_iff {cs : List Char} : trimChars cs = [] ↔ cs.all isBlank = true := by
  unfold trimChars
  rw [List.reverse_eq_nil_iff, List.dropWhile_eq_nil_iff, List.all_eq_true]
  constructor
  · intro h c hc
    by_contra hb
    -- what is left behind the leading blanks starts with a character that is none
    have hne : cs.dropWhile isBlank ≠ [] := fun hnil =>
      hb (List.dropWhile_eq_nil_iff.1 hnil c hc)
    have hhead := List.head_dropWhile_not isBlank hne
    have := h _ (List.mem_reverse.2 (List.head_mem hne))
    rw [hhead] at this
    cases this
  · intro h c hc
    exact h c (List.dropWhile_suffix _ |>.subset (List.mem_reverse.1 hc))

/-- A text trims to nothing if it holds blanks only. -/
theorem trim_eq_empty_iff {s : String} : trim s = "" ↔ allBlank s = true := by
  have : trim s = "" ↔ trimChars s.toList = [] := by
    unfold trim
    rw [← String.toList_inj, String.toList_ofList]
    rfl
  rw [this, trimChars_eq_nil_iff]
  rfl

theorem trimChars_eq_rdropWhile (cs : List Char) :
    trimChars cs = (cs.dropWhile isBlank).rdropWhile isBlank := rfl

/-- What is left starts as it did before, with a character that is no blank. -/
theorem dropWhile_trimChars (cs : List Char) : (trimChars cs).dropWhile isBlank = trimChars cs := by
  rw [trimChars_eq_rdropWhile]
  generalize hl : cs.dropWhile isBlank = l
  rw [List.dropWhile_eq_self_iff]
  intro hlt
  have hne : l ≠ [] := by
    rintro rfl
    exact absurd hlt (by simp)
  have hhead : (l.rdropWhile isBlank)[0] = l.head hne := by
    rw [(List.rdropWhile_prefix isBlank l).getElem hlt, List.head_eq_getElem]
  subst hl
  rw [hhead, List.head_dropWhile_not isBlank hne]
  exact Bool.false_ne_true

theorem trimChars_trimChars (cs : List Char) : trimChars (trimChars cs) = trimChars cs := by
  rw [trimChars_eq_rdropWhile (trimChars cs), dropWhile_trimChars, trimChars_eq_rdropWhile,
    List.rdropWhile_idempotent]

/-- A trimmed text is not trimmed any further. -/
theorem trim_trim (s : String) : trim (trim s) = trim s := by
  unfold trim
  rw [String.toList_ofList, trimChars_trimChars]

/-! ## White space -/

/-- The code points with the property `White_Space`. -/
def whiteSpace : List Nat :=
  [0x9, 0xA, 0xB, 0xC, 0xD, 0x20, 0x85, 0xA0, 0x1680, 0x2000, 0x2001, 0x2002, 0x2003, 0x2004, 0x2005,
    0x2006, 0x2007, 0x2008, 0x2009, 0x200A, 0x2028, 0x2029, 0x202F, 0x205F, 0x3000]

/-- The character is white space. -/
def White (c : Char) : Prop := c.toNat ∈ whiteSpace

theorem isBlank_iff {c : Char} : isBlank c = true ↔ White c := by
  unfold White whiteSpace isBlank blankRanges
  simp only [List.any_cons, List.any_nil, Bool.or_eq_true, Bool.and_eq_true, decide_eq_true_eq,
    List.mem_cons, List.not_mem_nil, Bool.or_false, or_false]
  omega

/-! ## What is left -/

/-- The characters neither start nor end with white space. -/
structure Bare (cs : List Char) : Prop where
  first : ∀ c ∈ cs.head?, ¬White c
  last : ∀ c ∈ cs.getLast?, ¬White c

/-- The text `t` is `s` without the white space at both ends. -/
structure Trims (s t : String) : Prop where
  around : ∃ front back, s.toList = front ++ t.toList ++ back ∧ (∀ c ∈ front, White c) ∧
    ∀ c ∈ back, White c
  bare : Bare t.toList

theorem bare_trimChars (cs : List Char) : Bare (trimChars cs) where
  first := by
    intro c hc
    have hfirst := dropWhile_trimChars cs
    rw [List.dropWhile_eq_self_iff] at hfirst
    obtain ⟨rest, hrest⟩ := List.head?_eq_some_iff.1 hc
    simp only [hrest] at hfirst
    exact isBlank_iff.not.1 (hfirst (by simp))
  last := by
    intro c hc
    obtain ⟨hne, rfl⟩ := List.mem_getLast?_eq_getLast hc
    exact isBlank_iff.not.1 (List.rdropWhile_last_not isBlank (cs.dropWhile isBlank) hne)

theorem exists_around_trimChars (cs : List Char) :
    ∃ front back, cs = front ++ trimChars cs ++ back ∧ (∀ c ∈ front, White c) ∧
      ∀ c ∈ back, White c := by
  refine ⟨cs.takeWhile isBlank, (cs.dropWhile isBlank).rtakeWhile isBlank, ?_,
    fun c hc => isBlank_iff.1 (List.mem_takeWhile_imp hc),
    fun c hc => isBlank_iff.1 (List.mem_rtakeWhile_imp hc)⟩
  rw [trimChars_eq_rdropWhile, List.append_assoc, List.rdropWhile_append_rtakeWhile,
    List.takeWhile_append_dropWhile]

/-- White space in front is dropped, up to where it ends. -/
theorem dropWhile_front {front rest : List Char} (white : ∀ c ∈ front, White c)
    (first : ∀ c ∈ rest.head?, ¬White c) : (front ++ rest).dropWhile isBlank = rest := by
  rw [List.dropWhile_append_of_pos fun c hc => isBlank_iff.2 (white c hc)]
  cases rest with
  | nil => rfl
  | cons c rest => exact List.dropWhile_cons_of_neg (isBlank_iff.not.2 (first c rfl))

theorem trimChars_around {front back : List Char} (hfront : ∀ c ∈ front, White c)
    (hback : ∀ c ∈ back, White c) (bare : Bare cs) : trimChars (front ++ cs ++ back) = cs := by
  by_cases hcs : cs = []
  · subst hcs
    rw [trimChars_eq_nil_iff, List.all_eq_true, List.append_nil]
    exact fun c hc => isBlank_iff.2 ((List.mem_append.1 hc).elim (hfront c) (hback c))
  · have hfirst : ∀ c ∈ (cs ++ back).head?, ¬White c := by
      rw [List.head?_append_of_ne_nil _ hcs]
      exact bare.first
    unfold trimChars
    -- from the other end, what is behind is in front
    rw [List.append_assoc, dropWhile_front hfront hfirst, List.reverse_append, dropWhile_front,
      List.reverse_reverse]
    · exact fun c hc => hback c (List.mem_reverse.1 hc)
    · rw [List.head?_reverse]
      exact bare.last

/-- **Trimming.** A trimmed text is the text without the white space at both ends. -/
theorem trims_iff : Trims s t ↔ t = trim s := by
  constructor
  · rintro ⟨⟨front, back, hs, hfront, hback⟩, bare⟩
    unfold trim
    rw [hs, trimChars_around hfront hback bare, String.ofList_toList]
  · rintro rfl
    have htrim : (trim s).toList = trimChars s.toList := String.toList_ofList
    refine ⟨?_, ?_⟩ <;> rw [htrim]
    · exact exists_around_trimChars s.toList
    · exact bare_trimChars s.toList

/-! ## The order of texts -/

/-- The code points of a text. -/
def codes (s : String) : List Nat := s.toList.map Char.toNat

theorem map_toNat_lt_iff {cs ds : List Char} :
    cs.map Char.toNat < ds.map Char.toNat ↔ cs < ds := by
  induction cs generalizing ds with
  | nil => cases ds <;> simp
  | cons c cs ih =>
    cases ds with
    | nil => simp
    | cons d ds =>
      rw [List.map_cons, List.map_cons, List.cons_lt_cons_iff, List.cons_lt_cons_iff, ih,
        Char.toNat_inj]
      rfl

/-- Texts are ordered by their code points, the first difference decides. -/
theorem codes_lt_iff : codes s < codes t ↔ s < t := by
  rw [String.lt_iff_toList_lt]
  exact map_toNat_lt_iff

end Chronicle.Text
