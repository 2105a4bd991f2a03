import Mathlib.Data.List.Induction
import Mathlib.Data.Nat.Digits.Defs
import Chronicle.Text.Numeral
/-!
# The grammar of numerals

A numeral is an optional plus sign and one digit or more, and it denotes the number that the digits
are written for. A reading takes a text exactly if it is such a numeral and its number is within the
bound. Otherwise it says what it meets first from the left: that there is nothing to read, a character
that is no digit, or a digit that leads past the bound.

* `Numeral.Digit`, `Numeral.value`: digits, and the number that they are written for;
* `Numeral.Unsigned`, `Numeral.Denotes`: a text behind its sign, and the number of a text;
* `Numeral.Within`, `Numeral.Stops`: digits within a bound, and where a reading stops;
* `Numeral.scan_append`: digits within the bound are taken in, one after the other;
* `Numeral.Fails`: what is met first;
* **`Numeral.read_eq_ok_iff`**, **`Numeral.read_eq_error_iff`**.
-/

namespace Chronicle.Text.Numeral

/-! ## The grammar -/

/-- The character is an ASCII digit. -/
def Digit (c : Char) : Prop := 48 ≤ c.toNat ∧ c.toNat ≤ 57

/-- The number that digits are written for, the first of them the most significant. -/
def value (ds : List Char) : Nat :=
  Nat.ofDigits 10 (ds.reverse.map fun d => d.toNat - 48)

/-- The characters `cs` are the text `s` without the plus sign that it may start with. -/
def Unsigned (s : String) (cs : List Char) : Prop :=
  s.toList = '+' :: cs ∨ s.toList = cs ∧ cs.head? ≠ some '+'

/-- The text `s` is a numeral for `n`. -/
def Denotes (s : String) (n : Nat) : Prop :=
  ∃ ds, Unsigned s ds ∧ ds ≠ [] ∧ (∀ d ∈ ds, Digit d) ∧ n = value ds

/-- Digits that are written for a number within the bound. -/
structure Within (bound : Nat) (ds : List Char) : Prop where
  digits : ∀ d ∈ ds, Digit d
  le : value ds ≤ bound

/-- What stops a reading behind digits that are within the bound: a character that is no digit, or
one digit too many. -/
inductive Stops (bound : Nat) (cs : List Char) : Flaw → Prop where
  | invalidDigit {ds rest : List Char} {c : Char} (split : cs = ds ++ c :: rest)
      (within : Within bound ds) (other : ¬Digit c) : Stops bound cs .invalidDigit
  | tooLarge {ds rest : List Char} {d : Char} (split : cs = ds ++ d :: rest)
      (within : Within bound ds) (digit : Digit d) (past : bound < value (ds ++ [d])) :
      Stops bound cs .tooLarge

/-- What a reading of a text meets first that keeps it from being a number within the bound. -/
inductive Fails (bound : Nat) (s : String) : Flaw → Prop where
  | empty (h : s = "") : Fails bound s .empty
  /-- A plus sign alone is taken for a digit. -/
  | sign (h : s = "+") : Fails bound s .invalidDigit
  | stops {cs : List Char} {flaw : Flaw} (unsigned : Unsigned s cs) (h : Stops bound cs flaw) :
      Fails bound s flaw

variable {bound n : Nat} {s : String} {cs ds : List Char} {c : Char} {flaw : Flaw}

/-! ## Digits -/

theorem value_concat (ds : List Char) (d : Char) :
    value (ds ++ [d]) = 10 * value ds + (d.toNat - 48) := by
  unfold value
  rw [List.reverse_append, List.reverse_singleton, List.singleton_append, List.map_cons,
    Nat.ofDigits_cons, Nat.add_comm]

theorem digit?_of_digit (h : Digit c) : digit? c = some (c.toNat - 48) := if_pos h

theorem digit?_of_not_digit (h : ¬Digit c) : digit? c = none := if_neg h

theorem within_nil : Within bound [] := ⟨by simp, Nat.zero_le _⟩

/-- Fewer digits of a number within the bound are within the bound. -/
theorem Within.of_concat (h : Within bound (ds ++ [c])) : Within bound ds where
  digits d hd := h.digits d (List.mem_append_left _ hd)
  le := by
    have hle := h.le
    rw [value_concat] at hle
    omega

/-! ## Reading digits -/

/-- Digits within the bound are taken in. -/
theorem scan_append (h : Within bound ds) (rest : List Char) :
    scan bound 0 (ds ++ rest) = scan bound (value ds) rest := by
  induction ds using List.reverseRecOn generalizing rest with
  | nil => rfl
  | append_singleton ds d ih =>
    have hle : ¬bound < 10 * value ds + (d.toNat - 48) := by
      rw [← value_concat]
      exact not_lt.2 h.le
    rw [List.append_assoc, ih h.of_concat, List.singleton_append, scan,
      digit?_of_digit (h.digits d (by simp))]
    dsimp only
    rw [if_neg hle, value_concat]

theorem scan_of_within (h : Within bound cs) : scan bound 0 cs = .ok (value cs) := by
  have hscan := scan_append h []
  rwa [List.append_nil] at hscan

theorem scan_of_stops (h : Stops bound cs flaw) : scan bound 0 cs = .error flaw := by
  cases h with
  | invalidDigit split within other =>
    rw [split, scan_append within, scan, digit?_of_not_digit other]
  | tooLarge split within digit past =>
    rw [value_concat] at past
    rw [split, scan_append within, scan, digit?_of_digit digit]
    exact if_pos past

/-- Either all is within the bound, or something stops a reading. -/
theorem within_or_stops (bound : Nat) (cs : List Char) :
    Within bound cs ∨ ∃ flaw, Stops bound cs flaw := by
  induction cs using List.reverseRecOn with
  | nil => exact .inl within_nil
  | append_singleton cs c ih =>
    rcases ih with within | ⟨flaw, h⟩
    · by_cases digit : Digit c
      · by_cases past : bound < value (cs ++ [c])
        · exact .inr ⟨_, .tooLarge rfl within digit past⟩
        · exact .inl ⟨by simpa [or_imp, forall_and] using ⟨within.digits, digit⟩, not_lt.1 past⟩
      · exact .inr ⟨_, .invalidDigit rfl within digit⟩
    · -- what stops a reading stops it whatever comes behind
      refine .inr ⟨flaw, ?_⟩
      cases h with
      | invalidDigit split within other =>
        exact .invalidDigit (by rw [split, List.append_assoc, List.cons_append]) within other
      | tooLarge split within digit past =>
        exact .tooLarge (by rw [split, List.append_assoc, List.cons_append]) within digit past

theorem scan_eq_ok_iff : scan bound 0 cs = .ok n ↔ Within bound cs ∧ n = value cs := by
  constructor
  · intro h
    rcases within_or_stops bound cs with within | ⟨flaw, stops⟩
    · rw [scan_of_within within] at h
      exact ⟨within, (Except.ok.inj h).symm⟩
    · rw [scan_of_stops stops] at h
      cases h
  · rintro ⟨within, rfl⟩
    exact scan_of_within within

theorem scan_eq_error_iff : scan bound 0 cs = .error flaw ↔ Stops bound cs flaw := by
  refine ⟨fun h => ?_, scan_of_stops⟩
  rcases within_or_stops bound cs with within | ⟨flaw', stops⟩
  · rw [scan_of_within within] at h
    cases h
  · rw [scan_of_stops stops] at h
    cases h
    exact stops

/-! ## Reading a text -/

theorem not_stops_nil : ¬Stops bound [] flaw := by
  rintro (⟨split, -, -⟩ | ⟨split, -, -, -⟩) <;> simp at split

/-- A text has one sign at most, and what is behind it is determined. -/
theorem Unsigned.eq (h : Unsigned s cs) (h' : Unsigned s ds) : cs = ds := by
  rcases h with h | ⟨h, hne⟩ <;> rcases h' with h' | ⟨h', hne'⟩ <;> rw [h] at h'
  · exact List.cons.inj h' |>.2
  · exact absurd (congrArg List.head? h').symm hne'
  · exact absurd (congrArg List.head? h') hne
  · exact h'

theorem unsigned_empty : Unsigned "" [] := .inr ⟨rfl, by simp⟩

theorem unsigned_sign : Unsigned "+" [] := .inl rfl

/-- A text is empty, or a sign alone, or what is behind its sign is scanned. -/
theorem read_cases (bound : Nat) (s : String) :
    (s = "" ∧ read bound s = .error .empty) ∨ (s = "+" ∧ read bound s = .error .invalidDigit) ∨
      ∃ cs, Unsigned s cs ∧ cs ≠ [] ∧ read bound s = scan bound 0 cs := by
  unfold read Unsigned
  cases hs : s.toList with
  | nil => exact .inl ⟨String.toList_inj.1 hs, rfl⟩
  | cons c cs =>
    by_cases hc : c = '+'
    · subst hc
      cases cs with
      | nil => exact .inr (.inl ⟨String.toList_inj.1 hs, rfl⟩)
      | cons d cs => exact .inr (.inr ⟨d :: cs, .inl rfl, nofun, rfl⟩)
    · refine .inr (.inr ⟨c :: cs, .inr ⟨rfl, by simpa using hc⟩, nofun, ?_⟩)
      split <;> simp_all

/-- **Numerals.** A text is read as a number exactly if it is a numeral for it within the bound. -/
theorem read_eq_ok_iff : read bound s = .ok n ↔ Denotes s n ∧ n ≤ bound := by
  rcases read_cases bound s with ⟨rfl, hread⟩ | ⟨rfl, hread⟩ | ⟨cs, unsigned, hne, hread⟩ <;>
    rw [hread]
  · refine ⟨nofun, ?_⟩
    rintro ⟨⟨ds, h, hne, -⟩, -⟩
    exact absurd (h.eq unsigned_empty) hne
  · refine ⟨nofun, ?_⟩
    rintro ⟨⟨ds, h, hne, -⟩, -⟩
    exact absurd (h.eq unsigned_sign) hne
  · rw [scan_eq_ok_iff]
    constructor
    · rintro ⟨within, rfl⟩
      exact ⟨⟨cs, unsigned, hne, within.digits, rfl⟩, within.le⟩
    · rintro ⟨⟨ds, h, -, digits, rfl⟩, hle⟩
      obtain rfl := unsigned.eq h
      exact ⟨⟨digits, hle⟩, rfl⟩

example : read 65535 "+0065535" = .ok 65535 := by decide

/-- **Flaws.** A text is refused exactly for what is met first. -/
theorem read_eq_error_iff : read bound s = .error flaw ↔ Fails bound s flaw := by
  rcases read_cases bound s with ⟨rfl, hread⟩ | ⟨rfl, hread⟩ | ⟨cs, unsigned, hne, hread⟩ <;>
    rw [hread]
  · constructor
    · rintro ⟨⟩
      exact .empty rfl
    · rintro (- | h | ⟨h, stops⟩)
      · rfl
      · exact absurd h (by decide)
      · rw [h.eq unsigned_empty] at stops
        exact absurd stops not_stops_nil
  · constructor
    · rintro ⟨⟩
      exact .sign rfl
    · rintro (h | - | ⟨h, stops⟩)
      · exact absurd h (by decide)
      · rfl
      · rw [h.eq unsigned_sign] at stops
        exact absurd stops not_stops_nil
  · rw [scan_eq_error_iff]
    refine ⟨.stops unsigned, ?_⟩
    rintro (rfl | rfl | ⟨h, stops⟩)
    · exact absurd (unsigned.eq unsigned_empty) hne
    · exact absurd (unsigned.eq unsigned_sign) hne
    · rwa [unsigned.eq h]

example : read 65535 "65536x" = .error .tooLarge := by decide

end Chronicle.Text.Numeral
