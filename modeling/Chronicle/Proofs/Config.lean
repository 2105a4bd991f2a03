import Chronicle.Config
import Chronicle.Proofs.Text.Numeral
import Chronicle.Proofs.Text.Trim
/-!
# The grammar of the settings

Four settings are numbers. Each has a variable, a greatest number and a default, and two of them must
not be zero. Variables are accepted exactly if the database is named and each of the four is left out
or holds a numeral in range. Otherwise the first variable that is not in order is reported, with what
is wrong about it.

* `Setting`, `Setting.all`: the settings that are numbers, in the order in which they are read;
* `Setting.Reads`, `Setting.Flawed`: what a variable gives, and what can be wrong with it;
* `Setting.read_of_reads`, `Setting.read_of_flawed`, `Setting.reads_or_flawed`: one variable;
* `Setting.FirstFlaw`, `Setting.FirstFlaw.bind`: many variables, up to the first that is flawed;
* `ServerConfig.Accepts`, `ServerConfig.Rejects`: what variables give, and what is wrong with them;
* **`ServerConfig.ofLookup_exact`**.
-/

namespace Chronicle

open Text

/-- A setting that is a number. -/
structure Setting where
  /-- The variable that holds it. -/
  name : String
  /-- The greatest number that fits. -/
  bound : Nat
  default : Nat
  /-- Zero is refused. -/
  positive : Bool
  default_le : default ≤ bound
  default_ne_zero : positive = true → default ≠ 0

namespace Setting

/-- The seconds that a lease is held for. -/
def lockWait : Setting := ⟨"WARDEN_LOCK_WAIT_SECS", 2 ^ 64 - 1, 30, true, by decide, by decide⟩

/-- The events that are read at a time. -/
def batchSize : Setting := ⟨"WARDEN_BATCH_SIZE", 2 ^ 64 - 1, 100, true, by decide, by decide⟩

/-- The port that the server listens on. -/
def port : Setting := ⟨"PORT", 2 ^ 16 - 1, 3000, false, by decide, by decide⟩

/-- The connections to the database. -/
def maxConnections : Setting :=
  ⟨"DATABASE_MAX_CONNECTIONS", 2 ^ 32 - 1, 10, false, by decide, by decide⟩

/-- The settings in the order in which they are read. -/
def all : List Setting := [lockWait, batchSize, port, maxConnections]

/-- What a variable gives: the default if it is not set, or the number that the trimmed text
denotes. -/
inductive Reads (x : Setting) (lookup : String → Option String) : Nat → Prop where
  | unset (h : lookup x.name = none) : Reads x lookup x.default
  | numeral {raw text : String} {n : Nat} (h : lookup x.name = some raw) (trims : Trims raw text)
      (denotes : Numeral.Denotes text n) (le : n ≤ x.bound) (least : x.positive = true → 1 ≤ n) :
      Reads x lookup n

/-- What is wrong with a variable: it holds zero where one is the least, or the trimmed text is no
numeral in range. -/
inductive Flawed (x : Setting) (lookup : String → Option String) : ConfigFlaw → Prop where
  | zero {raw text : String} (h : lookup x.name = some raw) (trims : Trims raw text)
      (denotes : Numeral.Denotes text 0) (positive : x.positive = true) :
      Flawed x lookup (.zero x.name)
  | invalid {raw text : String} {flaw : Numeral.Flaw} (h : lookup x.name = some raw)
      (trims : Trims raw text) (fails : Numeral.Fails x.bound text flaw) :
      Flawed x lookup (.invalid x.name flaw)

/-! ## One variable -/

/-- The number in the variable of a setting. -/
def read (x : Setting) (lookup : String → Option String) : Except StartError Nat :=
  if x.positive then ServerConfig.positiveOr lookup x.name x.bound x.default
  else ServerConfig.numberOr lookup x.name x.bound x.default

variable {x : Setting} {xs : List Setting} {lookup : String → Option String} {n : Nat}
  {raw : String} {flaw : ConfigFlaw}

theorem read_of_unset (h : lookup x.name = none) : x.read lookup = .ok x.default := by
  unfold read ServerConfig.positiveOr ServerConfig.numberOr
  rw [h]
  cases hp : x.positive with
  | true => exact (if_pos rfl).trans (if_neg (x.default_ne_zero hp))
  | false => exact if_neg Bool.false_ne_true

theorem read_of_set (h : lookup x.name = some raw) :
    x.read lookup =
      match Numeral.read x.bound (trim raw) with
      | .error flaw => .error (.config (.invalid x.name flaw))
      | .ok n => if x.positive = true ∧ n = 0 then .error (.config (.zero x.name)) else .ok n := by
  unfold read ServerConfig.positiveOr ServerConfig.numberOr
  rw [h]
  dsimp only
  cases Numeral.read x.bound (trim raw) <;> cases x.positive <;> simp

theorem read_of_reads (h : x.Reads lookup n) : x.read lookup = .ok n := by
  cases h with
  | unset h => exact read_of_unset h
  | numeral h trims denotes le least =>
    obtain rfl := trims_iff.1 trims
    rw [read_of_set h, Numeral.read_eq_ok_iff.2 ⟨denotes, le⟩]
    refine if_neg fun hzero => ?_
    have := least hzero.1
    omega

theorem read_of_flawed (h : x.Flawed lookup flaw) : x.read lookup = .error (.config flaw) := by
  cases h with
  | zero h trims denotes positive =>
    obtain rfl := trims_iff.1 trims
    rw [read_of_set h, Numeral.read_eq_ok_iff.2 ⟨denotes, Nat.zero_le _⟩]
    exact if_pos ⟨positive, rfl⟩
  | invalid h trims fails =>
    obtain rfl := trims_iff.1 trims
    rw [read_of_set h, Numeral.read_eq_error_iff.2 fails]

/-- A variable gives a number, or something is wrong with it. -/
theorem reads_or_flawed (x : Setting) (lookup : String → Option String) :
    (∃ n, x.Reads lookup n) ∨ ∃ flaw, x.Flawed lookup flaw := by
  cases h : lookup x.name with
  | none => exact .inl ⟨_, .unset h⟩
  | some raw =>
    have trims : Trims raw (trim raw) := trims_iff.2 rfl
    cases hread : Numeral.read x.bound (trim raw) with
    | error flaw => exact .inr ⟨_, .invalid h trims (Numeral.read_eq_error_iff.1 hread)⟩
    | ok n =>
      obtain ⟨denotes, le⟩ := Numeral.read_eq_ok_iff.1 hread
      by_cases hzero : x.positive = true ∧ n = 0
      · obtain ⟨positive, rfl⟩ := hzero
        exact .inr ⟨_, .zero h trims denotes positive⟩
      · refine .inl ⟨n, .numeral h trims denotes le fun positive => ?_⟩
        exact Nat.one_le_iff_ne_zero.2 fun hn => hzero ⟨positive, hn⟩

/-- What a variable gives fits. -/
theorem Reads.le (h : x.Reads lookup n) : n ≤ x.bound := by
  cases h with
  | unset => exact x.default_le
  | numeral _ _ _ le => exact le

/-! ## Many variables -/

/-- The first variable that is not in order has this flaw. -/
def FirstFlaw (lookup : String → Option String) (xs : List Setting) (flaw : ConfigFlaw) : Prop :=
  ∃ before x after, xs = before ++ x :: after ∧ (∀ y ∈ before, ∃ n, y.Reads lookup n) ∧
    x.Flawed lookup flaw

theorem not_firstFlaw_nil : ¬FirstFlaw lookup [] flaw := by
  rintro ⟨before, x, after, h, -⟩
  simp at h

/-- A reading that goes on behind a setting fails with the first flaw, if what comes behind does. -/
theorem FirstFlaw.bind {α : Type} {f : Nat → Except StartError α}
    (h : FirstFlaw lookup (x :: xs) flaw)
    (rest : ∀ n, FirstFlaw lookup xs flaw → f n = .error (.config flaw)) :
    (x.read lookup >>= f) = .error (.config flaw) := by
  obtain ⟨before, y, after, hsplit, hbefore, hflaw⟩ := h
  cases before with
  | nil =>
    cases hsplit
    rw [read_of_flawed hflaw]
    rfl
  | cons z before =>
    cases hsplit
    obtain ⟨⟨n, hn⟩, hbefore⟩ := List.forall_mem_cons.1 hbefore
    rw [read_of_reads hn]
    exact rest n ⟨before, y, after, rfl, hbefore, hflaw⟩

/-- All variables are in order, or there is a first one that is not. -/
theorem reads_or_firstFlaw (lookup : String → Option String) (xs : List Setting) :
    (∀ x ∈ xs, ∃ n, x.Reads lookup n) ∨ ∃ flaw, FirstFlaw lookup xs flaw := by
  induction xs with
  | nil => exact .inl nofun
  | cons x xs ih =>
    rcases x.reads_or_flawed lookup with hx | ⟨flaw, hx⟩
    · rcases ih with hxs | ⟨flaw, before, y, after, rfl, hbefore, hy⟩
      · exact .inl (List.forall_mem_cons.2 ⟨hx, hxs⟩)
      · exact .inr ⟨flaw, x :: before, y, after, rfl, List.forall_mem_cons.2 ⟨hx, hbefore⟩, hy⟩
    · exact .inr ⟨flaw, [], x, xs, rfl, nofun, hx⟩

end Setting

/-! ## All variables -/

theorem Duration.eq_of_nanos_eq {d e : Duration} (h : d.nanos = e.nanos) : d = e := by
  cases d
  cases e
  cases h
  rfl

theorem Duration.nanos_ofSecs {secs : Nat} (h : secs ≤ Bound.uint64) :
    (ofSecs secs).nanos = secs * nanosPerSecond := by
  unfold ofSecs ofNanos
  rw [dif_pos]
  exact Nat.mul_lt_mul_of_pos_right (Nat.lt_succ_of_le h) (by decide)

namespace ServerConfig

variable {lookup : String → Option String} {c : ServerConfig} {url : String} {flaw : ConfigFlaw}

/-- The settings that variables give. Texts are taken as they are. -/
structure Accepts (lookup : String → Option String) (c : ServerConfig) : Prop where
  databaseUrl : lookup "DATABASE_URL" = some c.databaseUrl
  lockWait : ∃ secs, Setting.lockWait.Reads lookup secs ∧ c.lockWait.nanos = secs * nanosPerSecond
  batchSize : Setting.batchSize.Reads lookup c.batchSize
  port : Setting.port.Reads lookup c.port
  maxConnections : Setting.maxConnections.Reads lookup c.maxConnections
  host : c.host = (lookup "HOST").getD "0.0.0.0"
  instanceId : c.instanceId = lookup "WARDEN_INSTANCE_ID"
  iamId : c.iamId = (lookup "WARDEN_IAM_ID").getD "iam"

/-- What is wrong with variables: the database is not named, or else a setting is flawed and those
before it are in order. -/
inductive Rejects (lookup : String → Option String) : ConfigFlaw → Prop where
  | unset (h : lookup "DATABASE_URL" = none) : Rejects lookup (.unset "DATABASE_URL")
  | setting {url : String} {flaw : ConfigFlaw} (h : lookup "DATABASE_URL" = some url)
      (first : Setting.FirstFlaw lookup Setting.all flaw) : Rejects lookup flaw

/-- The settings of given numbers. -/
def assemble (lookup : String → Option String) (url : String)
    (lockWait batchSize port maxConnections : Nat) : ServerConfig where
  databaseUrl := url
  host := (lookup "HOST").getD "0.0.0.0"
  port := port
  maxConnections := maxConnections
  instanceId := lookup "WARDEN_INSTANCE_ID"
  lockWait := Duration.ofSecs lockWait
  batchSize := batchSize
  iamId := (lookup "WARDEN_IAM_ID").getD "iam"

theorem ofLookup_of_url (h : lookup "DATABASE_URL" = some url) :
    ofLookup lookup =
      Setting.lockWait.read lookup >>= fun lockWait =>
        Setting.batchSize.read lookup >>= fun batchSize =>
          Setting.port.read lookup >>= fun port =>
            Setting.maxConnections.read lookup >>= fun maxConnections =>
              .ok (assemble lookup url lockWait batchSize port maxConnections) := by
  unfold ofLookup
  rw [h]
  rfl

theorem ofLookup_of_accepts (h : Accepts lookup c) : ofLookup lookup = .ok c := by
  obtain ⟨secs, hsecs, hnanos⟩ := h.lockWait
  have hwait : c.lockWait = Duration.ofSecs secs := by
    apply Duration.eq_of_nanos_eq
    rw [hnanos, Duration.nanos_ofSecs hsecs.le]
  rw [ofLookup_of_url h.databaseUrl, Setting.read_of_reads hsecs, Setting.read_of_reads h.batchSize,
    Setting.read_of_reads h.port, Setting.read_of_reads h.maxConnections]
  change Except.ok (assemble lookup _ _ _ _ _) = Except.ok c
  unfold assemble
  rw [← h.host, ← h.instanceId, ← h.iamId, ← hwait]

theorem ofLookup_of_rejects (h : Rejects lookup flaw) :
    ofLookup lookup = .error (.config flaw) := by
  cases h with
  | unset h =>
    unfold ofLookup
    rw [h]
  | setting h first =>
    rw [ofLookup_of_url h]
    exact first.bind fun _ first => first.bind fun _ first => first.bind fun _ first =>
      first.bind fun _ first => absurd first Setting.not_firstFlaw_nil

/-- Variables give settings if the database is named and the four numbers are in order. -/
theorem exists_accepts_iff : (∃ c, Accepts lookup c) ↔
    lookup "DATABASE_URL" ≠ none ∧ ∀ x ∈ Setting.all, ∃ n, x.Reads lookup n := by
  simp only [Setting.all, List.mem_cons, List.not_mem_nil, or_false, forall_eq_or_imp, forall_eq]
  constructor
  · rintro ⟨c, h⟩
    obtain ⟨secs, hsecs, -⟩ := h.lockWait
    refine ⟨?_, ⟨secs, hsecs⟩, ⟨_, h.batchSize⟩, ⟨_, h.port⟩, ⟨_, h.maxConnections⟩⟩
    rw [h.databaseUrl]
    exact Option.some_ne_none _
  · rintro ⟨hurl, ⟨w, hw⟩, ⟨b, hb⟩, ⟨p, hp⟩, ⟨m, hm⟩⟩
    obtain ⟨url, h⟩ := Option.ne_none_iff_exists'.1 hurl
    exact ⟨assemble lookup url w b p m, h, ⟨w, hw, Duration.nanos_ofSecs hw.le⟩, hb, hp, hm, rfl,
      rfl, rfl⟩

theorem accepts_or_rejects (lookup : String → Option String) :
    (∃ c, Accepts lookup c) ∨ ∃ flaw, Rejects lookup flaw := by
  cases h : lookup "DATABASE_URL" with
  | none => exact .inr ⟨_, .unset h⟩
  | some url =>
    rcases Setting.reads_or_firstFlaw lookup Setting.all with reads | ⟨flaw, first⟩
    · refine .inl (exists_accepts_iff.2 ⟨?_, reads⟩)
      rw [h]
      exact Option.some_ne_none _
    · exact .inr ⟨flaw, .setting h first⟩

/-- What comes of variables. -/
structure Exact (lookup : String → Option String) : Prop where
  /-- They are accepted exactly if the database is named and every number is left out or in range. -/
  accepted_iff : (∃ c, ofLookup lookup = .ok c) ↔
    lookup "DATABASE_URL" ≠ none ∧ ∀ x ∈ Setting.all, ∃ n, x.Reads lookup n
  /-- They give these settings and no others. -/
  ok_iff : ∀ c, ofLookup lookup = .ok c ↔ Accepts lookup c
  /-- They are refused exactly for what is wrong first. -/
  error_iff : ∀ e, ofLookup lookup = .error e ↔ ∃ flaw, e = .config flaw ∧ Rejects lookup flaw

theorem ofLookup_eq_ok_iff : ofLookup lookup = .ok c ↔ Accepts lookup c := by
  refine ⟨fun h => ?_, ofLookup_of_accepts⟩
  rcases accepts_or_rejects lookup with ⟨c', hc'⟩ | ⟨flaw, hflaw⟩
  · rw [ofLookup_of_accepts hc'] at h
    cases h
    exact hc'
  · rw [ofLookup_of_rejects hflaw] at h
    cases h

/-- **Settings.** Whatever the variables are: the server accepts them exactly if they are in order, it
then works with what they denote and with defaults for the others, and otherwise it reports the first
that is not in order, with what is met first in it. -/
theorem ofLookup_exact (lookup : String → Option String) : Exact lookup where
  accepted_iff := by
    rw [← exists_accepts_iff]
    exact exists_congr fun c => ofLookup_eq_ok_iff
  ok_iff _ := ofLookup_eq_ok_iff
  error_iff := by
    intro e
    constructor
    · intro h
      rcases accepts_or_rejects lookup with ⟨c, hc⟩ | ⟨flaw, hflaw⟩
      · rw [ofLookup_of_accepts hc] at h
        cases h
      · rw [ofLookup_of_rejects hflaw] at h
        cases h
        exact ⟨flaw, rfl, hflaw⟩
    · rintro ⟨flaw, rfl, h⟩
      exact ofLookup_of_rejects h

end ServerConfig
end Chronicle
