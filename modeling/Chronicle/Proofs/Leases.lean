import Mathlib.Data.List.Induction
import Chronicle.Index.Lemmas
import Chronicle.Lease
import Chronicle.Proofs.Time.Deadline
/-!
# Leases over time

Calls for leases come one after the other, from any holders and for any views, at whatever the clock
reads. What a table answers depends on the last call for the same view that it has granted, and on
nothing else. While the clock does not go back, a granted lease is its holder's alone up to its
expiry, and behind that it is anybody's.

* `LeaseTable.renew_of_free`, `LeaseTable.renew_held`: what a call does;
* `Renewal`, `LeaseTable.after`, `LeaseTable.last?`: calls one after the other, and the last one that
  was granted for a view;
* `LeaseTable.get?_after`: the lease of a view is the one of this call;
* **`LeaseTable.leases_over_time`**: which calls are granted;
* `LongRenewal`, `LeaseTable.answerLong`: calls that read the clock twice;
* **`LeaseTable.afterLong_eq`**: they come to calls that read it once.
-/

namespace Chronicle

/-! ## One call -/

/-- A call that takes or prolongs the lease on a view. -/
structure Renewal where
  /-- What the clock reads. It is read once; for a call that reads it twice there is
  `LongRenewal`. -/
  now : Instant
  holder : String
  view : String
  wait : Duration

namespace Renewal

/-- When the lease that is called for ends. -/
def expiry (r : Renewal) : Instant := r.now.deadline r.wait

/-- The lease that is called for. -/
def lease (r : Renewal) : Lease := ⟨r.holder, r.expiry⟩

end Renewal

theorem Lease.live_eq_false_iff {l : Lease} {now : Instant} :
    l.live now = false ↔ l.expiry.nanos ≤ now.nanos := by
  unfold live
  rw [decide_eq_false_iff_not]
  exact Int.not_lt

theorem Lease.live_eq_false_of_le {l : Lease} {now later : Instant}
    (forward : now.nanos ≤ later.nanos) (expired : l.live now = false) : l.live later = false := by
  rw [live_eq_false_iff] at expired ⊢
  exact Int.le_trans expired forward

namespace LeaseTable

variable {t : LeaseTable} {now : Instant} {holder view : String} {wait : Duration} {l : Lease}

/-- A lease that nobody else holds is granted. -/
theorem renew_of_free (free : ∀ l, t.get? view = some l → l.holder = holder ∨ l.live now = false) :
    t.renew now holder view wait = .ok (t.insert view ⟨holder, now.deadline wait⟩) := by
  unfold renew
  cases h : t.get? view with
  | none => rfl
  | some l =>
    have hfree : ¬(l.holder ≠ holder ∧ l.live now = true) := by
      rcases free l h with hown | hexpired
      · exact fun hheld => hheld.1 hown
      · exact fun hheld => Bool.false_ne_true (hexpired.symm.trans hheld.2)
    exact if_neg hfree

/-- A lease that has expired is anybody's. -/
theorem renew_expired (h : t.get? view = some l) (expired : l.live now = false) :
    t.renew now holder view wait = .ok (t.insert view ⟨holder, now.deadline wait⟩) := by
  refine renew_of_free fun l' hl' => .inr ?_
  cases h.symm.trans hl'
  exact expired

/-- A live lease is its holder's alone. -/
theorem renew_held (h : t.get? view = some l) (other : l.holder ≠ holder)
    (live : l.live now = true) : t.renew now holder view wait = .error (.lockHeld view) := by
  unfold renew
  rw [h]
  exact if_pos ⟨other, live⟩

/-- The answer to a call. -/
def answer (t : LeaseTable) (r : Renewal) : Except Error LeaseTable :=
  t.renew r.now r.holder r.view r.wait

/-- The table behind a call, which is the same if the call is refused. -/
def land (t : LeaseTable) (r : Renewal) : LeaseTable :=
  match t.answer r with
  | .ok t' => t'
  | .error _ => t

/-- **One call.** It is granted if nobody else holds the lease, and refused otherwise. -/
theorem answer_cases (t : LeaseTable) (r : Renewal) :
    ((∀ l, t.get? r.view = some l → l.holder = r.holder ∨ l.live r.now = false) ∧
      t.answer r = .ok (t.insert r.view r.lease) ∧ t.land r = t.insert r.view r.lease) ∨
    (∃ l, t.get? r.view = some l ∧ l.holder ≠ r.holder ∧ l.live r.now = true ∧
      t.answer r = .error (.lockHeld r.view) ∧ t.land r = t) := by
  unfold land
  by_cases free : ∀ l, t.get? r.view = some l → l.holder = r.holder ∨ l.live r.now = false
  · have hanswer : t.answer r = .ok (t.insert r.view r.lease) := renew_of_free free
    exact .inl ⟨free, hanswer, by rw [hanswer]⟩
  · push Not at free
    obtain ⟨l, hl, hother, hlive⟩ := free
    rw [Bool.ne_false_iff] at hlive
    have hanswer : t.answer r = .error (.lockHeld r.view) := renew_held hl hother hlive
    exact .inr ⟨l, hl, hother, hlive, hanswer, by rw [hanswer]⟩

/-- A call leaves other views alone. -/
theorem get?_land_of_ne (t : LeaseTable) {r : Renewal} (h : view ≠ r.view) :
    (t.land r).get? view = t.get? view := by
  rcases t.answer_cases r with ⟨-, -, hland⟩ | ⟨_, _, _, _, -, hland⟩
  · rw [hland, Index.get?_insert_of_ne h]
  · rw [hland]

/-! ## Many calls -/

/-- The table behind calls, one after the other, on a table without leases. -/
def after (rs : List Renewal) : LeaseTable :=
  rs.foldl land Index.empty

/-- The call is granted behind other calls. -/
def Granted (rs : List Renewal) (r : Renewal) : Prop :=
  ∃ t, (after rs).answer r = .ok t

/-- Those of the calls that are granted, behind other calls. -/
def granted (before : List Renewal) : List Renewal → List Renewal
  | [] => []
  | r :: rest =>
    if ((after before).answer r).isOk then r :: granted (before ++ [r]) rest
    else granted (before ++ [r]) rest

/-- The last call for a view that was granted. -/
def last? (rs : List Renewal) (view : String) : Option Renewal :=
  ((granted [] rs).filter fun r => r.view = view).getLast?

variable {rs before between : List Renewal} {r c : Renewal}

theorem after_concat (rs : List Renewal) (r : Renewal) :
    after (rs ++ [r]) = (after rs).land r := by
  unfold after
  rw [List.foldl_append]
  rfl

theorem isOk_answer_iff : ((after rs).answer r).isOk = true ↔ Granted rs r := by
  unfold Granted
  cases (after rs).answer r with
  | ok t => exact ⟨fun _ => ⟨t, rfl⟩, fun _ => rfl⟩
  | error e => exact ⟨nofun, nofun⟩

theorem granted_concat (before rs : List Renewal) (r : Renewal) :
    granted before (rs ++ [r])
      = granted before rs ++ if ((after (before ++ rs)).answer r).isOk then [r] else [] := by
  induction rs generalizing before with
  | nil =>
    rw [List.append_nil]
    rfl
  | cons a rs ih =>
    rw [List.cons_append, granted, granted, ih, List.append_assoc, List.singleton_append]
    split <;> rfl

theorem last?_concat_of_granted (h : Granted rs r) : last? (rs ++ [r]) r.view = some r := by
  unfold last?
  rw [granted_concat, List.nil_append, if_pos (isOk_answer_iff.2 h), List.filter_append]
  simp

theorem last?_concat_of_not (h : r.view = view → ¬Granted rs r) :
    last? (rs ++ [r]) view = last? rs view := by
  unfold last?
  rw [granted_concat, List.nil_append, List.filter_append]
  by_cases hr : Granted rs r
  · have hview : r.view ≠ view := fun hv => h hv hr
    rw [if_pos (isOk_answer_iff.2 hr)]
    simp [hview]
  · have hok : ¬((after rs).answer r).isOk = true := fun hok => hr (isOk_answer_iff.1 hok)
    rw [if_neg hok, List.filter_nil, List.append_nil]

/-- **The lease of a view** is the one that was granted last. -/
theorem get?_after (rs : List Renewal) (view : String) :
    (after rs).get? view = (last? rs view).map Renewal.lease := by
  induction rs using List.reverseRecOn with
  | nil => rfl
  | append_singleton rs r ih =>
    rw [after_concat]
    by_cases hview : r.view = view
    · subst hview
      rcases (after rs).answer_cases r with ⟨-, hanswer, hland⟩ | ⟨_, -, -, -, hanswer, hland⟩
      · rw [hland, Index.get?_insert_self, last?_concat_of_granted ⟨_, hanswer⟩]
        rfl
      · have hnot : ¬Granted rs r := by
          rintro ⟨t, ht⟩
          cases hanswer.symm.trans ht
        rw [hland, last?_concat_of_not fun _ => hnot, ih]
    · rw [get?_land_of_ne _ (Ne.symm hview), ih, last?_concat_of_not fun hv => absurd hv hview]

/-- A call is granted if none was before it for its view, or the last one was by the same holder, or
the lease of the last one has expired. -/
theorem granted_iff (rs : List Renewal) (c : Renewal) :
    Granted rs c ↔ last? rs c.view = none ∨ ∃ r, last? rs c.view = some r ∧
      (r.holder = c.holder ∨ r.expiry.nanos ≤ c.now.nanos) := by
  have hget := get?_after rs c.view
  constructor
  · rintro ⟨t, ht⟩
    cases hlast : last? rs c.view with
    | none => exact .inl rfl
    | some r =>
      rw [hlast] at hget
      rcases (after rs).answer_cases c with ⟨free, -, -⟩ | ⟨_, -, -, -, hanswer, -⟩
      · exact .inr ⟨r, rfl, (free r.lease hget).imp_right Lease.live_eq_false_iff.1⟩
      · cases hanswer.symm.trans ht
  · intro h
    refine ⟨_, renew_of_free fun l hl => ?_⟩
    rcases h with hnone | ⟨r, hlast, hfree⟩
    · rw [hnone, hl] at hget
      cases hget
    · rw [hlast, hl] at hget
      cases hget
      exact hfree.imp_right Lease.live_eq_false_iff.2

/-- A call that is refused names its view and changes nothing. -/
theorem answer_of_not_granted (h : ¬Granted rs c) :
    (after rs).answer c = .error (.lockHeld c.view) ∧ after (rs ++ [c]) = after rs := by
  rw [after_concat]
  rcases (after rs).answer_cases c with ⟨-, hanswer, -⟩ | ⟨_, -, -, -, hanswer, hland⟩
  · exact absurd ⟨_, hanswer⟩ h
  · exact ⟨hanswer, hland⟩

theorem holder?_after (rs : List Renewal) (now : Instant) (view : String) :
    (after rs).holder? now view
      = ((last? rs view).filter fun r => now.nanos < r.expiry.nanos).map (·.holder) := by
  unfold holder?
  rw [get?_after]
  cases last? rs view with
  | none => rfl
  | some r =>
    by_cases hlive : now.nanos < r.expiry.nanos <;>
      simp [Option.filter, Lease.live, Renewal.lease, hlive]

/-- **Views are apart.** Whatever is called for other views, the last call for a view that was granted
is the one that is granted without them. -/
theorem last?_filter (rs : List Renewal) (view : String) :
    last? (rs.filter fun r => r.view = view) view = last? rs view := by
  induction rs using List.reverseRecOn with
  | nil => rfl
  | append_singleton rs r ih =>
    rw [List.filter_append]
    by_cases hview : r.view = view
    · subst hview
      have hsame : Granted (rs.filter fun a => a.view = r.view) r ↔ Granted rs r := by
        rw [granted_iff, granted_iff, ih]
      rw [List.filter_cons_of_pos (by simp), List.filter_nil]
      by_cases hr : Granted rs r
      · rw [last?_concat_of_granted hr, last?_concat_of_granted (hsame.2 hr)]
      · rw [last?_concat_of_not fun _ => hr, last?_concat_of_not fun _ => fun h => hr (hsame.1 h), ih]
    · rw [List.filter_cons_of_neg (by simpa using hview), List.filter_nil, List.append_nil, ih,
        last?_concat_of_not fun hv => absurd hv hview]

/-! ## A clock that does not go back -/

/-- Until the lease of a granted call expires, and as long as its holder is not granted another one,
it stays the last one. -/
theorem last?_of_early (hr : Granted before r)
    (alone : ∀ pre m post, between = pre ++ m :: post → m.view = r.view → m.holder = r.holder →
      ¬Granted (before ++ r :: pre) m)
    (early : ∀ m ∈ between, m.view = r.view → m.now.nanos < r.expiry.nanos) :
    last? (before ++ r :: between) r.view = some r := by
  induction between using List.reverseRecOn with
  | nil => exact last?_concat_of_granted hr
  | append_singleton between m ih =>
    have hlast : last? (before ++ r :: between) r.view = some r := by
      refine ih (fun pre m' post hsplit => alone pre m' (post ++ [m]) ?_)
        fun m' hm' => early m' (List.mem_append_left _ hm')
      rw [hsplit, List.append_assoc, List.cons_append]
    rw [← List.cons_append, ← List.append_assoc, last?_concat_of_not ?_, hlast]
    intro hview hm
    refine alone between m [] rfl hview ?_ hm
    have hearly := early m (List.mem_append_right _ List.mem_cons_self) hview
    rw [granted_iff, hview, hlast] at hm
    rcases hm with hnone | ⟨r', hr', hown | hexpired⟩
    · cases hnone
    · cases hr'
      exact hown.symm
    · cases hr'
      omega

/-- Take any granted call of the list and a later call for the same view, and let its holder not be
granted another one in between. Before the wait of the first is over, and before the last instant, no
other holder is granted the second; and it is granted, to whomever, if it is the first one at or
behind the expiry. -/
def Exclusive (rs : List Renewal) : Prop :=
  ∀ before r between c rest, rs = before ++ r :: (between ++ c :: rest) → Granted before r →
    c.view = r.view →
    (∀ pre m post, between = pre ++ m :: post → m.view = r.view → m.holder = r.holder →
      ¬Granted (before ++ r :: pre) m) →
    (c.holder ≠ r.holder → c.now.nanos < min (r.now.add r.wait).nanos Instant.last.nanos →
      ¬Granted (before ++ r :: between) c) ∧
    ((∀ m ∈ between, m.view = r.view → m.now.nanos < r.expiry.nanos) →
      r.expiry.nanos ≤ c.now.nanos → Granted (before ++ r :: between) c)

theorem exclusive_of_ordered (ordered : rs.Pairwise fun a b => a.now.nanos ≤ b.now.nanos) :
    Exclusive rs := by
  rintro before r between c rest rfl hr hview alone
  constructor
  · intro hother hearly hc
    have hexpiry : c.now.nanos < r.expiry.nanos :=
      Int.lt_of_lt_of_le hearly (Instant.min_le_deadline r.now r.wait)
    have hbetween : ∀ m ∈ between, m.now.nanos ≤ c.now.nanos := fun m hm =>
      (List.pairwise_append.1 (List.pairwise_cons.1 (List.pairwise_append.1 ordered).2.1).2).2.2
        m hm c List.mem_cons_self
    have hlast := last?_of_early hr alone fun m hm _ => Int.lt_of_le_of_lt (hbetween m hm) hexpiry
    rw [granted_iff, hview, hlast] at hc
    rcases hc with hnone | ⟨r', hr', hown | hexpired⟩
    · cases hnone
    · cases hr'
      exact hother hown.symm
    · cases hr'
      omega
  · intro early hexpired
    have hlast := last?_of_early hr alone early
    rw [granted_iff, hview]
    exact .inr ⟨r, hlast, .inr hexpired⟩

/-- **Leases over time.** Behind any calls, whatever the clock reads at them, a call is granted if
none was granted for its view before, or the last one was by the same holder, or it has expired. Any
other call is refused in the name of its view and changes nothing. The holder of a view is the holder
of the last call that was granted for it, before it expires. Calls for other views change neither
answers nor holders. A lease ends when its wait is over, at the latest at the last instant; and if the
clock does not go back, no other holder is granted a lease before its end, and anybody behind it. -/
theorem leases_over_time (rs : List Renewal) :
    (∀ c : Renewal,
      (Granted rs c ↔ last? rs c.view = none ∨ ∃ r, last? rs c.view = some r ∧
        (r.holder = c.holder ∨ r.expiry.nanos ≤ c.now.nanos)) ∧
      (¬Granted rs c →
        (after rs).answer c = .error (.lockHeld c.view) ∧ after (rs ++ [c]) = after rs)) ∧
    (∀ now view, (after rs).holder? now view
      = ((last? rs view).filter fun r => now.nanos < r.expiry.nanos).map (·.holder)) ∧
    (∀ view, (∀ c : Renewal, c.view = view →
        (Granted (rs.filter fun r => r.view = view) c ↔ Granted rs c)) ∧
      ∀ now, (after (rs.filter fun r => r.view = view)).holder? now view
        = (after rs).holder? now view) ∧
    (∀ r ∈ rs, Instant.first.nanos ≤ r.now.nanos →
      r.expiry.nanos = min (r.now.add r.wait).nanos Instant.last.nanos) ∧
    ((rs.Pairwise fun a b => a.now.nanos ≤ b.now.nanos) → Exclusive rs) := by
  refine ⟨fun c => ⟨granted_iff rs c, answer_of_not_granted⟩, holder?_after rs, fun view => ⟨?_, ?_⟩,
    fun r _ => Instant.deadline_eq_min, exclusive_of_ordered⟩
  · rintro c rfl
    rw [granted_iff, granted_iff, last?_filter]
  · intro now
    rw [holder?_after, holder?_after, last?_filter]

end LeaseTable

/-! ## Calls that last -/

/-- A call during which the clock may move on. It is read at first to see whether the lease is free,
and again for the end of the lease that is entered. -/
structure LongRenewal extends Renewal where
  later : Instant

/-- The call as it would be at its second reading. -/
def LongRenewal.atEnd (c : LongRenewal) : Renewal := { c.toRenewal with now := c.later }

namespace LeaseTable

variable {t : LeaseTable} {c : LongRenewal} {cs : List LongRenewal}

/-- The answer to a call that lasts: it is granted or refused as at the first reading, and the lease
that it enters ends by the second. -/
def answerLong (t : LeaseTable) (c : LongRenewal) : Except Error LeaseTable :=
  match t.answer c.toRenewal with
  | .error e => .error e
  | .ok _ => .ok (t.insert c.view c.atEnd.lease)

def landLong (t : LeaseTable) (c : LongRenewal) : LeaseTable :=
  match t.answerLong c with
  | .ok t' => t'
  | .error _ => t

/-- The table behind calls that last, one after the other, on a table without leases. -/
def afterLong (cs : List LongRenewal) : LeaseTable :=
  cs.foldl landLong Index.empty

/-- The call with one reading that a call that lasts comes to: the first reading if it is refused,
and the second if it is granted. -/
def shorten (t : LeaseTable) (c : LongRenewal) : Renewal :=
  match t.answer c.toRenewal with
  | .error _ => c.toRenewal
  | .ok _ => c.atEnd

/-- The calls with one reading that calls that last come to, one after the other. -/
def shortenAll : LeaseTable → List LongRenewal → List Renewal
  | _, [] => []
  | t, c :: cs => t.shorten c :: shortenAll (t.landLong c) cs

/-- **One call that lasts.** While the clock does not go back, it is answered as the call with one
reading that it comes to. -/
theorem answerLong_eq (t : LeaseTable) (forward : c.now.nanos ≤ c.later.nanos) :
    t.answerLong c = t.answer (t.shorten c) := by
  unfold answerLong shorten
  rcases t.answer_cases c.toRenewal with ⟨free, hanswer, -⟩ | ⟨_, -, -, -, hanswer, -⟩
  · -- What was free at the first reading is free at the second.
    have hend : t.answer c.atEnd = .ok (t.insert c.view c.atEnd.lease) :=
      renew_of_free fun l hl => (free l hl).imp_right (Lease.live_eq_false_of_le forward)
    rw [hanswer]
    exact hend.symm
  · rw [hanswer]
    exact hanswer.symm

theorem landLong_eq (t : LeaseTable) (forward : c.now.nanos ≤ c.later.nanos) :
    t.landLong c = t.land (t.shorten c) := by
  unfold landLong land
  rw [answerLong_eq t forward]

theorem foldl_landLong (t : LeaseTable) (forward : ∀ c ∈ cs, c.now.nanos ≤ c.later.nanos) :
    cs.foldl landLong t = (t.shortenAll cs).foldl land t := by
  induction cs generalizing t with
  | nil => rfl
  | cons c cs ih =>
    rw [shortenAll, List.foldl_cons, List.foldl_cons,
      ih _ fun c' hc' => forward c' (List.mem_cons_of_mem _ hc'),
      landLong_eq t (forward c List.mem_cons_self)]

/-- The reading that counts is neither before the first nor behind the second. -/
theorem now_shorten (t : LeaseTable) (forward : c.now.nanos ≤ c.later.nanos) :
    c.now.nanos ≤ (t.shorten c).now.nanos ∧ (t.shorten c).now.nanos ≤ c.later.nanos := by
  unfold shorten
  cases t.answer c.toRenewal with
  | error e => exact ⟨Int.le_refl _, forward⟩
  | ok t' => exact ⟨forward, Int.le_refl _⟩

theorem exists_of_mem_shortenAll (forward : ∀ c ∈ cs, c.now.nanos ≤ c.later.nanos) {r : Renewal}
    (h : r ∈ t.shortenAll cs) : ∃ c ∈ cs, c.now.nanos ≤ r.now.nanos := by
  induction cs generalizing t with
  | nil => cases h
  | cons c cs ih =>
    rcases List.mem_cons.1 h with rfl | hr
    · exact ⟨c, List.mem_cons_self, (t.now_shorten (forward c List.mem_cons_self)).1⟩
    · obtain ⟨c', hc', hnow⟩ := ih (fun c' hc' => forward c' (List.mem_cons_of_mem _ hc')) hr
      exact ⟨c', List.mem_cons_of_mem _ hc', hnow⟩

/-- The readings that count do not go back if the readings do not. -/
theorem pairwise_shortenAll (t : LeaseTable) (forward : ∀ c ∈ cs, c.now.nanos ≤ c.later.nanos)
    (ordered : cs.Pairwise fun a b => a.later.nanos ≤ b.now.nanos) :
    (t.shortenAll cs).Pairwise fun a b => a.now.nanos ≤ b.now.nanos := by
  induction cs generalizing t with
  | nil => exact List.Pairwise.nil
  | cons c cs ih =>
    obtain ⟨hfirst, hrest⟩ := List.pairwise_cons.1 ordered
    have hforward : ∀ c' ∈ cs, c'.now.nanos ≤ c'.later.nanos :=
      fun c' hc' => forward c' (List.mem_cons_of_mem _ hc')
    refine List.pairwise_cons.2 ⟨fun r hr => ?_, ih _ hforward hrest⟩
    -- The call that `r` comes from begins behind the end of `c`.
    obtain ⟨c', hc', hr⟩ := exists_of_mem_shortenAll hforward hr
    have hbehind : c.later.nanos ≤ c'.now.nanos := hfirst c' hc'
    have hlast := (t.now_shorten (forward c List.mem_cons_self)).2
    exact Int.le_trans hlast (Int.le_trans hbehind hr)

/-- **Calls that last.** If the clock does not go back while a call lasts, calls that read it twice
leave the table of calls that read it once, each at one of its own readings, and whatever call comes
next is answered as behind these. If the clock does not go back from one call to the next either,
these calls are in its order, and a lease is its holder's alone up to its end. -/
theorem afterLong_eq (forward : ∀ c ∈ cs, c.now.nanos ≤ c.later.nanos) :
    afterLong cs = after (shortenAll Index.empty cs) ∧
      (∀ c : LongRenewal, c.now.nanos ≤ c.later.nanos →
        (afterLong cs).answerLong c
          = (after (shortenAll Index.empty cs)).answer ((afterLong cs).shorten c)) ∧
      ((cs.Pairwise fun a b => a.later.nanos ≤ b.now.nanos) →
        Exclusive (shortenAll Index.empty cs)) := by
  have hafter : afterLong cs = after (shortenAll Index.empty cs) := foldl_landLong _ forward
  refine ⟨hafter, fun c hc => ?_, fun ordered =>
    exclusive_of_ordered (pairwise_shortenAll _ forward ordered)⟩
  rw [← hafter]
  exact answerLong_eq _ hc

end LeaseTable
end Chronicle
