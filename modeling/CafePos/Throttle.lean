import CafePos.Schema

/-!
# The throttle window

`RedisThrottlerStorage.increment` (`identity/rate-limit/redis-throttler.storage.ts`) on one key.
The script is atomic, so parallel callers are hits in some order; between them time passes, and
Redis deletes the key when its time to live reaches zero. A window's history is what was
answered, and when the key was deleted.

* `increment_spec` — what one hit does, and what it answers;
* `Holds` — the counter bounds the hits let through since the last deletion, and a refusal keeps
  it beyond the limit for as long as the block lasts; both kinds of steps keep this;
* `throttle_window` — every counter has an expiry, a window lets at most `limit` hits through, a
  block holds for its duration after the last refusal, and no answer is too short.
-/

namespace CafePos.Throttle

/-! ## The model -/

/-- `RateLimitRule`: `ttl` and `blockDuration` in milliseconds. -/
structure RateLimitRule where
  limit : ℕ
  ttl : ℤ
  blockDuration : ℤ
  limit_pos : 0 < limit
  ttl_pos : 0 < ttl
  blockDuration_pos : 0 < blockDuration

/-- `minutes`. -/
def minutes (n : ℕ) : ℤ := n * 60000

theorem minutes_pos (n : ℕ) : 0 < minutes (n + 1) := by
  rw [minutes]
  positivity

namespace RateLimitRule

/-- `RATE_LIMITS.staffGeneral`. -/
def staffGeneral : RateLimitRule :=
  ⟨600, minutes 1, minutes 1, Nat.succ_pos 599, minutes_pos 0, minutes_pos 0⟩

/-- `RATE_LIMITS.login`. -/
def login : RateLimitRule :=
  ⟨20, minutes 15, minutes 15, Nat.succ_pos 19, minutes_pos 14, minutes_pos 14⟩

/-- `RATE_LIMITS.deviceActivation`. -/
def deviceActivation : RateLimitRule :=
  ⟨5, minutes 60, minutes 60, Nat.succ_pos 4, minutes_pos 59, minutes_pos 59⟩

end RateLimitRule

/-- A counter in Redis; a key without an expiry stays. -/
structure Counter where
  hits : ℕ
  expiresAt : Option Instant
  deriving DecidableEq

/-- `INCR key`. -/
def incr (key : Option Counter) : Counter :=
  ⟨(key.map Counter.hits).getD 0 + 1, key.bind Counter.expiresAt⟩

/-- `PEXPIRE key ms`. -/
def Counter.pexpire (counter : Counter) (now : Instant) (ms : ℤ) : Counter :=
  { counter with expiresAt := some (now + ms) }

/-- `PTTL key`, of a key that is there. -/
def Counter.pttl (counter : Counter) (now : Instant) : ℤ := counter.expiresAt.elim (-1) (· - now)

/-- The counter of `INCREMENT_SCRIPT` after its `INCR`: the first hit sets the expiry. -/
def counted (rule : RateLimitRule) (now : Instant) (key : Option Counter) : Counter :=
  if (incr key).hits = 1 then (incr key).pexpire now rule.ttl else incr key

/-- `INCREMENT_SCRIPT`: the key afterwards, and the hits, the remaining milliseconds and whether
the hit is blocked. -/
def incrementScript (rule : RateLimitRule) (now : Instant) (key : Option Counter) :
    Counter × ℕ × ℤ × Bool :=
  let counter := counted rule now key
  let remaining := counter.pttl now
  if rule.limit < counter.hits then
    if 0 < rule.blockDuration ∧ remaining < rule.blockDuration then
      (counter.pexpire now rule.blockDuration, counter.hits, rule.blockDuration, true)
    else (counter, counter.hits, remaining, true)
  else (counter, counter.hits, remaining, false)

/-- `toSeconds`. -/
def toSeconds (milliseconds : ℤ) : ℤ := max 0 ⌈(milliseconds : ℚ) / 1000⌉

/-- `ThrottleRecord`. -/
structure ThrottleRecord where
  totalHits : ℕ
  timeToExpire : ℤ
  isBlocked : Bool
  timeToBlockExpire : ℤ
  deriving DecidableEq

/-- `RedisThrottlerStorage.increment`. -/
def increment (rule : RateLimitRule) (now : Instant) (key : Option Counter) :
    Counter × ThrottleRecord :=
  let result := incrementScript rule now key
  let remainingMs := result.2.2.1
  let isBlocked := result.2.2.2
  (result.1, ⟨result.2.1, toSeconds remainingMs, isBlocked,
    if isBlocked then toSeconds remainingMs else 0⟩)

/-- The key, and the clock of Redis. -/
structure State where
  key : Option Counter
  now : Instant

/-- What happened on the key. -/
inductive Event where
  /-- a hit was answered, at this time -/
  | answered (time : Instant) (record : ThrottleRecord)
  /-- the key was deleted -/
  | deleted
  deriving DecidableEq

/-- The time to live has not reached zero. -/
def Counter.lives (counter : Counter) (now : Instant) : Bool :=
  counter.expiresAt.all fun t => decide (now < t)

/-- A step of the timed sequence: a hit, or time passing. -/
inductive Act where
  | hit
  | pass (ms : ℕ)

/-- One step, and what happened. -/
def State.step (rule : RateLimitRule) (s : State) : Act → State × List Event
  | .hit => (⟨some (increment rule s.now s.key).1, s.now⟩,
      [.answered s.now (increment rule s.now s.key).2])
  | .pass ms => (⟨s.key.filter fun counter => counter.lives (s.now + ms), s.now + ms⟩,
      if s.key.any fun counter => !counter.lives (s.now + ms) then [.deleted] else [])

/-- The states that a key can get to, with all that happened on it before. -/
inductive Timed (rule : RateLimitRule) : State → List Event → Prop
  /-- the key is not there -/
  | start (now : Instant) : Timed rule ⟨none, now⟩ []
  /-- one more step -/
  | step {s : State} {trace : List Event} (a : Act) : Timed rule s trace →
      Timed rule (s.step rule a).1 (trace ++ (s.step rule a).2)

/-! ## What a hit does -/

variable {rule : RateLimitRule} {s : State} {trace : List Event}

/-- A counter of the throttle: it was hit, and it expires later. -/
structure Counter.Alive (counter : Counter) (now expiry : Instant) : Prop where
  hits_pos : 0 < counter.hits
  expiresAt : counter.expiresAt = some expiry
  lt : now < expiry

/-- The hits on the key that is there. -/
def State.hits (s : State) : ℕ := (s.key.map Counter.hits).getD 0

/-- Every counter is hit and expires. -/
def State.Ok (s : State) : Prop := ∀ counter, s.key = some counter →
  ∃ expiry, counter.Alive s.now expiry

theorem le_toSeconds (ms : ℤ) : ms ≤ 1000 * toSeconds ms := by
  have hceil : (ms : ℚ) / 1000 ≤ (⌈(ms : ℚ) / 1000⌉ : ℤ) := Int.le_ceil _
  have hmax : ⌈(ms : ℚ) / 1000⌉ ≤ toSeconds ms := le_max_right ..
  have hms : (ms : ℚ) ≤ 1000 * (⌈(ms : ℚ) / 1000⌉ : ℤ) := by linarith
  have hint : ms ≤ 1000 * ⌈(ms : ℚ) / 1000⌉ := by exact_mod_cast hms
  omega

/-- The counter after the `INCR`, and when it expires: no earlier than before. -/
theorem counted_spec (rule : RateLimitRule) (h : s.Ok) :
    ∃ expiry, (counted rule s.now s.key).Alive s.now expiry ∧
      (counted rule s.now s.key).hits = s.hits + 1 ∧
      ∀ counter, s.key = some counter → counter.expiresAt = some expiry := by
  cases hkey : s.key with
  | none =>
    have hhits : s.hits = 0 := by rw [State.hits, hkey]; rfl
    refine ⟨s.now + rule.ttl, ⟨Nat.one_pos, rfl, ?_⟩, by rw [hhits]; rfl, fun _ h => by cases h⟩
    exact lt_add_of_pos_right _ rule.ttl_pos
  | some counter =>
    obtain ⟨expiry, halive⟩ := h counter hkey
    have hhits : s.hits = counter.hits := by rw [State.hits, hkey]; rfl
    have hincr : incr (some counter) = ⟨counter.hits + 1, counter.expiresAt⟩ := rfl
    have hcounted : counted rule s.now (some counter) =
        ⟨counter.hits + 1, counter.expiresAt⟩ := by
      have hne : ¬ counter.hits + 1 = 1 := by
        have := halive.hits_pos
        omega
      rw [counted, hincr, if_neg hne]
    rw [hcounted, hhits]
    refine ⟨expiry, ⟨Nat.succ_pos _, halive.expiresAt, halive.lt⟩, rfl, fun _ h => ?_⟩
    rw [← Option.some.inj h]
    exact halive.expiresAt

/-- What a hit does to its key, which expires at `expiry` afterwards, and what it answers. -/
structure Answers (rule : RateLimitRule) (s : State) (counter : Counter) (record : ThrottleRecord)
    (expiry : Instant) : Prop where
  alive : counter.Alive s.now expiry
  hits : counter.hits = s.hits + 1
  isBlocked : record.isBlocked = true ↔ rule.limit < s.hits + 1
  -- a refused hit holds the key for the duration of the block
  blocks : record.isBlocked = true → s.now + rule.blockDuration ≤ expiry
  -- and no hit makes it expire earlier
  later : ∀ before t, s.key = some before → before.expiresAt = some t → t ≤ expiry
  timeToExpire : expiry - s.now ≤ 1000 * record.timeToExpire
  timeToBlockExpire : record.isBlocked = true → expiry - s.now ≤ 1000 * record.timeToBlockExpire

theorem increment_spec (rule : RateLimitRule) (h : s.Ok) : ∃ expiry,
    Answers rule s (increment rule s.now s.key).1 (increment rule s.now s.key).2 expiry := by
  obtain ⟨expiry, halive, hhits, hbefore⟩ := counted_spec rule h
  have hpttl : (counted rule s.now s.key).pttl s.now = expiry - s.now := by
    rw [Counter.pttl, halive.expiresAt]
    rfl
  have hlater : ∀ before t, s.key = some before → before.expiresAt = some t → t = expiry := by
    intro before t hkey ht
    rw [hbefore before hkey] at ht
    exact (Option.some.inj ht).symm
  have hlt := halive.lt
  have hpos := rule.blockDuration_pos
  by_cases hlimit : rule.limit < (counted rule s.now s.key).hits
  · by_cases hextend : expiry - s.now < rule.blockDuration
    · -- the block outlives the window
      have hscript : incrementScript rule s.now s.key =
          ((counted rule s.now s.key).pexpire s.now rule.blockDuration,
            (counted rule s.now s.key).hits, rule.blockDuration, true) := by
        simp only [incrementScript, hpttl, if_pos hlimit, if_pos (And.intro hpos hextend)]
      refine ⟨s.now + rule.blockDuration, ?_⟩
      simp only [increment, hscript, if_true]
      have hseconds := le_toSeconds rule.blockDuration
      refine ⟨⟨halive.hits_pos, rfl, lt_add_of_pos_right _ hpos⟩, hhits, by simpa [← hhits] using hlimit,
        fun _ => le_refl _, fun before t hkey ht => ?_, by simpa using hseconds,
        fun _ => by simpa using hseconds⟩
      rw [hlater before t hkey ht]
      linarith
    · have hscript : incrementScript rule s.now s.key =
          (counted rule s.now s.key, (counted rule s.now s.key).hits, expiry - s.now, true) := by
        simp only [incrementScript, hpttl, if_pos hlimit,
          if_neg (fun h : 0 < rule.blockDuration ∧ _ => hextend h.2)]
      refine ⟨expiry, ?_⟩
      simp only [increment, hscript, if_true]
      refine ⟨halive, hhits, by simpa [← hhits] using hlimit, fun _ => by linarith,
        fun before t hkey ht => (hlater before t hkey ht).le, le_toSeconds _,
        fun _ => le_toSeconds _⟩
  · have hscript : incrementScript rule s.now s.key =
        (counted rule s.now s.key, (counted rule s.now s.key).hits, expiry - s.now, false) := by
      simp only [incrementScript, hpttl, if_neg hlimit]
    refine ⟨expiry, ?_⟩
    simp only [increment, hscript]
    exact
      { alive := halive
        hits := hhits
        isBlocked := by simpa [← hhits] using hlimit
        blocks := fun h => absurd h Bool.false_ne_true
        later := fun before t hkey ht => (hlater before t hkey ht).le
        timeToExpire := le_toSeconds _
        timeToBlockExpire := fun h => absurd h Bool.false_ne_true }

/-! ## Over a run -/

/-- The event is a hit that was let through. -/
def Event.passed : Event → Bool
  | .answered _ record => !record.isBlocked
  | .deleted => false

/-- What holds of a key and of what happened on it. -/
structure Holds (rule : RateLimitRule) (s : State) (trace : List Event) : Prop where
  ok : s.Ok
  /-- since the last deletion no more hits were let through than were counted, nor than the
  limit -/
  counted : ∀ recent, recent <:+ trace → .deleted ∉ recent →
    recent.countP Event.passed ≤ s.hits ∧ recent.countP Event.passed ≤ rule.limit
  /-- while the block of a refused hit lasts, the counter stays beyond the limit -/
  blocked : ∀ time record, .answered time record ∈ trace → record.isBlocked = true →
    s.now < time + rule.blockDuration → ∃ counter expiry, s.key = some counter ∧
      counter.expiresAt = some expiry ∧ rule.limit < counter.hits ∧
      time + rule.blockDuration ≤ expiry

/-- A suffix that ends in a new event. -/
theorem suffix_concat {recent : List Event} {e : Event} (h : recent <:+ trace ++ [e]) :
    recent = [] ∨ ∃ before, before <:+ trace ∧ recent = before ++ [e] := by
  rcases List.suffix_concat_iff.mp h with rfl | ⟨before, rfl, hbefore⟩
  · exact Or.inl rfl
  · exact Or.inr ⟨before, hbefore, rfl⟩

/-- A hit keeps it. -/
theorem Holds.hit (h : Holds rule s trace) : Holds rule (s.step rule .hit).1
    (trace ++ (s.step rule .hit).2) := by
  obtain ⟨expiry, hanswers⟩ := increment_spec rule h.ok
  have hhits : (s.step rule .hit).1.hits = s.hits + 1 := hanswers.hits
  refine ⟨fun counter hkey => ?_, fun recent hrecent hdeleted => ?_,
    fun time record hmem hblocked htime => ?_⟩
  · obtain rfl := Option.some.inj hkey
    exact ⟨expiry, hanswers.alive⟩
  · rw [hhits]
    rcases suffix_concat hrecent with rfl | ⟨before, hbefore, rfl⟩
    · exact ⟨Nat.zero_le _, Nat.zero_le _⟩
    have hold := h.counted before hbefore fun hmem =>
      hdeleted (List.mem_append_left _ hmem)
    rw [List.countP_append, List.countP_singleton]
    cases hnew : (increment rule s.now s.key).2.isBlocked with
    | true =>
      simp only [Event.passed, hnew, Bool.not_true, Bool.false_eq_true, if_false]
      omega
    | false =>
      -- it was let through, so the counter is within the limit
      have hlimit : s.hits + 1 ≤ rule.limit := by
        by_contra hlt
        rw [hanswers.isBlocked.mpr (Nat.not_le.mp hlt)] at hnew
        cases hnew
      simp only [Event.passed, hnew, Bool.not_false, if_true]
      omega
  · refine ⟨_, expiry, rfl, hanswers.alive.expiresAt, ?_⟩
    rw [hanswers.hits]
    rcases List.mem_append.mp hmem with hmem | hmem
    · obtain ⟨counter, before, hkey, hexpires, hover, hlong⟩ :=
        h.blocked time record hmem hblocked htime
      have hs : s.hits = counter.hits := by rw [State.hits, hkey]; rfl
      exact ⟨by omega, hlong.trans (hanswers.later counter before hkey hexpires)⟩
    · obtain ⟨rfl, rfl⟩ := Event.answered.inj (List.mem_singleton.mp hmem)
      exact ⟨hanswers.isBlocked.mp hblocked, hanswers.blocks hblocked⟩

/-- Time passing keeps it: what expires has been deleted, and no block outlives its key. -/
theorem Holds.pass (h : Holds rule s trace) (ms : ℕ) : Holds rule (s.step rule (.pass ms)).1
    (trace ++ (s.step rule (.pass ms)).2) := by
  have hkept : ∀ counter, (s.step rule (.pass ms)).1.key = some counter →
      s.key = some counter ∧ counter.lives (s.now + ms) = true := fun counter hkey =>
    Option.filter_eq_some_iff.mp hkey
  have hle : s.now ≤ s.now + ms := le_add_of_nonneg_right (Int.natCast_nonneg ms)
  refine ⟨fun counter hkey => ?_, fun recent hrecent hdeleted => ?_,
    fun time record hmem hblocked htime => ?_⟩
  · obtain ⟨hkey, hlives⟩ := hkept counter hkey
    obtain ⟨expiry, halive⟩ := h.ok counter hkey
    rw [Counter.lives, halive.expiresAt] at hlives
    exact ⟨expiry, halive.hits_pos, halive.expiresAt, of_decide_eq_true hlives⟩
  · by_cases hgone : (s.key.any fun counter => !counter.lives (s.now + ms)) = true
    · -- the window ended with the deletion
      rw [State.step, if_pos hgone] at hrecent
      rcases suffix_concat hrecent with rfl | ⟨before, -, rfl⟩
      · exact ⟨Nat.zero_le _, Nat.zero_le _⟩
      · exact absurd (List.mem_append_right _ (List.mem_singleton_self _)) hdeleted
    · rw [State.step, if_neg hgone, List.append_nil] at hrecent
      have hsame : (s.step rule (.pass ms)).1.hits = s.hits := by
        cases hkey : s.key with
        | none => simp [State.step, State.hits, hkey]
        | some counter =>
          rw [hkey] at hgone
          have hlives : counter.lives (s.now + ms) = true := by simpa using hgone
          simp [State.step, State.hits, hkey, Option.filter, hlives]
      rw [hsame]
      exact h.counted recent hrecent hdeleted
  · have hold : .answered time record ∈ trace := by
      rcases List.mem_append.mp hmem with hmem | hmem
      · exact hmem
      · rw [State.step] at hmem
        split at hmem
        · exact absurd (List.mem_singleton.mp hmem) (by simp)
        · cases hmem
    obtain ⟨counter, expiry, hkey, hexpires, hover, hlong⟩ :=
      h.blocked time record hold hblocked (lt_of_le_of_lt hle htime)
    have hlives : counter.lives (s.now + ms) = true := by
      rw [Counter.lives, hexpires]
      exact decide_eq_true (lt_of_lt_of_le htime hlong)
    refine ⟨counter, expiry, ?_, hexpires, hover, hlong⟩
    exact Option.filter_eq_some_iff.mpr ⟨hkey, hlives⟩

theorem Timed.holds (h : Timed rule s trace) : Holds rule s trace := by
  induction h with
  | start now =>
    refine ⟨fun counter hkey => ?_, fun recent hrecent _ => ?_, fun time record hmem => ?_⟩
    · cases hkey
    · rw [List.suffix_nil.mp hrecent]
      exact ⟨Nat.zero_le _, Nat.zero_le _⟩
    · cases hmem
  | step a _ ih =>
    cases a with
    | hit => exact ih.hit
    | pass ms => exact ih.pass ms

/-- A step is at most one event. -/
theorem step_events (rule : RateLimitRule) (s : State) (a : Act) :
    (s.step rule a).2 = [] ∨ ∃ e, (s.step rule a).2 = [e] := by
  cases a with
  | hit => exact Or.inr ⟨_, rfl⟩
  | pass ms =>
    rw [State.step]
    split
    · exact Or.inr ⟨_, rfl⟩
    · exact Or.inl rfl

/-- A window: what happened between two deletions lets at most `limit` hits through. -/
theorem Timed.window (h : Timed rule s trace) {window : List Event} (hwithin : window <:+: trace)
    (hdeleted : .deleted ∉ window) : window.countP Event.passed ≤ rule.limit := by
  induction h with
  | start now =>
    rw [List.infix_nil.mp hwithin]
    exact Nat.zero_le _
  | @step s trace a h ih =>
    rcases step_events rule s a with hnone | ⟨e, hone⟩
    · rw [hnone, List.append_nil] at hwithin
      exact ih hwithin
    · rcases List.infix_concat_iff.mp (hone ▸ hwithin) with hsuffix | hwithin
      · exact ((h.step a).holds.counted window (hone ▸ hsuffix) hdeleted).2
      · exact ih hwithin

/-- A refused hit comes before one that is let through: the block has passed in between. -/
def Spaced (rule : RateLimitRule) (e e' : Event) : Prop :=
  ∀ time record time' record', e = .answered time record → e' = .answered time' record' →
    record.isBlocked = true → record'.isBlocked = false → time + rule.blockDuration ≤ time'

theorem Timed.spaced (h : Timed rule s trace) : trace.Pairwise (Spaced rule) := by
  induction h with
  | start now => exact List.Pairwise.nil
  | @step s trace a h ih =>
    refine List.pairwise_append.mpr ⟨ih, ?_, ?_⟩
    · rcases step_events rule s a with hnone | ⟨e, hone⟩
      · rw [hnone]
        exact List.Pairwise.nil
      · rw [hone]
        exact List.pairwise_singleton _ _
    · rintro e he e' he' time record time' record' rfl rfl hblocked hfree
      cases a with
      | pass ms =>
        rw [State.step] at he'
        split at he'
        · exact absurd (List.mem_singleton.mp he') (by simp)
        · cases he'
      | hit =>
        obtain ⟨rfl, rfl⟩ := Event.answered.inj (List.mem_singleton.mp he')
        by_contra hshort
        -- the block still holds, so this hit is refused as well
        obtain ⟨counter, expiry, hkey, -, hover, -⟩ :=
          h.holds.blocked time record he hblocked (not_le.mp hshort)
        obtain ⟨t, hanswers⟩ := increment_spec rule h.holds.ok
        have hs : s.hits = counter.hits := by rw [State.hits, hkey]; rfl
        rw [hanswers.isBlocked.mpr (by omega)] at hfree
        cases hfree

/-- **The throttle window.** In every state a counter has an expiry; what lies between two
deletions of the key holds at most `limit` hits that were not blocked; a hit that is not blocked
comes at least `blockDuration` after every blocked one before it; and after a hit the seconds
that were reported are no less than what remains. -/
theorem throttle_window (h : Timed rule s trace) :
    (∀ counter, s.key = some counter → counter.expiresAt.isSome) ∧
    (∀ window, window <:+: trace → .deleted ∉ window →
      window.countP Event.passed ≤ rule.limit) ∧
    trace.Pairwise (Spaced rule) ∧
    ∃ expiry, (increment rule s.now s.key).1.expiresAt = some expiry ∧
      expiry - s.now ≤ 1000 * (increment rule s.now s.key).2.timeToExpire ∧
      ((increment rule s.now s.key).2.isBlocked = true →
        expiry - s.now ≤ 1000 * (increment rule s.now s.key).2.timeToBlockExpire) := by
  obtain ⟨expiry, hanswers⟩ := increment_spec rule h.holds.ok
  refine ⟨fun counter hkey => ?_, fun window => h.window, h.spaced, expiry,
    hanswers.alive.expiresAt, hanswers.timeToExpire, hanswers.timeToBlockExpire⟩
  obtain ⟨t, halive⟩ := h.holds.ok counter hkey
  rw [halive.expiresAt]
  rfl

/-- A guesser of pairing codes hits six times in a row: one hit is refused. -/
theorem throttle_window_guesser : ∃ s trace, Timed .deviceActivation s trace ∧
    trace.length = 6 ∧ trace.countP Event.passed ≤ 5 := by
  have hrun := ((((((@Timed.start .deviceActivation 0).step .hit).step .hit).step
    .hit).step .hit).step .hit).step .hit
  refine ⟨_, _, hrun, rfl, (throttle_window hrun).2.1 _ (List.infix_refl _) ?_⟩
  simp [State.step]

end CafePos.Throttle
