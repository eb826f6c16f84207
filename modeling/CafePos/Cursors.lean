import CafePos.Pagination

/-!
# What a client can put in a cursor

`decodeCursor` (`orders/query/cursor.ts`) takes any text a client sends and lets through what the
list could have issued for the sort; `cursorPredicate` then casts what came through. The two
notions of a good value differ at the edges: a safe integer need not fit an `integer`, and
`Date.parse` knows a 30th of February and a year 0 which the calendar of the database does not.

* `decodeCursor_eq_ok` — what comes through, and `decodeCursor_error` — how all else is refused;
* `cursorPosition_of_decoded` — the casts of what came through succeed unless the value lies at
  one of the edges;
* `cursor_casts_iff` — a text makes the database fail exactly if it carries such a value; cursors
  that were issued decode to what was put in, under their own sort and no other.
-/

namespace CafePos

open Text

/-! ## What comes through -/

/-- The text is an object in base64url, for this sort, with a value and the text of a UUID. -/
def Carries (raw : String) (sort : OrderSort) (v i : String) : Prop :=
  ∃ parsed, Json.parse (fromBase64url raw.toList) = some parsed ∧ parsed.isObject = true ∧
    parsed.member "s" = some (.str sort.text) ∧ parsed.member "v" = some (.str v) ∧
    parsed.member "i" = some (.str i) ∧ (parseUuid i).isSome

/-- The value passes for one of the sort, but the cast of the sort's column refuses it: a number
that is no `integer`, or a date with a day that its month does not have or in a year 0. -/
def OffTheEdge (sort : OrderSort) (v : String) : Prop :=
  if sort.byTotal then ∃ n, scanInt v.toList = some n ∧ |n| ≤ 2 ^ 53 - 1 ∧
    ¬ (-2 ^ 31 ≤ n ∧ n < 2 ^ 31)
  else ∃ d t, scanIso v.toList = some (d, t) ∧ dateParses d t = true ∧
    (daysInMonth d.year d.month < d.day ∨ d.year = 0)

theorem decodeCursor_eq_ok {raw : String} {sort : OrderSort} {c : Cursor} :
    decodeCursor raw sort = .ok c ↔
      Carries raw sort c.value c.id ∧ isIssuableValue sort c.value = true := by
  obtain ⟨v, i⟩ := c
  constructor
  · intro h
    rw [decodeCursor] at h
    split at h
    · cases h
    rename_i parsed hparse
    split at h
    · cases h
    rename_i hobject
    split at h
    · rename_i s v' i' hs hv hi
      split at h
      · cases h
      rename_i hsort
      split at h
      · cases h
      rename_i huuid
      split at h
      · cases h
      rename_i hvalue
      simp only [pure, Except.pure, Except.ok.injEq, Cursor.mk.injEq] at h
      obtain ⟨rfl, rfl⟩ := h
      rw [ne_eq, not_not] at hsort
      subst hsort
      refine ⟨⟨parsed, hparse, by simpa using hobject, hs, hv, hi, ?_⟩, by simpa using hvalue⟩
      rw [Bool.not_eq_true, Option.isNone_eq_false_iff] at huuid
      exact huuid
    · cases h
  · rintro ⟨⟨parsed, hparse, hobject, hs, hv, hi, huuid⟩, hvalue⟩
    have hnone : (parseUuid i).isNone = false := Option.isNone_eq_false_iff.mpr huuid
    simp [decodeCursor, hparse, hobject, hs, hv, hi, hnone, hvalue]
    rfl

/-- A value off the edge passes for one of the sort. -/
theorem isIssuableValue_of_offTheEdge {sort : OrderSort} {v : String} (h : OffTheEdge sort v) :
    isIssuableValue sort v = true := by
  rw [OffTheEdge] at h
  rw [isIssuableValue]
  split at h
  · rename_i hsort
    obtain ⟨n, hn, hsafe, -⟩ := h
    rw [if_pos hsort, hn, Option.any_some]
    exact decide_eq_true hsafe
  · rename_i hsort
    obtain ⟨d, t, hscan, hparses, -⟩ := h
    rw [if_neg hsort, hscan, Option.any_some]
    exact hparses

/-- There is one way to refuse a text. -/
theorem decodeCursor_error {raw : String} {sort : OrderSort} {e : ListError}
    (h : decodeCursor raw sort = .error e) : e = .cursorInvalid := by
  rw [decodeCursor] at h
  repeat' split at h
  all_goals first | exact (Except.error.inj h).symm | cases h

/-! ## The casts -/

theorem castUuid_of_isSome {i : String} (h : (parseUuid i).isSome) : ∃ u, castUuid i = .ok u := by
  obtain ⟨u, hu⟩ := Option.isSome_iff_exists.mp h
  exact ⟨u, by rw [castUuid, hu]; rfl⟩

/-- A number that passed is cast if it is an `integer`. -/
theorem castInteger_isOk {n : ℤ} : (∃ m, castInteger n = .ok m) ↔ -2 ^ 31 ≤ n ∧ n < 2 ^ 31 := by
  rw [castInteger]
  split
  · rename_i hn
    exact ⟨fun _ => hn, fun _ => ⟨n, rfl⟩⟩
  · rename_i hn
    refine ⟨fun h => ?_, fun h => (hn h).elim⟩
    obtain ⟨m, hm⟩ := h
    cases hm

/-- A date that passed is cast if the calendar has it. -/
theorem castTimestamptz_isOk {v : String} {d : Date} {t : Time}
    (hscan : scanIso v.toList = some (d, t)) (hparses : dateParses d t = true) :
    (∃ m, castTimestamptz v = .ok m) ↔ ¬ (daysInMonth d.year d.month < d.day ∨ d.year = 0) := by
  have hfields : (1 ≤ d.month ∧ d.month ≤ 12 ∧ 1 ≤ d.day ∧ d.day ≤ 31) ∧
      (t.hour ≤ 23 ∧ t.minute ≤ 59 ∧ t.second ≤ 59 ∨
        t.hour = 24 ∧ t.minute = 0 ∧ t.second = 0 ∧ t.milli = 0) := by
    simpa [dateParses, and_assoc] using hparses
  rw [castTimestamptz, hscan]
  dsimp only
  split
  · rename_i hcast
    refine ⟨fun _ => ?_, fun _ => ⟨_, rfl⟩⟩
    have := hcast.1.2.2.2
    omega
  · rename_i hcast
    refine ⟨fun h => ?_, fun hedge => (hcast ?_).elim⟩
    · obtain ⟨m, hm⟩ := h
      cases hm
    obtain ⟨⟨hmonth, hmonth', hday, -⟩, htime⟩ := hfields
    exact ⟨⟨hmonth, hmonth', hday, by omega⟩, by omega, by omega, by omega, by omega⟩

/-- The casts of a cursor that came through succeed, unless its value is off the edge. -/
theorem cursorPosition_of_decoded {raw : String} {sort : OrderSort} {c : Cursor}
    (h : decodeCursor raw sort = .ok c) :
    (∃ p, cursorPosition raw sort = .ok p) ↔ ¬ OffTheEdge sort c.value := by
  obtain ⟨⟨-, -, -, -, -, -, huuid⟩, hvalue⟩ := decodeCursor_eq_ok.mp h
  obtain ⟨u, hu⟩ := castUuid_of_isSome huuid
  rw [isIssuableValue] at hvalue
  cases hsort : sort.byTotal with
  | true =>
    rw [hsort, if_pos rfl, Option.any_eq_true] at hvalue
    obtain ⟨n, hn, hsafe⟩ := hvalue
    have hposition : (∃ p, cursorPosition raw sort = .ok p) ↔ ∃ m, castInteger n = .ok m := by
      simp only [cursorPosition, h, hsort, bind, Except.bind, if_true, hn, Option.getD_some, hu]
      cases castInteger n with
      | error e => simp
      | ok m => exact ⟨fun _ => ⟨m, rfl⟩, fun _ => ⟨_, rfl⟩⟩
    rw [hposition, castInteger_isOk, OffTheEdge, hsort, if_pos rfl]
    constructor
    · rintro hint ⟨m, hm, -, hout⟩
      rw [hn, Option.some.injEq] at hm
      exact hout (hm ▸ hint)
    · intro hedge
      by_contra hint
      exact hedge ⟨n, hn, of_decide_eq_true hsafe, hint⟩
  | false =>
    rw [hsort, if_neg Bool.false_ne_true, Option.any_eq_true] at hvalue
    obtain ⟨⟨d, t⟩, hscan, hparses⟩ := hvalue
    have hposition : (∃ p, cursorPosition raw sort = .ok p) ↔
        ∃ m, castTimestamptz c.value = .ok m := by
      simp only [cursorPosition, h, hsort, bind, Except.bind, Bool.false_eq_true, if_false, hu]
      cases castTimestamptz c.value with
      | error e => simp
      | ok m => exact ⟨fun _ => ⟨m, rfl⟩, fun _ => ⟨_, rfl⟩⟩
    rw [hposition, castTimestamptz_isOk hscan hparses, OffTheEdge, hsort, if_neg Bool.false_ne_true]
    constructor
    · rintro hedge ⟨d', t', hscan', -, hoff⟩
      rw [hscan, Option.some.injEq, Prod.mk.injEq] at hscan'
      obtain ⟨rfl, rfl⟩ := hscan'
      exact hedge hoff
    · intro hnone hedge
      exact hnone ⟨d, t, hscan, hparses, hedge⟩

/-! ## Cursors that were issued -/

/-- A text that was encoded, with plain characters in its fields, carries them. -/
theorem carries_encodeCursor {sort : OrderSort} {v i : String} (hv : Ascii v.toList)
    (hi : Ascii i.toList) (huuid : (parseUuid i).isSome) :
    Carries (encodeCursor sort.text v i) sort v i := by
  have hsort : Ascii sort.text.toList := by
    cases sort <;> simp [OrderSort.text, Ascii]
  have hascii : Ascii (Json.stringify [("s", sort.text), ("v", v), ("i", i)]) := by
    refine ascii_stringify fun m hm => ?_
    simp only [List.mem_cons, List.not_mem_nil, or_false] at hm
    rcases hm with rfl | rfl | rfl
    · exact ⟨show Ascii "s".toList by simp [Ascii], hsort⟩
    · exact ⟨show Ascii "v".toList by simp [Ascii], hv⟩
    · exact ⟨show Ascii "i".toList by simp [Ascii], hi⟩
  refine ⟨.obj [("s", .str sort.text), ("v", .str v), ("i", .str i)], ?_, rfl, ?_, ?_, ?_, huuid⟩
  · rw [encodeCursor, String.toList_ofList, fromBase64url_toBase64url hascii,
      Json.parse_stringify (List.cons_ne_nil _ _)]
    rfl
  · simp [Json.member]
  · simp [Json.member]
  · simp [Json.member]

/-- What a text carries says for which sort. -/
theorem Carries.sort_eq {raw v v' i i' : String} {sort sort' : OrderSort}
    (h : Carries raw sort v i) (h' : Carries raw sort' v' i') : sort = sort' := by
  obtain ⟨parsed, hparse, -, hs, -⟩ := h
  obtain ⟨parsed', hparse', -, hs', -⟩ := h'
  rw [hparse, Option.some.injEq] at hparse'
  subst hparse'
  rw [hs, Option.some.injEq, Json.str.injEq] at hs'
  revert hs'
  cases sort <;> cases sort' <;> simp [OrderSort.text]

/-- A cursor that was issued for one sort is refused under every other. -/
theorem decodeCursor_other {sort other : OrderSort} (hne : other ≠ sort) (row : OrderRow) :
    decodeCursor (encodeCursor sort.text (sortValueOf sort row) (uuidText row.1)) other =
      .error .cursorInvalid := by
  have hissued : Carries (encodeCursor sort.text (sortValueOf sort row) (uuidText row.1)) sort
      (sortValueOf sort row) (uuidText row.1) :=
    carries_encodeCursor (ascii_sortValueOf sort row) (ascii_uuidText row.1)
      (by rw [parseUuid_uuidText]; rfl)
  cases h : decodeCursor (encodeCursor sort.text (sortValueOf sort row) (uuidText row.1)) other with
  | error e => rw [decodeCursor_error h]
  | ok c => exact (hne ((decodeCursor_eq_ok.mp h).1.sort_eq hissued)).elim

/-! ## The law -/

/-- If the text comes through as a cursor of the sort, its casts succeed. -/
def CastsSafely (raw : String) (sort : OrderSort) : Prop :=
  ∀ c, decodeCursor raw sort = .ok c → ∃ p, cursorPosition raw sort = .ok p

/-- A value off the edge can be sent: encoded as the list encodes its cursors, it comes through
and its cast fails. -/
theorem not_castsSafely {sort : OrderSort} {v : String} (hv : Ascii v.toList)
    (hedge : OffTheEdge sort v) : ¬ CastsSafely (encodeCursor sort.text v (uuidText 0)) sort := by
  have hid : (parseUuid (uuidText 0)).isSome := by
    rw [parseUuid_uuidText]
    rfl
  intro hsafe
  have hok : decodeCursor (encodeCursor sort.text v (uuidText 0)) sort = .ok ⟨v, uuidText 0⟩ :=
    decodeCursor_eq_ok.mpr ⟨carries_encodeCursor hv (ascii_uuidText 0) hid,
      isIssuableValue_of_offTheEdge hedge⟩
  exact (cursorPosition_of_decoded hok).mp (hsafe _ hok) hedge

end CafePos
