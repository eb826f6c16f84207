import CafePos.OrderList
import CafePos.Relational.Keyset

/-!
# When the pages of the list are exact

A cursor carries the total of a row as it is, and its `created_at` without the microseconds. So
the pages of the two sorts by total are always exact. Of the other two, the ascending one repeats a
row that ends a page unless its `created_at` is a whole millisecond, and the descending one skips
the row behind a page unless it lies below the truncated instant (`Resumes`).
-/

namespace CafePos

open Interleaving Text Relational

/-! ## The text of a cursor -/

/-- Characters that take one byte. -/
def Ascii (cs : List Char) : Prop := ∀ c ∈ cs, c.toNat < 128

theorem Ascii.append {cs ds : List Char} (h : Ascii cs) (h' : Ascii ds) : Ascii (cs ++ ds) := by
  intro c hc
  rcases List.mem_append.mp hc with hc | hc
  · exact h c hc
  · exact h' c hc

theorem Ascii.cons {c : Char} {cs : List Char} (hc : c.toNat < 128) (h : Ascii cs) :
    Ascii (c :: cs) := by
  intro d hd
  rcases List.mem_cons.mp hd with rfl | hd
  · exact hc
  · exact h d hd

theorem ascii_nil : Ascii [] := fun _ h => absurd h List.not_mem_nil

theorem ascii_digitChar {d : ℕ} (h : d < 16) : (Nat.digitChar d).toNat < 128 := by
  interval_cases d <;> decide

theorem ascii_printNumber {base : ℕ} (hpos : 0 < base) (hbase : base ≤ 16) (width n : ℕ) :
    Ascii (printNumber base width n) := by
  induction width generalizing n with
  | zero => exact ascii_nil
  | succ width ih =>
    refine (ih _).append (.cons (ascii_digitChar ?_) ascii_nil)
    exact Nat.lt_of_lt_of_le (Nat.mod_lt _ hpos) hbase

theorem ascii_escapeChar {c : Char} (hc : c.toNat < 128) : Ascii (Json.escapeChar c) := by
  unfold Json.escapeChar
  split
  · rename_i e he
    have hmem := List.mem_of_find?_eq_some he
    simp only [Json.escapes, List.mem_cons, List.not_mem_nil, or_false] at hmem
    rcases hmem with rfl | rfl | rfl | rfl | rfl | rfl | rfl <;>
      exact .cons (by decide) (.cons (by decide) ascii_nil)
  · split
    · exact .cons (by decide) (.cons (by decide) (ascii_printNumber (by decide) (by decide) _ _))
    · exact .cons hc ascii_nil

theorem ascii_quote {s : String} (h : Ascii s.toList) : Ascii (Json.quote s) := by
  refine .cons (by decide) (.append (fun c hc => ?_) (.cons (by decide) ascii_nil))
  obtain ⟨d, hd, hc⟩ := List.mem_flatMap.mp hc
  exact ascii_escapeChar (h d hd) c hc

theorem ascii_stringify {ms : List (String × String)}
    (h : ∀ m ∈ ms, Ascii m.1.toList ∧ Ascii m.2.toList) : Ascii (Json.stringify ms) := by
  have hmembers : Ascii (Json.members ms) := by
    induction ms with
    | nil => exact ascii_nil
    | cons m ms ih =>
      have hm : Ascii (Json.quote m.1 ++ ':' :: Json.quote m.2) := by
        obtain ⟨hname, hvalue⟩ := h m (List.mem_cons_self ..)
        exact (ascii_quote hname).append (.cons (by decide) (ascii_quote hvalue))
      have hms := ih fun m' hm' => h m' (List.mem_cons_of_mem _ hm')
      cases ms with
      | nil => exact hm
      | cons m' ms => exact hm.append (.cons (by decide) hms)
  exact .cons (by decide) (hmembers.append (.cons (by decide) ascii_nil))

/-- A UUID that was written reads back. -/
theorem parseUuid_uuidText (u : Uuid) : parseUuid (uuidText u) = some u := by
  have hu := u.isLt
  have hfits : Fits uuidFields [u.val / 16 ^ 24, u.val / 16 ^ 20 % 16 ^ 4,
      u.val / 16 ^ 16 % 16 ^ 4, u.val / 16 ^ 12 % 16 ^ 4, u.val % 16 ^ 12] := by
    simp only [uuidFields, Fits, and_true]
    omega
  rw [parseUuid, uuidText, String.toList_ofList, scan_print hfits]
  simp only [Option.some.injEq]
  refine Fin.ext ?_
  rw [Fin.val_ofNat]
  omega

theorem ascii_uuidText (u : Uuid) : Ascii (uuidText u).toList := by
  have hnum : ∀ width n, Ascii (printNumber 16 width n) :=
    ascii_printNumber (by decide) (by decide)
  rw [uuidText, String.toList_ofList]
  simp only [uuidFields, print]
  refine (hnum _ _).append (.cons (by decide) ((hnum _ _).append (.cons (by decide)
    ((hnum _ _).append (.cons (by decide) ((hnum _ _).append (.cons (by decide)
      ((hnum _ _).append ascii_nil))))))))

theorem ascii_sortValueOf (sort : OrderSort) (row : OrderRow) :
    Ascii (sortValueOf sort row).toList := by
  have hdigits : ∀ n, Ascii (Nat.toDigits 10 n) := by
    intro n c hc
    have := isDigit_toDigits hc
    simp only [Char.isDigit, Bool.and_eq_true, decide_eq_true_eq] at this
    have hle : c.toNat ≤ 57 := this.2
    omega
  have hnum : ∀ width n, Ascii (printNumber 10 width n) :=
    ascii_printNumber (by decide) (by decide)
  unfold sortValueOf
  split
  · rw [String.toList_ofList, printInt]
    split
    · exact .cons (by decide) (hdigits _)
    · exact hdigits _
  · rw [String.toList_ofList]
    simp only [printIso, isoFields, print]
    refine (hnum _ _).append (.cons (by decide) ((hnum _ _).append (.cons (by decide)
      ((hnum _ _).append (.cons (by decide) ((hnum _ _).append (.cons (by decide)
        ((hnum _ _).append (.cons (by decide) ((hnum _ _).append (.cons (by decide)
          ((hnum _ _).append (.cons (by decide) ascii_nil)))))))))))))

/-! ## What a cursor stands for -/

/-- What is left of a row in its cursor: the column at the precision of the driver. -/
def cursorOf (sort : OrderSort) (row : OrderRow) : Position :=
  (if sort.byTotal then row.2.order.totalMinor else (row.2.date : ℤ) * 1000, row.1)

theorem date_lt (row : StoredOrder) : row.date < lastInstant := by
  have := row.createdAt_lt
  simp only [StoredOrder.date]
  omega

/-- What `toISOString` writes is a date. -/
theorem dateParses_of_instant (ms : ℕ) : dateParses (dateOf ms) (timeOf ms) = true := by
  have hvalid : (dateOf ms).Valid := Date.valid_ofDays _
  have hday : (dateOf ms).day ≤ 31 := hvalid.2.2.2.trans (daysInMonth_le _ _)
  have hhour : (timeOf ms).hour ≤ 23 := Nat.le_of_lt_succ (Nat.mod_lt _ (by decide))
  have hminute : (timeOf ms).minute ≤ 59 := Nat.le_of_lt_succ (Nat.mod_lt _ (by decide))
  have hsecond : (timeOf ms).second ≤ 59 := Nat.le_of_lt_succ (Nat.mod_lt _ (by decide))
  simp [dateParses, hvalid.1, hvalid.2.1, hvalid.2.2.1, hday, hhour, hminute, hsecond]

theorem isIssuableValue_sortValueOf (sort : OrderSort) (row : OrderRow) :
    isIssuableValue sort (sortValueOf sort row) = true := by
  cases hsort : sort.byTotal with
  | true =>
    have hint := row.2.totalMinor_int4
    simp only [isIssuableValue, sortValueOf, hsort, if_true, String.toList_ofList,
      scanInt_printInt, Option.any_some, decide_eq_true_eq, abs_le]
    omega
  | false =>
    have hvalue : (sortValueOf sort row).toList =
        printIso (dateOf row.2.date) (timeOf row.2.date) := by
      rw [sortValueOf, hsort, if_neg Bool.false_ne_true, String.toList_ofList]
    rw [isIssuableValue, hsort, if_neg Bool.false_ne_true, hvalue,
      scanIso_printIso (date_lt row.2), Option.any_some]
    exact dateParses_of_instant row.2.date

/-- A cursor that was issued decodes to what was put in. -/
theorem decodeCursor_encodeCursor (sort : OrderSort) (row : OrderRow) :
    decodeCursor (encodeCursor sort.text (sortValueOf sort row) (uuidText row.1)) sort =
      .ok ⟨sortValueOf sort row, uuidText row.1⟩ := by
  have hsort : Ascii sort.text.toList := by
    cases sort <;> simp [OrderSort.text, Ascii]
  have hascii : Ascii (Json.stringify [("s", sort.text), ("v", sortValueOf sort row),
      ("i", uuidText row.1)]) := by
    refine ascii_stringify fun m hm => ?_
    simp only [List.mem_cons, List.not_mem_nil, or_false] at hm
    rcases hm with rfl | rfl | rfl
    · exact ⟨show Ascii "s".toList by simp [Ascii], hsort⟩
    · exact ⟨show Ascii "v".toList by simp [Ascii], ascii_sortValueOf sort row⟩
    · exact ⟨show Ascii "i".toList by simp [Ascii], ascii_uuidText row.1⟩
  rw [decodeCursor, encodeCursor, String.toList_ofList, fromBase64url_toBase64url hascii,
    Json.parse_stringify (List.cons_ne_nil _ _)]
  simp [Json.isObject, Json.member, parseUuid_uuidText, isIssuableValue_sortValueOf]
  rfl

/-- The position at which a page resumes is what is left of the row. -/
theorem cursorPosition_encodeCursor (sort : OrderSort) (row : OrderRow) :
    cursorPosition (encodeCursor sort.text (sortValueOf sort row) (uuidText row.1)) sort =
      .ok (cursorOf sort row) := by
  have huuid : castUuid (uuidText row.1) = .ok row.1 := by
    rw [castUuid, parseUuid_uuidText]
    rfl
  rw [cursorPosition, decodeCursor_encodeCursor]
  cases hsort : sort.byTotal with
  | true =>
    have hcast : castInteger row.2.order.totalMinor = .ok row.2.order.totalMinor :=
      if_pos row.2.totalMinor_int4
    simp only [bind, Except.bind, sortValueOf, hsort, if_true, String.toList_ofList,
      scanInt_printInt, Option.getD_some, hcast, huuid, cursorOf]
    rfl
  | false =>
    have hvalid := Date.valid_ofDays (row.2.date / 86400000 + epochDays)
    have hyear : 1 ≤ (dateOf row.2.date).year := one_le_year_dateOf _
    have hcast : castTimestamptz (String.ofList
        (printIso (dateOf row.2.date) (timeOf row.2.date))) = .ok ((row.2.date : ℤ) * 1000) := by
      rw [castTimestamptz, String.toList_ofList, scanIso_printIso (date_lt row.2)]
      dsimp only
      rw [if_pos, toInstant_dateOf]
      · rfl
      · refine ⟨hvalid, hyear, ?_⟩
        simp only [timeOf]
        omega
    simp only [bind, Except.bind, sortValueOf, hsort, Bool.false_eq_true, if_false, hcast, huuid,
      cursorOf]
    rfl

/-! ## The order of a sort -/

theorem below_irrefl (p : Position) : ¬ p.Below p := by
  simp [Position.Below]

theorem below_trans {p q r : Position} (h : p.Below q) (h' : q.Below r) : p.Below r := by
  simp only [Position.Below] at *
  rcases h with h | ⟨h, hid⟩
  · rcases h' with h' | ⟨h', -⟩
    · exact Or.inl (h.trans h')
    · exact Or.inl (h' ▸ h)
  · rcases h' with h' | ⟨h', hid'⟩
    · exact Or.inl (h ▸ h')
    · exact Or.inr ⟨h.trans h', hid.trans hid'⟩

theorem below_or_eq_or_below (p q : Position) : p.Below q ∨ p = q ∨ q.Below p := by
  obtain ⟨a, i⟩ := p
  obtain ⟨b, k⟩ := q
  simp only [Position.Below, Prod.mk.injEq]
  rcases lt_trichotomy a b with h | h | h
  · exact Or.inl (Or.inl h)
  · subst h
    rcases lt_trichotomy i k with h | h | h
    · exact Or.inl (Or.inr ⟨rfl, h⟩)
    · exact Or.inr (Or.inl ⟨rfl, h⟩)
    · exact Or.inr (Or.inr (Or.inr ⟨rfl, h⟩))
  · exact Or.inr (Or.inr (Or.inl h))

section order

variable {sort : OrderSort}

theorem precedes_irrefl (p : Position) : ¬ Precedes sort p p := by
  unfold Precedes
  split <;> exact below_irrefl p

theorem precedes_trans {p q r : Position} (h : Precedes sort p q) (h' : Precedes sort q r) :
    Precedes sort p r := by
  unfold Precedes at *
  split at h
  · rename_i hd
    rw [if_pos hd] at h' ⊢
    exact below_trans h' h
  · rename_i hd
    rw [if_neg hd] at h' ⊢
    exact below_trans h h'

theorem precedes_or_eq_or_precedes (sort : OrderSort) (p q : Position) :
    Precedes sort p q ∨ p = q ∨ Precedes sort q p := by
  unfold Precedes
  split
  · rcases below_or_eq_or_below p q with h | h | h
    · exact Or.inr (Or.inr h)
    · exact Or.inr (Or.inl h)
    · exact Or.inl h
  · exact below_or_eq_or_below p q

/-- Rows in the order of a sort. -/
def RowPrecedes (sort : OrderSort) (a b : OrderRow) : Prop :=
  Precedes sort (position sort a) (position sort b)

instance (a b : OrderRow) : Decidable (RowPrecedes sort a b) :=
  inferInstanceAs (Decidable (Precedes ..))

instance : Std.Irrefl (RowPrecedes sort) := ⟨fun _ => precedes_irrefl _⟩

instance : IsTrans OrderRow (RowPrecedes sort) := ⟨fun _ _ _ h h' => precedes_trans h h'⟩

/-- The relation the rows are sorted by. -/
theorem sorts (sort : OrderSort) : Std.Total (fun a b : OrderRow => ¬ RowPrecedes sort b a) ∧
    IsTrans OrderRow (fun a b : OrderRow => ¬ RowPrecedes sort b a) := by
  refine ⟨⟨fun a b => ?_⟩, ⟨fun a b c hab hbc hca => ?_⟩⟩
  · by_contra h
    obtain ⟨hba, hab⟩ := not_or.mp h
    exact precedes_irrefl _ (precedes_trans (not_not.mp hab) (not_not.mp hba))
  · rcases precedes_or_eq_or_precedes sort (position sort a) (position sort b) with
      h | h | h
    · exact hbc (precedes_trans hca h)
    · exact hbc (by rw [RowPrecedes, ← h]; exact hca)
    · exact hab h

end order

variable {lower : Char → Char} {db : OrderTables} {sort : OrderSort} {p q : OrderRow → Bool}

/-- The rows that are listed. -/
theorem mem_sorted {row : OrderRow} :
    row ∈ db.sorted sort p ↔ db.orders.get row.1 = some row.2 ∧ p row = true := by
  rw [OrderTables.sorted, List.mem_insertionSort]
  exact Table.mem_select

/-- Each once, and in order. -/
theorem pairwise_sorted : (db.sorted sort p).Pairwise (RowPrecedes sort) := by
  obtain ⟨htotal, htrans⟩ := sorts sort
  have hle : (db.sorted sort p).Pairwise fun a b => ¬ RowPrecedes sort b a :=
    List.pairwise_insertionSort (fun a b : OrderRow => ¬ RowPrecedes sort b a) _
  have hnodup : (db.sorted sort p).Pairwise fun a b => a.1 ≠ b.1 := by
    have hkeys := Table.nodup_select db.orders fun id row => p (id, row)
    have hperm : ((db.sorted sort p).map Prod.fst).Perm
        ((db.orders.select fun id row => p (id, row)).map Prod.fst) :=
      (List.perm_insertionSort _ _).map _
    exact List.pairwise_map.mp (hperm.nodup_iff.mpr hkeys)
  refine (hle.and hnodup).imp fun {a b} hab => ?_
  rcases precedes_or_eq_or_precedes sort (position sort a) (position sort b) with
    h | h | h
  · exact h
  · exact absurd (congrArg Prod.snd h) hab.2
  · exact absurd h hab.1

/-- A further condition is a filter of the list. -/
theorem sorted_and : db.sorted sort (fun row => p row && q row) = (db.sorted sort p).filter q := by
  have hperm : (db.sorted sort fun row => p row && q row).Perm ((db.sorted sort p).filter q) := by
    refine (List.perm_ext_iff_of_nodup ?_ ?_).mpr fun row => ?_
    · exact pairwise_sorted.nodup
    · exact (pairwise_sorted.sublist List.filter_sublist).nodup
    · rw [mem_sorted, List.mem_filter, mem_sorted, Bool.and_eq_true, and_assoc]
  refine List.Perm.eq_of_pairwise (fun a b _ _ hab hba => ?_) pairwise_sorted
    (pairwise_sorted.sublist List.filter_sublist) hperm
  exact absurd (precedes_trans hab hba) (precedes_irrefl _)

/-! ## The pages -/

/-- One request of a client that follows the cursors of a query. -/
def request (lower : Char → Char) (db : OrderTables) (query : OrdersQuery)
    (cursor : Option String) : Option (List ListedOrder × Option String) :=
  (list lower db { query with cursor }).toOption.map fun page => (page.orders, page.nextCursor)

/-- The rows of a query, in order. -/
def OrderTables.answer (lower : Char → Char) (db : OrderTables) (query : OrdersQuery) :
    List OrderRow :=
  db.sorted query.sort (filters lower db query)

/-- A row comes after the cursor of another one. -/
def afterCursor (sort : OrderSort) (r x : OrderRow) : Bool :=
  Precedes sort (cursorOf sort r) (position sort x)

/-- The text of the cursor of a row. -/
def cursorText (sort : OrderSort) (row : OrderRow) : String :=
  encodeCursor sort.text (sortValueOf sort row) (uuidText row.1)

/-- A request is a page of the rows of the query, and its cursor that of a row. -/
theorem request_eq (query : OrdersQuery) (c : Option OrderRow) :
    request lower db query (c.map (cursorText query.sort)) =
      (some (page (db.answer lower query) (afterCursor query.sort) query.limit c)).map
        fun page => (page.1.map toListed, page.2.map (cursorText query.sort)) := by
  have hrows : (db.sorted query.sort fun row => filters lower db query row &&
      (c.map (cursorOf query.sort)).all fun p => Precedes query.sort p (position query.sort row)) =
      remaining (db.answer lower query) (afterCursor query.sort) c := by
    cases c with
    | none => simp [remaining, OrderTables.answer]
    | some r => exact sorted_and
  have hstart : startOf { query with cursor := c.map (cursorText query.sort) } =
      .ok (c.map (cursorOf query.sort)) := by
    cases c with
    | none => rfl
    | some r =>
      change some <$> cursorPosition (cursorText query.sort r) query.sort = _
      rw [cursorText, cursorPosition_encodeCursor]
      rfl
  have hlist : list lower db { query with cursor := c.map (cursorText query.sort) } =
      .ok (pageFrom lower db query (c.map (cursorOf query.sort))) := by
    rw [list, hstart]
    rfl
  rw [request, hlist, page, ← hrows]
  simp only [pageFrom, Except.toOption, Option.map_some, Option.some.injEq, Prod.mk.injEq,
    true_and]
  split
  · rfl
  · rfl

/-- The rows of a list are known by their ids. -/
theorem eq_of_map_toListed {rows out : List OrderRow}
    (h : ∀ r ∈ rows, db.orders.get r.1 = some r.2) (hout : ∀ r ∈ out, r ∈ rows)
    (heq : out.map toListed = rows.map toListed) : out = rows := by
  have hinj : ∀ r ∈ rows, ∀ r' ∈ rows, toListed r = toListed r' → r = r' := by
    intro r hr r' hr' hlisted
    have hid : r.1 = r'.1 := Fin.ext (congrArg (fun x => x.summary.id) hlisted)
    have hrow := h r hr
    rw [hid, h r' hr'] at hrow
    exact Prod.ext hid (Option.some.inj hrow).symm
  have hmap : ∀ {xs ys : List OrderRow}, (∀ r ∈ xs, r ∈ rows) → (∀ r ∈ ys, r ∈ rows) →
      xs.map toListed = ys.map toListed → xs = ys := by
    intro xs
    induction xs with
    | nil =>
      intro ys _ _ h
      exact (List.map_eq_nil_iff.mp h.symm).symm
    | cons x xs ih =>
      intro ys hxs hys h
      cases ys with
      | nil => cases h
      | cons y ys =>
        obtain ⟨hxy, hrest⟩ := List.cons.inj h
        rw [hinj x (hxs x (by simp)) y (hys y (by simp)) hxy,
          ih (fun r hr => hxs r (by simp [hr])) (fun r hr => hys r (by simp [hr])) hrest]
  exact hmap hout (fun _ hr => hr) heq

/-- The cursor of a row falls between it and the next one. -/
def Resumes : OrderSort → OrderRow → OrderRow → Prop
  | .createdAt, r, _ => r.2.createdAt % 1000 = 0
  | .createdAtDesc, r, y => y.2.createdAt < r.2.createdAt / 1000 * 1000 ∨
      y.2.createdAt = r.2.createdAt / 1000 * 1000 ∧ y.1 < r.1
  | _, _, _ => True

theorem resumes_iff {r y : OrderRow} (h : RowPrecedes sort r y) :
    (afterCursor sort r r = false ∧ afterCursor sort r y = true) ↔ Resumes sort r y := by
  cases sort with
  | totalMinor | totalMinorDesc =>
    -- the cursor is where the row is
    refine iff_of_true ⟨?_, decide_eq_true h⟩ trivial
    exact decide_eq_false (precedes_irrefl _)
  | createdAt =>
    simp only [RowPrecedes, Precedes, Position.Below, position, OrderSort.descending,
      OrderSort.byTotal, afterCursor, cursorOf, StoredOrder.date, Resumes, Bool.false_eq_true,
      if_false, decide_eq_false_iff_not, decide_eq_true_eq, Fin.lt_def] at h ⊢
    omega
  | createdAtDesc =>
    simp only [RowPrecedes, Precedes, Position.Below, position, OrderSort.descending,
      OrderSort.byTotal, afterCursor, cursorOf, StoredOrder.date, Resumes, Bool.false_eq_true,
      if_false, if_true, decide_eq_false_iff_not, decide_eq_true_eq, Fin.lt_def] at h ⊢
    omega

/-- Following the cursors of a query from its first page ends, and the pages make up the rows of
the query in order, each once. -/
def PagesExact (lower : Char → Char) (db : OrderTables) (query : OrdersQuery) : Prop :=
  ∃ n, walk (request lower db query) n none = some ((db.answer lower query).map toListed)

/-- Every cursor that is issued falls between the row that ends a page and the next one. -/
def PagesResume (lower : Char → Char) (db : OrderTables) (query : OrdersQuery) : Prop :=
  ∀ (j : ℕ) (r y : OrderRow), (db.answer lower query)[query.limit * (j + 1) - 1]? = some r →
    (db.answer lower query)[query.limit * (j + 1)]? = some y → Resumes query.sort r y

theorem pagesExact_iff (query : OrdersQuery) :
    PagesExact lower db query ↔ PagesResume lower db query := by
  have hwalk : ∀ n, walk (request lower db query) n none =
      (walk (fun c => some (page (db.answer lower query) (afterCursor query.sort) query.limit c))
        n none).map (List.map toListed) :=
    fun n => walk_map (request_eq query) n none
  have hrows : ∀ r ∈ db.answer lower query, db.orders.get r.1 = some r.2 :=
    fun r hr => (mem_sorted.mp hr).1
  have hafter : ∀ r x y, afterCursor query.sort r x = true → RowPrecedes query.sort x y →
      afterCursor query.sort r y = true := by
    intro r x y hx hxy
    exact decide_eq_true (precedes_trans (of_decide_eq_true hx) hxy)
  have hpair : (db.answer lower query).Pairwise (RowPrecedes query.sort) := pairwise_sorted
  have hseparated : Separated (db.answer lower query) (afterCursor query.sort) query.limit ↔
      PagesResume lower db query := by
    refine forall_congr' fun j => forall_congr' fun r => forall_congr' fun y =>
      forall_congr' fun hr => forall_congr' fun hy => resumes_iff ?_
    have hpos := query.limit.2.1
    obtain ⟨hi, rfl⟩ := List.getElem?_eq_some_iff.mp hr
    obtain ⟨hk, rfl⟩ := List.getElem?_eq_some_iff.mp hy
    refine List.pairwise_iff_getElem.mp hpair _ _ hi hk ?_
    exact Nat.sub_lt (Nat.mul_pos hpos (Nat.succ_pos j)) Nat.one_pos
  rw [← hseparated, ← exists_walk_iff query.limit.2.1 hpair hafter]
  constructor
  · rintro ⟨n, hn⟩
    rw [hwalk n] at hn
    obtain ⟨out, hout, heq⟩ := Option.map_eq_some_iff.mp hn
    exact ⟨n, by rw [hout, eq_of_map_toListed hrows (mem_of_walk hout) heq]⟩
  · rintro ⟨n, hn⟩
    exact ⟨n, by rw [hwalk n, hn, Option.map_some]⟩

/-- The rows of a query are those that are stored and pass its filters, each once, in the order of
its sort with ties broken by the id; and following its cursors reads exactly them, if and only if
every cursor that is issued falls between the row that ends a page and the next one. -/
theorem list_pages_exact_iff (lower : Char → Char) (db : OrderTables) (query : OrdersQuery) :
    (∀ row, row ∈ db.answer lower query ↔
      db.orders.get row.1 = some row.2 ∧ filters lower db query row = true) ∧
    (db.answer lower query).Pairwise (RowPrecedes query.sort) ∧
    (PagesExact lower db query ↔ PagesResume lower db query) :=
  ⟨fun _ => mem_sorted, pairwise_sorted, pagesExact_iff query⟩

/-! ## Two orders in one millisecond -/

/-- A paid order of 90 baht. -/
def latteOrder : Order :=
  ⟨none, "2026-01-01", .counter, .draft, none, none, none, 9000, 589, 9000, "THB", none⟩

theorem latteOrder_int4 : -2 ^ 31 ≤ latteOrder.totalMinor ∧ latteOrder.totalMinor < 2 ^ 31 := by
  decide

theorem first_instant_lt : 1767225600000001 < lastInstant * 1000 := by decide

theorem second_instant_lt : 1767225600000002 < lastInstant * 1000 := by decide

/-- Two drafts, created one microsecond apart. -/
def twoDrafts : OrderTables :=
  ⟨((∅ : Table Uuid StoredOrder).put 1 ⟨latteOrder, _, first_instant_lt, latteOrder_int4⟩).put 2
    ⟨latteOrder, _, second_instant_lt, latteOrder_int4⟩, ∅⟩

/-- The newest orders first, one on a page. -/
def oneByOne : OrdersQuery :=
  ⟨none, none, none, none, none, none, none, .createdAtDesc, ⟨1, by decide⟩, none⟩

/-- The second draft ends the first page, and the first one is skipped. -/
theorem list_pages_skip : ¬ PagesExact id twoDrafts oneByOne := by
  rw [pagesExact_iff]
  intro h
  have hmap : (twoDrafts.answer id oneByOne).map (fun row => row.2.createdAt) =
      [1767225600000002, 1767225600000001] := by decide
  obtain ⟨r, rest, hrows, hr, hrest⟩ := List.map_eq_cons_iff.mp hmap
  obtain ⟨y, rest, rfl, hy, -⟩ := List.map_eq_cons_iff.mp hrest
  have hresumes := h 0 r y (by rw [hrows]; rfl) (by rw [hrows]; rfl)
  simp only [oneByOne, Resumes, hr, hy] at hresumes
  omega

end CafePos
