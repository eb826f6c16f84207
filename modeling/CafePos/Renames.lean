import CafePos.Rerolls

/-!
# The name of a renamed item

A line keeps the name its item had when it was ordered, so an item that was renamed has several
names on one day. `mergeTopItems` shows the name of the last row of the item on the latest day
that has one. But the rows of a day are sorted, most sold first, so what comes last is the name
under which the day sold the least, not the name it sold last.

* `name_of_entry` — over days in ascending order, an entry has the name of its last row;
* `shown_name` — that is the last of the item's rows on the latest day that sold it;
* `rename_shown_iff` — when the name that is shown is that of the newest line.
-/

namespace CafePos

open Interleaving Relational

variable {localeCompare : String → String → Ordering} {db : Db} {days : List String}
  {day : String}

/-! ## The last row names the entry -/

/-- If the days never go back, an entry has the name of its last row. -/
theorem name_of_entry {rows : List (String × RollupItem)}
    (hrows : rows.Pairwise fun a b => a.1 ≤ b.1) {running : RunningTotal}
    (h : itemTally.entry rows = some running) :
    ∃ row, rows.getLast? = some row ∧ running.nameFrom = row.1 ∧ running.name = row.2.name := by
  induction rows using List.reverseRecOn generalizing running with
  | nil => cases h
  | append_singleton rows row ih =>
    refine ⟨row, List.getLast?_concat, ?_⟩
    obtain ⟨hrows, -, hlast⟩ := List.pairwise_append.mp hrows
    rw [Tally.entry_append, Option.some.injEq] at h
    cases hentry : itemTally.entry rows with
    | none =>
      rw [hentry] at h
      subst h
      exact ⟨rfl, rfl⟩
    | some before =>
      rw [hentry] at h
      subst h
      -- the name so far is from the day of an earlier row
      obtain ⟨row', hrow', hfrom, -⟩ := ih hrows hentry
      have hle : before.nameFrom ≤ row.1 :=
        hfrom ▸ hlast row' (List.mem_of_getLast? hrow') row (List.mem_singleton_self row)
      exact ⟨if_pos hle, if_pos hle⟩

/-- The item lists of days, each tagged with its day. -/
def dayLists (items : String → List RollupItem) (days : List String) : List DayItems :=
  days.map fun day => ⟨day, items day⟩

/-- The rows of one item. -/
def rowsOf (items : String → List RollupItem) (days : List String) (id : Id) :
    List (String × RollupItem) :=
  (dayRows (dayLists items days)).filter fun row => row.2.menuItemId = id

theorem rowsOf_cons (items : String → List RollupItem) (day : String) (days : List String)
    (id : Id) : rowsOf items (day :: days) id =
      ((items day).filter fun i => i.menuItemId = id).map (fun i => (day, i)) ++
        rowsOf items days id := by
  have hrows : dayRows (dayLists items (day :: days)) =
      (items day).map (fun i => (day, i)) ++ dayRows (dayLists items days) := rfl
  rw [rowsOf, hrows, List.filter_append, List.filter_map]
  rfl

theorem mem_rowsOf {items : String → List RollupItem} {id : Id} {row : String × RollupItem} :
    row ∈ rowsOf items days id ↔ row.1 ∈ days ∧ row.2 ∈ items row.1 ∧ row.2.menuItemId = id := by
  induction days with
  | nil => simp [rowsOf, dayRows, dayLists]
  | cons day days ih =>
    rw [rowsOf_cons, List.mem_append, ih, List.mem_map]
    constructor
    · rintro (⟨i, hi, rfl⟩ | ⟨hday, hrow⟩)
      · obtain ⟨hi, hid⟩ := List.mem_filter.mp hi
        exact ⟨List.mem_cons_self .., hi, of_decide_eq_true hid⟩
      · exact ⟨List.mem_cons_of_mem _ hday, hrow⟩
    · rintro ⟨hday, hi, hid⟩
      rcases List.mem_cons.mp hday with hday | hday
      · exact Or.inl ⟨row.2, List.mem_filter.mpr ⟨hday ▸ hi, decide_eq_true hid⟩, by rw [← hday]⟩
      · exact Or.inr ⟨hday, hi, hid⟩

theorem rowsOf_ascending (items : String → List RollupItem) (hdays : days.Pairwise (· < ·))
    (id : Id) : (rowsOf items days id).Pairwise fun a b => a.1 ≤ b.1 := by
  induction days with
  | nil => exact List.Pairwise.nil
  | cons day days ih =>
    obtain ⟨hday, hdays⟩ := List.pairwise_cons.mp hdays
    rw [rowsOf_cons]
    refine List.pairwise_append.mpr ⟨?_, ih hdays, ?_⟩
    · exact List.pairwise_map.mpr (List.pairwise_of_forall fun _ _ => le_refl _)
    · intro row hrow row' hrow'
      obtain ⟨i, -, rfl⟩ := List.mem_map.mp hrow
      exact (hday row'.1 (mem_rowsOf.mp hrow').1).le

/-- The last row of an item is its last one on the latest day that has it. -/
theorem getLast_rowsOf {items : String → List RollupItem} (hdays : days.Pairwise (· < ·)) {id : Id}
    (hday : day ∈ days) {e : RollupItem}
    (he : ((items day).filter fun i => i.menuItemId = id).getLast? = some e)
    (hlater : ∀ day' ∈ days, ∀ i ∈ items day', i.menuItemId = id → day' ≤ day) :
    (rowsOf items days id).getLast? = some (day, e) := by
  induction days with
  | nil => cases hday
  | cons first days ih =>
    obtain ⟨hfirst, hdays⟩ := List.pairwise_cons.mp hdays
    rw [rowsOf_cons]
    rcases List.mem_cons.mp hday with rfl | hday
    · have hnone : rowsOf items days id = [] := by
        refine List.eq_nil_iff_forall_not_mem.mpr fun row hrow => ?_
        obtain ⟨hmem, hi, hid⟩ := mem_rowsOf.mp hrow
        exact absurd (hfirst _ hmem) (hlater _ (List.mem_cons_of_mem _ hmem) _ hi hid).not_gt
      rw [hnone, List.append_nil, List.getLast?_map, he]
      rfl
    · have hrest := ih hdays hday fun day' hday' => hlater day' (List.mem_cons_of_mem _ hday')
      rw [List.getLast?_append, hrest]
      rfl

/-- The name that is shown for an item. -/
theorem shown_name {items : String → List RollupItem} (hdays : days.Pairwise (· < ·)) {id : Id}
    (hday : day ∈ days) {e : RollupItem}
    (he : ((items day).filter fun i => i.menuItemId = id).getLast? = some e)
    (hlater : ∀ day' ∈ days, ∀ i ∈ items day', i.menuItemId = id → day' ≤ day) {t : TopItem}
    (ht : t ∈ mergedItems localeCompare (dayLists items days)) (hid : t.menuItemId = id) :
    t.name = e.name := by
  obtain ⟨running, hmem, rfl⟩ := List.mem_map.mp ((mergedItems_perm _ _).mem_iff.mp ht)
  rw [mergeTotals_eq] at hmem
  have hentry : itemTally.entry (rowsOf items days id) = some running := by
    rw [← hid]
    exact itemTally.entry_of_mem hmem
  obtain ⟨row, hrow, -, hname⟩ := name_of_entry (rowsOf_ascending items hdays id) hentry
  rw [getLast_rowsOf hdays hday he hlater, Option.some.injEq] at hrow
  rw [hname, ← hrow]

/-! ## The newest line -/

/-- The line is the most recently created one of its item on the latest of the days that sold
the item. -/
structure NewestLine (createdAt : Id → Instant) (db : Db) (days : List String) (day : String)
    (line : OrderItem) : Prop where
  day_mem : day ∈ days
  sold : line ∈ db.soldOn day
  latest : ∀ day' ∈ days, ∀ i ∈ db.soldOn day', i.menuItemId = line.menuItemId → day' ≤ day
  newest : ∀ i ∈ db.soldOn day, i.menuItemId = line.menuItemId →
    createdAt i.orderId ≤ createdAt line.orderId

/-- Whatever order the queries answer in and whatever the limit, the leaderboard over the days
shows an item under this name if it shows it. -/
def ShownAs (localeCompare : String → String → Ordering) (db : Db) (days : List String) (id : Id)
    (name : String) : Prop :=
  ∀ parts : String → RollupParts, (∀ day ∈ days, CouldReturn db day (parts day)) → ∀ limit,
    ∀ t ∈ mergeTopItems localeCompare
      (dayLists (fun day => (buildRollupRow localeCompare day (parts day)).topItems) days) limit,
      t.menuItemId = id → t.name = name

/-- The day sold the line's item under every other name more often, or as often and that name
comes first. -/
def SoldLeast (localeCompare : String → String → Ordering) (db : Db) (day : String)
    (line : OrderItem) : Prop :=
  ∀ i ∈ db.soldOn day, i.menuItemId = line.menuItemId → i.nameSnapshot ≠ line.nameSnapshot →
    db.soldUnder day line.menuItemId line.nameSnapshot <
      db.soldUnder day i.menuItemId i.nameSnapshot ∨
    db.soldUnder day i.menuItemId i.nameSnapshot =
      db.soldUnder day line.menuItemId line.nameSnapshot ∧
      localeCompare i.nameSnapshot line.nameSnapshot = .lt

instance (localeCompare : String → String → Ordering) (db : Db) (day : String)
    (line : OrderItem) : Decidable (SoldLeast localeCompare db day line) :=
  inferInstanceAs (Decidable (∀ i ∈ db.soldOn day, _ → _ → _))

section law

variable [Std.TransCmp localeCompare] {createdAt : Id → Instant} {line : OrderItem}

/-- The group of the line sorts strictly after all other groups of its item. -/
theorem soldLeast_iff {e : RollupItem} (he : e ∈ (aggregateDay db day).items)
    (hid : e.menuItemId = line.menuItemId) (hname : e.name = line.nameSnapshot)
    (hquantity : e.quantity = db.soldUnder day line.menuItemId line.nameSnapshot) :
    SoldLeast localeCompare db day line ↔ ∀ y ∈ (aggregateDay db day).items,
      decide (y.menuItemId = line.menuItemId) = true → y ≠ e → topFirst localeCompare e y = false := by
  have hbefore : ∀ y : RollupItem, topFirst localeCompare e y = false ↔
      e.quantity < y.quantity ∨ y.quantity = e.quantity ∧ localeCompare y.name e.name = .lt := by
    intro y
    rw [topFirst, Bool.or_eq_false_iff, Bool.and_eq_false_iff, decide_eq_false_iff_not,
      beq_eq_false_iff_ne, ← Std.OrientedCmp.gt_iff_lt]
    cases localeCompare e.name y.name <;> simp <;> omega
  constructor
  · intro h y hy hyid hne
    obtain ⟨⟨i, hi, hiid, hiname⟩, hsold⟩ := exists_mem_items.mp ⟨y, hy, rfl, rfl, rfl⟩
    rw [decide_eq_true_eq] at hyid
    have hnames : i.nameSnapshot ≠ line.nameSnapshot := by
      intro heq
      refine hne (eq_of_key hy he (hyid.trans hid.symm) ?_)
      rw [← hiname, heq, hname]
    rw [hbefore, hquantity, ← hsold, ← hiid, ← hiname, hname]
    exact h i hi (hiid.trans hyid) hnames
  · intro h i hi hiid hnames
    obtain ⟨y, hy, hyid, hyname, hysold⟩ := exists_mem_items.mpr
      ⟨⟨i, hi, rfl, rfl⟩, (rfl : db.soldUnder day i.menuItemId i.nameSnapshot = _)⟩
    have hne : y ≠ e := by
      rintro rfl
      exact hnames (hyname.symm.trans hname)
    have := (hbefore y).mp (h y hy (decide_eq_true (hyid.trans hiid)) hne)
    rwa [hquantity, hyname, hysold, hname] at this

omit [Std.TransCmp localeCompare] in
theorem topItems_perm {parts : RollupParts} (h : CouldReturn db day parts) :
    (buildRollupRow localeCompare day parts).topItems.Perm (aggregateDay db day).items :=
  (List.mergeSort_perm _ _).trans h.items

omit [Std.TransCmp localeCompare] in
/-- No later day has the item. -/
theorem NewestLine.not_later (hnew : NewestLine createdAt db days day line)
    {parts : String → RollupParts} (hparts : ∀ day ∈ days, CouldReturn db day (parts day)) :
    ∀ day' ∈ days, ∀ i ∈ (buildRollupRow localeCompare day' (parts day')).topItems,
      i.menuItemId = line.menuItemId → day' ≤ day := by
  intro day' hday' i hi hid
  have hitem := (topItems_perm (hparts day' hday')).mem_iff.mp hi
  obtain ⟨⟨j, hj, hjid, -⟩, -⟩ := exists_mem_items.mp ⟨i, hitem, rfl, rfl, rfl⟩
  exact hnew.latest day' hday' j hj (hjid.trans hid)

omit [Std.TransCmp localeCompare] in
/-- An item that has a row is shown. -/
theorem exists_shown {items : String → List RollupItem} (hday : day ∈ days) {e : RollupItem}
    (he : e ∈ items day) : ∃ t ∈ mergedItems localeCompare (dayLists items days),
      t.menuItemId = e.menuItemId := by
  have hrow : ((day, e) : String × RollupItem) ∈ dayRows (dayLists items days) :=
    (List.mem_filter.mp (mem_rowsOf.mpr ⟨hday, he, rfl⟩)).1
  obtain ⟨running, hmem, hid⟩ := List.mem_map.mp (mem_ids.mpr ⟨_, hrow, rfl⟩)
  exact ⟨running.toTopItem, (mergedItems_perm _ _).mem_iff.mpr (List.mem_map_of_mem hmem), hid⟩

/-- The comparison of the day's queries has to put the group of the line last, in every order in
which they can answer. -/
theorem soldLeast_of_shownAs (hdays : days.Pairwise (· < ·))
    (hnew : NewestLine createdAt db days day line)
    (hshown : ShownAs localeCompare db days line.menuItemId line.nameSnapshot) :
    SoldLeast localeCompare db day line := by
  obtain ⟨e, he, hid, hname, hquantity⟩ := exists_mem_items.mpr
    ⟨⟨line, hnew.sold, rfl, rfl⟩, (rfl : db.soldUnder day line.menuItemId line.nameSnapshot = _)⟩
  refine (soldLeast_iff he hid hname hquantity).mpr <|
    (getLast_mergeSort_iff (topFirst_trans localeCompare) (topFirst_total localeCompare)
      nodup_rollupItems he (decide_eq_true hid)).mp fun l' hperm => ?_
  -- the day's query answers in this order
  let parts : String → RollupParts := fun d =>
    { aggregateDay db d with items := if d = day then l' else (aggregateDay db d).items }
  let lists : String → List RollupItem := fun d =>
    (buildRollupRow localeCompare d (parts d)).topItems
  have hparts : ∀ d ∈ days, CouldReturn db d (parts d) := by
    intro d _
    refine ⟨List.Perm.refl _, List.Perm.refl _, rfl, rfl, rfl, ?_⟩
    change (if d = day then l' else (aggregateDay db d).items).Perm _
    split
    · rename_i hd
      exact hd ▸ hperm
    · exact List.Perm.refl _
  have hlist : lists day = l'.mergeSort (topFirst localeCompare) := by
    change (if day = day then l' else (aggregateDay db day).items).mergeSort _ = _
    rw [if_pos rfl]
  have hsort : (lists day).Perm (aggregateDay db day).items :=
    topItems_perm (hparts day hnew.day_mem)
  rw [← hlist]
  have hmem : e ∈ (lists day).filter fun i => i.menuItemId = line.menuItemId :=
    List.mem_filter.mpr ⟨hsort.mem_iff.mpr he, decide_eq_true hid⟩
  obtain ⟨x, hx⟩ := Option.ne_none_iff_exists'.mp
    (mt List.getLast?_eq_none_iff.mp (List.ne_nil_of_mem hmem))
  obtain ⟨hxmem, hxid⟩ := List.mem_filter.mp (List.mem_of_getLast? hx)
  rw [decide_eq_true_eq] at hxid
  -- so that its last group is the one that is shown, by the limit of all items
  obtain ⟨t, ht, htid⟩ :
      ∃ t ∈ mergedItems localeCompare (dayLists lists days), t.menuItemId = line.menuItemId :=
    hxid ▸ exists_shown hnew.day_mem hxmem
  have hlimit : t ∈ mergeTopItems localeCompare (dayLists lists days)
      (mergedItems localeCompare (dayLists lists days)).length := by
    rw [mergeTopItems_eq, List.take_length]
    exact ht
  have hnames : x.name = e.name := by
    rw [← shown_name hdays hnew.day_mem hx (hnew.not_later hparts) ht htid,
      hshown parts hparts _ t hlimit htid, hname]
  rw [hx, eq_of_key (hsort.mem_iff.mp hxmem) he (hxid.trans hid.symm) hnames]

theorem shownAs_of_soldLeast (hdays : days.Pairwise (· < ·))
    (hnew : NewestLine createdAt db days day line) (hleast : SoldLeast localeCompare db day line) :
    ShownAs localeCompare db days line.menuItemId line.nameSnapshot := by
  obtain ⟨e, he, hid, hname, hquantity⟩ := exists_mem_items.mpr
    ⟨⟨line, hnew.sold, rfl, rfl⟩, (rfl : db.soldUnder day line.menuItemId line.nameSnapshot = _)⟩
  intro parts hparts limit t ht htid
  have hlast := (getLast_mergeSort_iff (topFirst_trans localeCompare)
    (topFirst_total localeCompare) nodup_rollupItems he (decide_eq_true hid)).mpr
      ((soldLeast_iff he hid hname hquantity).mp hleast) _ (hparts day hnew.day_mem).items
  rw [mergeTopItems_eq] at ht
  rw [shown_name hdays hnew.day_mem hlast (hnew.not_later hparts) (List.mem_of_mem_take ht) htid,
    hname]

/-- **A renamed item.** The leaderboard shows an item under the name of its newest line on the
latest day that sold it, if and only if that day sold the item under every other name more often,
or as often and that name comes first. -/
theorem rename_shown_iff (hdays : days.Pairwise (· < ·))
    (hnew : NewestLine createdAt db days day line) :
    ShownAs localeCompare db days line.menuItemId line.nameSnapshot ↔
      SoldLeast localeCompare db day line :=
  ⟨soldLeast_of_shownAs hdays hnew, shownAs_of_soldLeast hdays hnew⟩

end law

/-! ## An item renamed within a day -/

/-- What the outside supplies while the one item of the menu has a name. -/
def named (name : String) (fresh : Id) : Input :=
  { fresh, stripeId := "", now := 5, menu := [⟨1, name, 4000, true, true, []⟩] }

/-- Staff member 7 takes an order for so many of the item, and the customer pays in cash. The
order is call `i`, the payment the next one. -/
def sell (i : ℕ) (orderId paymentId : Id) (name : String) (quantity : ℤ) : List PosAct :=
  .start (.createOrder (.staff 7)
    ⟨.counter, [⟨1, quantity, [], none⟩], none, none, false⟩ none) ::
      steps i 8 (named name orderId) ++
  .start (.createPayment (.staff 7) orderId ⟨.cash, some 10000⟩ none) ::
    steps (i + 1) 8 (named name paymentId)

/-- The newest line of the one business day: orders are created in the order of their ids. -/
def IsNewest (db : Db) (line : OrderItem) : Prop :=
  line ∈ db.soldOn "2026-01-01" ∧
    ∀ i ∈ db.soldOn "2026-01-01", i.menuItemId = line.menuItemId → i.orderId ≤ line.orderId

instance (db : Db) (line : OrderItem) : Decidable (IsNewest db line) :=
  inferInstanceAs (Decidable (_ ∧ ∀ i ∈ db.soldOn "2026-01-01", _ → _))

theorem IsNewest.newestLine {line : OrderItem} (h : IsNewest db line) :
    NewestLine (fun id => (id : Instant)) db ["2026-01-01"] "2026-01-01" line where
  day_mem := List.mem_singleton_self _
  sold := h.1
  latest day' hday' _ _ _ := by rw [List.mem_singleton.mp hday']
  newest i hi hid := Int.ofNat_le.mpr (h.2 i hi hid)

/-- Two were sold before the rename, and one after it: the new name comes last and is shown. -/
theorem rename_shown : ∃ w, Reachable cornerCafe w ∧ ∃ line,
    NewestLine (fun id => (id : Instant)) w.shared.db ["2026-01-01"] "2026-01-01" line ∧
    line.nameSnapshot = "Flat White" ∧
    ShownAs compare w.shared.db ["2026-01-01"] line.menuItemId line.nameSnapshot := by
  obtain ⟨w, hw, line, -, hnewest, hname, hleast⟩ := Reachable.exists_of_runIf cornerCafe
    (sell 0 100 200 "Latte" 2 ++ sell 2 101 201 "Flat White" 1)
    (fun w => ∃ line ∈ w.shared.db.soldOn "2026-01-01", IsNewest w.shared.db line ∧
      line.nameSnapshot = "Flat White" ∧ SoldLeast compare w.shared.db "2026-01-01" line)
    (by decide)
  have hnew := hnewest.newestLine
  exact ⟨w, hw, line, hnew, hname, (rename_shown_iff (by simp) hnew).mpr hleast⟩

/-- One was sold before the rename, and two after it: the old name comes last, and the new name is
not shown. -/
theorem rename_not_shown : ∃ w, Reachable cornerCafe w ∧ ∃ line,
    NewestLine (fun id => (id : Instant)) w.shared.db ["2026-01-01"] "2026-01-01" line ∧
    line.nameSnapshot = "Flat White" ∧
    ¬ ShownAs compare w.shared.db ["2026-01-01"] line.menuItemId line.nameSnapshot := by
  obtain ⟨w, hw, line, -, hnewest, hname, hleast⟩ := Reachable.exists_of_runIf cornerCafe
    (sell 0 100 200 "Latte" 1 ++ sell 2 101 201 "Flat White" 2)
    (fun w => ∃ line ∈ w.shared.db.soldOn "2026-01-01", IsNewest w.shared.db line ∧
      line.nameSnapshot = "Flat White" ∧ ¬ SoldLeast compare w.shared.db "2026-01-01" line)
    (by decide)
  have hnew := hnewest.newestLine
  exact ⟨w, hw, line, hnew, hname, fun h => hleast (soldLeast_of_shownAs (by simp) hnew h)⟩

end CafePos
