import CafePos.PricingRules
import CafePos.Vat
import CafePos.Database

/-!
# How much a basket can cost

The bounds of the three DTOs (`orders/orders.dto.ts`, `catalog/items/items.dto.ts`,
`catalog/option-groups/option-groups.dto.ts`), and the columns that the money of a priced basket
is stored in.
-/

namespace CafePos

/-! ## The bounds of the DTOs -/

/-- `basePriceField` and `priceDeltaField`. -/
structure CatalogItem.Admitted (item : CatalogItem) : Prop where
  basePrice : 0 ≤ item.basePriceMinor ∧ item.basePriceMinor ≤ 1000000
  priceDelta : ∀ g ∈ item.optionGroups, ∀ o ∈ g.options,
    -100000 ≤ o.priceDeltaMinor ∧ o.priceDeltaMinor ≤ 100000

/-- `CreateOrderSchema.items`. -/
structure AdmittedBasket (requested : List RequestedItem) : Prop where
  items : 1 ≤ requested.length ∧ requested.length ≤ 30
  quantity : ∀ line ∈ requested, 1 ≤ line.quantity ∧ line.quantity ≤ 50
  optionIds : ∀ line ∈ requested, line.optionIds.length ≤ 15

/-- `CreateOrderSchema.expectedTotalMinor`. -/
def admitsExpectedTotal (totalMinor : ℤ) : Prop := 0 ≤ totalMinor ∧ totalMinor ≤ 10000000

/-- Every money column of the order and of its lines takes its value. -/
structure FitsColumns (priced : PricedOrder) : Prop where
  lines : ∀ p ∈ priced.lines, int4 p.unitPriceMinorSnapshot = true ∧ int4 p.lineTotalMinor = true
  subtotal : int4 priced.subtotalMinor = true
  vat : int4 priced.vatMinor = true
  total : int4 priced.totalMinor = true

/-! ## What a basket is worth at the prices of the menu -/

/-- The price delta of an option of an item. -/
def deltaOf (item : CatalogItem) (optionId : Id) : ℤ :=
  ((findAttached (attachedOptions (some item)) optionId).map fun a => a.1.priceDeltaMinor).getD 0

/-- The price of an item with the options that were tapped, never below zero. -/
def tappedPrice (item : CatalogItem) (line : RequestedItem) : ℤ :=
  max 0 (item.basePriceMinor + (line.optionIds.dedup.map (deltaOf item)).sum)

/-- The items of a basket at these prices. -/
def basketWorth (catalog : List CatalogItem) (requested : List RequestedItem) : ℤ :=
  (requested.map fun line =>
    ((itemOf catalog line).map fun item => tappedPrice item line * line.quantity).getD 0).sum

section line

variable {catalog : List CatalogItem} {line : RequestedItem} {item : CatalogItem}

/-- The deltas of a resolved line are those of the ids that were tapped. -/
theorem sum_options_eq (hitem : itemOf catalog line = some item) :
    ((resolveLine catalog line).options.map fun o => o.1.priceDeltaMinor).sum =
      (line.optionIds.dedup.map (deltaOf item)).sum := by
  have hperm : (firsts [] line.optionIds).Perm line.optionIds.dedup := by
    refine (List.perm_ext_iff_of_nodup (nodup_firsts _ _) (List.nodup_dedup _)).mpr fun x => ?_
    rw [mem_firsts, List.mem_dedup]
    simp
  have hsum : ∀ ids : List Id, ((ids.filterMap (findAttached (attachedOptions (some item)))).map
      fun o => o.1.priceDeltaMinor).sum = (ids.map (deltaOf item)).sum := by
    intro ids
    induction ids with
    | nil => rfl
    | cons x ids ih =>
      cases hx : findAttached (attachedOptions (some item)) x with
      | none => simp [hx, ih, deltaOf]
      | some a => simp [hx, ih, deltaOf]
  rw [resolveLine_eq, hitem]
  exact (hsum _).trans (hperm.map _).sum_eq

theorem priceLine_unitPrice (hitem : itemOf catalog line = some item) :
    (priceLine (resolveLine catalog line) item).unitPriceMinorSnapshot = tappedPrice item line := by
  rw [priceLine, tappedPrice, sum_options_eq hitem]

theorem tappedPrice_nonneg : 0 ≤ tappedPrice item line := le_max_left _ _

/-- A delta is one of the item's, or nothing. -/
theorem deltaOf_le (h : item.Admitted) (optionId : Id) : deltaOf item optionId ≤ 100000 := by
  rw [deltaOf]
  cases ha : findAttached (attachedOptions (some item)) optionId with
  | none => simp
  | some a =>
    have hmem := mem_attachedOptions.mp (List.mem_reverse.mp (List.mem_of_find?_eq_some ha))
    exact (h.priceDelta a.2 hmem.1 a.1 hmem.2).2

/-- The dearest item: a million, and fifteen options at a hundred thousand. -/
theorem tappedPrice_le (h : item.Admitted) (hids : line.optionIds.length ≤ 15) :
    tappedPrice item line ≤ 2500000 := by
  have hbase := h.basePrice.2
  have hsum : (line.optionIds.dedup.map (deltaOf item)).sum ≤
      (line.optionIds.dedup.map (deltaOf item)).length • (100000 : ℤ) := by
    refine List.sum_le_card_nsmul _ _ fun d hd => ?_
    obtain ⟨id, -, rfl⟩ := List.mem_map.mp hd
    exact deltaOf_le h id
  have hlength : line.optionIds.dedup.length ≤ 15 :=
    (List.dedup_sublist _).length_le.trans hids
  rw [List.length_map, nsmul_eq_mul] at hsum
  have hcast : (line.optionIds.dedup.length : ℤ) ≤ 15 := by exact_mod_cast hlength
  exact max_le (by norm_num) (by linarith)

end line

/-! ## The whole basket -/

section basket

variable {catalog : List CatalogItem} {requested : List RequestedItem} {bp : ℤ}
  {priced : PricedOrder}

theorem eq_pricedOrder (h : priceOrder requested catalog bp = .ok priced) :
    priced = pricedOrder catalog requested bp := by
  rw [priceOrder_eq] at h
  split at h
  · cases h
  · split at h
    · cases h
    · exact (Except.ok.inj h).symm

theorem mem_pricedLines {p : PricedLine} : p ∈ pricedLines catalog requested ↔
    ∃ line ∈ requested, ∃ item, itemOf catalog line = some item ∧
      priceLine (resolveLine catalog line) item = p := by
  simp [pricedLines]

theorem subtotal_eq_worth :
    ((pricedLines catalog requested).map PricedLine.lineTotalMinor).sum =
      basketWorth catalog requested := by
  induction requested with
  | nil => rfl
  | cons line requested ih =>
    cases hitem : itemOf catalog line with
    | none => simpa [pricedLines, basketWorth, hitem] using ih
    | some item =>
      have hprice : (priceLine (resolveLine catalog line) item).lineTotalMinor =
          tappedPrice item line * line.quantity := by
        rw [← priceLine_unitPrice hitem]
        rfl
      simpa [pricedLines, basketWorth, hitem, hprice] using ih

/-- The two prices of a line. -/
theorem line_bounds (hitems : ∀ item ∈ catalog, item.Admitted) (h : AdmittedBasket requested)
    {p : PricedLine} (hp : p ∈ pricedLines catalog requested) :
    0 ≤ p.unitPriceMinorSnapshot ∧ p.unitPriceMinorSnapshot ≤ p.lineTotalMinor ∧
      p.lineTotalMinor ≤ 125000000 := by
  obtain ⟨line, hline, item, hitem, rfl⟩ := mem_pricedLines.mp hp
  have hunit := priceLine_unitPrice hitem
  have hnonneg : 0 ≤ tappedPrice item line := tappedPrice_nonneg
  have hle := tappedPrice_le (hitems item (List.mem_of_find?_eq_some hitem))
    (h.optionIds line hline)
  obtain ⟨hone, hfifty⟩ := h.quantity line hline
  have htotal : (priceLine (resolveLine catalog line) item).lineTotalMinor =
      tappedPrice item line * line.quantity := by
    rw [← hunit]
    rfl
  rw [htotal, hunit]
  refine ⟨hnonneg, le_mul_of_one_le_right hnonneg hone, ?_⟩
  calc tappedPrice item line * line.quantity ≤ 2500000 * 50 := by gcongr
    _ = 125000000 := by norm_num

theorem int4_iff {n : ℤ} (h : 0 ≤ n) : int4 n = true ↔ n ≤ 2147483647 := by
  simp only [int4, decide_eq_true_eq]
  omega

theorem worth_nonneg (h : AdmittedBasket requested) : 0 ≤ basketWorth catalog requested := by
  refine List.sum_nonneg fun x hx => ?_
  obtain ⟨line, hline, rfl⟩ := List.mem_map.mp hx
  cases itemOf catalog line with
  | none => exact le_refl 0
  | some item =>
    exact mul_nonneg tappedPrice_nonneg (le_trans zero_le_one (h.quantity line hline).1)

end basket

/-- The money of every basket that the DTOs admit and `priceOrder` accepts, at every rate that is
admitted. The prices of its lines fit their columns; every money value does, and the exact total is
an `expectedTotalMinor` that the DTO admits, if and only if the basket is worth at most ten
million; the columns alone take it if and only if it is worth at most `2147483647`. -/
theorem money_in_range_iff {catalog : List CatalogItem} {requested : List RequestedItem} {bp : ℤ}
    {priced : PricedOrder} (hitems : ∀ item ∈ catalog, item.Admitted)
    (hbasket : AdmittedBasket requested) (hrate : isVatRate bp)
    (h : priceOrder requested catalog bp = .ok priced) :
    (FitsColumns priced ∧ admitsExpectedTotal priced.totalMinor ↔
      basketWorth catalog requested ≤ 10000000) ∧
    (FitsColumns priced ↔ basketWorth catalog requested ≤ 2147483647) ∧
    ∀ p ∈ priced.lines, int4 p.unitPriceMinorSnapshot = true ∧ int4 p.lineTotalMinor = true := by
  obtain rfl := eq_pricedOrder h
  have hworth : (pricedOrder catalog requested bp).totalMinor = basketWorth catalog requested :=
    subtotal_eq_worth
  have hpos : 0 ≤ basketWorth catalog requested := worth_nonneg hbasket
  have hlines : ∀ p ∈ pricedLines catalog requested,
      int4 p.unitPriceMinorSnapshot = true ∧ int4 p.lineTotalMinor = true := by
    intro p hp
    obtain ⟨hunit, hle, htop⟩ := line_bounds hitems hbasket hp
    rw [int4_iff hunit, int4_iff (hunit.trans hle)]
    omega
  have hfits : FitsColumns (pricedOrder catalog requested bp) ↔
      basketWorth catalog requested ≤ 2147483647 := by
    have hvat := extractVat_nonneg hpos hrate.1
    have hvatle := extractVat_le hpos hrate.1
    constructor
    · intro hf
      exact (int4_iff hpos).mp (hworth ▸ hf.total)
    · intro hle
      have hint : int4 (basketWorth catalog requested) = true := (int4_iff hpos).mpr hle
      have htotal : int4 (pricedOrder catalog requested bp).totalMinor = true := hworth ▸ hint
      refine ⟨hlines, htotal, ?_, htotal⟩
      change int4 (extractVat ((pricedLines catalog requested).map _).sum bp) = true
      rw [subtotal_eq_worth, int4_iff hvat]
      exact hvatle.trans hle
  refine ⟨?_, hfits, hlines⟩
  rw [hfits, hworth, admitsExpectedTotal]
  omega

/-- The dearest latte with five of the dearest options. -/
def dearMenu : List CatalogItem :=
  [⟨1, "Latte", 1000000, true, [⟨10, "Extras", 0, 5, (List.range 5).map fun i =>
    ⟨100 + i, "Extra", 100000, true⟩⟩]⟩]

/-- Thirty lines of fifty such lattes. -/
def dearBasket : List RequestedItem := List.replicate 30 ⟨1, 50, (List.range 5).map (100 + ·), none⟩

theorem dearMenu_admitted : ∀ item ∈ dearMenu, item.Admitted := by
  intro item hitem
  obtain rfl := List.mem_singleton.mp hitem
  refine ⟨by decide, fun g hg o ho => ?_⟩
  obtain rfl := List.mem_singleton.mp hg
  obtain ⟨i, -, rfl⟩ := List.mem_map.mp ho
  simp

theorem dearBasket_admitted : AdmittedBasket dearBasket := by
  refine ⟨by decide, fun line hline => ?_, fun line hline => ?_⟩
  · obtain rfl := List.eq_of_mem_replicate hline
    decide
  · obtain rfl := List.eq_of_mem_replicate hline
    decide

/-- They are worth 2250000000, which no column takes. -/
theorem money_out_of_range : ∃ priced, (∀ item ∈ dearMenu, item.Admitted) ∧
    AdmittedBasket dearBasket ∧ isVatRate 700 ∧
    priceOrder dearBasket dearMenu 700 = .ok priced ∧ priced.totalMinor = 2250000000 ∧
    ¬ (FitsColumns priced ∧ admitsExpectedTotal priced.totalMinor) := by
  have hok : (priceOrder dearBasket dearMenu 700).toOption.map PricedOrder.totalMinor =
      some 2250000000 := by decide
  cases hpriced : priceOrder dearBasket dearMenu 700 with
  | error e =>
    rw [hpriced] at hok
    cases hok
  | ok priced =>
    rw [hpriced] at hok
    have htotal : priced.totalMinor = 2250000000 := Option.some.inj hok
    refine ⟨priced, dearMenu_admitted, dearBasket_admitted, by decide, rfl, htotal, fun h => ?_⟩
    have hle := h.2.2
    rw [htotal] at hle
    omega

/-- One of them is worth 1500000. -/
theorem money_in_range_iff_one : ∃ priced,
    priceOrder [⟨1, 1, (List.range 5).map (100 + ·), none⟩] dearMenu 700 = .ok priced ∧
    FitsColumns priced ∧ admitsExpectedTotal priced.totalMinor := by
  have hbasket : AdmittedBasket [⟨1, 1, (List.range 5).map (100 + ·), none⟩] := by
    refine ⟨by decide, fun line hline => ?_, fun line hline => ?_⟩
    · obtain rfl := List.mem_singleton.mp hline
      decide
    · obtain rfl := List.mem_singleton.mp hline
      decide
  cases hpriced : priceOrder [⟨1, 1, (List.range 5).map (100 + ·), none⟩] dearMenu 700 with
  | error e =>
    have hok : (priceOrder [⟨1, 1, (List.range 5).map (100 + ·), none⟩] dearMenu 700).isOk =
        true := by decide
    rw [hpriced] at hok
    cases hok
  | ok priced =>
    exact ⟨priced, rfl, (money_in_range_iff dearMenu_admitted hbasket (by decide)
      hpriced).1.mpr (by decide)⟩

end CafePos
