import CafePos.MenuCache
import CafePos.PricingRules
import Mathlib

/-!
# The menu and the till

Two readers of the catalog are written apart from each other: `MenuService.build`, of which a client
makes its screens, and `OrdersService.readCatalog` (`orders/orders.service.ts`), of which an order
is priced. The client's totals are advisory, and refused if they are not the till's
(`PriceMismatchError`); so what the menu says must be what the till decides.

* `Menu.Orderable`, `Menu.total` — what a client reads off the menu: whether a basket can be
  ordered, and what it adds up to;
* `groups_agree` — for one item, both readers join the same rows;
* `menu_prices_orders` — for every catalog that keeps its keys, a basket is priced if and only if
  the menu says it can be ordered, and then at the menu's total.
-/

namespace CafePos.MenuCache

/-! ## What the till reads -/

/-- The options of a group as pricing sees them, by name. -/
def catalogOptionsOf (cfg : Config) (cat : Catalog) (groupId : Id) : List CatalogOption :=
  ((cat.options.filter fun o => o.optionGroupId == groupId).insertionSort
    fun a b => cfg.nameLe a.name b.name = true).map fun o =>
      ⟨o.id, o.name, o.priceDeltaMinor, o.isAvailable⟩

/-- The groups of an item as pricing sees them, in the item's order. -/
def catalogGroupsOf (cfg : Config) (cat : Catalog) (itemId : Id) : List CatalogOptionGroup :=
  ((cat.menuItemOptionGroups.filter fun l => l.menuItemId == itemId).insertionSort
    fun a b => a.sortOrder ≤ b.sortOrder).filterMap fun l =>
      (cat.optionGroups.find? fun g => g.id == l.optionGroupId).map fun g =>
        ⟨g.id, g.name, g.minSelect.toNat, g.maxSelect.toNat, catalogOptionsOf cfg cat g.id⟩

/-- `category.isActive` of an item. -/
def Catalog.isPublished (cat : Catalog) (i : ItemRow) : Bool :=
  (cat.categories.find? fun c => c.id == i.categoryId).any CategoryRow.isActive

/-- `readCatalog` -/
def readCatalog (cfg : Config) (cat : Catalog) (menuItemIds : List Id) : List CatalogItem :=
  (cat.menuItems.filter fun i => menuItemIds.contains i.id).map fun i =>
    ⟨i.id, i.name, i.basePriceMinor, i.isAvailable && cat.isPublished i,
      catalogGroupsOf cfg cat i.id⟩

/-! ## What a client reads off the menu -/

/-- The item with an id, in whatever category. -/
def Menu.find (menu : Menu) (itemId : Id) : Option MenuItem :=
  (menu.categories.flatMap MenuCategory.items).find? fun i => i.id == itemId

/-- All that can be ticked for an item. -/
def MenuItem.choices (item : MenuItem) : List MenuOption :=
  item.optionGroups.flatMap MenuOptionGroup.options

/-- How many of the ticked options are in a group. -/
def MenuOptionGroup.ticked (group : MenuOptionGroup) (optionIds : List Id) : ℕ :=
  (optionIds.filter fun id => group.options.any fun o => o.id == id).length

/-- The menu lets the line be ordered. -/
structure MenuItem.Takes (item : MenuItem) (line : RequestedItem) : Prop where
  available : item.isAvailable = true
  distinct : line.optionIds.Nodup
  offered : ∀ optionId ∈ line.optionIds, ∃ o ∈ item.choices, o.id = optionId ∧ o.isAvailable = true
  bounds : ∀ g ∈ item.optionGroups,
    g.minSelect ≤ g.ticked line.optionIds ∧ (g.ticked line.optionIds : ℤ) ≤ g.maxSelect

/-- The menu lets the basket be ordered. -/
def Menu.Orderable (menu : Menu) (requested : List RequestedItem) : Prop :=
  ∀ line ∈ requested, ∃ item, menu.find line.menuItemId = some item ∧ item.Takes line

/-- What the screen says one of the item costs with the ticked options. -/
def MenuItem.price (item : MenuItem) (optionIds : List Id) : ℤ :=
  max 0 (item.basePriceMinor +
    ((item.choices.filter fun o => optionIds.contains o.id).map MenuOption.priceDeltaMinor).sum)

/-- What the screen says the basket costs. -/
def Menu.total (menu : Menu) (requested : List RequestedItem) : ℤ :=
  (requested.map fun line => (menu.find line.menuItemId).elim 0
    fun item => item.price line.optionIds * line.quantity).sum

/-! ## The keys of the catalog -/

/-- Primary keys, and the check of `option_groups`. -/
structure Catalog.Keyed (cat : Catalog) : Prop where
  categories : (cat.categories.map CategoryRow.id).Nodup
  items : (cat.menuItems.map ItemRow.id).Nodup
  groups : (cat.optionGroups.map GroupRow.id).Nodup
  options : (cat.options.map OptionRow.id).Nodup
  links : (cat.menuItemOptionGroups.map fun l => (l.menuItemId, l.optionGroupId)).Nodup
  bounds : ∀ g ∈ cat.optionGroups, 0 ≤ g.minSelect ∧ g.minSelect ≤ g.maxSelect

/-- Under a key that is one, what is found is what is there. -/
theorem find?_eq_some_iff {α : Type} {key : α → Id} {l : List α}
    (hkey : ∀ a ∈ l, ∀ b ∈ l, key a = key b → a = b) {x : Id} {a : α} :
    (l.find? fun b => key b == x) = some a ↔ a ∈ l ∧ key a = x := by
  constructor
  · intro h
    exact ⟨List.mem_of_find?_eq_some h, by simpa using List.find?_some h⟩
  · rintro ⟨hmem, hx⟩
    have hsome : (l.find? fun b => key b == x).isSome := by
      rw [List.find?_isSome]
      exact ⟨a, hmem, by simpa using hx⟩
    obtain ⟨b, hb⟩ := Option.isSome_iff_exists.mp hsome
    have hbx : key b = x := by simpa using List.find?_some hb
    rw [hb, hkey b (List.mem_of_find?_eq_some hb) a hmem (hbx.trans hx.symm)]

section agree

variable {cfg : Config} {cat : Catalog}

/-! ## One item -/

/-- What pricing keeps of an option on the menu. -/
def MenuOption.toCatalog (o : MenuOption) : CatalogOption :=
  ⟨o.id, o.name, o.priceDeltaMinor, o.isAvailable⟩

/-- What pricing keeps of a group on the menu. -/
def MenuOptionGroup.toCatalog (g : MenuOptionGroup) : CatalogOptionGroup :=
  ⟨g.id, g.name, g.minSelect.toNat, g.maxSelect.toNat, g.options.map MenuOption.toCatalog⟩

/-- For one item, both readers join the same rows. -/
theorem groups_agree (itemId : Id) : catalogGroupsOf cfg cat itemId =
    (groupsOf cfg cat itemId).map MenuOptionGroup.toCatalog := by
  have hoptions : ∀ groupId, catalogOptionsOf cfg cat groupId =
      (optionsOf cfg cat groupId).map MenuOption.toCatalog := fun groupId => by
    rw [catalogOptionsOf, optionsOf, List.map_map]
    rfl
  rw [catalogGroupsOf, groupsOf, List.map_filterMap]
  refine List.filterMap_congr fun l _ => ?_
  rw [Option.map_map]
  refine Option.map_congr fun g _ => ?_
  rw [hoptions]
  rfl

/-- A row of `menu_items`, as the menu has it. -/
def ItemRow.toMenu (cfg : Config) (cat : Catalog) (i : ItemRow) : MenuItem :=
  ⟨i.id, i.name, i.description, i.basePriceMinor, i.imageUrl, i.isAvailable, i.sortOrder,
    groupsOf cfg cat i.id⟩

/-- A row of `menu_items`, as pricing has it. -/
def ItemRow.toCatalog (cfg : Config) (cat : Catalog) (i : ItemRow) : CatalogItem :=
  ⟨i.id, i.name, i.basePriceMinor, i.isAvailable && cat.isPublished i, catalogGroupsOf cfg cat i.id⟩

theorem row_unique (hk : cat.Keyed) {i j : ItemRow} (hi : i ∈ cat.menuItems)
    (hj : j ∈ cat.menuItems) (hid : i.id = j.id) : i = j :=
  List.inj_on_of_nodup_map hk.items hi hj hid

theorem isPublished_iff (hk : cat.Keyed) {i : ItemRow} : cat.isPublished i = true ↔
    ∃ c ∈ cat.categories, c.id = i.categoryId ∧ c.isActive = true := by
  rw [Catalog.isPublished, Option.any_eq_true]
  constructor
  · rintro ⟨c, hc, hactive⟩
    obtain ⟨hmem, hid⟩ := (find?_eq_some_iff fun _ ha _ hb =>
      List.inj_on_of_nodup_map hk.categories ha hb).mp hc
    exact ⟨c, hmem, hid, hactive⟩
  · rintro ⟨c, hmem, hid, hactive⟩
    exact ⟨c, (find?_eq_some_iff fun _ ha _ hb =>
      List.inj_on_of_nodup_map hk.categories ha hb).mpr ⟨hmem, hid⟩, hactive⟩

/-- What is on the menu: the items of the categories that are published. -/
theorem find_eq_some (hk : cat.Keyed) {itemId : Id} {item : MenuItem} :
    (build cfg cat).find itemId = some item ↔ ∃ i ∈ cat.menuItems, i.id = itemId ∧
      cat.isPublished i = true ∧ item = i.toMenu cfg cat := by
  have hmem : ∀ {item : MenuItem}, item ∈ (build cfg cat).categories.flatMap MenuCategory.items ↔
      ∃ i ∈ cat.menuItems, cat.isPublished i = true ∧ item = i.toMenu cfg cat := by
    intro item
    simp only [build, List.mem_flatMap, List.mem_map, List.mem_insertionSort, List.mem_filter,
      itemsOf, isPublished_iff hk]
    constructor
    · rintro ⟨_, ⟨c, ⟨hc, hactive⟩, rfl⟩, hitem⟩
      obtain ⟨i, hi, rfl⟩ := List.mem_map.mp hitem
      obtain ⟨hi, hcat⟩ := List.mem_filter.mp ((List.mem_insertionSort _).mp hi)
      exact ⟨i, hi, ⟨c, hc, (beq_iff_eq.mp hcat).symm, hactive⟩, rfl⟩
    · rintro ⟨i, hi, ⟨c, hc, hcat, hactive⟩, rfl⟩
      refine ⟨_, ⟨c, ⟨hc, hactive⟩, rfl⟩, List.mem_map.mpr ⟨i, ?_, rfl⟩⟩
      exact (List.mem_insertionSort _).mpr (List.mem_filter.mpr ⟨hi, beq_iff_eq.mpr hcat.symm⟩)
  rw [Menu.find, find?_eq_some_iff]
  · rw [hmem]
    constructor
    · rintro ⟨⟨i, hi, hpublished, rfl⟩, hid⟩
      exact ⟨i, hi, hid, hpublished, rfl⟩
    · rintro ⟨i, hi, hid, hpublished, rfl⟩
      exact ⟨⟨i, hi, hpublished, rfl⟩, hid⟩
  · intro a ha b hb hid
    obtain ⟨i, hi, -, rfl⟩ := hmem.mp ha
    obtain ⟨j, hj, -, rfl⟩ := hmem.mp hb
    rw [row_unique hk hi hj hid]

/-- What the till finds for a line of the basket. -/
theorem itemOf_eq_some (hk : cat.Keyed) {requested : List RequestedItem} {line : RequestedItem}
    (hline : line ∈ requested) {item : CatalogItem} :
    itemOf (readCatalog cfg cat (requested.map RequestedItem.menuItemId)) line = some item ↔
      ∃ i ∈ cat.menuItems, i.id = line.menuItemId ∧ item = i.toCatalog cfg cat := by
  have hmem : ∀ {item : CatalogItem},
      item ∈ readCatalog cfg cat (requested.map RequestedItem.menuItemId) →
      ∃ i ∈ cat.menuItems, item = i.toCatalog cfg cat := by
    intro item h
    obtain ⟨i, hi, rfl⟩ := List.mem_map.mp h
    exact ⟨i, (List.mem_filter.mp hi).1, rfl⟩
  rw [itemOf, find?_eq_some_iff]
  · constructor
    · rintro ⟨h, hid⟩
      obtain ⟨i, hi, rfl⟩ := hmem h
      exact ⟨i, hi, hid, rfl⟩
    · rintro ⟨i, hi, hid, rfl⟩
      refine ⟨List.mem_map.mpr ⟨i, List.mem_filter.mpr ⟨hi, ?_⟩, rfl⟩, hid⟩
      rw [List.contains_iff_mem, hid]
      exact List.mem_map_of_mem hline
  · intro a ha b hb hid
    obtain ⟨i, hi, rfl⟩ := hmem ha
    obtain ⟨j, hj, rfl⟩ := hmem hb
    rw [row_unique hk hi hj hid]

/-! ## The rules of one item -/

/-- An option on the menu is a row of its group. -/
theorem mem_optionsOf {groupId : Id} {o : MenuOption} : o ∈ optionsOf cfg cat groupId ↔
    ∃ row ∈ cat.options, row.optionGroupId = groupId ∧
      o = ⟨row.id, row.name, row.priceDeltaMinor, row.isDefault, row.isAvailable⟩ := by
  rw [optionsOf, List.mem_map]
  constructor
  · rintro ⟨row, hrow, rfl⟩
    obtain ⟨hrow, hgroup⟩ := List.mem_filter.mp ((List.mem_insertionSort _).mp hrow)
    exact ⟨row, hrow, beq_iff_eq.mp hgroup, rfl⟩
  · rintro ⟨row, hrow, hgroup, rfl⟩
    exact ⟨row, (List.mem_insertionSort _).mpr
      (List.mem_filter.mpr ⟨hrow, beq_iff_eq.mpr hgroup⟩), rfl⟩

/-- A group on the menu is a row that is linked to the item, with its options. -/
theorem of_mem_groupsOf {itemId : Id} {g : MenuOptionGroup} (h : g ∈ groupsOf cfg cat itemId) :
    ∃ row ∈ cat.optionGroups, row.id = g.id ∧ row.minSelect = g.minSelect ∧
      row.maxSelect = g.maxSelect ∧ g.options = optionsOf cfg cat g.id := by
  obtain ⟨l, -, hg⟩ := List.mem_filterMap.mp h
  obtain ⟨row, hrow, rfl⟩ := Option.map_eq_some_iff.mp hg
  exact ⟨row, List.mem_of_find?_eq_some hrow, rfl, rfl, rfl, rfl⟩

/-- A choice is a row of `options`. -/
theorem of_mem_choices {i : ItemRow} {o : MenuOption} (h : o ∈ (i.toMenu cfg cat).choices) :
    ∃ row ∈ cat.options,
      o = ⟨row.id, row.name, row.priceDeltaMinor, row.isDefault, row.isAvailable⟩ := by
  obtain ⟨g, hg, ho⟩ := List.mem_flatMap.mp h
  obtain ⟨-, -, -, -, -, hoptions⟩ := of_mem_groupsOf hg
  rw [hoptions] at ho
  obtain ⟨row, hrow, -, rfl⟩ := mem_optionsOf.mp ho
  exact ⟨row, hrow, rfl⟩

theorem choice_unique (hk : cat.Keyed) {i : ItemRow} {a b : MenuOption}
    (ha : a ∈ (i.toMenu cfg cat).choices) (hb : b ∈ (i.toMenu cfg cat).choices)
    (hid : a.id = b.id) : a = b := by
  obtain ⟨row, hrow, rfl⟩ := of_mem_choices ha
  obtain ⟨row', hrow', rfl⟩ := of_mem_choices hb
  rw [List.inj_on_of_nodup_map hk.options hrow hrow' hid]

/-- The ids that a map by a key finds come in the order of the keys. -/
theorem filterMap_sublist_map {α β : Type} {f : α → Option β} {h : α → β}
    (hf : ∀ a b, f a = some b → b = h a) (l : List α) : (l.filterMap f).Sublist (l.map h) := by
  induction l with
  | nil => exact List.Sublist.refl _
  | cons a l ih =>
    cases ha : f a with
    | none =>
      rw [List.filterMap_cons_none ha]
      exact ih.cons _
    | some b =>
      rw [List.filterMap_cons_some ha, hf a b ha]
      exact ih.cons_cons _

/-- A group is linked to an item once. -/
theorem nodup_groups (hk : cat.Keyed) (itemId : Id) :
    ((groupsOf cfg cat itemId).map MenuOptionGroup.id).Nodup := by
  have hlinks : ((cat.menuItemOptionGroups.filter fun l => l.menuItemId == itemId).map
      LinkRow.optionGroupId).Nodup := by
    refine List.Nodup.map_on (fun a ha b hb hgroup => ?_) ?_
    · obtain ⟨ha, hitem⟩ := List.mem_filter.mp ha
      obtain ⟨hb, hitem'⟩ := List.mem_filter.mp hb
      refine List.inj_on_of_nodup_map hk.links ha hb (Prod.ext ?_ hgroup)
      exact (beq_iff_eq.mp hitem).trans (beq_iff_eq.mp hitem').symm
    · exact (List.Nodup.of_map _ hk.links).filter _
  have hsorted := ((List.perm_insertionSort (fun a b : LinkRow => a.sortOrder ≤ b.sortOrder)
    (cat.menuItemOptionGroups.filter fun l => l.menuItemId == itemId)).map
    LinkRow.optionGroupId).nodup_iff.mpr hlinks
  rw [groupsOf, List.map_filterMap]
  refine hsorted.sublist (filterMap_sublist_map (fun l id hid => ?_) _)
  obtain ⟨g, hg, rfl⟩ := Option.map_eq_some_iff.mp hid
  obtain ⟨row, hrow, rfl⟩ := Option.map_eq_some_iff.mp hg
  simpa using List.find?_some hrow

/-- An option is in one group, and once. -/
theorem nodup_choices (hk : cat.Keyed) (i : ItemRow) :
    ((i.toMenu cfg cat).choices.map MenuOption.id).Nodup := by
  have hgroups : (groupsOf cfg cat i.id).Pairwise fun g g' => g.id ≠ g'.id :=
    List.pairwise_map.mp (nodup_groups hk i.id)
  rw [MenuItem.choices, List.map_flatMap, List.nodup_flatMap]
  refine ⟨fun g hg => ?_, hgroups.imp_of_mem fun {g g'} hg hg' hne x hx hx' => hne ?_⟩
  · obtain ⟨-, -, -, -, -, hoptions⟩ := of_mem_groupsOf hg
    have hrows : ((cat.options.filter fun o => o.optionGroupId == g.id).map OptionRow.id).Nodup :=
      hk.options.sublist (List.filter_sublist.map _)
    rw [hoptions, optionsOf, List.map_map]
    exact ((List.perm_insertionSort _ _).map _).nodup_iff.mpr hrows
  · -- a row with this id is in both groups
    obtain ⟨-, -, -, -, -, hoptions⟩ := of_mem_groupsOf hg
    obtain ⟨-, -, -, -, -, hoptions'⟩ := of_mem_groupsOf hg'
    obtain ⟨o, ho, rfl⟩ := List.mem_map.mp hx
    obtain ⟨o', ho', hid⟩ := List.mem_map.mp hx'
    rw [hoptions] at ho
    rw [hoptions'] at ho'
    obtain ⟨row, hrow, hgroup, rfl⟩ := mem_optionsOf.mp ho
    obtain ⟨row', hrow', hgroup', rfl⟩ := mem_optionsOf.mp ho'
    rw [← hgroup, ← hgroup', List.inj_on_of_nodup_map hk.options hrow hrow' hid.symm]

/-- All that the till attaches to an item is what can be ticked for it. -/
theorem attached_eq (cfg : Config) (cat : Catalog) (i : ItemRow) :
    (attachedOptions (some (i.toCatalog cfg cat))).map Prod.fst =
      (i.toMenu cfg cat).choices.map MenuOption.toCatalog := by
  simp only [attachedOptions, Option.map_some, Option.getD_some, ItemRow.toCatalog, groups_agree,
    MenuItem.choices, ItemRow.toMenu, List.map_flatMap, List.flatMap_map, List.map_map]
  refine List.flatMap_congr fun g _ => ?_
  rw [MenuOptionGroup.toCatalog, List.map_map]
  rfl

/-- What the till reads of an item keeps the keys that pricing relies on. -/
theorem keyed_toCatalog (hk : cat.Keyed) (i : ItemRow) : (i.toCatalog cfg cat).Keyed where
  groups := by
    have hnodup : ((groupsOf cfg cat i.id).map MenuOptionGroup.id).Nodup := nodup_groups hk i.id
    rw [ItemRow.toCatalog]
    dsimp only
    rw [groups_agree, List.map_map]
    exact hnodup
  options := by
    have hids : ((attachedOptions (some (i.toCatalog cfg cat))).map fun a => a.1.id) =
        (i.toMenu cfg cat).choices.map MenuOption.id := by
      have hmap := congrArg (List.map CatalogOption.id) (attached_eq cfg cat i)
      rw [List.map_map, List.map_map] at hmap
      exact hmap
    rw [hids]
    exact nodup_choices hk i

/-- What the till offers for an item can be ticked for it. -/
theorem offers_iff {i : ItemRow} {o : CatalogOption} : (∃ g, (i.toCatalog cfg cat).Offers o g) ↔
    ∃ o' ∈ (i.toMenu cfg cat).choices, o'.toCatalog = o := by
  rw [← List.mem_map, ← attached_eq, List.mem_map]
  constructor
  · rintro ⟨g, hg⟩
    exact ⟨(o, g), mem_attachedOptions.mpr hg, rfl⟩
  · rintro ⟨a, ha, rfl⟩
    exact ⟨a.2, mem_attachedOptions.mp ha⟩

theorem knows_iff {i : ItemRow} {optionId : Id} : (i.toCatalog cfg cat).Knows optionId ↔
    ∃ o ∈ (i.toMenu cfg cat).choices, o.id = optionId := by
  constructor
  · rintro ⟨o, g, hoffers, rfl⟩
    obtain ⟨o', ho', rfl⟩ := offers_iff.mp ⟨g, hoffers⟩
    exact ⟨o', ho', rfl⟩
  · rintro ⟨o', ho', rfl⟩
    obtain ⟨g, hoffers⟩ := offers_iff.mpr ⟨o', ho', rfl⟩
    exact ⟨o'.toCatalog, g, hoffers, rfl⟩

/-- Both count the same options of a group. -/
theorem selections_toCatalog (line : RequestedItem) (g : MenuOptionGroup) :
    selections line g.toCatalog = g.ticked line.optionIds := by
  rw [selections, MenuOptionGroup.ticked, MenuOptionGroup.toCatalog]
  simp only [List.any_map]
  rfl

/-- The bounds of a group, as both have them. -/
theorem bounds_iff (hk : cat.Keyed) {i : ItemRow} {line : RequestedItem} :
    (∀ g ∈ (i.toCatalog cfg cat).optionGroups,
      g.minSelect ≤ selections line g ∧ selections line g ≤ g.maxSelect) ↔
    ∀ g ∈ (i.toMenu cfg cat).optionGroups,
      g.minSelect ≤ g.ticked line.optionIds ∧ (g.ticked line.optionIds : ℤ) ≤ g.maxSelect := by
  have hgroups : (i.toCatalog cfg cat).optionGroups =
      (i.toMenu cfg cat).optionGroups.map MenuOptionGroup.toCatalog := groups_agree i.id
  rw [hgroups, List.forall_mem_map]
  refine forall₂_congr fun g hg => ?_
  obtain ⟨row, hrow, -, hmin, hmax, -⟩ := of_mem_groupsOf hg
  obtain ⟨hpos, hle⟩ := hk.bounds row hrow
  rw [selections_toCatalog, MenuOptionGroup.toCatalog]
  dsimp only
  omega

/-- The till takes a line of an item that is published if and only if the menu says so. -/
theorem takes_iff (hk : cat.Keyed) {i : ItemRow} (hpublished : cat.isPublished i = true)
    {line : RequestedItem} : (i.toMenu cfg cat).Takes line ↔
      (i.toCatalog cfg cat).isAvailable = true ∧ WellSelected (i.toCatalog cfg cat) line ∧
        AllAvailable (i.toCatalog cfg cat) line := by
  have havailable : (i.toCatalog cfg cat).isAvailable = i.isAvailable := by
    rw [ItemRow.toCatalog, hpublished, Bool.and_true]
  rw [havailable]
  constructor
  · intro h
    refine ⟨h.available, ⟨h.distinct, fun optionId hid => ?_, (bounds_iff hk).mpr h.bounds⟩, ?_⟩
    · obtain ⟨o, ho, hoid, -⟩ := h.offered optionId hid
      exact knows_iff.mpr ⟨o, ho, hoid⟩
    · intro o g hoffers hid
      obtain ⟨o', ho', rfl⟩ := offers_iff.mp ⟨g, hoffers⟩
      obtain ⟨o'', ho'', hsame, hyes⟩ := h.offered o'.id hid
      rw [choice_unique hk ho'' ho' hsame] at hyes
      exact hyes
  · rintro ⟨hyes, hwell, hall⟩
    refine ⟨hyes, hwell.distinct, fun optionId hid => ?_, (bounds_iff hk).mp hwell.bounds⟩
    obtain ⟨o, ho, rfl⟩ := knows_iff.mp (hwell.known optionId hid)
    obtain ⟨g, hoffers⟩ := offers_iff.mpr ⟨o, ho, rfl⟩
    exact ⟨o, ho, rfl, hall o.toCatalog g hoffers hid⟩

/-! ## The basket -/

variable {requested : List RequestedItem}

/-- The catalog that a basket is priced with. -/
def tillFor (cfg : Config) (cat : Catalog) (requested : List RequestedItem) : List CatalogItem :=
  readCatalog cfg cat (requested.map RequestedItem.menuItemId)

theorem keyed_tillFor (hk : cat.Keyed) : ∀ item ∈ tillFor cfg cat requested, item.Keyed := by
  intro item hitem
  obtain ⟨i, -, rfl⟩ := List.mem_map.mp hitem
  exact keyed_toCatalog hk i

/-- A line is sold if and only if the menu takes it. -/
theorem sellable_iff_takes (hk : cat.Keyed) {line : RequestedItem} (hline : line ∈ requested) :
    Sellable (tillFor cfg cat requested) line ↔
      ∃ item, (build cfg cat).find line.menuItemId = some item ∧ item.Takes line := by
  constructor
  · rintro ⟨item, hitem, hsold⟩
    obtain ⟨i, hi, hid, rfl⟩ := (itemOf_eq_some hk hline).mp hitem
    have hpublished : cat.isPublished i = true := (Bool.and_eq_true_iff.mp hsold.1).2
    exact ⟨_, (find_eq_some hk).mpr ⟨i, hi, hid, hpublished, rfl⟩,
      (takes_iff hk hpublished).mpr hsold⟩
  · rintro ⟨item, hitem, htakes⟩
    obtain ⟨i, hi, hid, hpublished, rfl⟩ := (find_eq_some hk).mp hitem
    exact ⟨_, (itemOf_eq_some hk hline).mpr ⟨i, hi, hid, rfl⟩, (takes_iff hk hpublished).mp htakes⟩

/-- The options of a line that is sold cost what the ticked ones do. -/
theorem deltas_eq (hk : cat.Keyed) {line : RequestedItem} {i : ItemRow}
    (hitem : itemOf (tillFor cfg cat requested) line = some (i.toCatalog cfg cat))
    (hdistinct : line.optionIds.Nodup) :
    ((resolveLine (tillFor cfg cat requested) line).options.map fun a => a.1.priceDeltaMinor).sum =
      (((i.toMenu cfg cat).choices.filter fun o => line.optionIds.contains o.id).map
        MenuOption.priceDeltaMinor).sum := by
  have hkeyed : (i.toCatalog cfg cat).Keyed := keyed_toCatalog hk i
  have hperm : (resolveLine (tillFor cfg cat requested) line).options.Perm
      ((attachedOptions (some (i.toCatalog cfg cat))).filter
        fun a => line.optionIds.contains a.1.id) := by
    refine (List.perm_ext_iff_of_nodup ?_ ((List.Nodup.of_map _ hkeyed.options).filter _)).mpr
      fun a => ?_
    · rw [resolveLine_eq, hitem, firsts_eq_self hdistinct (by simp)]
      refine hdistinct.filterMap fun x x' a ha ha' => ?_
      exact ((findAttached_eq_some hkeyed).mp ha).2.symm.trans
        ((findAttached_eq_some hkeyed).mp ha').2
    · rw [mem_options (keyed_tillFor hk), List.mem_filter, mem_attachedOptions,
        List.contains_iff_mem, hitem]
      constructor
      · rintro ⟨item, hsome, hoffers, hid⟩
        obtain rfl := Option.some.inj hsome
        exact ⟨hoffers, hid⟩
      · rintro ⟨hoffers, hid⟩
        exact ⟨_, rfl, hoffers, hid⟩
  have hchoices : ((attachedOptions (some (i.toCatalog cfg cat))).filter
      fun a => line.optionIds.contains a.1.id).map (fun a => a.1.priceDeltaMinor) =
      ((i.toMenu cfg cat).choices.filter fun o => line.optionIds.contains o.id).map
        MenuOption.priceDeltaMinor := by
    have hmap := congrArg (fun l => (l.filter fun o => line.optionIds.contains o.id).map
      CatalogOption.priceDeltaMinor) (attached_eq cfg cat i)
    simp only [List.filter_map, List.map_map] at hmap
    exact hmap
  rw [← hchoices]
  exact (hperm.map _).sum_eq

/-- What the basket costs, line by line. -/
theorem sum_filterMap {α β : Type} {f : α → Option β} {g : β → ℤ} {h : α → ℤ} {l : List α}
    (hf : ∀ a ∈ l, ∃ b, f a = some b ∧ g b = h a) :
    ((l.filterMap f).map g).sum = (l.map h).sum := by
  induction l with
  | nil => rfl
  | cons a l ih =>
    obtain ⟨b, hb, hgh⟩ := hf a List.mem_cons_self
    rw [List.filterMap_cons_some hb, List.map_cons, List.map_cons, List.sum_cons, List.sum_cons,
      ih fun a ha => hf a (List.mem_cons_of_mem _ ha), hgh]

theorem total_eq (hk : cat.Keyed) (h : (build cfg cat).Orderable requested) (vatBasisPoints : ℤ) :
    (pricedOrder (tillFor cfg cat requested) requested vatBasisPoints).totalMinor =
      (build cfg cat).total requested := by
  refine sum_filterMap fun line hline => ?_
  obtain ⟨item, hfind, htakes⟩ := h line hline
  obtain ⟨i, hi, hid, -, rfl⟩ := (find_eq_some hk).mp hfind
  have hitem : itemOf (tillFor cfg cat requested) line = some (i.toCatalog cfg cat) :=
    (itemOf_eq_some hk hline).mpr ⟨i, hi, hid, rfl⟩
  refine ⟨_, by rw [hitem]; rfl, ?_⟩
  rw [hfind, Option.elim_some, priceLine, MenuItem.price]
  dsimp only
  rw [deltas_eq hk hitem htakes.distinct, resolveLine_eq]
  rfl

/-- A basket is priced if and only if every line can be sold. -/
theorem priceOrder_ok_iff {catalog : List CatalogItem} (hkeyed : ∀ item ∈ catalog, item.Keyed)
    {vatBasisPoints : ℤ} {priced : PricedOrder} :
    priceOrder requested catalog vatBasisPoints = .ok priced ↔
      (∀ line ∈ requested, Sellable catalog line) ∧
        pricedOrder catalog requested vatBasisPoints = priced := by
  have hrules := violationsOf_eq_nil hkeyed requested
  have hun := somethingUnavailable_iff hkeyed requested
  rw [priceOrder_eq, ← sellable_iff]
  split
  · rename_i hbad
    exact iff_of_false (fun h => by cases h) fun h => hbad (hrules.mpr h.1.1)
  · rename_i hgood
    split
    · rename_i hgone
      exact iff_of_false (fun h => by cases h) fun h => h.1.2 (hun.mp hgone)
    · rename_i hthere
      have hsold := And.intro (hrules.mp (not_not.mp hgood)) fun h => hthere (hun.mpr h)
      rw [Except.ok.injEq]
      exact (and_iff_right hsold).symm

/-- **The menu is what can be ordered.** For every catalog that keeps its keys and every basket: the
till prices it if and only if the menu of that catalog lets it be ordered, and then at the total
that the menu says. -/
theorem menu_prices_orders (cfg : Config) (hk : cat.Keyed) (requested : List RequestedItem)
    (vatBasisPoints : ℤ) :
    ((∃ priced, priceOrder requested (tillFor cfg cat requested) vatBasisPoints = .ok priced) ↔
      (build cfg cat).Orderable requested) ∧
    ∀ priced, priceOrder requested (tillFor cfg cat requested) vatBasisPoints = .ok priced →
      priced.totalMinor = (build cfg cat).total requested := by
  have hok : ∀ priced, priceOrder requested (tillFor cfg cat requested) vatBasisPoints =
      .ok priced ↔ (build cfg cat).Orderable requested ∧
        pricedOrder (tillFor cfg cat requested) requested vatBasisPoints = priced := by
    intro priced
    rw [priceOrder_ok_iff (keyed_tillFor hk)]
    exact and_congr_left fun _ => forall₂_congr fun line hline => sellable_iff_takes hk hline
  refine ⟨⟨?_, fun hall => ⟨_, (hok _).mpr ⟨hall, rfl⟩⟩⟩, fun priced hpriced => ?_⟩
  · rintro ⟨priced, hpriced⟩
    exact ((hok priced).mp hpriced).1
  · obtain ⟨hall, rfl⟩ := (hok priced).mp hpriced
    exact total_eq hk hall vatBasisPoints

/-- A latte in one of two sizes, in a category that is published. -/
def latteCatalog : Catalog :=
  ⟨[⟨1, "Coffee", 0, true⟩], [⟨2, 1, "Latte", none, 9000, none, true, 0⟩], [⟨10, "Size", 1, 1⟩],
    [⟨100, 10, "Small", 0, true, true⟩, ⟨101, 10, "Large", 1500, false, true⟩], [⟨2, 10, 0⟩]⟩

/-- Rows that tie stay as the table lists them. -/
def tableOrder : Config := ⟨fun _ _ => true⟩

/-- Two large lattes cost what the screen says. -/
theorem menu_prices_orders_latte : latteCatalog.Keyed ∧
    (((∃ priced, priceOrder [⟨2, 2, [101], none⟩]
        (tillFor tableOrder latteCatalog [⟨2, 2, [101], none⟩]) 700 = .ok priced) ↔
        (build tableOrder latteCatalog).Orderable [⟨2, 2, [101], none⟩]) ∧
      ∀ priced, priceOrder [⟨2, 2, [101], none⟩]
        (tillFor tableOrder latteCatalog [⟨2, 2, [101], none⟩]) 700 = .ok priced →
        priced.totalMinor = (build tableOrder latteCatalog).total [⟨2, 2, [101], none⟩]) ∧
    (build tableOrder latteCatalog).total [⟨2, 2, [101], none⟩] = 21000 := by
  have hkeyed : latteCatalog.Keyed :=
    ⟨by decide, by decide, by decide, by decide, by decide, by decide⟩
  exact ⟨hkeyed, menu_prices_orders tableOrder hkeyed [⟨2, 2, [101], none⟩] 700, by decide⟩

end agree

end CafePos.MenuCache
