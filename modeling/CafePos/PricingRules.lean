import CafePos.Pricing

/-!
# What `priceOrder` decides

The menu's rules, said without the passes that check them: `WellSelected` for the options of one
line, `LineReport` for what is reported of a line that breaks them. The loop of `resolveLine`
is described once, by the first occurrences of the submitted ids (`firsts`); everything the later
passes see follows from that.
-/

namespace CafePos

/-! ## The rules of the menu -/

/-- The item a line asks for. -/
def itemOf (catalog : List CatalogItem) (line : RequestedItem) : Option CatalogItem :=
  catalog.find? fun i => i.id == line.menuItemId

/-- The keys of the schema: a group is attached to an item once, and an option is in one group. -/
structure CatalogItem.Keyed (item : CatalogItem) : Prop where
  groups : (item.optionGroups.map CatalogOptionGroup.id).Nodup
  options : ((attachedOptions (some item)).map fun a => a.1.id).Nodup

/-- The option is one of a group that is attached to the item. -/
def CatalogItem.Offers (item : CatalogItem) (o : CatalogOption) (g : CatalogOptionGroup) : Prop :=
  g ∈ item.optionGroups ∧ o ∈ g.options

/-- The submitted id is that of an option of the item. -/
def CatalogItem.Knows (item : CatalogItem) (optionId : Id) : Prop :=
  ∃ o g, item.Offers o g ∧ o.id = optionId

/-- How many of the submitted ids are options of a group. -/
def selections (line : RequestedItem) (group : CatalogOptionGroup) : ℕ :=
  (line.optionIds.filter fun id => group.options.any fun o => o.id == id).length

/-- The options of a line keep the rules of its item. -/
structure WellSelected (item : CatalogItem) (line : RequestedItem) : Prop where
  distinct : line.optionIds.Nodup
  known : ∀ optionId ∈ line.optionIds, item.Knows optionId
  bounds : ∀ g ∈ item.optionGroups,
    g.minSelect ≤ selections line g ∧ selections line g ≤ g.maxSelect

/-- Every option of a line can be sold. -/
def AllAvailable (item : CatalogItem) (line : RequestedItem) : Prop :=
  ∀ o g, item.Offers o g → o.id ∈ line.optionIds → o.isAvailable = true

/-- The violation of a group's bounds, with its true count. -/
def boundViolation (itemIndex : ℕ) (line : RequestedItem) (group : CatalogOptionGroup) :
    Option OptionSelectionViolation :=
  if selections line group < group.minSelect then
    some (.minSelect itemIndex group.id group.name (selections line group) group.minSelect
      group.maxSelect)
  else if group.maxSelect < selections line group then
    some (.maxSelect itemIndex group.id group.name (selections line group) group.minSelect
      group.maxSelect)
  else none

/-- What is reported of a line: the duplicated and the unknown ids, each once, if there are any;
otherwise one violation for each group that is out of bounds, in the order of the groups. -/
def LineReport (item : CatalogItem) (line : RequestedItem) (itemIndex : ℕ)
    (report : List OptionSelectionViolation) : Prop :=
  ∃ duplicates unknown : List Id,
    (duplicates.Nodup ∧ ∀ x, x ∈ duplicates ↔ 2 ≤ line.optionIds.count x) ∧
    (unknown.Nodup ∧ ∀ x, x ∈ unknown ↔ x ∈ line.optionIds ∧ ¬ item.Knows x) ∧
    report =
      if duplicates = [] ∧ unknown = [] then
        item.optionGroups.filterMap (boundViolation itemIndex line)
      else (if duplicates = [] then [] else [.duplicateOption itemIndex duplicates]) ++
        (if unknown = [] then [] else [.unknownOption itemIndex unknown])

/-! ## The loop over the submitted ids -/

/-- The ids that occur for the first time, after those that were seen. -/
def firsts : List Id → List Id → List Id
  | _, [] => []
  | seen, x :: rest => if x ∈ seen then firsts seen rest else x :: firsts (seen ++ [x]) rest

theorem mem_firsts {x : Id} (seen ids : List Id) : x ∈ firsts seen ids ↔ x ∈ ids ∧ x ∉ seen := by
  induction ids generalizing seen with
  | nil => simp [firsts]
  | cons y ids ih =>
    rw [firsts]
    split
    · rename_i hy
      rw [ih]
      grind
    · rename_i hy
      rw [List.mem_cons, ih]
      grind

theorem nodup_firsts (seen ids : List Id) : (firsts seen ids).Nodup := by
  induction ids generalizing seen with
  | nil => exact List.nodup_nil
  | cons y ids ih =>
    rw [firsts]
    split
    · exact ih seen
    · refine List.nodup_cons.mpr ⟨fun hy => ?_, ih _⟩
      exact ((mem_firsts _ _).mp hy).2 (by simp)

theorem firsts_eq_self {seen ids : List Id} (h : ids.Nodup) (hseen : ∀ x ∈ ids, x ∉ seen) :
    firsts seen ids = ids := by
  induction ids generalizing seen with
  | nil => rfl
  | cons y ids ih =>
    obtain ⟨hy, hids⟩ := List.nodup_cons.mp h
    rw [firsts, if_neg (hseen y (by simp)), ih hids]
    intro x hx hmem
    rcases List.mem_append.mp hmem with hmem | hmem
    · exact hseen x (by simp [hx]) hmem
    · exact hy (List.mem_singleton.mp hmem ▸ hx)

/-- The ids that occur again, after those that were seen. -/
def repeats : List Id → List Id → List Id → List Id
  | _, dups, [] => dups
  | seen, dups, x :: rest =>
    if x ∈ seen then repeats seen (addOnce dups x) rest else repeats (seen ++ [x]) dups rest

theorem nodup_addOnce {xs : List Id} (h : xs.Nodup) (x : Id) : (addOnce xs x).Nodup := by
  unfold addOnce
  split
  · exact h
  · exact List.nodup_append.mpr ⟨h, List.nodup_singleton x, by grind⟩

theorem mem_addOnce {xs : List Id} {x y : Id} : y ∈ addOnce xs x ↔ y ∈ xs ∨ y = x := by
  unfold addOnce
  split <;> grind

theorem nodup_repeats {seen dups ids : List Id} (h : dups.Nodup) :
    (repeats seen dups ids).Nodup := by
  induction ids generalizing seen dups with
  | nil => exact h
  | cons y ids ih =>
    rw [repeats]
    split
    · exact ih (nodup_addOnce h y)
    · exact ih h

theorem mem_repeats {x : Id} (seen dups ids : List Id) :
    x ∈ repeats seen dups ids ↔ x ∈ dups ∨ x ∈ seen ∧ x ∈ ids ∨ 2 ≤ ids.count x := by
  induction ids generalizing seen dups with
  | nil => simp [repeats]
  | cons y ids ih =>
    have hcount : x ∈ ids ↔ 1 ≤ ids.count x := List.count_pos_iff.symm
    rw [repeats]
    split
    · rw [ih, mem_addOnce, List.count_cons]
      grind
    · rw [ih, List.count_cons]
      grind

/-- The loop of `resolveLine`. -/
theorem resolveOptions_eq (attached : List AttachedOption) (ids seen dups unknown : List Id)
    (options : List AttachedOption) :
    resolveOptions attached ids seen dups unknown options =
      (repeats seen dups ids,
        unknown ++ (firsts seen ids).filter fun x => (findAttached attached x).isNone,
        options ++ (firsts seen ids).filterMap (findAttached attached)) := by
  induction ids generalizing seen dups unknown options with
  | nil => simp [resolveOptions, repeats, firsts]
  | cons y ids ih =>
    rw [resolveOptions, repeats, firsts]
    split
    · exact ih ..
    · cases hy : findAttached attached y with
      | none => simp [ih, hy]
      | some o => simp [ih, hy]

/-! ## One line -/

section line

variable {item : CatalogItem} {line : RequestedItem} {x : Id} {a : AttachedOption}

theorem mem_attachedOptions : a ∈ attachedOptions (some item) ↔ item.Offers a.1 a.2 := by
  simp only [attachedOptions, Option.map_some, Option.getD_some, List.mem_flatMap, List.mem_map,
    CatalogItem.Offers]
  constructor
  · rintro ⟨g, hg, o, ho, rfl⟩
    exact ⟨hg, ho⟩
  · rintro ⟨hg, ho⟩
    exact ⟨a.2, hg, a.1, ho, rfl⟩

/-- The option with an id is found, and no other. -/
theorem findAttached_eq_some (hk : item.Keyed) :
    findAttached (attachedOptions (some item)) x = some a ↔ item.Offers a.1 a.2 ∧ a.1.id = x := by
  rw [← mem_attachedOptions]
  constructor
  · intro h
    have hmem := List.mem_of_find?_eq_some h
    have hid := List.find?_some h
    exact ⟨List.mem_reverse.mp hmem, by simpa using hid⟩
  · rintro ⟨hmem, hid⟩
    have hsome : (findAttached (attachedOptions (some item)) x).isSome := by
      rw [findAttached, List.find?_isSome]
      exact ⟨a, List.mem_reverse.mpr hmem, by simpa using hid⟩
    obtain ⟨b, hb⟩ := Option.isSome_iff_exists.mp hsome
    have hbmem := List.mem_reverse.mp (List.mem_of_find?_eq_some hb)
    have hbid : b.1.id = x := by simpa using List.find?_some hb
    rw [hb, List.inj_on_of_nodup_map hk.options hbmem hmem (hbid.trans hid.symm)]

theorem findAttached_isNone (hk : item.Keyed) :
    (findAttached (attachedOptions (some item)) x).isNone ↔ ¬ item.Knows x := by
  rw [Option.isNone_iff_eq_none, Option.eq_none_iff_forall_ne_some]
  constructor
  · rintro h ⟨o, g, hoffers, hid⟩
    exact h (o, g) ((findAttached_eq_some hk).mpr ⟨hoffers, hid⟩)
  · intro h a ha
    obtain ⟨hoffers, hid⟩ := (findAttached_eq_some hk).mp ha
    exact h ⟨a.1, a.2, hoffers, hid⟩

/-- Counting the resolved options of a group is counting its submitted ids. -/
theorem length_filter_filterMap {f : Id → Option AttachedOption} {p : AttachedOption → Bool}
    {q : Id → Bool} {ids : List Id} (h : ∀ x ∈ ids, ∃ a, f x = some a ∧ p a = q x) :
    ((ids.filterMap f).filter p).length = (ids.filter q).length := by
  induction ids with
  | nil => rfl
  | cons x ids ih =>
    obtain ⟨a, ha, hpq⟩ := h x (by simp)
    have hrest := ih fun y hy => h y (by simp [hy])
    rw [List.filterMap_cons_some ha, List.filter_cons, List.filter_cons, hpq]
    split
    · rw [List.length_cons, List.length_cons, hrest]
    · exact hrest

theorem group_iff (hk : item.Keyed) {g : CatalogOptionGroup} (hg : g ∈ item.optionGroups)
    (ha : findAttached (attachedOptions (some item)) x = some a) :
    (a.2.id == g.id) = g.options.any fun o => o.id == x := by
  obtain ⟨⟨ha2, ha1⟩, hid⟩ := (findAttached_eq_some hk).mp ha
  rw [Bool.eq_iff_iff, beq_iff_eq, List.any_eq_true]
  constructor
  · intro heq
    have : a.2 = g := List.inj_on_of_nodup_map hk.groups ha2 hg heq
    exact ⟨a.1, this ▸ ha1, by simpa using hid⟩
  · rintro ⟨o, ho, hox⟩
    have hfound := (findAttached_eq_some (a := (o, g)) hk).mpr ⟨⟨hg, ho⟩, by simpa using hox⟩
    rw [ha] at hfound
    exact congrArg (fun b => b.2.id) (Option.some.inj hfound)

/-- A line whose ids are distinct and known: what the last check counts. -/
theorem selectedFrom_eq (hk : item.Keyed) {resolved : ResolvedLine}
    (hoptions : resolved.options = (firsts [] line.optionIds).filterMap
      (findAttached (attachedOptions (some item))))
    (hnodup : line.optionIds.Nodup) (hknown : ∀ x ∈ line.optionIds, item.Knows x)
    {g : CatalogOptionGroup} (hg : g ∈ item.optionGroups) :
    selectedFrom resolved g = selections line g := by
  rw [selectedFrom, hoptions, firsts_eq_self hnodup (by simp), selections]
  refine length_filter_filterMap fun x hx => ?_
  obtain ⟨o, g', hoffers, hid⟩ := hknown x hx
  have hfound := (findAttached_eq_some (a := (o, g')) hk).mpr ⟨hoffers, hid⟩
  exact ⟨(o, g'), hfound, group_iff hk hg hfound⟩

theorem boundViolations_eq {resolved : ResolvedLine} {itemIndex : ℕ} {g : CatalogOptionGroup}
    (h : selectedFrom resolved g = selections line g) :
    boundViolations resolved itemIndex g = (boundViolation itemIndex line g).toList := by
  simp only [boundViolations, boundViolation, h]
  split
  · rename_i hb
    rw [if_neg (Nat.not_lt.mpr hb.1), if_neg (Nat.not_lt.mpr hb.2)]
    rfl
  · split
    · rfl
    · rw [if_pos (by omega)]
      rfl

theorem resolveLine_eq (catalog : List CatalogItem) (line : RequestedItem) :
    resolveLine catalog line =
      ⟨line, itemOf catalog line,
        (firsts [] line.optionIds).filterMap (findAttached (attachedOptions (itemOf catalog line))),
        (firsts [] line.optionIds).filter fun x =>
          (findAttached (attachedOptions (itemOf catalog line)) x).isNone,
        repeats [] [] line.optionIds⟩ := by
  simp only [resolveLine, resolveOptions_eq, List.nil_append]
  rfl

/-- What `validateSelections` reports of a line. -/
theorem validateSelections_report {catalog : List CatalogItem} (hk : item.Keyed)
    (hitem : itemOf catalog line = some item) (itemIndex : ℕ) :
    LineReport item line itemIndex
      (validateSelections (resolveLine catalog line) itemIndex) := by
  have hdups : ∀ x, x ∈ repeats [] [] line.optionIds ↔ 2 ≤ line.optionIds.count x := by
    intro x
    rw [mem_repeats]
    simp
  have hunknown : ∀ x, x ∈ (firsts [] line.optionIds).filter (fun x =>
      (findAttached (attachedOptions (some item)) x).isNone) ↔
        x ∈ line.optionIds ∧ ¬ item.Knows x := by
    intro x
    rw [List.mem_filter, mem_firsts, findAttached_isNone hk]
    simp
  refine ⟨_, _, ⟨nodup_repeats List.nodup_nil, hdups⟩,
    ⟨(nodup_firsts _ _).filter _, hunknown⟩, ?_⟩
  rw [validateSelections, idViolations, resolveLine_eq, hitem]
  simp only [List.isEmpty_iff]
  split
  · -- no id-level problem: the bounds
    rename_i hnil
    obtain ⟨hd, hu⟩ := List.append_eq_nil_iff.mp hnil
    have hd : repeats [] [] line.optionIds = [] := by
      by_contra h
      simp [h] at hd
    have hu : (firsts [] line.optionIds).filter (fun x =>
        (findAttached (attachedOptions (some item)) x).isNone) = [] := by
      by_contra h
      simp [h] at hu
    rw [if_pos ⟨hd, hu⟩, Option.map_some, Option.getD_some]
    have hnodup : line.optionIds.Nodup := by
      refine List.nodup_iff_count_le_one.mpr fun x => ?_
      by_contra h
      have := (hdups x).mpr (by omega)
      rw [hd] at this
      cases this
    have hknown : ∀ x ∈ line.optionIds, item.Knows x := by
      intro x hx
      by_contra h
      have := (hunknown x).mpr ⟨hx, h⟩
      rw [hu] at this
      cases this
    refine (List.flatMap_congr fun g hg => ?_).trans (List.filterMap_eq_flatMap_toList _ _).symm
    exact boundViolations_eq (selectedFrom_eq hk rfl hnodup hknown hg)
  · rename_i hne
    have hsome : ¬ (repeats [] [] line.optionIds = [] ∧ (firsts [] line.optionIds).filter (fun x =>
        (findAttached (attachedOptions (some item)) x).isNone) = []) := by
      rintro ⟨hd, hu⟩
      exact hne (by simp [hd, hu])
    rw [if_neg hsome]

/-- Nothing is reported of a line that keeps the rules, and something of every other one. -/
theorem LineReport.eq_nil_iff {itemIndex : ℕ} {report : List OptionSelectionViolation}
    (h : LineReport item line itemIndex report) : report = [] ↔ WellSelected item line := by
  obtain ⟨dups, unknown, ⟨-, hdups⟩, ⟨-, hunknown⟩, rfl⟩ := h
  have hdnil : dups = [] ↔ line.optionIds.Nodup := by
    rw [List.eq_nil_iff_forall_not_mem, List.nodup_iff_count_le_one]
    refine forall_congr' fun x => ?_
    rw [hdups]
    omega
  have hunil : unknown = [] ↔ ∀ x ∈ line.optionIds, item.Knows x := by
    rw [List.eq_nil_iff_forall_not_mem]
    refine forall_congr' fun x => ?_
    rw [hunknown, not_and, not_not]
  have hbounds : item.optionGroups.filterMap (boundViolation itemIndex line) = [] ↔
      ∀ g ∈ item.optionGroups,
        g.minSelect ≤ selections line g ∧ selections line g ≤ g.maxSelect := by
    rw [List.filterMap_eq_nil_iff]
    refine forall_congr' fun g => forall_congr' fun _ => ?_
    simp only [boundViolation]
    split
    · simp
      omega
    · split
      · simp
        omega
      · simp
        omega
  split
  · rename_i hnil
    rw [hbounds]
    exact ⟨fun hb => ⟨hdnil.mp hnil.1, hunil.mp hnil.2, hb⟩, fun hw => hw.bounds⟩
  · rename_i hne
    refine iff_of_false (fun hnil => ?_) fun hw => hne ⟨hdnil.mpr hw.distinct, hunil.mpr hw.known⟩
    obtain ⟨hd, hu⟩ := List.append_eq_nil_iff.mp hnil
    refine hne ⟨?_, ?_⟩
    · by_contra h
      simp [h] at hd
    · by_contra h
      simp [h] at hu

end line

/-! ## What is unavailable -/

/-- Collecting ids into a set, in the order they are found. -/
theorem foldl_addOnce {α : Type} (p : α → Bool) (f : α → Id) (xs : List α) {ids : List Id}
    (hids : ids.Nodup) :
    (xs.foldl (fun ids x => if p x then addOnce ids (f x) else ids) ids).Nodup ∧
      ∀ y, y ∈ xs.foldl (fun ids x => if p x then addOnce ids (f x) else ids) ids ↔
        y ∈ ids ∨ ∃ x ∈ xs, p x = true ∧ f x = y := by
  induction xs generalizing ids with
  | nil => exact ⟨hids, by simp⟩
  | cons x xs ih =>
    rw [List.foldl_cons]
    split
    · rename_i hx
      obtain ⟨hnodup, hmem⟩ := ih (nodup_addOnce hids (f x))
      refine ⟨hnodup, fun y => ?_⟩
      rw [hmem, mem_addOnce]
      grind
    · rename_i hx
      obtain ⟨hnodup, hmem⟩ := ih hids
      refine ⟨hnodup, fun y => ?_⟩
      rw [hmem]
      grind

section basket

variable {catalog : List CatalogItem} {requested : List RequestedItem}

/-- The items that are unknown or cannot be sold, each once. -/
theorem unavailableItems_spec (catalog : List CatalogItem) (requested : List RequestedItem) :
    (unavailableItems (requested.map (resolveLine catalog))).Nodup ∧
      ∀ y, y ∈ unavailableItems (requested.map (resolveLine catalog)) ↔
        ∃ line ∈ requested, (∀ item, itemOf catalog line = some item → item.isAvailable = false) ∧
          line.menuItemId = y := by
  obtain ⟨hnodup, hmem⟩ := foldl_addOnce (fun line : ResolvedLine =>
    line.item.all fun i => !i.isAvailable) (fun line => line.line.menuItemId)
    (requested.map (resolveLine catalog)) List.nodup_nil
  refine ⟨hnodup, fun y => (hmem y).trans ?_⟩
  simp only [List.not_mem_nil, false_or, List.mem_map, exists_exists_and_eq_and, resolveLine_eq,
    Option.all_eq_true, Bool.not_eq_eq_eq_not, Bool.not_true]

/-- The options that a line has of its item. -/
theorem mem_options (hk : ∀ item ∈ catalog, item.Keyed) {line : RequestedItem}
    {a : AttachedOption} :
    a ∈ (resolveLine catalog line).options ↔ ∃ item, itemOf catalog line = some item ∧
      item.Offers a.1 a.2 ∧ a.1.id ∈ line.optionIds := by
  rw [resolveLine_eq]
  simp only [List.mem_filterMap, mem_firsts, List.not_mem_nil, not_false_eq_true, and_true]
  cases hitem : itemOf catalog line with
  | none => simp [attachedOptions, findAttached]
  | some item =>
    have hkeyed := hk item (List.mem_of_find?_eq_some hitem)
    simp only [findAttached_eq_some hkeyed]
    constructor
    · rintro ⟨x, hx, hoffers, rfl⟩
      exact ⟨item, rfl, hoffers, hx⟩
    · rintro ⟨item', hitem', hoffers, hid⟩
      obtain rfl := Option.some.inj hitem'
      exact ⟨a.1.id, hid, hoffers, rfl⟩

/-- The options of the lines that cannot be sold, each once. -/
theorem mem_unavailableOptions (lines : List ResolvedLine) : (unavailableOptions lines).Nodup ∧
    ∀ y, y ∈ unavailableOptions lines ↔
      ∃ line ∈ lines, ∃ o ∈ line.options, o.1.isAvailable = false ∧ o.1.id = y := by
  have hflat : unavailableOptions lines = (lines.flatMap ResolvedLine.options).foldl
      (fun ids o => if !o.1.isAvailable then addOnce ids o.1.id else ids) [] := by
    rw [List.foldl_flatMap, unavailableOptions]
    congr 1
    funext ids line
    congr 1
    funext ids o
    cases o.1.isAvailable <;> rfl
  obtain ⟨hnodup, hmem⟩ := foldl_addOnce (fun o : AttachedOption => !o.1.isAvailable)
    (fun o => o.1.id) (lines.flatMap ResolvedLine.options) List.nodup_nil
  rw [hflat]
  refine ⟨hnodup, fun y => (hmem y).trans ?_⟩
  simp only [List.not_mem_nil, false_or, List.mem_flatMap, Bool.not_eq_true']
  constructor
  · rintro ⟨o, ⟨line, hline, ho⟩, hav, hy⟩
    exact ⟨line, hline, o, ho, hav, hy⟩
  · rintro ⟨line, hline, o, ho, hav, hy⟩
    exact ⟨o, ⟨line, hline, ho⟩, hav, hy⟩

/-- The options that cannot be sold, each once. -/
theorem unavailableOptions_spec (hk : ∀ item ∈ catalog, item.Keyed)
    (requested : List RequestedItem) :
    (unavailableOptions (requested.map (resolveLine catalog))).Nodup ∧
      ∀ y, y ∈ unavailableOptions (requested.map (resolveLine catalog)) ↔
        ∃ line ∈ requested, ∃ item o g, itemOf catalog line = some item ∧ item.Offers o g ∧
          o.id ∈ line.optionIds ∧ o.isAvailable = false ∧ o.id = y := by
  obtain ⟨hnodup, hmem⟩ := mem_unavailableOptions (requested.map (resolveLine catalog))
  refine ⟨hnodup, fun y => (hmem y).trans ?_⟩
  simp only [List.mem_map, exists_exists_and_eq_and, mem_options hk]
  constructor
  · rintro ⟨line, hline, a, ⟨item, hitem, hoffers, hid⟩, hav, rfl⟩
    exact ⟨line, hline, item, a.1, a.2, hitem, hoffers, hid, hav, rfl⟩
  · rintro ⟨line, hline, item, o, g, hitem, hoffers, hid, hav, rfl⟩
    exact ⟨line, hline, (o, g), ⟨item, hitem, hoffers, hid⟩, hav, rfl⟩

/-! ## The whole basket -/

/-- The line keeps the rules, and all of it can be sold. -/
def Sellable (catalog : List CatalogItem) (line : RequestedItem) : Prop :=
  ∃ item, itemOf catalog line = some item ∧ item.isAvailable = true ∧ WellSelected item line ∧
    AllAvailable item line

/-- A line with a known item breaks the rules. -/
def BreaksRules (catalog : List CatalogItem) (requested : List RequestedItem) : Prop :=
  ∃ line ∈ requested, ∃ item, itemOf catalog line = some item ∧ ¬ WellSelected item line

/-- What is reported of one line of the basket, with its index. -/
def ReportOf (catalog : List CatalogItem) (l : RequestedItem × ℕ)
    (report : List OptionSelectionViolation) : Prop :=
  (∀ item, itemOf catalog l.1 = some item → LineReport item l.1 l.2 report) ∧
    (itemOf catalog l.1 = none → report = [])

/-- The violations of a basket, line by line. -/
def violationsOf (catalog : List CatalogItem) (requested : List RequestedItem) :
    List (List OptionSelectionViolation) :=
  requested.zipIdx.map fun l =>
    if (itemOf catalog l.1).isNone then [] else validateSelections (resolveLine catalog l.1) l.2

theorem reports (hk : ∀ item ∈ catalog, item.Keyed) :
    List.Forall₂ (ReportOf catalog) requested.zipIdx (violationsOf catalog requested) := by
  rw [violationsOf, List.forall₂_map_right_iff]
  refine List.forall₂_same.mpr fun l _ => ?_
  cases hitem : itemOf catalog l.1 with
  | none =>
    refine ⟨fun item h => ?_, fun _ => rfl⟩
    rw [hitem] at h
    cases h
  | some item =>
    refine ⟨fun item' h => ?_, fun h => ?_⟩
    swap
    · rw [hitem] at h
      cases h
    obtain rfl := Option.some.inj (hitem.symm.trans h)
    exact validateSelections_report (hk item (List.mem_of_find?_eq_some hitem)) hitem l.2

theorem violationsOf_eq_nil (hk : ∀ item ∈ catalog, item.Keyed)
    (requested : List RequestedItem) :
    (violationsOf catalog requested).flatten = [] ↔ ¬ BreaksRules catalog requested := by
  have hline : ∀ l : RequestedItem × ℕ, (if (itemOf catalog l.1).isNone then []
      else validateSelections (resolveLine catalog l.1) l.2) = [] ↔
      ∀ item, itemOf catalog l.1 = some item → WellSelected item l.1 := by
    intro l
    cases hitem : itemOf catalog l.1 with
    | none => simp
    | some item =>
      have hreport := validateSelections_report (hk item (List.mem_of_find?_eq_some hitem)) hitem
        l.2
      simpa using hreport.eq_nil_iff
  simp only [violationsOf, List.flatten_eq_nil_iff, List.mem_map, forall_exists_index, and_imp,
    forall_apply_eq_imp_iff₂, hline, BreaksRules, not_exists, not_and, not_not]
  constructor
  · intro h line hmem item hitem
    obtain ⟨i, hi⟩ := List.mem_iff_getElem?.mp hmem
    exact h (line, i) (List.mk_mem_zipIdx_iff_getElem?.mpr hi) item hitem
  · intro h l hl item hitem
    exact h l.1 (List.fst_mem_of_mem_zipIdx hl) item hitem

/-- The lines of a basket that can be sold, priced. -/
def pricedLines (catalog : List CatalogItem) (requested : List RequestedItem) : List PricedLine :=
  requested.filterMap fun line => (itemOf catalog line).map (priceLine (resolveLine catalog line))

/-- The money of a basket that can be sold. -/
def pricedOrder (catalog : List CatalogItem) (requested : List RequestedItem)
    (vatBasisPoints : ℤ) : PricedOrder :=
  let subtotalMinor := ((pricedLines catalog requested).map PricedLine.lineTotalMinor).sum
  ⟨pricedLines catalog requested, subtotalMinor, extractVat subtotalMinor vatBasisPoints,
    subtotalMinor⟩

/-- The three ends of `priceOrder`. -/
theorem priceOrder_eq (catalog : List CatalogItem) (requested : List RequestedItem)
    (vatBasisPoints : ℤ) :
    priceOrder requested catalog vatBasisPoints =
      if (violationsOf catalog requested).flatten ≠ [] then
        .error (.optionSelectionInvalid (violationsOf catalog requested).flatten)
      else if unavailableItems (requested.map (resolveLine catalog)) ≠ [] ∨
          unavailableOptions (requested.map (resolveLine catalog)) ≠ [] then
        .error (.orderItemUnavailable (unavailableItems (requested.map (resolveLine catalog)))
          (unavailableOptions (requested.map (resolveLine catalog))))
      else .ok (pricedOrder catalog requested vatBasisPoints) := by
  have hviolations : ((requested.map (resolveLine catalog)).zipIdx.flatMap fun l =>
      if l.1.item.isNone then [] else validateSelections l.1 l.2) =
      (violationsOf catalog requested).flatten := by
    rw [List.zipIdx_map, List.flatMap_map, violationsOf, ← List.flatMap_def]
    simp only [Prod.map_fst, Prod.map_snd, resolveLine_eq, id_eq]
  have hlines : ((requested.map (resolveLine catalog)).filterMap fun line =>
      line.item.map (priceLine line)) = pricedLines catalog requested := by
    rw [List.filterMap_map, pricedLines]
    rfl
  rw [priceOrder]
  simp only [hviolations, hlines, Bool.not_eq_true', List.isEmpty_eq_false_iff, Bool.or_eq_true]
  rfl

/-- Something of the basket is unknown or cannot be sold. -/
def SomethingUnavailable (catalog : List CatalogItem) (requested : List RequestedItem) : Prop :=
  ∃ line ∈ requested, ∀ item, itemOf catalog line = some item →
    item.isAvailable = false ∨ ¬ AllAvailable item line

theorem somethingUnavailable_iff (hk : ∀ item ∈ catalog, item.Keyed)
    (requested : List RequestedItem) :
    (unavailableItems (requested.map (resolveLine catalog)) ≠ [] ∨
      unavailableOptions (requested.map (resolveLine catalog)) ≠ []) ↔
      SomethingUnavailable catalog requested := by
  have hitems := (unavailableItems_spec catalog requested).2
  have hoptions := (unavailableOptions_spec hk requested).2
  constructor
  · rintro (h | h)
    · obtain ⟨y, hy⟩ := List.exists_mem_of_ne_nil _ h
      obtain ⟨line, hline, hav, -⟩ := (hitems y).mp hy
      exact ⟨line, hline, fun item hitem => Or.inl (hav item hitem)⟩
    · obtain ⟨y, hy⟩ := List.exists_mem_of_ne_nil _ h
      obtain ⟨line, hline, item, o, g, hitem, hoffers, hid, hav, -⟩ := (hoptions y).mp hy
      refine ⟨line, hline, fun item' hitem' => Or.inr fun hall => ?_⟩
      obtain rfl := Option.some.inj (hitem.symm.trans hitem')
      rw [hall o g hoffers hid] at hav
      cases hav
  · rintro ⟨line, hline, hun⟩
    by_cases hitem : ∀ item, itemOf catalog line = some item → item.isAvailable = false
    · exact Or.inl (List.ne_nil_of_mem ((hitems _).mpr ⟨line, hline, hitem, rfl⟩))
    · simp only [not_forall] at hitem
      obtain ⟨item, hfound, hav⟩ := hitem
      obtain ⟨o, g, hoffers, hid, hno⟩ : ∃ o g, item.Offers o g ∧ o.id ∈ line.optionIds ∧
          o.isAvailable = false := by
        have hnot := (hun item hfound).resolve_left hav
        simp only [AllAvailable, not_forall, Bool.not_eq_true] at hnot
        obtain ⟨o, g, hoffers, hid, hno⟩ := hnot
        exact ⟨o, g, hoffers, hid, hno⟩
      exact Or.inr (List.ne_nil_of_mem
        ((hoptions o.id).mpr ⟨line, hline, item, o, g, hfound, hoffers, hid, hno, rfl⟩))

theorem sellable_iff :
    (¬ BreaksRules catalog requested ∧ ¬ SomethingUnavailable catalog requested) ↔
      ∀ line ∈ requested, Sellable catalog line := by
  constructor
  · rintro ⟨hrules, havailable⟩ line hline
    have hsold : ∃ item, itemOf catalog line = some item ∧ item.isAvailable = true ∧
        AllAvailable item line := by
      by_contra hnot
      refine havailable ⟨line, hline, fun item hitem => ?_⟩
      by_contra h
      obtain ⟨hav, hall⟩ := not_or.mp h
      exact hnot ⟨item, hitem, by simpa using hav, not_not.mp hall⟩
    obtain ⟨item, hitem, hav, hall⟩ := hsold
    refine ⟨item, hitem, hav, ?_, hall⟩
    by_contra hbad
    exact hrules ⟨line, hline, item, hitem, hbad⟩
  · intro h
    constructor
    · rintro ⟨line, hline, item, hitem, hbad⟩
      obtain ⟨item', hitem', -, hgood, -⟩ := h line hline
      obtain rfl := Option.some.inj (hitem.symm.trans hitem')
      exact hbad hgood
    · rintro ⟨line, hline, hun⟩
      obtain ⟨item, hitem, hav, -, hall⟩ := h line hline
      rcases hun item hitem with hno | hno
      · rw [hav] at hno
        cases hno
      · exact hno hall

/-- `priceOrder` decides exactly the menu's rules, and says exactly what breaks them. -/
theorem priceOrder_decides {catalog : List CatalogItem} (hk : ∀ item ∈ catalog, item.Keyed)
    (requested : List RequestedItem) (vatBasisPoints : ℤ) :
    ((∃ priced, priceOrder requested catalog vatBasisPoints = .ok priced) ↔
      ∀ line ∈ requested, Sellable catalog line) ∧
    (BreaksRules catalog requested → ∃ parts,
      priceOrder requested catalog vatBasisPoints =
        .error (.optionSelectionInvalid parts.flatten) ∧
      List.Forall₂ (ReportOf catalog) requested.zipIdx parts) ∧
    (¬ BreaksRules catalog requested → SomethingUnavailable catalog requested →
      ∃ itemIds optionIds, priceOrder requested catalog vatBasisPoints =
        .error (.orderItemUnavailable itemIds optionIds) ∧
      (itemIds.Nodup ∧ ∀ y, y ∈ itemIds ↔ ∃ line ∈ requested,
        (∀ item, itemOf catalog line = some item → item.isAvailable = false) ∧
          line.menuItemId = y) ∧
      optionIds.Nodup ∧ ∀ y, y ∈ optionIds ↔ ∃ line ∈ requested, ∃ item o g,
        itemOf catalog line = some item ∧ item.Offers o g ∧ o.id ∈ line.optionIds ∧
          o.isAvailable = false ∧ o.id = y) := by
  have heq := priceOrder_eq catalog requested vatBasisPoints
  have hviolations := violationsOf_eq_nil hk requested
  have hun := somethingUnavailable_iff hk requested
  rw [heq]
  refine ⟨?_, fun hbreaks => ?_, fun hnot hsome => ?_⟩
  · have hiff : (¬ BreaksRules catalog requested ∧ ¬ SomethingUnavailable catalog requested) ↔
        ∀ line ∈ requested, Sellable catalog line := sellable_iff
    rw [← hiff, ← hviolations, ← hun]
    by_cases hv : (violationsOf catalog requested).flatten = []
    · rw [if_neg (not_not.mpr hv)]
      split
      · rename_i hsome
        refine iff_of_false (fun h => ?_) fun h => h.2 hsome
        obtain ⟨p, hp⟩ := h
        cases hp
      · rename_i hnone
        exact iff_of_true ⟨_, rfl⟩ ⟨hv, hnone⟩
    · rw [if_pos hv]
      refine iff_of_false (fun h => ?_) fun h => hv h.1
      obtain ⟨p, hp⟩ := h
      cases hp
  · rw [if_pos (by rwa [ne_eq, hviolations, not_not])]
    exact ⟨_, rfl, reports hk⟩
  · rw [if_neg (by rwa [ne_eq, not_not, hviolations]), if_pos (hun.mpr hsome)]
    exact ⟨_, _, rfl, unavailableItems_spec catalog requested, unavailableOptions_spec hk requested⟩

end basket

/-- A latte in one of two sizes, and a croissant that is sold out. -/
def smallMenu : List CatalogItem :=
  [⟨1, "Latte", 9000, true,
      [⟨10, "Size", 1, 1, [⟨100, "Small", 0, true⟩, ⟨101, "Large", 1500, true⟩]⟩]⟩,
    ⟨2, "Croissant", 6000, false, []⟩]

theorem smallMenu_keyed : ∀ item ∈ smallMenu, item.Keyed := by
  intro item hitem
  simp only [smallMenu, List.mem_cons, List.not_mem_nil, or_false] at hitem
  rcases hitem with rfl | rfl
  · exact ⟨by decide, by decide⟩
  · exact ⟨by decide, by decide⟩

/-- A latte without a size, beside a croissant: the size is reported, the croissant is not. -/
theorem priceOrder_decides_sizeless : ∃ parts,
    priceOrder [⟨1, 1, [], none⟩, ⟨2, 1, [], none⟩] smallMenu 700 =
      .error (.optionSelectionInvalid parts.flatten) ∧
    List.Forall₂ (ReportOf smallMenu) [(⟨1, 1, [], none⟩, 0), (⟨2, 1, [], none⟩, 1)] parts := by
  refine (priceOrder_decides smallMenu_keyed [⟨1, 1, [], none⟩, ⟨2, 1, [], none⟩] 700).2.1 ?_
  refine ⟨⟨1, 1, [], none⟩, by simp, _, rfl, fun h => ?_⟩
  exact absurd (h.bounds _ (List.mem_cons_self ..)).1 (by decide)

end CafePos
