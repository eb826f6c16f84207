import CafePos.Schema

/-!
# Pricing a basket

`orders/pricing/order-pricing.ts`: a pure function from a submitted basket and the
catalog rows it names to the money the customer owes, or to every reason it is
refused for. Quantities and prices are the integers they are in the source.
-/

namespace CafePos

/-! ## The catalog as pricing sees it -/

/-- `CatalogOption`. -/
structure CatalogOption where
  id : Id
  name : String
  priceDeltaMinor : ℤ
  isAvailable : Bool
  deriving DecidableEq

/-- `CatalogOptionGroup`. -/
structure CatalogOptionGroup where
  id : Id
  name : String
  minSelect : ℕ
  maxSelect : ℕ
  options : List CatalogOption
  deriving DecidableEq

/-- `CatalogItem`. -/
structure CatalogItem where
  id : Id
  name : String
  basePriceMinor : ℤ
  isAvailable : Bool
  optionGroups : List CatalogOptionGroup
  deriving DecidableEq

/-- `RequestedItem`: one line of the basket as the client submitted it. -/
structure RequestedItem where
  menuItemId : Id
  quantity : ℤ
  optionIds : List Id
  notes : Option String
  deriving DecidableEq

/-- `PricedLine`. Its options are already the snapshots `order_item_options` stores. -/
structure PricedLine where
  menuItemId : Id
  nameSnapshot : String
  unitPriceMinorSnapshot : ℤ
  quantity : ℤ
  lineTotalMinor : ℤ
  notes : Option String
  options : List OrderItemOption
  deriving DecidableEq

/-- `PricedOrder`. -/
structure PricedOrder where
  lines : List PricedLine
  subtotalMinor : ℤ
  vatMinor : ℤ
  totalMinor : ℤ
  deriving DecidableEq

/-! ## Refusals -/

/-- `OptionSelectionViolation`, one constructor per shape of its `rule`. -/
inductive OptionSelectionViolation where
  /-- `DUPLICATE_OPTION` -/
  | duplicateOption (itemIndex : ℕ) (optionIds : List Id)
  /-- `UNKNOWN_OPTION` -/
  | unknownOption (itemIndex : ℕ) (optionIds : List Id)
  /-- `MIN_SELECT` -/
  | minSelect (itemIndex : ℕ) (optionGroupId : Id) (optionGroupName : String) (selected : ℕ)
      (allowedMin allowedMax : ℕ)
  /-- `MAX_SELECT` -/
  | maxSelect (itemIndex : ℕ) (optionGroupId : Id) (optionGroupName : String) (selected : ℕ)
      (allowedMin allowedMax : ℕ)
  deriving DecidableEq

/-- Why `priceOrder` refuses a basket. -/
inductive PricingError where
  /-- `OptionSelectionInvalidError` -/
  | optionSelectionInvalid (violations : List OptionSelectionViolation)
  /-- `OrderItemUnavailableError` -/
  | orderItemUnavailable (itemIds optionIds : List Id)
  deriving DecidableEq

/-! ## Resolving a line -/

/-- An option with the group it is attached through. -/
abbrev AttachedOption : Type := CatalogOption × CatalogOptionGroup

/-- `ResolvedLine`: a submitted line joined to the catalog. -/
structure ResolvedLine where
  line : RequestedItem
  item : Option CatalogItem
  options : List AttachedOption
  unknownOptionIds : List Id
  duplicateOptionIds : List Id

/-- Add to an insertion-ordered set. -/
def addOnce (xs : List Id) (x : Id) : List Id := if x ∈ xs then xs else xs ++ [x]

/-- The options of the groups attached to an item. -/
def attachedOptions (item : Option CatalogItem) : List AttachedOption :=
  (item.map CatalogItem.optionGroups).getD [] |>.flatMap fun g => g.options.map fun o => (o, g)

/-- `attached.get(optionId)`: of two options with one id the later wins. -/
def findAttached (attached : List AttachedOption) (optionId : Id) : Option AttachedOption :=
  attached.reverse.find? fun a => a.1.id == optionId

/-- The loop of `resolveLine` over the submitted option ids. -/
def resolveOptions (attached : List AttachedOption) :
    List Id → List Id → List Id → List Id → List AttachedOption →
      List Id × List Id × List AttachedOption
  | [], _, duplicates, unknown, options => (duplicates, unknown, options)
  | optionId :: rest, seen, duplicates, unknown, options =>
    if optionId ∈ seen then
      resolveOptions attached rest seen (addOnce duplicates optionId) unknown options
    else
      match findAttached attached optionId with
      | none => resolveOptions attached rest (seen ++ [optionId]) duplicates
          (unknown ++ [optionId]) options
      | some option => resolveOptions attached rest (seen ++ [optionId]) duplicates unknown
          (options ++ [option])

/-- `resolveLine`. -/
def resolveLine (catalog : List CatalogItem) (line : RequestedItem) : ResolvedLine :=
  let item := catalog.find? fun i => i.id == line.menuItemId
  let resolved := resolveOptions (attachedOptions item) line.optionIds [] [] [] []
  ⟨line, item, resolved.2.2, resolved.2.1, resolved.1⟩

/-! ## Validating it -/

/-- The id-level problems of a line. -/
def idViolations (line : ResolvedLine) (itemIndex : ℕ) : List OptionSelectionViolation :=
  (if line.duplicateOptionIds.isEmpty then []
    else [.duplicateOption itemIndex line.duplicateOptionIds]) ++
  (if line.unknownOptionIds.isEmpty then []
    else [.unknownOption itemIndex line.unknownOptionIds])

/-- How many of a line's options were picked from a group. -/
def selectedFrom (line : ResolvedLine) (group : CatalogOptionGroup) : ℕ :=
  (line.options.filter fun o => o.2.id == group.id).length

/-- The bounds a line breaks in one group. -/
def boundViolations (line : ResolvedLine) (itemIndex : ℕ) (group : CatalogOptionGroup) :
    List OptionSelectionViolation :=
  let selected := selectedFrom line group
  if group.minSelect ≤ selected ∧ selected ≤ group.maxSelect then []
  else if selected < group.minSelect then
    [.minSelect itemIndex group.id group.name selected group.minSelect group.maxSelect]
  else
    [.maxSelect itemIndex group.id group.name selected group.minSelect group.maxSelect]

/-- `validateSelections`: bounds are not reported beside an id-level problem. -/
def validateSelections (line : ResolvedLine) (itemIndex : ℕ) : List OptionSelectionViolation :=
  match idViolations line itemIndex with
  | [] => (line.item.map CatalogItem.optionGroups).getD [] |>.flatMap
      (boundViolations line itemIndex)
  | violations => violations

/-! ## Pricing it -/

/-- `priceLine`, for a line whose item is known. -/
def priceLine (line : ResolvedLine) (item : CatalogItem) : PricedLine :=
  let deltas := (line.options.map fun o => o.1.priceDeltaMinor).sum
  -- the floor: `price_delta_minor` carries no CHECK, and a line must not pay for another
  let unitPriceMinorSnapshot := max 0 (item.basePriceMinor + deltas)
  { menuItemId := item.id
    nameSnapshot := item.name
    unitPriceMinorSnapshot
    quantity := line.line.quantity
    lineTotalMinor := unitPriceMinorSnapshot * line.line.quantity
    notes := line.line.notes
    options := line.options.map fun o => ⟨o.1.id, o.2.name, o.1.name, o.1.priceDeltaMinor⟩ }

/-- `Math.round(n / d)` in exact arithmetic, for `d > 0`: halves are rounded up. -/
def roundDiv (n d : ℤ) : ℤ := (2 * n + d) / (2 * d)

/-- `extractVat`: the tax carved back out of a VAT-inclusive total. -/
def extractVat (totalMinor vatBasisPoints : ℤ) : ℤ :=
  roundDiv (totalMinor * vatBasisPoints) (10000 + vatBasisPoints)

/-- The items of a basket that cannot be sold, each once. -/
def unavailableItems (lines : List ResolvedLine) : List Id :=
  lines.foldl (fun ids line =>
    if line.item.all fun i => !i.isAvailable then addOnce ids line.line.menuItemId else ids) []

/-- The options of a basket that cannot be sold, each once. -/
def unavailableOptions (lines : List ResolvedLine) : List Id :=
  lines.foldl (fun ids line => line.options.foldl (fun ids o =>
    if o.1.isAvailable then ids else addOnce ids o.1.id) ids) []

/-- `priceOrder`: shape is checked before availability, and each layer reports every
violation it finds. -/
def priceOrder (requested : List RequestedItem) (catalog : List CatalogItem)
    (vatBasisPoints : ℤ) : Except PricingError PricedOrder :=
  let resolved := requested.map (resolveLine catalog)
  let violations := resolved.zipIdx.flatMap fun l =>
    if l.1.item.isNone then [] else validateSelections l.1 l.2
  let itemIds := unavailableItems resolved
  let optionIds := unavailableOptions resolved
  if !violations.isEmpty then .error (.optionSelectionInvalid violations)
  else if !itemIds.isEmpty || !optionIds.isEmpty then
    .error (.orderItemUnavailable itemIds optionIds)
  else
    let lines := resolved.filterMap fun line => line.item.map (priceLine line)
    let subtotalMinor := (lines.map PricedLine.lineTotalMinor).sum
    .ok ⟨lines, subtotalMinor, extractVat subtotalMinor vatBasisPoints, subtotalMinor⟩

/-- The total of a priced basket is the sum of its lines. -/
theorem priceOrder_total {requested : List RequestedItem} {catalog : List CatalogItem}
    {vatBasisPoints : ℤ} {priced : PricedOrder}
    (h : priceOrder requested catalog vatBasisPoints = .ok priced) :
    priced.totalMinor = (priced.lines.map PricedLine.lineTotalMinor).sum := by
  simp only [priceOrder] at h
  split at h
  · cases h
  · split at h
    · cases h
    · cases h
      rfl

end CafePos
