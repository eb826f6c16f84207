import CafePos.Interleaving.Atomic
import CafePos.Interleaving.Table
import CafePos.Schema

/-!
# The menu and its cache

`GET /menu` (`catalog/menu`): a version counter in Redis, one rendered document for every version,
and the composite menu built from one snapshot of the catalog. A catalog write commits, and then
`CatalogWriteInterceptor` bumps the counter. Every method of the cache fails open; Redis may be
unreachable at any call.

The document is the menu that is rendered; its text is `JSON.stringify` of it. Two things are
counted that no code reads: the catalog writes that committed, and for every version the writes
that had committed when the counter reached it.
-/

namespace CafePos.MenuCache

open Interleaving

/-! ## The catalog -/

/-- A row of `categories`. -/
structure CategoryRow where
  id : Id
  name : String
  sortOrder : ℤ
  isActive : Bool
  deriving DecidableEq

/-- A row of `menu_items`. -/
structure ItemRow where
  id : Id
  categoryId : Id
  name : String
  description : Option String
  basePriceMinor : ℤ
  imageUrl : Option String
  isAvailable : Bool
  sortOrder : ℤ
  deriving DecidableEq

/-- A row of `option_groups`. -/
structure GroupRow where
  id : Id
  name : String
  minSelect : ℤ
  maxSelect : ℤ
  deriving DecidableEq

/-- A row of `options`. -/
structure OptionRow where
  id : Id
  optionGroupId : Id
  name : String
  priceDeltaMinor : ℤ
  isDefault : Bool
  isAvailable : Bool
  deriving DecidableEq

/-- A row of `menu_item_option_groups`. -/
structure LinkRow where
  menuItemId : Id
  optionGroupId : Id
  sortOrder : ℤ
  deriving DecidableEq

/-- The tables of the catalog. -/
structure Catalog where
  categories : List CategoryRow
  menuItems : List ItemRow
  optionGroups : List GroupRow
  options : List OptionRow
  menuItemOptionGroups : List LinkRow
  deriving DecidableEq

/-! ## The menu -/

/-- `MenuOption`. -/
structure MenuOption where
  id : Id
  name : String
  priceDeltaMinor : ℤ
  isDefault : Bool
  isAvailable : Bool
  deriving DecidableEq

/-- `MenuOptionGroup`. -/
structure MenuOptionGroup where
  id : Id
  name : String
  minSelect : ℤ
  maxSelect : ℤ
  sortOrder : ℤ
  options : List MenuOption
  deriving DecidableEq

/-- `MenuItem`. -/
structure MenuItem where
  id : Id
  name : String
  description : Option String
  basePriceMinor : ℤ
  imageUrl : Option String
  isAvailable : Bool
  sortOrder : ℤ
  optionGroups : List MenuOptionGroup
  deriving DecidableEq

/-- `MenuCategory`. -/
structure MenuCategory where
  id : Id
  name : String
  sortOrder : ℤ
  items : List MenuItem
  deriving DecidableEq

/-- `Menu`. -/
structure Menu where
  categories : List MenuCategory
  deriving DecidableEq

/-- The collation of the database. -/
structure Config where
  nameLe : String → String → Bool

/-- `ORDER BY sort_order, name`; rows that tie stay as the table lists them. -/
def Config.orderLe (cfg : Config) (a b : ℤ × String) : Prop :=
  a.1 < b.1 ∨ a.1 = b.1 ∧ cfg.nameLe a.2 b.2 = true

instance (cfg : Config) : DecidableRel cfg.orderLe := fun _ _ => inferInstanceAs (Decidable (_ ∨ _))

/-- The options of a group, by name. -/
def optionsOf (cfg : Config) (cat : Catalog) (groupId : Id) : List MenuOption :=
  ((cat.options.filter fun o => o.optionGroupId == groupId).insertionSort
    fun a b => cfg.nameLe a.name b.name = true).map fun o =>
      ⟨o.id, o.name, o.priceDeltaMinor, o.isDefault, o.isAvailable⟩

/-- The groups of an item, in its own order. -/
def groupsOf (cfg : Config) (cat : Catalog) (itemId : Id) : List MenuOptionGroup :=
  ((cat.menuItemOptionGroups.filter fun l => l.menuItemId == itemId).insertionSort
    fun a b => a.sortOrder ≤ b.sortOrder).filterMap fun l =>
      (cat.optionGroups.find? fun g => g.id == l.optionGroupId).map fun g =>
        ⟨g.id, g.name, g.minSelect, g.maxSelect, l.sortOrder, optionsOf cfg cat g.id⟩

/-- The items of a category; one that is sold out stays on the menu. -/
def itemsOf (cfg : Config) (cat : Catalog) (categoryId : Id) : List MenuItem :=
  ((cat.menuItems.filter fun i => i.categoryId == categoryId).insertionSort
    fun a b => cfg.orderLe (a.sortOrder, a.name) (b.sortOrder, b.name)).map fun i =>
      ⟨i.id, i.name, i.description, i.basePriceMinor, i.imageUrl, i.isAvailable, i.sortOrder,
        groupsOf cfg cat i.id⟩

/-- `build`: the categories that are published. -/
def build (cfg : Config) (cat : Catalog) : Menu :=
  ⟨((cat.categories.filter CategoryRow.isActive).insertionSort
    fun a b => cfg.orderLe (a.sortOrder, a.name) (b.sortOrder, b.name)).map fun c =>
      ⟨c.id, c.name, c.sortOrder, itemsOf cfg cat c.id⟩⟩

/-! ## Redis and the database -/

/-- A document, and how many writes had committed when it was built. -/
structure Rendered where
  document : Menu
  builtAt : ℕ
  deriving DecidableEq

/-- The database, the cache, and what is counted. -/
structure State where
  catalog : Catalog
  /-- `VERSION_KEY` -/
  version : Option ℕ
  /-- `DOCUMENT_KEY_PREFIX` and a version -/
  documents : Table ℕ Rendered
  /-- the catalog writes that committed -/
  commits : ℕ
  /-- the writes that had committed when the counter reached a version -/
  reached : Table ℕ ℕ

/-- What a call has got. -/
inductive Note where
  /-- nothing -/
  | blank
  /-- a version -/
  | versioned (version : ℕ)
  /-- a document, and the version it goes by -/
  | rendered (version : Option ℕ) (got : Rendered)
  /-- a catalog write has committed, and has not bumped -/
  | wrote
  deriving DecidableEq

/-- The version that a read goes by. -/
def Note.version : Note → Option ℕ
  | versioned version => some version
  | rendered version _ => version
  | _ => none

/-- When the document of a read was built. -/
def Note.builtAt : Note → ℕ
  | rendered _ got => got.builtAt
  | _ => 0

/-- What a call asks of the outside. -/
inductive Op where
  /-- `GET VERSION_KEY` -/
  | getVersion
  /-- `INCR VERSION_KEY`, by a read that found no counter -/
  | createVersion
  /-- `GET` the document of a version -/
  | readDocument (version : ℕ)
  /-- the menu, from one snapshot -/
  | build
  /-- `SET` the document of a version, which expires -/
  | writeDocument (version : ℕ) (document : Menu)
  /-- the transaction of a catalog write, which may be refused -/
  | write (change : Catalog → Option Catalog)
  /-- `INCR VERSION_KEY`, by `bump` -/
  | bump

/-- What an operation returns; `none` where Redis is unreachable. -/
def Op.Res : Op → Type
  | getVersion => Option (Option ℕ)
  | createVersion => Option ℕ
  | readDocument _ => Option (Option Menu)
  | build => Menu
  | writeDocument .. => Unit
  | write _ => Bool
  | bump => Unit

/-- What the outside supplies to one operation. -/
structure Input where
  /-- Redis answers -/
  reachable : Bool := true

/-- `INCR VERSION_KEY`. -/
def State.incr (s : State) : State :=
  { s with
    version := some (s.version.getD 0 + 1)
    reached := s.reached.put (s.version.getD 0 + 1) s.commits }

/-- Perform one operation. -/
def exec (cfg : Config) (inp : Input) (l : Note) (s : State) : (o : Op) → o.Res × Note × State
  | .getVersion =>
    if inp.reachable then
      (some s.version, (s.version.map Note.versioned).getD l, s)
    else (none, l, s)
  | .createVersion =>
    if inp.reachable then
      (some (s.version.getD 0 + 1), .versioned (s.version.getD 0 + 1), s.incr)
    else (none, l, s)
  | .readDocument version =>
    if inp.reachable then
      match s.documents.get version with
      | some got => (some (some got.document), .rendered (some version) got, s)
      | none => (some none, l, s)
    else (none, l, s)
  | .build => (build cfg s.catalog, .rendered l.version ⟨build cfg s.catalog, s.commits⟩, s)
  | .writeDocument version document =>
    if inp.reachable then
      ((), l, { s with documents := s.documents.put version ⟨document, l.builtAt⟩ })
    else ((), l, s)
  | .write change =>
    match change s.catalog with
    | some catalog => (true, .wrote, { s with catalog, commits := s.commits + 1 })
    | none => (false, l, s)
  | .bump => if inp.reachable then ((), .blank, s.incr) else ((), l, s)

/-- The meaning of the operations. -/
def machine (cfg : Config) : Machine State Note Empty Op Op.Res Input :=
  .atomic .blank fun o inp l s => some (exec cfg inp l s o)

/-! ## The services -/

/-- A catalog write that is refused. -/
inductive Err where
  | refused
  deriving DecidableEq

/-- A service call. -/
abbrev Service (α : Type) : Type := ExceptT Err (Prog Op Op.Res) α

/-- Perform one operation. -/
def perform (o : Op) : Service o.Res := ExceptT.lift (Prog.perform o)

/-- `currentVersion`: a missing counter is created. -/
def currentVersion : Service (Option ℕ) := do
  match ← (perform .getVersion : Service (Option (Option ℕ))) with
  | none => pure none
  | some (some version) => pure (some version)
  | some none => perform .createVersion

/-- `MenuService.document`. -/
def document : Option ℕ → Service Menu
  | none => perform .build
  | some version => do
    match ← (perform (.readDocument version) : Service (Option (Option Menu))) with
    | some (some cached) => pure cached
    | _ => do
      let document : Menu ← perform .build
      perform (.writeDocument version document)
      pure document

/-- `etagFor`. -/
def etagFor (version : ℕ) : String := "W/\"catalog-" ++ Nat.repr version ++ "\""

/-- The parts of a header between its commas. -/
def splitCommas : List Char → List (List Char)
  | [] => [[]]
  | c :: cs =>
    if c = ',' then [] :: splitCommas cs
    else match splitCommas cs with
      | part :: parts => (c :: part) :: parts
      | [] => [[c]]

/-- `trim`. -/
def trim (cs : List Char) : List Char :=
  ((cs.dropWhile Char.isWhitespace).reverse.dropWhile Char.isWhitespace).reverse

/-- `matchesEtag`. -/
def matchesEtag (header : Option String) (etag : String) : Bool :=
  header.any fun h => trim h.toList == ['*'] ||
    (splitCommas h.toList).any fun candidate => trim candidate == etag.toList

/-- What a call answers. -/
inductive Reply where
  /-- 200, with the ETag of a version if there is one -/
  | ok (version : Option ℕ) (body : Menu)
  /-- 304, with the ETag of a version -/
  | notModified (version : ℕ)
  /-- a catalog write -/
  | written
  deriving DecidableEq

/-- `MenuController.get`. -/
def get (ifNoneMatch : Option String) : Service Reply := do
  let version ← currentVersion
  if version.any fun v => matchesEtag ifNoneMatch (etagFor v) then
    pure (.notModified (version.getD 0))
  else do
    let body ← document version
    pure (.ok version body)

/-- A catalog write and `CatalogWriteInterceptor`: only a successful write bumps. -/
def write (change : Catalog → Option Catalog) : Service Reply := do
  match ← (perform (.write change) : Service Bool) with
  | false => throw .refused
  | true => do
    perform .bump
    pure .written

/-! ## The system -/

/-- A call. -/
inductive Call where
  | get (ifNoneMatch : Option String)
  | write (change : Catalog → Option Catalog)

/-- What a call does. -/
def program : Call → Prog Op Op.Res (Except Err Reply)
  | .get ifNoneMatch => (get ifNoneMatch).run
  | .write change => (write change).run

/-- A cached document expires. -/
def system (cfg : Config) :
    System State Note Empty Op Op.Res Input Call ℕ (Except Err Reply) where
  machine := machine cfg
  program := program
  world version s := some { s with documents := s.documents.keep fun v _ => v != version }
  world_keeps {_ _ _} _ x := x.elim

/-- A world of the system. -/
abbrev MenuWorld : Type := World State Note Op Op.Res Call (Except Err Reply)

/-- A call, under way or answered. -/
abbrev MenuThread : Type := Thread Note Op Op.Res Call (Except Err Reply)

/-- An action of the system. -/
abbrev MenuAct : Type := Act Input Call ℕ

/-- A catalog, and a Redis that holds nothing. -/
def opening (catalog : Catalog) : MenuWorld := .initial ⟨catalog, none, ∅, 0, ∅⟩

end CafePos.MenuCache
