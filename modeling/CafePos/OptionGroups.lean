import CafePos.Interleaving.Rows
import CafePos.Schema

/-!
# The option groups of an item

`ItemOptionGroupsService.setForItem` (`catalog/items/item-option-groups.service.ts`) replaces the
attachments of an item: it deletes the rows it sees and inserts its own, in one transaction, and
takes no lock on the item. The `DELETE` chooses its rows on one snapshot and removes those that
still exist when it locks them; the `INSERT` adds one row after the other, and waits for whoever
holds the same key.
-/

namespace CafePos.OptionGroups

open Interleaving

/-! ## The data model -/

/-- The primary key of `menu_item_option_groups`: the item and the group. -/
abbrev Key : Type := Id × Id

/-- `menu_item_option_groups`: `sort_order`, by item and group. -/
abbrev Attachments : Type := Table Key ℕ

/-- What is read of a row of `option_groups`. -/
structure OptionGroup where
  name : String
  minSelect : ℕ
  maxSelect : ℕ
  deriving DecidableEq

/-- The items and the groups there are. -/
structure Catalog where
  hasItem : Id → Bool
  group : Id → Option OptionGroup

/-- `AttachedOptionGroup`. -/
structure AttachedOptionGroup where
  id : Id
  name : String
  minSelect : ℕ
  maxSelect : ℕ
  sortOrder : ℕ
  deriving DecidableEq

/-! ## Statements -/

/-- What a call asks of the database. -/
inductive Query where
  /-- `menu_items`, by id -/
  | item (itemId : Id)
  /-- `SELECT id FROM option_groups WHERE id IN ids` -/
  | found (ids : List Id)
  /-- the rows of `DELETE FROM menu_item_option_groups WHERE menu_item_id`, as its snapshot has
  them -/
  | attached (itemId : Id)
  /-- one row of it, removed if it still exists -/
  | delete (itemId optionGroupId : Id)
  /-- one row of `INSERT INTO menu_item_option_groups` -/
  | insert (itemId optionGroupId : Id) (sortOrder : ℕ)
  /-- the attachments with their groups, ordered by `sort_order` -/
  | readBack (itemId : Id)

/-- What a statement returns. -/
def Query.Ans : Query → Type
  | item _ => Bool
  | found _ => List Id
  | attached _ => List Id
  | delete .. => Unit
  | insert .. => Except Unit Unit
  | readBack _ => List AttachedOptionGroup

/-- The groups of an item. -/
def groupsOf (rows : Attachments) (itemId : Id) : List (Id × ℕ) :=
  (rows.select fun k _ => k.1 == itemId).map fun q => (q.1.2, q.2)

/-- The join with `option_groups`. -/
def attachedGroups (cat : Catalog) (rows : Attachments) (itemId : Id) : List AttachedOptionGroup :=
  ((groupsOf rows itemId).filterMap fun q => (cat.group q.1).map fun g =>
    AttachedOptionGroup.mk q.1 g.name g.minSelect g.maxSelect q.2).insertionSort
      fun a b => a.sortOrder ≤ b.sortOrder

/-- What a statement does. -/
def effect (cat : Catalog) (rows : Attachments) :
    (q : Query) → Effect (Rows.Write Key ℕ) Key q.Ans
  | .item itemId => ⟨cat.hasItem itemId, [], []⟩
  | .found ids => ⟨ids.filter fun id => (cat.group id).isSome, [], []⟩
  | .attached itemId => ⟨(groupsOf rows itemId).map Prod.fst, [], []⟩
  | .delete itemId g => ⟨(), if (rows.get (itemId, g)).isSome then [.erase (itemId, g)] else [],
      [(itemId, g)]⟩
  | .insert itemId g sortOrder =>
    if (rows.get (itemId, g)).isSome then ⟨.error (), [], [(itemId, g)]⟩
    else ⟨.ok (), [.put (itemId, g) sortOrder], []⟩
  | .readBack itemId => ⟨attachedGroups cat rows itemId, [], []⟩

/-- How far a call has come. -/
inductive Stage where
  /-- its `DELETE` has not chosen its rows -/
  | idle
  /-- it has `rest` to delete, and has inserted `done` -/
  | busy (itemId : Id) (rest done : List Id)
  /-- a key was taken -/
  | failed
  /-- its rows are committed -/
  | committed
  deriving DecidableEq

/-- What an answer says about the stage. -/
def learn (stage : Stage) : (q : Query) → q.Ans → Stage
  | .attached itemId, rows => .busy itemId rows []
  | .delete _ g, _ => match stage with
    | .busy itemId rest done => .busy itemId (rest.filter (· != g)) done
    | stage => stage
  | .insert _ g _, .ok _ => match stage with
    | .busy itemId rest done => .busy itemId rest (done ++ [g])
    | stage => stage
  | .insert .., .error _ => .failed
  | _, _ => stage

/-- The statements and their meaning. -/
def language (cat : Catalog) : Rows.Language Key ℕ Query Query.Ans Unit Stage where
  effect q _ rows := effect cat rows q
  blank := .idle
  learn q a stage := learn stage q a
  onCommit _ := .committed
  onRollback stage := if stage = .failed then .failed else .idle

/-! ## The service -/

/-- What a call can throw. -/
inductive Err where
  /-- `ResourceNotFoundError` -/
  | resourceNotFound (resource : String) (id : Id)
  /-- `OptionGroupUnknownError` -/
  | optionGroupUnknown (ids : List Id)
  /-- the driver's error for a taken primary key -/
  | uniqueViolation
  deriving DecidableEq

/-- A service call. -/
abbrev Service (α : Type) : Type := Rows.Service Query.Ans Err α

/-- Send a statement. -/
def send (q : Query) : Service q.Ans := Rows.Service.send q

/-- The check that names the groups nobody knows. -/
def checkGroups (ids : List Id) : Service Unit :=
  if ids.isEmpty then pure ()
  else do
    let found : List Id ← send (.found ids)
    let unknown := ids.filter fun id => !found.contains id
    if !unknown.isEmpty then throw (.optionGroupUnknown unknown) else pure ()

/-- The rows of the `DELETE`. -/
def deleteAll (itemId : Id) : List Id → Service Unit
  | [] => pure ()
  | g :: gs => do
    let _ ← send (.delete itemId g)
    deleteAll itemId gs

/-- The rows of the `INSERT`, numbered from `sortOrder`. -/
def insertAll (itemId : Id) (sortOrder : ℕ) : List Id → Service Unit
  | [] => pure ()
  | g :: gs => do
    match ← (send (.insert itemId g sortOrder) : Service (Except Unit Unit)) with
    | .ok _ => insertAll itemId (sortOrder + 1) gs
    | .error _ => throw .uniqueViolation

/-- The transaction of `setForItem`. -/
def replaceAll (itemId : Id) (ids : List Id) : Service (List AttachedOptionGroup) := do
  let item : Bool ← send (.item itemId)
  if !item then throw (.resourceNotFound "menu item" itemId)
  else do
    checkGroups ids
    let rows : List Id ← send (.attached itemId)
    deleteAll itemId rows
    insertAll itemId 0 ids
    send (.readBack itemId)

/-- `ItemOptionGroupsService.setForItem`. -/
def setForItem (itemId : Id) (ids : List Id) : Service (List AttachedOptionGroup) :=
  Rows.Service.transaction (replaceAll itemId ids)

/-! ## The system -/

/-- A request. -/
structure Call where
  itemId : Id
  optionGroupIds : List Id
  deriving DecidableEq

/-- `MAX_GROUPS_PER_ITEM`. -/
def maxGroupsPerItem : ℕ := 20

/-- What the DTO accepts, about an item and groups that exist. -/
def Call.valid (cat : Catalog) (c : Call) : Bool :=
  decide (c.optionGroupIds.length ≤ maxGroupsPerItem) && decide c.optionGroupIds.Nodup &&
    cat.hasItem c.itemId && c.optionGroupIds.all fun id => (cat.group id).isSome

/-- The connection of a call. -/
abbrev Conn : Type := Rows.Conn Key ℕ Stage

/-- The system: any number of calls, and nothing that happens by itself. -/
def system (cat : Catalog) :
    System Attachments Conn Key (Rows.Op Query) (Rows.Op.Res Query.Ans) Unit Call Empty
      (Except Err (List AttachedOptionGroup)) where
  machine := Rows.machine (language cat)
  program c := (setForItem c.itemId c.optionGroupIds).run
  world e := e.elim
  world_keeps {e} := e.elim

/-- A world of the system. -/
abbrev ItemWorld : Type := World Attachments Conn (Rows.Op Query) (Rows.Op.Res Query.Ans) Call
  (Except Err (List AttachedOptionGroup))

/-- A call, under way or answered. -/
abbrev ItemThread : Type := Thread Conn (Rows.Op Query) (Rows.Op.Res Query.Ans) Call
  (Except Err (List AttachedOptionGroup))

/-- An action of the system. -/
abbrev ItemAct : Type := Act Unit Call Empty

end CafePos.OptionGroups
