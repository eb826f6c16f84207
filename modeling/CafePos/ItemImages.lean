import CafePos.Interleaving.Atomic
import CafePos.Interleaving.Table
import CafePos.Schema
import Mathlib

/-!
# Item photos

`ItemImageService.replace` (`catalog/items/item-image.service.ts`) re-encodes an upload, puts it
into the object store under the hash of its bytes (`storage/object-storage.service.ts`), and writes
the URL into the item. Two stores and no transaction: a call may die between them, the store may
take the bytes and lose the answer, and any number of uploads and edits of the items run at once.
Still

* an object never changes, which is what its `immutable` cache header promises;
* only what the decoder has rendered is stored, of a file whose bytes are those of a photo;
* a URL in an item names an object that is there, unless a manager has typed it;
* what an upload has answered is served from then on (`photos_are_served`).
-/

namespace CafePos.ItemImages

open Interleaving

/-! ## Uploads -/

/-- The bytes of a file. -/
abbrev Bytes : Type := List UInt8

/-- `JPEG_MAGIC` -/
def jpegMagic : Bytes := [0xff, 0xd8, 0xff]

/-- `PNG_MAGIC` -/
def pngMagic : Bytes := [0x89, 0x50, 0x4e, 0x47, 0x0d, 0x0a, 0x1a, 0x0a]

/-- `RIFF_MAGIC`: `RIFF` -/
def riffMagic : Bytes := [0x52, 0x49, 0x46, 0x46]

/-- `WEBP_MAGIC`: `WEBP` -/
def webpMagic : Bytes := [0x57, 0x45, 0x42, 0x50]

/-- `buffer.subarray(start, stop)` -/
def subarray (buffer : Bytes) (start stop : ℕ) : Bytes := (buffer.take stop).drop start

/-- `sniffImageType` -/
def sniffImageType (buffer : Bytes) : Option String :=
  if 3 ≤ buffer.length ∧ subarray buffer 0 3 = jpegMagic then some "image/jpeg"
  else if 8 ≤ buffer.length ∧ subarray buffer 0 8 = pngMagic then some "image/png"
  else if 12 ≤ buffer.length ∧ subarray buffer 0 4 = riffMagic ∧
      subarray buffer 8 12 = webpMagic then some "image/webp"
  else none

/-- `ACCEPTED_IMAGE_TYPES` -/
def acceptedImageTypes : List String := ["image/jpeg", "image/png", "image/webp"]

/-- `UNSTATED_CONTENT_TYPES` -/
def unstatedContentTypes : List String := ["", "application/octet-stream"]

/-- `OUTPUT_CONTENT_TYPE` -/
def outputContentType : String := "image/webp"

/-- What `String.prototype.trim` takes off: white space and line terminators. -/
def isTrimmed (c : Char) : Bool :=
  [0x09, 0x0a, 0x0b, 0x0c, 0x0d, 0x20, 0xa0, 0x1680, 0x2028, 0x2029, 0x202f, 0x205f, 0x3000,
    0xfeff].contains c.toNat || (decide (0x2000 ≤ c.toNat) && decide (c.toNat ≤ 0x200a))

/-- `mimetype.trim().toLowerCase()`; no letter outside ASCII becomes one of a content type. -/
def declaredType (mimetype : String) : String :=
  String.ofList ((((mimetype.toList.dropWhile isTrimmed).reverse.dropWhile isTrimmed).reverse).map
    Char.toLower)

/-- `UploadedImage` -/
structure UploadedImage where
  mimetype : String
  buffer : Bytes
  deriving DecidableEq

/-- The decoder and encoder (`sharp`), SHA-256 in hexadecimal digits, and the environment. -/
structure Config where
  /-- the photo rendered anew, if it can be decoded within the limits -/
  render : Bytes → Option Bytes
  sha256 : Bytes → String
  publicBaseUrl : String

/-- What a call can throw. -/
inductive Err where
  /-- `ResourceNotFoundError` -/
  | resourceNotFound (resource : String) (id : Id)
  /-- `CategoryUnknownError` -/
  | categoryUnknown (categoryId : Id)
  /-- `ImageTypeUnsupportedError` -/
  | imageTypeUnsupported (accepted : List String)
  /-- `ImageUnprocessableError` -/
  | imageUnprocessable
  /-- the store could not be reached, or its answer was lost -/
  | storage
  /-- another error of the driver -/
  | sql
  deriving DecidableEq

/-- `reencode` -/
def reencode (cfg : Config) (file : UploadedImage) : Except Err Bytes :=
  let declared := declaredType file.mimetype
  if declared ∉ unstatedContentTypes ∧ declared ∉ acceptedImageTypes then
    .error (.imageTypeUnsupported acceptedImageTypes)
  else if sniffImageType file.buffer = none then
    .error (.imageTypeUnsupported acceptedImageTypes)
  else
    match cfg.render file.buffer with
    | some image => .ok image
    | none => .error .imageUnprocessable

/-- `${KEY_PREFIX}/${digest}.webp` -/
def Config.keyOf (cfg : Config) (image : Bytes) : String := "items/" ++ cfg.sha256 image ++ ".webp"

/-- `${publicBaseUrl}/${key}` -/
def Config.urlOf (cfg : Config) (key : String) : String := cfg.publicBaseUrl ++ "/" ++ key

/-- A file is admitted only with the bytes of one of the accepted types. -/
theorem sniffed_of_reencode {cfg : Config} {file : UploadedImage} {image : Bytes}
    (h : reencode cfg file = .ok image) :
    (∃ type ∈ acceptedImageTypes, sniffImageType file.buffer = some type) ∧
      cfg.render file.buffer = some image := by
  simp only [reencode] at h
  split at h
  · cases h
  · split at h
    · cases h
    · rename_i hsniff
      split at h
      · rename_i hrender
        obtain rfl := Except.ok.inj h
        refine ⟨?_, hrender⟩
        obtain ⟨type, htype⟩ := Option.ne_none_iff_exists'.mp hsniff
        refine ⟨type, ?_, htype⟩
        simp only [sniffImageType] at htype
        -- each branch of the sniff names one of the types
        split_ifs at htype <;> obtain rfl := Option.some.inj htype <;> decide
      · cases h

/-! ## The data model -/

/-- A row of `menu_items`, as the API returns it too (`MenuItem`). -/
structure MenuItem where
  categoryId : Id
  name : String
  description : Option String
  basePriceMinor : ℤ
  imageUrl : Option String
  isAvailable : Bool
  sortOrder : ℤ
  deriving DecidableEq

/-- `CreateItemInput`; `none` is a member left out. -/
structure CreateItemInput where
  categoryId : Id
  name : String
  description : Option (Option String)
  basePriceMinor : ℤ
  imageUrl : Option (Option String)
  sortOrder : Option ℤ
  isAvailable : Option Bool
  deriving DecidableEq

/-- `UpdateItemInput`; `none` is a member left out. -/
structure UpdateItemInput where
  categoryId : Option Id := none
  name : Option String := none
  description : Option (Option String) := none
  basePriceMinor : Option ℤ := none
  imageUrl : Option (Option String) := none
  sortOrder : Option ℤ := none
  deriving DecidableEq

/-- The row that is inserted, with the defaults of its columns. -/
def CreateItemInput.row (input : CreateItemInput) : MenuItem where
  categoryId := input.categoryId
  name := input.name
  description := input.description.join
  basePriceMinor := input.basePriceMinor
  imageUrl := input.imageUrl.join
  isAvailable := input.isAvailable.getD true
  sortOrder := input.sortOrder.getD 0

/-- The row with its changes. -/
def MenuItem.changed (row : MenuItem) (changes : UpdateItemInput) : MenuItem where
  categoryId := changes.categoryId.getD row.categoryId
  name := changes.name.getD row.name
  description := changes.description.getD row.description
  basePriceMinor := changes.basePriceMinor.getD row.basePriceMinor
  imageUrl := changes.imageUrl.getD row.imageUrl
  isAvailable := row.isAvailable
  sortOrder := changes.sortOrder.getD row.sortOrder

/-- An object of the store. -/
structure Object where
  body : Bytes
  contentType : String
  deriving DecidableEq

/-- The two stores. -/
structure State where
  /-- the ids in `categories` -/
  categories : List Id
  menuItems : Table Id MenuItem
  objects : Table String Object

/-! ## Operations -/

/-- What a call asks of the outside. -/
inductive Op where
  /-- `menu_items.id`, by id -/
  | exists (id : Id)
  /-- `INSERT INTO menu_items RETURNING` the row -/
  | insert (input : CreateItemInput)
  /-- `UPDATE menu_items SET changes WHERE id RETURNING` the row -/
  | update (id : Id) (changes : UpdateItemInput)
  /-- `UPDATE menu_items SET is_available WHERE id RETURNING` the row -/
  | setAvailability (id : Id) (isAvailable : Bool)
  /-- `PutObjectCommand`: whether it succeeded -/
  | put (key : String) (body : Bytes) (contentType : String)

/-- What an operation returns; `error` is a violated foreign key. -/
def Op.Res : Op → Type
  | .exists _ => Bool
  | insert _ => Except Unit (Id × MenuItem)
  | update .. => Except Unit (Option MenuItem)
  | setAvailability .. => Option MenuItem
  | put .. => Bool

/-- What the outside supplies to one operation. -/
structure Input where
  /-- the id `primaryId()` generates -/
  fresh : Id := 0
  /-- the store takes the object -/
  taken : Bool := true
  /-- its answer arrives -/
  answered : Bool := true

/-- Perform one operation. The session of a call has nothing to remember. -/
def exec (inp : Input) (s : State) : (o : Op) → Option (o.Res × State)
  | .exists id => some ((s.menuItems.get id).isSome, s)
  | .insert input =>
    if input.categoryId ∈ s.categories then
      match s.menuItems.get inp.fresh with
      | some _ => none
      | none => some (.ok (inp.fresh, input.row),
          { s with menuItems := s.menuItems.put inp.fresh input.row })
    else some (.error (), s)
  | .update id changes =>
    match s.menuItems.get id with
    | none => some (.ok none, s)
    | some row =>
      if (row.changed changes).categoryId ∈ s.categories then
        some (.ok (some (row.changed changes)),
          { s with menuItems := s.menuItems.put id (row.changed changes) })
      else some (.error (), s)
  | .setAvailability id isAvailable =>
    match s.menuItems.get id with
    | none => some (none, s)
    | some row => some (some { row with isAvailable },
        { s with menuItems := s.menuItems.put id { row with isAvailable } })
  | .put key body contentType =>
    some (inp.taken && inp.answered,
      if inp.taken then { s with objects := s.objects.put key ⟨body, contentType⟩ } else s)

/-- The meaning of the operations. -/
def machine : Machine State Unit Empty Op Op.Res Input :=
  .atomic () fun o inp _ s => (exec inp s o).map fun r => (r.1, (), r.2)

/-! ## The services -/

/-- A service call. -/
abbrev Service (α : Type) : Type := ExceptT Err (Prog Op Op.Res) α

/-- Perform one operation. -/
def perform (o : Op) : Service o.Res := ExceptT.lift (Prog.perform o)

/-- `ItemsService.create` -/
def create (input : CreateItemInput) : Service (Id × MenuItem) := do
  match ← (perform (.insert input) : Service (Except Unit (Id × MenuItem))) with
  | .ok created => pure created
  | .error _ => throw (.categoryUnknown input.categoryId)

/-- `ItemsService.update` -/
def update (id : Id) (changes : UpdateItemInput) : Service (Id × MenuItem) := do
  match ← (perform (.update id changes) : Service (Except Unit (Option MenuItem))) with
  | .error _ =>
    match changes.categoryId with
    | some categoryId => throw (.categoryUnknown categoryId)
    | none => throw .sql
  | .ok none => throw (.resourceNotFound "menu item" id)
  | .ok (some updated) => pure (id, updated)

/-- `ItemsService.setAvailability` -/
def setAvailability (id : Id) (isAvailable : Bool) : Service (Id × MenuItem) := do
  match ← (perform (.setAvailability id isAvailable) : Service (Option MenuItem)) with
  | none => throw (.resourceNotFound "menu item" id)
  | some updated => pure (id, updated)

/-- `ItemImageService.replace` -/
def replace (cfg : Config) (itemId : Id) (file : UploadedImage) : Service (Id × MenuItem) := do
  match ← (perform (.exists itemId) : Service Bool) with
  | false => throw (.resourceNotFound "menu item" itemId)
  | true =>
    match reencode cfg file with
    | .error e => throw e
    | .ok image =>
      match ← (perform (.put (cfg.keyOf image) image outputContentType) : Service Bool) with
      | false => throw .storage
      | true => update itemId { imageUrl := some (some (cfg.urlOf (cfg.keyOf image))) }

/-! ## The system -/

/-- A call. -/
inductive Call where
  | create (input : CreateItemInput)
  | update (id : Id) (changes : UpdateItemInput)
  | setAvailability (id : Id) (isAvailable : Bool)
  | replace (itemId : Id) (file : UploadedImage)
  deriving DecidableEq

/-- What a call answers: an item, or what it threw. -/
abbrev Answer : Type := Except Err (Id × MenuItem)

/-- What a call does. -/
def program (cfg : Config) : Call → Prog Op Op.Res Answer
  | .create input => (id <$> create input).run
  | .update itemId changes => (id <$> update itemId changes).run
  | .setAvailability itemId isAvailable => (id <$> setAvailability itemId isAvailable).run
  | .replace itemId file => (id <$> replace cfg itemId file).run

/-- The system: any number of calls, and categories that others create. -/
def system (cfg : Config) : System State Unit Empty Op Op.Res Input Call Id Answer where
  machine := machine
  program := program cfg
  world categoryId s := some { s with categories := categoryId :: s.categories }
  world_keeps _ _ := trivial

/-- A world of the system. -/
abbrev ImageWorld : Type := World State Unit Op Op.Res Call Answer

/-- An action of the system. -/
abbrev ImageAct : Type := Act Input Call Id

/-- Nothing stored, nobody calling. -/
def opening : ImageWorld := .initial ⟨[], ∅, ∅⟩

/-- The worlds the system can reach. -/
def Reachable (cfg : Config) (w : ImageWorld) : Prop := Runs (system cfg) .all opening w

/-! ## What one operation does -/

variable {cfg : Config}

/-- The bytes are those of a photo the decoder has rendered, of a file that was admitted. -/
def Config.Rendered (cfg : Config) (image : Bytes) : Prop :=
  ∃ file, reencode cfg file = .ok image

/-- The URL names an object that is there: a rendered photo, under the hash of its bytes. -/
def State.Serves (cfg : Config) (s : State) (url : String) (image : Bytes) : Prop :=
  url = cfg.urlOf (cfg.keyOf image) ∧
    s.objects.get (cfg.keyOf image) = some ⟨image, outputContentType⟩

/-- The call carries the URL, which a manager has typed. -/
def Call.types (url : String) : Call → Prop
  | .create input => input.imageUrl = some (some url)
  | .update _ changes => changes.imageUrl = some (some url)
  | _ => False

/-- Every object is a rendered photo under the hash of its bytes. -/
def Hashed (cfg : Config) (s : State) : Prop :=
  ∀ key o, s.objects.get key = some o → cfg.Rendered o.body ∧ key = cfg.keyOf o.body ∧
    o.contentType = outputContentType

/-- Objects stay, and do not change. -/
def Keeps (s s' : State) : Prop := ∀ key o, s.objects.get key = some o → s'.objects.get key = some o

/-- The rows of `menu_items` after an operation of a call: a URL was there, or the call carries it,
or it names an object. -/
def Rewrites (cfg : Config) (c : Call) (s : State) (t : Table Id MenuItem) : Prop :=
  ∀ id row url, t.get id = some row → row.imageUrl = some url →
    (∃ id₀ row₀, s.menuItems.get id₀ = some row₀ ∧ row₀.imageUrl = some url) ∨ c.types url ∨
      ∃ image, s.Serves cfg url image

/-- The stores once a photo has been put under the hash of its bytes. -/
def State.stored (cfg : Config) (s : State) (image : Bytes) : State :=
  { s with objects := s.objects.put (cfg.keyOf image) ⟨image, outputContentType⟩ }

/-- What one operation of a call does to the stores. -/
inductive Move (cfg : Config) (c : Call) (s : State) : State → Prop
  /-- nothing -/
  | quiet : Move cfg c s s
  /-- items are written -/
  | writes {t : Table Id MenuItem} : Rewrites cfg c s t → Move cfg c s { s with menuItems := t }
  /-- a photo is stored -/
  | stores {image : Bytes} : cfg.Rendered image → Move cfg c s (s.stored cfg image)

theorem Config.keyOf_inj (hhash : Function.Injective cfg.sha256) {image image' : Bytes}
    (h : cfg.keyOf image = cfg.keyOf image') : image = image' := by
  simp only [keyOf, String.append_left_inj, String.append_right_inj] at h
  exact hhash h

/-- A stored photo replaces at most itself. -/
theorem Move.keeps (hhash : Function.Injective cfg.sha256) {c : Call} {s s' : State}
    (hs : Hashed cfg s) (h : Move cfg c s s') : Keeps s s' := by
  intro key o ho
  cases h with
  | quiet | writes => exact ho
  | @stores image hrendered =>
    rw [State.stored, Table.get_put]
    split
    · rename_i hkey
      obtain ⟨-, hbody, htype⟩ := hs key o ho
      have himage : o.body = image := cfg.keyOf_inj hhash (hbody.symm.trans hkey)
      rw [← himage, ← htype]
    · exact ho

theorem Move.hashed {c : Call} {s s' : State} (hs : Hashed cfg s) (h : Move cfg c s s') :
    Hashed cfg s' := by
  cases h with
  | quiet | writes => exact hs
  | @stores image hrendered =>
    intro key o ho
    rw [State.stored, Table.get_put] at ho
    split at ho
    · rename_i hkey
      obtain rfl := Option.some.inj ho
      exact ⟨hrendered, hkey, rfl⟩
    · exact hs key o ho

/-- What is proved of every call, if no two photos have one hash. -/
def spec (cfg : Config) (hhash : Function.Injective cfg.sha256) :
    Spec State Unit Op Call Id where
  inv := Hashed cfg
  rely := Keeps
  gua c _ _ s _ s' := Move cfg c s s'
  permit := .all
  rely_refl _ _ _ ho := ho
  rely_trans h h' key o ho := h' key o (h key o ho)
  gua_rely hs h := h.keeps hhash hs
  gua_inv _ hs h := h.hashed hs

/-! ## The calls -/

section calls

variable {hhash : Function.Injective cfg.sha256} {c : Call} {s : State}
  {T : Err → Unit → State → Prop}

/-- An operation, by what `exec` says of it. -/
theorem ensures_perform {o : Op} {Q : o.Res → Unit → State → Prop}
    (h : ∀ s₁ inp r s₂, Keeps s s₁ → Hashed cfg s₁ → exec inp s₁ o = some (r, s₂) →
      Move cfg c s₁ s₂ ∧ Q r () s₂) :
    (spec cfg hhash).Ensures machine c (perform o) Q T () s := by
  refine .perform fun s₁ inp locked r l' s₂ hs₁ _ hx => ?_
  obtain ⟨q, hq, heq⟩ := Option.map_eq_some_iff.mp hx
  obtain ⟨rfl, -, rfl⟩ := Prod.mk.inj heq |>.imp_right Prod.mk.inj
  exact h s₁ inp q.1 q.2 hs₁.rely hs₁.inv hq

/-- Putting one row whose URL was there, or is carried by the call, or names an object. -/
theorem Rewrites.put {id : Id} {row : MenuItem}
    (h : ∀ url, row.imageUrl = some url →
      (∃ id₀ row₀, s.menuItems.get id₀ = some row₀ ∧ row₀.imageUrl = some url) ∨ c.types url ∨
        ∃ image, s.Serves cfg url image) : Rewrites cfg c s (s.menuItems.put id row) := by
  intro id' row' url hrow' hurl
  rw [Table.get_put] at hrow'
  split at hrow'
  · obtain rfl := Option.some.inj hrow'
    exact h url hurl
  · exact Or.inl ⟨id', row', hrow', hurl⟩

theorem create_ensures (input : CreateItemInput) :
    (spec cfg hhash).Ensures machine (.create input) (create input) (fun _ _ _ => True)
      (fun _ _ _ => True) () s := by
  refine .bind (ensures_perform fun s₁ inp r s₂ _ _ hx => ?_)
  simp only [exec] at hx
  split at hx
  · split at hx
    · cases hx
    · obtain ⟨rfl, rfl⟩ := Prod.mk.inj (Option.some.inj hx)
      refine ⟨.writes (.put fun url hurl => Or.inr (Or.inl ?_)), .pure trivial⟩
      exact Option.join_eq_some_iff.mp hurl
  · obtain ⟨rfl, rfl⟩ := Prod.mk.inj (Option.some.inj hx)
    exact ⟨.quiet, .throw trivial⟩

/-- `update`, of a URL that the call carries or that names an object. -/
theorem update_ensures {itemId : Id} {changes : UpdateItemInput}
    (h : ∀ s₁ url, Keeps s s₁ → changes.imageUrl = some (some url) →
      c.types url ∨ ∃ image, s₁.Serves cfg url image) :
    (spec cfg hhash).Ensures machine c (update itemId changes)
      (fun item _ s' => Keeps s s' ∧ item.1 = itemId ∧
        ∀ url, changes.imageUrl = some (some url) → item.2.imageUrl = some url)
      (fun _ _ _ => True) () s := by
  refine .bind (ensures_perform fun s₁ inp r s₂ hs₁ _ hx => ?_)
  simp only [exec] at hx
  split at hx
  · obtain ⟨rfl, rfl⟩ := Prod.mk.inj (Option.some.inj hx)
    exact ⟨.quiet, .throw trivial⟩
  · rename_i row hrow
    split at hx
    · obtain ⟨rfl, rfl⟩ := Prod.mk.inj (Option.some.inj hx)
      refine ⟨.writes (.put fun url hurl => ?_), .pure ⟨hs₁, rfl, fun url hurl => ?_⟩⟩
      · cases himage : changes.imageUrl with
        | none =>
          rw [MenuItem.changed, himage] at hurl
          exact Or.inl ⟨itemId, row, hrow, hurl⟩
        | some url' =>
          rw [MenuItem.changed, himage] at hurl
          obtain rfl : url' = some url := hurl
          exact Or.inr (h s₁ url hs₁ himage)
      · rw [MenuItem.changed, hurl]
        rfl
    · obtain ⟨rfl, rfl⟩ := Prod.mk.inj (Option.some.inj hx)
      refine ⟨.quiet, ?_⟩
      dsimp only
      split
      · exact .throw trivial
      · exact .throw trivial

theorem setAvailability_ensures (itemId : Id) (isAvailable : Bool) :
    (spec cfg hhash).Ensures machine c (setAvailability itemId isAvailable) (fun _ _ _ => True)
      (fun _ _ _ => True) () s := by
  refine .bind (ensures_perform fun s₁ inp r s₂ _ _ hx => ?_)
  simp only [exec] at hx
  split at hx
  · obtain ⟨rfl, rfl⟩ := Prod.mk.inj (Option.some.inj hx)
    exact ⟨.quiet, .throw trivial⟩
  · rename_i row hrow
    obtain ⟨rfl, rfl⟩ := Prod.mk.inj (Option.some.inj hx)
    exact ⟨.writes (.put fun url hurl => Or.inl ⟨itemId, row, hrow, hurl⟩), .pure trivial⟩

/-- What `replace` answers is served. -/
theorem replace_ensures (itemId : Id) (file : UploadedImage) :
    (spec cfg hhash).Ensures machine c (replace cfg itemId file)
      (fun item _ s' => item.1 = itemId ∧ ∃ image url, reencode cfg file = .ok image ∧
        item.2.imageUrl = some url ∧ s'.Serves cfg url image)
      (fun _ _ _ => True) () s := by
  refine .bind (ensures_perform fun s₁ inp found s₂ _ _ hx => ?_)
  obtain ⟨-, rfl⟩ := Prod.mk.inj (Option.some.inj hx)
  refine ⟨.quiet, ?_⟩
  cases found with
  | false => exact .throw trivial
  | true =>
    dsimp only
    cases hreencode : reencode cfg file with
    | error e => exact .throw trivial
    | ok image =>
      refine .bind (ensures_perform fun s₂ inp taken s₃ _ _ hput => ?_)
      obtain ⟨htaken, rfl⟩ := Prod.mk.inj (Option.some.inj hput)
      refine ⟨?_, ?_⟩
      · split
        · exact .stores ⟨file, hreencode⟩
        · exact .quiet
      · cases taken with
        | false => exact .throw trivial
        | true =>
          obtain ⟨htaken, -⟩ := (Bool.and_eq_true _ _).mp htaken
          rw [if_pos htaken]
          -- the object is there from now on
          have hserves : ∀ s₄ url, Keeps (s₂.stored cfg image) s₄ →
              url = cfg.urlOf (cfg.keyOf image) → s₄.Serves cfg url image :=
            fun s₄ url hkeeps hurl => ⟨hurl, hkeeps _ _ (Table.get_put_self ..)⟩
          refine Spec.wp_mono (fun r l' s' _ hr => ?_) (update_ensures fun s₄ url hkeeps hurl =>
            Or.inr ⟨image, hserves s₄ url hkeeps (by simpa using hurl.symm)⟩)
          cases r with
          | error e => trivial
          | ok item =>
            obtain ⟨hkeeps, hid, hurl⟩ := hr
            exact ⟨hid, image, _, rfl, hurl _ rfl, hserves s' _ hkeeps rfl⟩

end calls

/-- What an answer says. -/
def Post (cfg : Config) : Call → Answer → State → Prop
  | .replace itemId file, .ok item, s => item.1 = itemId ∧ ∃ image url,
      reencode cfg file = .ok image ∧ item.2.imageUrl = some url ∧ s.Serves cfg url image
  | _, _, _ => True

theorem starts (hhash : Function.Injective cfg.sha256) (base : State) :
    Starts (spec cfg hhash) (system cfg) base 0 fun _ c a _ s => Post cfg c a s := by
  intro i c s _ _ _ _
  cases c with
  | create input =>
    exact (create_ensures input).answers (fun _ _ _ _ => trivial) fun _ _ _ _ => trivial
  | update itemId changes =>
    exact (update_ensures (c := .update itemId changes) fun _ _ _ h => Or.inl h).answers
      (fun _ _ _ _ => trivial) fun _ _ _ _ => trivial
  | setAvailability itemId isAvailable =>
    exact (setAvailability_ensures itemId isAvailable).answers (fun _ _ _ _ => trivial)
      fun _ _ _ _ => trivial
  | replace itemId file =>
    exact (replace_ensures itemId file).answers (fun _ _ _ h => h) fun _ _ _ _ => trivial

/-! ## Every run -/

theorem happens (hhash : Function.Injective cfg.sha256) :
    Happens (spec cfg hhash) (system cfg) := by
  intro categoryId s s' _ hs hs'
  obtain rfl := Option.some.inj hs'
  exact ⟨hs, fun _ _ ho => ho⟩

theorem Reachable.sound {w : ImageWorld} (h : Reachable cfg w)
    (hhash : Function.Injective cfg.sha256) :
    Sound (spec cfg hhash) (system cfg) opening.shared 0 (fun _ c a _ s => Post cfg c a s) w := by
  refine Sound.runs (starts hhash _) (happens hhash) (.initial fun key o ho => ?_) h
  cases ho

/-- A URL in an item is one that a call carries, or it names an object. -/
def Shown (cfg : Config) (w : ImageWorld) : Prop :=
  ∀ id row url, w.shared.menuItems.get id = some row → row.imageUrl = some url →
    (∃ t ∈ w.threads, t.call.types url) ∨ ∃ image, w.shared.Serves cfg url image

/-- What the calls carry they go on carrying. -/
theorem Shown.set {w : ImageWorld} (h : Shown cfg w) {i : ℕ}
    {t t' : Thread Unit Op Op.Res Call Answer} {s' : State} (ht : w.threads[i]? = some t)
    (hcall : t'.call = t.call) (hkeeps : Keeps w.shared s')
    (hrows : Rewrites cfg t.call w.shared s'.menuItems) :
    Shown cfg ⟨s', w.threads.set i t'⟩ := by
  have htypes : ∀ {url : String}, (∃ u ∈ w.threads, u.call.types url) →
      ∃ u ∈ w.threads.set i t', u.call.types url := by
    rintro url ⟨u, hu, htypes⟩
    obtain ⟨j, hj⟩ := List.mem_iff_getElem?.mp hu
    by_cases hij : i = j
    · subst hij
      obtain rfl := Option.some.inj (ht.symm.trans hj)
      exact ⟨t', List.mem_set (List.getElem?_eq_some_iff.mp ht).1 _, hcall ▸ htypes⟩
    · exact ⟨u, List.mem_of_getElem? ((List.getElem?_set_ne hij).trans hj), htypes⟩
  have hserves : ∀ {url : String}, (∃ image, w.shared.Serves cfg url image) →
      ∃ image, s'.Serves cfg url image := by
    rintro url ⟨image, hurl, hget⟩
    exact ⟨image, hurl, hkeeps _ _ hget⟩
  intro id row url hrow hurl
  rcases hrows id row url hrow hurl with ⟨id₀, row₀, hrow₀, hurl₀⟩ | hmine | hobject
  · exact (h id₀ row₀ url hrow₀ hurl₀).imp htypes hserves
  · exact Or.inl (htypes ⟨t, List.mem_of_getElem? ht, hmine⟩)
  · exact Or.inr (hserves hobject)

theorem Reachable.shown {w : ImageWorld} (h : Reachable cfg w)
    (hhash : Function.Injective cfg.sha256) : Shown cfg w := by
  have hsame : ∀ {c : Call} {s : State}, Rewrites cfg c s s.menuItems :=
    fun id row url hrow hurl => Or.inl ⟨id, row, hrow, hurl⟩
  refine Sound.invariant (starts hhash opening.shared) (happens hhash) (J := Shown cfg)
    ?_ ?_ ?_ ?_ (.initial fun key o ho => by cases ho) (fun id row url hrow => by cases hrow) h
  · intro v c hv _ id row url hrow hurl
    refine (hv id row url hrow hurl).imp_left ?_
    rintro ⟨t, ht, htypes⟩
    exact ⟨t, List.mem_append_left _ ht, htypes⟩
  · intro v i t o k r l' s' hi hv ht _ _ hm
    refine hv.set ht rfl (hm.keeps hhash hi) ?_
    cases hm with
    | quiet | stores => exact hsame
    | writes hrows => exact hrows
  · exact fun v i t hv ht _ _ => hv.set ht rfl (fun _ _ ho => ho) hsame
  · intro v e s' _ hv _ hs'
    obtain rfl := Option.some.inj hs'
    exact hv

/-- What is promised of the photos between a world and a later one. -/
structure Served (cfg : Config) (w w' : ImageWorld) : Prop where
  /-- an object never changes, and never goes away -/
  kept : Keeps w.shared w'.shared
  /-- it is a photo rendered anew, under the hash of its bytes -/
  hashed : Hashed cfg w'.shared
  /-- a URL in an item that nobody has typed names one -/
  shown : Shown cfg w'
  /-- what an upload has answered is served -/
  answered : ∀ t ∈ w.threads, ∀ itemId file item, t.call = .replace itemId file →
    t.Answered (.ok item) → item.1 = itemId ∧ ∃ image url, reencode cfg file = .ok image ∧
      item.2.imageUrl = some url ∧ w'.shared.Serves cfg url image

/-- **Photos are served.** If no two photos have one hash, then in every run of uploads and edits,
whatever dies or fails on the way: objects never change, they are what the decoder rendered, no
item shows a URL that names nothing unless it was typed, and what an upload has answered is there
from then on. -/
theorem photos_are_served (hhash : Function.Injective cfg.sha256) {w w' : ImageWorld}
    (h : Reachable cfg w) (hr : Runs (system cfg) .all w w') : Served cfg w w' := by
  have hlater : Reachable cfg w' := h.trans hr
  have hkept : Keeps w.shared w'.shared := by
    intro key o ho
    exact Sound.shared_invariant (starts hhash opening.shared) (happens hhash)
      (J := fun s => s.objects.get key = some o)
      (fun _ _ _ s _ s' hs ho _ hm => hm.keeps hhash hs key o ho)
      (fun e s s' hs ho hp he => (happens hhash e s s' hp hs he).2 key o ho)
      (h.sound hhash) ho hr
  refine ⟨hkept, (hlater.sound hhash).inv, hlater.shown hhash, ?_⟩
  intro t ht itemId file item hcall ha
  obtain ⟨i, hi⟩ := List.mem_iff_getElem?.mp ht
  obtain ⟨s₀, -, hs₀, hpost⟩ := (h.sound hhash).answered hi ha
  rw [hcall] at hpost
  obtain ⟨hid, image, url, hreencode, hurl, hserves, hget⟩ := hpost
  exact ⟨hid, image, url, hreencode, hurl, hserves, hkept _ _ (hs₀ _ _ hget)⟩

/-! ## Three uploads -/

/-- A decoder that leaves the bytes as they are, and a hash that spells them out. -/
def plainImages : Config where
  render buffer := some buffer
  sha256 image := String.ofList (image.map fun b => Char.ofNat b.toNat)
  publicBaseUrl := "https://cdn.cafe.test"

theorem plainImages_injective : Function.Injective plainImages.sha256 := by
  intro image image' h
  have hmap := String.ofList_injective h
  refine List.map_injective_iff.mpr (fun b b' hb => ?_) hmap
  have hvalid : ∀ b : UInt8, (Char.ofNat b.toNat).toNat = b.toNat := fun b => by
    rw [Char.toNat_ofNat, if_pos (Or.inl (lt_trans b.toNat_lt (by decide)))]
  have hnat : b.toNat = b'.toNat := by
    rw [← hvalid b, ← hvalid b', hb]
  exact UInt8.toNat_inj.mp hnat

/-- Call `i` performs its next `n` operations. -/
def steps (i n : ℕ) (inp : Input) : List ImageAct := List.replicate n (.step i inp)

/-- The magic bytes of a JPEG, and one more. -/
def photo (b : UInt8) : UploadedImage := ⟨"image/jpeg", jpegMagic ++ [b]⟩

/-- A latte goes on the menu (call 0). Two photos are uploaded: the first call dies once its photo
is stored (call 1), and the second answers (call 2). A third loses the answer of the store
(call 3). -/
def threeUploads : List ImageAct :=
  .world 5 :: .start (.create ⟨5, "Latte", none, 9000, none, none, none⟩) ::
    steps 0 1 { fresh := 1 } ++
    [.start (.replace 1 (photo 1)), .start (.replace 1 (photo 2)), .start (.replace 1 (photo 3))] ++
    steps 1 2 {} ++ .crash 1 :: steps 2 3 {} ++ steps 3 2 { answered := false }

theorem photos_are_served_latte : ∃ w, Reachable plainImages w ∧
    ((w.threads.map fun t => t.returned) = [true, false, true, true] ∧
      (w.shared.objects.select fun _ _ => true).length = 3) ∧ Served plainImages w w := by
  obtain ⟨w, hw, hreturned, hobjects⟩ := Runs.exists_of_acts (system plainImages) opening
    threeUploads (fun w => (w.threads.map fun t => t.returned) = [true, false, true, true] ∧
      (w.shared.objects.select fun _ _ => true).length = 3) (by decide)
  exact ⟨w, hw, ⟨hreturned, hobjects⟩, photos_are_served plainImages_injective hw .refl⟩

end CafePos.ItemImages
