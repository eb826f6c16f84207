import CafePos.JsonText
import CafePos.Revocation

/-!
# The kill channel, as text

`Revocation` says what a kill message does to the sockets an instance holds. Redis carries texts,
anything on the box can publish to the channel, and a message finds its sockets by the names of
rooms. This module has the texts (`parseRevocation` of `identity/revocation/revocation.service.ts`),
the subscriber that hands them on (`realtime/revocation-subscriber.service.ts`) and the handlers of
the two gateways, and connects the levels:

* `parseRevocation_json` — what is published reads back, whatever the id;
* `hits_iff` — a socket is in a room that a text addresses only if the text names it;
* `next_follows` — by them, whatever happens on an instance, its rooms follow the model's sockets;
* `kill_channel_follows` — so they do in every run.

A handler may throw, before it has cut anything.
-/

/-- Keeping every row keeps the table. -/
theorem Interleaving.Table.keep_true {K V : Type} (t : Table K V) :
    (t.keep fun _ _ => true) = t :=
  AList.ext (List.filter_eq_self.mpr fun _ _ => rfl)

namespace CafePos.Revocation

open Interleaving

/-! ## What is published -/

/-- The one field a `Revocation` has. -/
inductive Field where
  | userId
  | jti
  | deviceId
  deriving DecidableEq

/-- The name of the field. -/
def Field.name : Field → String
  | userId => "userId"
  | jti => "jti"
  | deviceId => "deviceId"

/-- What the field is about. -/
def Field.named : Field → Id → Named
  | userId => .user
  | jti => .token
  | deviceId => .device

/-- `Revocation`, as it travels. -/
structure Payload where
  field : Field
  value : String
  deriving DecidableEq

/-- `JSON.stringify(message)` -/
def Payload.json (r : Payload) : List Char := Json.stringify [(r.field.name, r.value)]

/-- The value of a field, if it is a string and not empty. -/
def valueOf (parsed : Json) (field : Field) : Option String :=
  match parsed.member field.name with
  | some (.str value) => if value = "" then none else some value
  | _ => none

/-- The fields that `parseRevocation` looks for, in its order. -/
def fields : List Field := [.userId, .jti, .deviceId]

/-- `parseRevocation` -/
def parseRevocation (raw : List Char) : Option Payload :=
  match Json.parse raw with
  | none => none
  | some parsed =>
    if parsed.isObject then
      match fields.filter fun field => (valueOf parsed field).isSome with
      | [field] => (valueOf parsed field).map fun value => ⟨field, value⟩
      | _ => none
    else none

/-- What is published reads back. -/
theorem parseRevocation_json {r : Payload} (h : r.value ≠ "") :
    parseRevocation r.json = some r := by
  obtain ⟨field, value⟩ := r
  have hparse := Json.parse_stringify (List.cons_ne_nil (field.name, value) [])
  have hvalue : ∀ field', valueOf (.obj [(field.name, .str value)]) field' =
      if field' = field then some value else none := by
    intro field'
    by_cases hf : field' = field
    · subst hf
      simp [valueOf, Json.member, h]
    · have hname : field.name ≠ field'.name := by
        cases field <;> cases field' <;> simp_all [Field.name]
      simp [valueOf, Json.member, hname, hf]
  have hfields : (fields.filter fun field' =>
      (if field' = field then some value else none).isSome) = [field] := by
    cases field <;> rfl
  rw [Payload.json, parseRevocation, hparse]
  simp only [List.map_cons, List.map_nil, Json.isObject, if_true, hvalue, hfields, Option.map_some]

/-- What is read names exactly one. -/
theorem valueOf_of_parseRevocation {raw : List Char} {r : Payload}
    (h : parseRevocation raw = some r) : ∃ parsed, Json.parse raw = some parsed ∧
      ∀ field, valueOf parsed field = if field = r.field then some r.value else none := by
  simp only [parseRevocation] at h
  split at h
  · cases h
  · rename_i parsed hparsed
    refine ⟨parsed, hparsed, fun field => ?_⟩
    split at h
    · split at h
      · rename_i only honly
        obtain ⟨value, hvalue, rfl⟩ := Option.map_eq_some_iff.mp h
        by_cases hf : field = only
        · rw [hf, if_pos rfl, hvalue]
        · have hnot : field ∉ fields.filter fun field => (valueOf parsed field).isSome := by
            rw [honly]
            simpa using hf
          have hmem : field ∈ fields := by cases field <;> decide
          rw [if_neg hf]
          by_contra hne
          exact hnot (List.mem_filter.mpr ⟨hmem, Option.isSome_iff_ne_none.mpr hne⟩)
      · cases h
    · cases h

/-! ## The rooms -/

/-- `userRoom` -/
def userRoom (userId : String) : String := "user:" ++ userId

/-- `tokenRoom` -/
def tokenRoom (jti : String) : String := "token:" ++ jti

/-- `deviceRoom` -/
def deviceRoom (deviceId : String) : String := "device:" ++ deviceId

/-- The namespaces that listen to the channel. -/
inductive Audience where
  | kds
  | kiosk
  deriving DecidableEq

/-- `data.principal` of a socket; each namespace admits its own kind. -/
inductive SocketPrincipal where
  | staff (userId tokenId : String)
  | device (deviceId : String)
  deriving DecidableEq

/-- The namespace of the principal. -/
def SocketPrincipal.audience : SocketPrincipal → Audience
  | staff .. => .kds
  | device _ => .kiosk

/-- The rooms that `handleConnection` joins. -/
def SocketPrincipal.rooms : SocketPrincipal → List String
  | staff userId tokenId => [userRoom userId, tokenRoom tokenId]
  | device deviceId => [deviceRoom deviceId]

/-- A socket with the rooms it is in; the first is its own, which Socket.IO gives it. -/
structure LiveSocket where
  principal : SocketPrincipal
  rooms : List String
  deriving DecidableEq

/-- The sockets an instance holds. -/
abbrev Hall : Type := Table Id LiveSocket

/-- The room that the handler of a namespace empties. -/
def Audience.roomOf (r : Payload) : Audience → Option String
  | .kds =>
    match r.field with
    | .deviceId => none
    | .userId => some (userRoom r.value)
    | .jti => some (tokenRoom r.value)
  | .kiosk =>
    match r.field with
    | .deviceId => some (deviceRoom r.value)
    | _ => none

/-- The socket is in the room, which is one of its namespace. -/
def LiveSocket.isIn (socket : LiveSocket) (audience : Audience) (room : String) : Bool :=
  socket.principal.audience == audience && socket.rooms.contains room

/-- The handler that a gateway registers. -/
def Audience.handle (audience : Audience) (r : Payload) (hall : Hall) : Hall :=
  match audience.roomOf r with
  | some room => hall.keep fun _ socket => !socket.isIn audience room
  | none => hall

/-- The handlers, as they were registered. -/
def handlers : List Audience := [.kds, .kiosk]

/-- A message arrives: what is unreadable is ignored, and a handler that throws stops no other. -/
def receive (throws : Audience → Bool) (raw : List Char) (hall : Hall) : Hall :=
  match parseRevocation raw with
  | none => hall
  | some r => handlers.foldl
      (fun hall audience => if throws audience then hall else audience.handle r hall) hall

/-- What a payload is for. -/
def Payload.audience (r : Payload) : Audience :=
  match r.field with
  | .deviceId => .kiosk
  | _ => .kds

/-- A socket that is in the room of a payload. -/
def LiveSocket.hitBy (socket : LiveSocket) (r : Payload) : Bool :=
  (r.audience.roomOf r).any (socket.isIn r.audience)

/-- One handler has something to do, and whether the other throws does not matter. -/
theorem receive_of_parse {raw : List Char} {r : Payload} (h : parseRevocation raw = some r)
    (throws : Audience → Bool) (hall : Hall) : receive throws raw hall =
      if throws r.audience then hall else hall.keep fun _ socket => !socket.hitBy r := by
  obtain ⟨field, value⟩ := r
  cases field <;>
    simp [receive, h, handlers, Audience.handle, Audience.roomOf, Payload.audience,
      LiveSocket.hitBy] <;>
    rfl

/-! ## Ids and their texts -/

/-- How ids are written, and what Socket.IO calls the sockets: `read` undoes `text`, and a socket's
name has no colon in it. -/
structure Naming where
  text : Id → String
  read : String → Option Id
  read_eq : ∀ value id, read value = some id ↔ value = text id
  text_ne_empty : ∀ id, text id ≠ ""
  socketName : Id → String
  socketName_plain : ∀ id, ':' ∉ (socketName id).toList

namespace Naming

variable (naming : Naming)

/-- What is published about somebody. -/
def payload : Named → Payload
  | .user userId => ⟨.userId, naming.text userId⟩
  | .token jti => ⟨.jti, naming.text jti⟩
  | .device deviceId => ⟨.deviceId, naming.text deviceId⟩

/-- Whom a payload names. -/
def named (r : Payload) : Option Named := (naming.read r.value).map r.field.named

/-- Whom a text names. -/
def heard (raw : List Char) : Option Named := (parseRevocation raw).bind naming.named

@[simp] theorem read_text (id : Id) : naming.read (naming.text id) = some id :=
  (naming.read_eq _ _).mpr rfl

/-- Whoever is named in a message of this program is named by its text. -/
theorem heard_json (n : Named) : naming.heard (naming.payload n).json = some n := by
  have hne : (naming.payload n).value ≠ "" := by
    cases n <;> exact naming.text_ne_empty _
  rw [heard, parseRevocation_json hne, Option.bind_some]
  cases n <;> simp [payload, named, Field.named]

/-- What a handshake finds out about a credential. -/
def principal (tokens : Table Id AccessToken) : Credential → Option SocketPrincipal
  | .token jti => (tokens.get jti).map fun token => .staff (naming.text token.userId)
      (naming.text jti)
  | .device deviceId => some (.device (naming.text deviceId))

/-- A socket of the model, with its rooms. -/
def live (tokens : Table Id AccessToken) (socketId : Id) (socket : Socket) : Option LiveSocket :=
  (naming.principal tokens socket.credential).map fun principal =>
    ⟨principal, naming.socketName socketId :: if socket.joined then principal.rooms else []⟩

end Naming

/-! ## What a text hits -/

section hits

variable {naming : Naming} {tokens : Table Id AccessToken}

@[simp] theorem userRoom_inj {a b : String} : userRoom a = userRoom b ↔ a = b := by
  simp [userRoom, ← String.toList_inj]

@[simp] theorem tokenRoom_inj {a b : String} : tokenRoom a = tokenRoom b ↔ a = b := by
  simp [tokenRoom, ← String.toList_inj]

@[simp] theorem deviceRoom_inj {a b : String} : deviceRoom a = deviceRoom b ↔ a = b := by
  simp [deviceRoom, ← String.toList_inj]

@[simp] theorem userRoom_ne_tokenRoom (a b : String) : userRoom a ≠ tokenRoom b := by
  simp [userRoom, tokenRoom, ← String.toList_inj]

@[simp] theorem tokenRoom_ne_userRoom (a b : String) : tokenRoom a ≠ userRoom b :=
  (userRoom_ne_tokenRoom b a).symm

/-- No room that a message addresses is a socket's own. -/
theorem ne_socketName {r : Payload} {audience : Audience} {room : String}
    (h : audience.roomOf r = some room) (id : Id) : room ≠ naming.socketName id := by
  rintro rfl
  refine naming.socketName_plain id ?_
  obtain ⟨field, value⟩ := r
  cases audience <;> cases field <;> simp only [Audience.roomOf, Option.some.injEq, reduceCtorEq]
    at h <;> rw [← h] <;> simp [userRoom, tokenRoom, deviceRoom]

/-- The payload names the principal. -/
def SocketPrincipal.isNamedBy (r : Payload) : SocketPrincipal → Bool
  | staff userId tokenId =>
    match r.field with
    | .userId => r.value == userId
    | .jti => r.value == tokenId
    | .deviceId => false
  | device deviceId =>
    match r.field with
    | .deviceId => r.value == deviceId
    | _ => false

/-- Rooms are an index of whom a payload names. -/
theorem hitBy_iff (principal : SocketPrincipal) (r : Payload) (socketId : Id) (joined : Bool) :
    LiveSocket.hitBy ⟨principal, naming.socketName socketId ::
      if joined then principal.rooms else []⟩ r = (joined && principal.isNamedBy r) := by
  have hown : ∀ room, r.audience.roomOf r = some room → room ≠ naming.socketName socketId :=
    fun _ hroom => ne_socketName hroom socketId
  obtain ⟨field, value⟩ := r
  cases principal <;> cases field <;> cases joined <;>
    simp_all [LiveSocket.hitBy, LiveSocket.isIn, Payload.audience, Audience.roomOf,
      SocketPrincipal.audience, SocketPrincipal.rooms, SocketPrincipal.isNamedBy,
      Bool.beq_eq_decide_eq]

/-- A socket is in the room that a payload addresses if and only if it has joined its rooms and the
payload names it. -/
theorem hits_iff {socketId : Id} {socket : Socket} {live : LiveSocket}
    (h : naming.live tokens socketId socket = some live) (r : Payload) :
    live.hitBy r = (socket.joined && (naming.named r).any (·.names tokens socket.credential)) := by
  obtain ⟨principal, hprincipal, rfl⟩ := Option.map_eq_some_iff.mp h
  rw [hitBy_iff]
  congr 1
  rw [Bool.eq_iff_iff, Option.any_eq_true]
  simp only [Naming.named, Option.map_eq_some_iff, naming.read_eq]
  obtain ⟨field, value⟩ := r
  cases hc : socket.credential with
  | token jti =>
    rw [hc] at hprincipal
    obtain ⟨token, htoken, rfl⟩ := Option.map_eq_some_iff.mp hprincipal
    cases field <;> simp [SocketPrincipal.isNamedBy, Field.named, Named.names, htoken]
  | device deviceId =>
    rw [hc] at hprincipal
    obtain rfl := Option.some.inj hprincipal
    cases field <;> simp [SocketPrincipal.isNamedBy, Field.named, Named.names]

end hits

/-! ## What happens on an instance -/

/-- What an instance meets with. -/
inductive LineEvent where
  /-- a handshake with the credential succeeds, if there is such a principal -/
  | connect (socketId : Id) (credential : Credential)
  /-- `handleConnection` files the socket in its rooms -/
  | join (socketId : Id)
  /-- a client goes away -/
  | hangUp (socketId : Id)
  /-- a text on the channel; the handlers of some namespaces throw -/
  | text (raw : List Char) (throws : Audience → Bool)

/-- The rooms after it. -/
def Hall.next (naming : Naming) (tokens : Table Id AccessToken) (hall : Hall) : LineEvent → Hall
  | .connect socketId credential =>
    match naming.principal tokens credential with
    | some principal => hall.put socketId ⟨principal, [naming.socketName socketId]⟩
    | none => hall
  | .join socketId =>
    match hall.get socketId with
    | some socket => hall.put socketId
        ⟨socket.principal, naming.socketName socketId :: socket.principal.rooms⟩
    | none => hall
  | .hangUp socketId => hall.keep fun id _ => id != socketId
  | .text raw throws => receive throws raw hall

/-- The namespace whose sockets somebody has. -/
def Named.audience : Named → Audience
  | .device _ => .kiosk
  | _ => .kds

/-- The sockets of the model after it: as `State.welcome`, the operation `join`, the event `hangUp`
and `State.handle` have it. A text is the message of whom it names. -/
def follow (naming : Naming) (tokens : Table Id AccessToken) (inst : ℕ)
    (sockets : Table Id Socket) : LineEvent → Table Id Socket
  | .connect socketId credential =>
    if (naming.principal tokens credential).isSome then
      sockets.put socketId ⟨inst, credential, false⟩
    else sockets
  | .join socketId =>
    match sockets.get socketId with
    | some socket => sockets.put socketId { socket with joined := true }
    | none => sockets
  | .hangUp socketId => sockets.keep fun id _ => id != socketId
  | .text raw throws =>
    match naming.heard raw with
    | some n =>
      if throws n.audience then sockets
      else sockets.keep fun _ socket => !socket.killedBy tokens inst n
    | none => sockets

section run

variable {naming : Naming} {tokens : Table Id AccessToken} {inst : ℕ}

/-- The hall holds the sockets of the model that are on this instance, in their rooms. -/
structure Shows (naming : Naming) (tokens : Table Id AccessToken) (inst : ℕ) (hall : Hall)
    (sockets : Table Id Socket) : Prop where
  here : ∀ id socket, sockets.get id = some socket →
    socket.inst = inst ∧ (naming.principal tokens socket.credential).isSome
  get : ∀ id, hall.get id = (sockets.get id).bind (naming.live tokens id)

theorem Named.audience_named (field : Field) (value : String) (id : Id) :
    (field.named id).audience = Payload.audience ⟨field, value⟩ := by
  cases field <;> rfl

/-- Sockets that are closed on both sides. -/
theorem Shows.keep {hall : Hall} {sockets : Table Id Socket}
    (h : Shows naming tokens inst hall sockets) {p : Id → LiveSocket → Bool}
    {q : Id → Socket → Bool} (hpq : ∀ id socket live, sockets.get id = some socket →
      naming.live tokens id socket = some live → p id live = q id socket) :
    Shows naming tokens inst (hall.keep p) (sockets.keep q) where
  here id socket hget := h.here id socket (Table.get_of_keep hget)
  get id := by
    rw [Table.get_keep, Table.get_keep, h.get]
    cases hs : sockets.get id with
    | none => rfl
    | some socket =>
      obtain ⟨principal, hprincipal⟩ := Option.isSome_iff_exists.mp (h.here id socket hs).2
      have hlive : ∃ live, naming.live tokens id socket = some live :=
        ⟨_, by rw [Naming.live, hprincipal]; rfl⟩
      obtain ⟨live, hlive⟩ := hlive
      have heq := hpq id socket live hs hlive
      rw [Option.bind_some, hlive, Option.filter_some, Option.filter_some, heq]
      cases q id socket with
      | false => rfl
      | true => exact hlive.symm

/-- A socket that is opened, or filed, on both sides. -/
theorem Shows.put {hall : Hall} {sockets : Table Id Socket}
    (h : Shows naming tokens inst hall sockets) {id : Id} {socket : Socket} {live : LiveSocket}
    (hinst : socket.inst = inst) (hlive : naming.live tokens id socket = some live) :
    Shows naming tokens inst (hall.put id live) (sockets.put id socket) where
  here id' socket' hget := by
    rw [Table.get_put] at hget
    split at hget
    · obtain rfl := Option.some.inj hget
      obtain ⟨principal, hprincipal, -⟩ := Option.map_eq_some_iff.mp hlive
      exact ⟨hinst, Option.isSome_of_eq_some hprincipal⟩
    · exact h.here id' socket' hget
  get id' := by
    rw [Table.get_put, Table.get_put]
    by_cases hid : id' = id
    · subst hid
      simp [hlive]
    · simp [hid, h.get]

/-- Whatever happens, the rooms follow the sockets. -/
theorem next_follows {hall : Hall} {sockets : Table Id Socket}
    (h : Shows naming tokens inst hall sockets) (e : LineEvent) :
    Shows naming tokens inst (hall.next naming tokens e) (follow naming tokens inst sockets e) := by
  cases e with
  | connect socketId credential =>
    rw [Hall.next, follow]
    cases hprincipal : naming.principal tokens credential with
    | none => exact h
    | some principal => exact h.put rfl (by rw [Naming.live, hprincipal]; rfl)
  | join socketId =>
    rw [Hall.next, follow, h.get]
    cases hs : sockets.get socketId with
    | none => exact h
    | some socket =>
      obtain ⟨hinst, hsome⟩ := h.here socketId socket hs
      obtain ⟨principal, hprincipal⟩ := Option.isSome_iff_exists.mp hsome
      rw [Option.bind_some, Naming.live, hprincipal]
      exact h.put hinst (by rw [Naming.live, hprincipal]; rfl)
  | hangUp socketId =>
    rw [Hall.next, follow]
    exact h.keep fun _ _ _ _ _ => rfl
  | text raw throws =>
    rw [Hall.next, follow, Naming.heard]
    cases hparse : parseRevocation raw with
    | none =>
      rw [receive, hparse]
      exact h
    | some r =>
      rw [receive_of_parse hparse, Option.bind_some]
      cases hread : naming.read r.value with
      | none =>
        -- somebody this program does not know
        have hnamed : naming.named r = none := by rw [Naming.named, hread]; rfl
        rw [hnamed]
        split
        · exact h
        · rw [← Table.keep_true sockets]
          refine h.keep fun id socket live _ hlive => ?_
          rw [hits_iff hlive, hnamed, Option.any_none, Bool.and_false]
          rfl
      | some id =>
        have hnamed : naming.named r = some (r.field.named id) := by rw [Naming.named, hread]; rfl
        rw [hnamed]
        dsimp only
        rw [Named.audience_named r.field r.value id]
        split
        · exact h
        · refine h.keep fun socketId socket live hs hlive => ?_
          rw [hits_iff hlive, hnamed, Option.any_some, Socket.killedBy,
            (h.here socketId socket hs).1, beq_self_eq_true, Bool.true_and]

/-- What was cut was named, in a text that names nobody else. -/
theorem named_of_cut {raw : List Char} {throws : Audience → Bool} {hall : Hall} {id : Id}
    {socket : LiveSocket} (hget : hall.get id = some socket)
    (hcut : (receive throws raw hall).get id = none) : ∃ parsed r,
      Json.parse raw = some parsed ∧ socket.hitBy r = true ∧
      ∀ field, valueOf parsed field = if field = r.field then some r.value else none := by
  cases hparse : parseRevocation raw with
  | none =>
    rw [receive, hparse] at hcut
    rw [hget] at hcut
    cases hcut
  | some r =>
    obtain ⟨parsed, hparsed, honly⟩ := valueOf_of_parseRevocation hparse
    refine ⟨parsed, r, hparsed, ?_, honly⟩
    rw [receive_of_parse hparse] at hcut
    split at hcut
    · rw [hget] at hcut
      cases hcut
    · simpa [Table.get_keep, hget] using hcut

/-- Ids as rows of letters. -/
def unary : Naming where
  text id := String.ofList (List.replicate (id + 1) 'a')
  read value :=
    if value.toList = List.replicate value.toList.length 'a' ∧ value ≠ "" then
      some (value.toList.length - 1)
    else none
  read_eq value id := by
    constructor
    · intro h
      split at h
      · rename_i hvalue
        obtain rfl := Option.some.inj h
        have hpos : 0 < value.toList.length :=
          List.length_pos_iff.mpr fun hnil => hvalue.2 (String.toList_eq_nil_iff.mp hnil)
        rw [Nat.sub_add_cancel hpos, ← hvalue.1, String.ofList_toList]
      · cases h
    · rintro rfl
      simp
  text_ne_empty id := by simp
  socketName id := String.ofList (List.replicate id 's')
  socketName_plain id := by simp

/-- Ada's screen is cut by a message about her; not by one about somebody else, nor by one that
names her token as well. -/
example : let hear := fun raw => (receive (fun _ => false) raw
      (Table.put ∅ 1 ⟨.staff "ada" "t1", ["s1", "user:ada", "token:t1"]⟩)).get 1
    (hear (Payload.mk .userId "bo").json).isSome ∧
    (hear (Json.stringify [("userId", "ada"), ("jti", "t1")])).isSome ∧
    hear (Payload.mk .userId "ada").json = none := by decide +kernel

end run

end CafePos.Revocation
