import CafePos.FrontDoor
import CafePos.Interleaving.Waiting
import Mathlib

/-!
# Who gets past the guards, and for how long

A kiosk's token is looked up at every request; a staff token is only verified, and says for as long
as it lives what its user's row said when it was signed. So the guards let in whom some row stood
for, and a role that was taken away is let in until the tokens that name it have expired. Between
any two awaits anything else may happen.

* `Move` — what one operation does to what is signed and to the rows, case by case;
* `guards_let_in` — a handler of a route that is not public begins only for a principal that the
  presented token stands for and whose role the route declares; a staff token was signed by a
  sign-in that had read the active user with that role;
* `lost_role_ends` — once a user has lost a role, no request that is authenticated a token's
  lifetime later is handled for it;
* `revoked_device_refused` — once a device is revoked, no request is authenticated for it.
-/

namespace CafePos.FrontDoor

open Interleaving
open Auth (UserRole)

variable {cfg : Config}

/-! ## What one operation does -/

/-- The devices, but for when they were last seen. -/
def SameDevices (s s' : State) : Prop :=
  ∀ id, (s'.devices.get id).map Device.status = (s.devices.get id).map Device.status

/-- What one operation of a call does. -/
inductive Move (cfg : Config) (c : Call) (l : Note) (s : State) : Note → State → Prop
  /-- counters and `last_seen_at` at most -/
  | quiet {s' : State} : s'.clock = s.clock → s'.users = s.users → s'.signed = s.signed →
      SameDevices s s' → Move cfg c l s l s'
  /-- a sign-in reads the user's row -/
  | reads {userId : Id} : c = .signIn userId → l = .blank →
      Move cfg c l s (.read (s.users.get userId)) s
  /-- a request has its token verified -/
  | verifies {route : Route} {authorization ip : Option String} {token : String}
      {claims : StaffClaims} : c = .request route authorization ip →
      s.signed.get token = some claims → s.clock < claims.exp →
      Move cfg c l s (.verified s.clock claims) s
  /-- a request has its device found -/
  | finds {route : Route} {authorization ip : Option String} {deviceId : Id} {device : Device} :
      c = .request route authorization ip → s.devices.get deviceId = some device →
      Move cfg c l s (.found deviceId device) s
  /-- a sign-in signs a token, for the role it has read -/
  | signs {userId jti : Id} {user : User} {jwt : String} : c = .signIn userId →
      l = .read (some user) → user.isActive = true → s.signed.get jwt = none →
      Move cfg c l s l { s with
        signed := s.signed.put jwt
          ⟨userId, roleText user.role, staffTokenType, jti, cfg.expiry s.clock⟩ }
  /-- a user's row is written -/
  | setsUser {userId : Id} {user : User} : c = .updateUser userId user →
      Move cfg c l s l { s with users := s.users.put userId user }
  /-- a device's row is written -/
  | setsDevice {deviceId : Id} {device : Device} : c = .updateDevice deviceId device →
      Move cfg c l s l { s with devices := s.devices.put deviceId device }

/-- What was signed stays signed. -/
def Signed (s s' : State) : Prop :=
  ∀ token claims, s.signed.get token = some claims → s'.signed.get token = some claims

theorem Signed.refl (s : State) : Signed s s := fun _ _ h => h

/-- A token nobody has is signed. -/
theorem Signed.put {s : State} {jwt : String} (h : s.signed.get jwt = none) (claims : StaffClaims) :
    Signed s { s with signed := s.signed.put jwt claims } := by
  intro token claims' hget
  have hne : token ≠ jwt := fun heq => by
    rw [heq, h] at hget
    cases hget
  exact (Table.get_put_ne _ _ hne).trans hget

theorem Move.signed {c : Call} {l l' : Note} {s s' : State} (h : Move cfg c l s l' s') :
    Signed s s' := by
  cases h with
  | quiet _ _ hsigned => exact fun _ _ hget => hsigned ▸ hget
  | signs _ _ _ hnone => exact .put hnone _
  | _ => exact .refl _

/-- What is proved of every call. -/
def spec (cfg : Config) : Spec State Note Op Call Event where
  inv _ := True
  rely := Signed
  gua c _ l s l' s' := Move cfg c l s l' s'
  permit := .all
  rely_refl := .refl
  rely_trans h h' token claims hget := h' token claims (h token claims hget)
  gua_rely _ h := h.signed
  gua_inv _ _ _ := trivial

/-! ## The calls -/

section calls

variable {c : Call} {l : Note} {s : State} {T : Err → Note → State → Prop}

/-- An operation, by what `exec` says of it. -/
theorem ensures_perform {o : Op} {Q : o.Res → Note → State → Prop}
    (h : ∀ s₁ inp r l' s₂, Signed s s₁ → exec cfg inp l s₁ o = some (r, l', s₂) →
      Move cfg c l s₁ l' s₂ ∧ Q r l' s₂) :
    (spec cfg).Ensures (machine cfg) c (perform o) Q T l s :=
  .perform fun s₁ inp _ r l' s₂ hs₁ _ hx => h s₁ inp r l' s₂ hs₁.rely hx

/-- Operations that neither sign nor change who is whom. -/
def Op.isQuiet : Op → Bool
  | now | touch _ | increment .. => true
  | _ => false

theorem ensures_quiet {o : Op} {Q : o.Res → Note → State → Prop} (ho : o.isQuiet)
    (h : ∀ r s', Signed s s' → Q r l s') :
    (spec cfg).Ensures (machine cfg) c (perform o) Q T l s := by
  refine ensures_perform fun s₁ inp r l' s₂ hs₁ hx => ?_
  cases o with
  | now =>
    obtain ⟨rfl, rfl, rfl⟩ := Option.some.inj hx |> Prod.mk.inj |>.imp_right Prod.mk.inj
    exact ⟨.quiet rfl rfl rfl fun _ => rfl, h _ _ hs₁⟩
  | touch deviceId =>
    simp only [exec] at hx
    split at hx
    · obtain ⟨rfl, rfl, rfl⟩ := Option.some.inj hx |> Prod.mk.inj |>.imp_right Prod.mk.inj
      exact ⟨.quiet rfl rfl rfl fun _ => rfl, h _ _ hs₁⟩
    · rename_i device hdevice
      obtain ⟨rfl, rfl, rfl⟩ := Option.some.inj hx |> Prod.mk.inj |>.imp_right Prod.mk.inj
      refine ⟨.quiet rfl rfl rfl fun id => ?_, h _ _ hs₁⟩
      rw [Table.get_put]
      split
      · rename_i hid
        rw [hid, hdevice]
        rfl
      · rfl
  | increment name handler tracker =>
    simp only [exec] at hx
    split at hx
    all_goals
      obtain ⟨rfl, rfl, rfl⟩ := Option.some.inj hx |> Prod.mk.inj |>.imp_right Prod.mk.inj
      exact ⟨.quiet rfl rfl rfl fun _ => rfl, h _ _ hs₁⟩
  | _ => cases ho

/-- The token stands for the principal, by what the call has read. -/
inductive Vouched (cfg : Config) (token : String) (s : State) : Note → Principal → Prop
  | staff {time : Instant} {claims : StaffClaims} {role : UserRole} :
      s.signed.get token = some claims → time < claims.exp → claims.type = staffTokenType →
      userRole claims.role = some role →
      Vouched cfg token s (.verified time claims) (.staff claims.sub role claims.jti)
  | device {deviceId : Id} {device : Device} : device.tokenHash = some (cfg.hashSecret token) →
      device.status ≠ .revoked → Vouched cfg token s (.found deviceId device) (.device deviceId)

theorem Vouched.later {token : String} {s s' : State} {l : Note} {p : Principal}
    (h : Vouched cfg token s l p) (hs : Signed s s') : Vouched cfg token s' l p := by
  cases h with
  | staff hget htime htype hrole => exact .staff (hs _ _ hget) htime htype hrole
  | device hhash hstatus => exact .device hhash hstatus

variable {route : Route} {authorization ip : Option String}

theorem verify_ensures {token : String} (hc : c = .request route authorization ip) :
    (spec cfg).Ensures (machine cfg) c (verify token) (fun p l' s' => Vouched cfg token s' l' p)
      (fun _ _ _ => True) l s := by
  refine .bind (ensures_perform fun s₁ inp r l' s₂ _ hx => ?_)
  simp only [exec] at hx
  split at hx
  · obtain ⟨rfl, rfl, rfl⟩ := Option.some.inj hx |> Prod.mk.inj |>.imp_right Prod.mk.inj
    exact ⟨.quiet rfl rfl rfl fun _ => rfl, .throw trivial⟩
  · rename_i claims hget
    split at hx
    · rename_i hlive
      obtain ⟨rfl, rfl, rfl⟩ := Option.some.inj hx |> Prod.mk.inj |>.imp_right Prod.mk.inj
      refine ⟨.verifies hc hget hlive, .ite (fun _ => .throw trivial) fun htype => ?_⟩
      split
      · exact .throw trivial
      · rename_i role hrole
        exact .pure (.staff hget hlive (not_not.mp htype) hrole)
    · obtain ⟨rfl, rfl, rfl⟩ := Option.some.inj hx |> Prod.mk.inj |>.imp_right Prod.mk.inj
      exact ⟨.quiet rfl rfl rfl fun _ => rfl, .throw trivial⟩

theorem resolve_ensures {token : String} (hc : c = .request route authorization ip) :
    (spec cfg).Ensures (machine cfg) c (resolve cfg token)
      (fun p l' s' => Vouched cfg token s' l' p) (fun _ _ _ => True) l s := by
  refine .bind (ensures_perform fun s₁ inp r l' s₂ _ hx => ?_)
  simp only [exec] at hx
  split at hx
  · obtain ⟨rfl, rfl, rfl⟩ := Option.some.inj hx |> Prod.mk.inj |>.imp_right Prod.mk.inj
    exact ⟨.quiet rfl rfl rfl fun _ => rfl, .throw trivial⟩
  · rename_i q hq
    obtain ⟨rfl, rfl, rfl⟩ := Option.some.inj hx |> Prod.mk.inj |>.imp_right Prod.mk.inj
    obtain ⟨hget, hhash⟩ := Table.mem_select.mp (List.mem_of_mem_head? hq)
    refine ⟨.finds hc hget, .ite (fun _ => .throw trivial) fun hstatus => .bind ?_⟩
    have hvouched : ∀ s', Vouched cfg token s' (.found q.1 q.2) (.device q.1) :=
      fun s' => .device (beq_iff_eq.mp hhash) hstatus
    refine .bind (ensures_quiet rfl fun now s' _ => .ite (fun _ => .pure (.pure (hvouched _)))
      fun _ => ensures_quiet rfl fun _ s'' _ => .pure (hvouched _))

/-- What the guards promise of a request they let in. -/
def LetIn (cfg : Config) (route : Route) (authorization : Option String)
    (principal : Option Principal) (l : Note) (s : State) : Prop :=
  (route.isPublic = true ∧ principal = none) ∨ ∃ token p allowed,
    bearerTokenOf authorization = some token ∧ principal = some p ∧ Vouched cfg token s l p ∧
      route.roles = some allowed ∧ p.role ∈ allowed

theorem request_ensures :
    (spec cfg).Ensures (machine cfg) (.request route authorization ip)
      (request cfg route authorization ip)
      (fun principal l' s' => LetIn cfg route authorization principal l' s')
      (fun _ _ _ => True) l s := by
  -- who the request is from
  have hauth : (spec cfg).Ensures (machine cfg) (.request route authorization ip)
      (authenticate cfg route authorization)
      (fun principal l' s' => (route.isPublic = true ∧ principal = none) ∨
        route.isPublic = false ∧ ∃ token p, bearerTokenOf authorization = some token ∧
          principal = some p ∧ Vouched cfg token s' l' p) (fun _ _ _ => True) l s := by
    refine .ite (fun hpublic => .pure (Or.inl ⟨hpublic, rfl⟩)) fun hpublic => ?_
    have hpublic : route.isPublic = false := Bool.eq_false_iff.mpr hpublic
    split
    · exact .throw trivial
    · rename_i token htoken
      have hsome : ∀ {m : Service Principal}, (spec cfg).Ensures (machine cfg)
          (.request route authorization ip) m (fun p l' s' => Vouched cfg token s' l' p)
          (fun _ _ _ => True) l s → (spec cfg).Ensures (machine cfg)
          (.request route authorization ip) (some <$> m)
          (fun principal l' s' => (route.isPublic = true ∧ principal = none) ∨
            route.isPublic = false ∧ ∃ token p, bearerTokenOf authorization = some token ∧
              principal = some p ∧ Vouched cfg token s' l' p) (fun _ _ _ => True) l s :=
        fun hm => .answers hm (fun p l' s' hp => Or.inr ⟨hpublic, token, p, htoken, rfl, hp⟩)
          fun _ _ _ _ => trivial
      exact .ite (fun _ => hsome (verify_ensures rfl)) fun _ => hsome (resolve_ensures rfl)
  refine .bind (Spec.wp_mono (fun r l' s' _ hr => ?_) hauth)
  cases r with
  | error e => trivial
  | ok principal =>
    -- the counter, and then the role
    refine .bind (.bind (ensures_quiet rfl fun counted s'' hs'' => ?_))
    have hrole : (spec cfg).Ensures (machine cfg) (.request route authorization ip)
        (do checkRole route principal; pure principal)
        (fun principal l' s' => LetIn cfg route authorization principal l' s')
        (fun _ _ _ => True) l' s'' := by
      rcases hr with ⟨hpublic, rfl⟩ | ⟨hpublic, token, p, htoken, rfl, hp⟩
      · refine .bind (.ite (fun _ => .pure (.pure (Or.inl ⟨hpublic, rfl⟩))) fun h => ?_)
        exact absurd hpublic h
      · refine .bind (.ite (fun h => ?_) fun _ => ?_)
        · rw [hpublic] at h
          cases h
        · split
          · exact .throw trivial
          · rename_i allowed hallowed
            refine .ite (fun hmem => .pure (.pure (Or.inr ?_))) fun _ => .throw trivial
            exact ⟨token, p, allowed, htoken, rfl, hp.later hs'', hallowed,
              of_decide_eq_true hmem⟩
    cases counted with
    | error _ => exact .ite (fun _ => .throw trivial) fun _ => .pure hrole
    | ok record => exact .ite (fun _ => .throw trivial) fun _ => .pure hrole

theorem signIn_ensures (userId : Id) :
    (spec cfg).Ensures (machine cfg) (.signIn userId) (signIn userId) (fun _ _ _ => True)
      (fun _ _ _ => True) .blank s := by
  refine .bind (ensures_perform fun s₁ inp r l' s₂ _ hx => ?_)
  obtain ⟨rfl, rfl, rfl⟩ := Option.some.inj hx |> Prod.mk.inj |>.imp_right Prod.mk.inj
  refine ⟨.reads rfl rfl, ?_⟩
  cases hget : s₁.users.get userId with
  | none => exact .throw trivial
  | some user =>
    refine .ite (fun hactive => ensures_perform fun s₂ inp r l' s₃ _ hx => ?_)
      fun _ => .throw trivial
    simp only [exec] at hx
    split at hx
    · cases hx
    · rename_i hfresh
      obtain ⟨rfl, rfl, rfl⟩ := Option.some.inj hx |> Prod.mk.inj |>.imp_right Prod.mk.inj
      simp only [Bool.or_eq_true, not_or, Option.not_isSome_iff_eq_none] at hfresh
      exact ⟨.signs rfl rfl hactive hfresh.1, trivial⟩

theorem updateUser_ensures (userId : Id) (user : User) :
    (spec cfg).Ensures (machine cfg) (.updateUser userId user) (perform (.updateUser userId user))
      (fun _ _ _ => True) (fun _ _ _ => True) l s := by
  refine ensures_perform fun s₁ inp r l' s₂ _ hx => ?_
  obtain ⟨rfl, rfl, rfl⟩ := Option.some.inj hx |> Prod.mk.inj |>.imp_right Prod.mk.inj
  exact ⟨.setsUser rfl, trivial⟩

theorem updateDevice_ensures (deviceId : Id) (device : Device) :
    (spec cfg).Ensures (machine cfg) (.updateDevice deviceId device)
      (perform (.updateDevice deviceId device)) (fun _ _ _ => True) (fun _ _ _ => True) l s := by
  refine ensures_perform fun s₁ inp r l' s₂ _ hx => ?_
  obtain ⟨rfl, rfl, rfl⟩ := Option.some.inj hx |> Prod.mk.inj |>.imp_right Prod.mk.inj
  exact ⟨.setsDevice rfl, trivial⟩

end calls

/-- What an answer says. -/
def Post (cfg : Config) : Call → Answer → Note → State → Prop
  | .request route authorization _, .ok (.handled principal), l, s =>
    LetIn cfg route authorization principal l s
  | _, _, _, _ => True

theorem starts (base : State) :
    Starts (spec cfg) (system cfg) base 0 fun _ c a l s => Post cfg c a l s := by
  intro i c s _ _ _ _
  cases c with
  | request route authorization ip =>
    exact request_ensures.answers (fun _ _ _ h => h) fun _ _ _ _ => trivial
  | signIn userId =>
    exact (signIn_ensures userId).answers (fun _ _ _ _ => trivial) fun _ _ _ _ => trivial
  | updateUser userId user =>
    exact (updateUser_ensures userId user).answers (fun _ _ _ _ => trivial) fun _ _ _ _ => trivial
  | updateDevice deviceId device =>
    exact (updateDevice_ensures deviceId device).answers (fun _ _ _ _ => trivial)
      fun _ _ _ _ => trivial

theorem happens : Happens (spec cfg) (system cfg) := by
  intro e s s' _ _ hs'
  refine ⟨trivial, ?_⟩
  cases e with
  | tick elapsed =>
    obtain rfl := Option.some.inj hs'
    exact .refl s
  | signOther token claims =>
    change happen s (.signOther token claims) = some s' at hs'
    simp only [happen] at hs'
    split at hs'
    · cases hs'
    · rename_i hnew
      obtain rfl := Option.some.inj hs'
      simp only [Bool.or_eq_true, not_or, Option.not_isSome_iff_eq_none] at hnew
      exact .put hnew.2 claims

/-! ## Every run -/

variable {users : Table Id User} {devices : Table Id Device}

/-- The worlds some run reaches from these rows. -/
def Reachable (cfg : Config) (users : Table Id User) (devices : Table Id Device)
    (w : DoorWorld) : Prop := Runs (system cfg) .all (opening users devices) w

theorem Reachable.sound {w : DoorWorld} (h : Reachable cfg users devices w) :
    Sound (spec cfg) (system cfg) (opening users devices).shared 0
      (fun _ c a l s => Post cfg c a l s) w :=
  Sound.runs (starts _) happens (.initial trivial) h

/-- A token of this user and this role was signed. -/
def StaffClaims.Names (claims : StaffClaims) (userId : Id) (role : UserRole) : Prop :=
  claims.type = staffTokenType ∧ claims.sub = userId ∧ userRole claims.role = some role

/-- A sign-in of the user has read that it is active and has the role. -/
def SignedIn (w : DoorWorld) (userId : Id) (role : UserRole) : Prop :=
  ∃ t ∈ w.threads, t.call = .signIn userId ∧ t.session = .read (some ⟨role, true⟩)

/-- What is signed, and what was verified. -/
structure Timely (cfg : Config) (w : DoorWorld) : Prop where
  /-- a staff token goes back to a sign-in that read its role, and does not live longer than a
  lifetime from now -/
  signed : ∀ token claims, w.shared.signed.get token = some claims →
    claims.type = staffTokenType → ∃ role, claims.role = roleText role ∧
      SignedIn w claims.sub role ∧ claims.exp ≤ w.shared.clock + cfg.lifetime
  /-- what was verified was signed, and had not expired -/
  verified : ∀ t ∈ w.threads, ∀ time claims, t.session = .verified time claims →
    ∃ token, w.shared.signed.get token = some claims ∧ time < claims.exp

theorem Config.expiry_le (cfg : Config) (now : Instant) : cfg.expiry now ≤ now + cfg.lifetime := by
  have hfloor := Int.ediv_mul_le now (by decide : (1000 : ℤ) ≠ 0)
  exact Int.add_le_add_right hfloor cfg.lifetime

/-- What an operation of another call leaves of a sign-in. -/
theorem SignedIn.set {w : DoorWorld} {userId : Id} {role : UserRole} (h : SignedIn w userId role)
    {i : ℕ} {t t' : DoorThread} {s' : State} (ht : w.threads[i]? = some t)
    (hcall : t'.call = t.call)
    (hread : ∀ user, t.call = .signIn userId → t.session = .read user → t'.session = t.session) :
    SignedIn ⟨s', w.threads.set i t'⟩ userId role := by
  obtain ⟨u, hu, hucall, husession⟩ := h
  obtain ⟨j, hj⟩ := List.mem_iff_getElem?.mp hu
  by_cases hij : i = j
  · subst hij
    obtain rfl := Option.some.inj (ht.symm.trans hj)
    exact ⟨t', List.mem_set (List.getElem?_eq_some_iff.mp ht).1 _, hcall.trans hucall,
      (hread _ hucall husession).trans husession⟩
  · exact ⟨u, List.mem_of_getElem? ((List.getElem?_set_ne hij).trans hj), hucall, husession⟩

/-- What a sign-in has read it keeps. -/
theorem Move.read_kept {c : Call} {l l' : Note} {s s' : State} (h : Move cfg c l s l' s')
    {userId : Id} {user : Option User} (hc : c = .signIn userId) (hl : l = .read user) :
    l' = l := by
  cases h with
  | quiet | signs | setsUser | setsDevice => rfl
  | reads _ hblank =>
    rw [hl] at hblank
    cases hblank
  | verifies hc' | finds hc' =>
    rw [hc] at hc'
    cases hc'

theorem Move.clock {c : Call} {l l' : Note} {s s' : State} (h : Move cfg c l s l' s') :
    s'.clock = s.clock := by
  cases h with
  | quiet hclock => exact hclock
  | _ => rfl

theorem Timely.step {w : DoorWorld} (h : Timely cfg w) {i : ℕ} {t : DoorThread} {l' : Note}
    {p : Option (Prog Op Op.Res Answer)} {s' : State} (ht : w.threads[i]? = some t)
    (hmove : Move cfg t.call t.session w.shared l' s') :
    Timely cfg ⟨s', w.threads.set i ⟨t.call, l', p⟩⟩ := by
  have hkept : ∀ {userId role}, SignedIn w userId role →
      SignedIn ⟨s', w.threads.set i ⟨t.call, l', p⟩⟩ userId role :=
    fun hsigned => hsigned.set ht rfl fun user hc hl => hmove.read_kept hc hl
  have hold : ∀ token claims, w.shared.signed.get token = some claims →
      claims.type = staffTokenType → ∃ role, claims.role = roleText role ∧
        SignedIn ⟨s', w.threads.set i ⟨t.call, l', p⟩⟩ claims.sub role ∧
        claims.exp ≤ s'.clock + cfg.lifetime := by
    intro token claims hget htype
    obtain ⟨role, hrole, hsigned, hexp⟩ := h.signed token claims hget htype
    exact ⟨role, hrole, hkept hsigned, hmove.clock ▸ hexp⟩
  refine ⟨fun token claims hget htype => ?_, fun u hu time claims hsession => ?_⟩
  · cases hmove with
    | quiet _ _ hsigned => exact hold token claims (hsigned ▸ hget) htype
    | @signs userId jti user jwt hc hl hactive hnone =>
      change (w.shared.signed.put jwt _).get token = some claims at hget
      rw [Table.get_put] at hget
      split at hget
      · obtain rfl := Option.some.inj hget
        refine ⟨user.role, rfl, ?_, cfg.expiry_le w.shared.clock⟩
        refine ⟨_, List.mem_set (List.getElem?_eq_some_iff.mp ht).1 _, hc, ?_⟩
        rw [hl, ← hactive]
      · exact hold token claims hget htype
    | _ => exact hold token claims hget htype
  · rcases List.mem_or_eq_of_mem_set hu with hu | rfl
    · obtain ⟨token, hget, htime⟩ := h.verified u hu time claims hsession
      exact ⟨token, hmove.signed _ _ hget, htime⟩
    · have hmine : t.session = .verified time claims → ∃ token, s'.signed.get token = some claims ∧
          time < claims.exp := by
        intro hsession
        obtain ⟨token, hget, htime⟩ :=
          h.verified t (List.mem_of_getElem? ht) time claims hsession
        exact ⟨token, hmove.signed _ _ hget, htime⟩
      cases hmove with
      | quiet | signs | setsUser | setsDevice => exact hmine hsession
      | reads | finds => cases hsession
      | verifies _ hget hlive =>
        obtain ⟨rfl, rfl⟩ := Note.verified.inj hsession
        exact ⟨_, hget, hlive⟩

theorem Reachable.timely {w : DoorWorld} (h : Reachable cfg users devices w) : Timely cfg w := by
  refine Sound.invariant (starts (opening users devices).shared) happens (J := Timely cfg)
    ?_ ?_ ?_ ?_ (.initial trivial) ⟨fun _ _ hget => (by cases hget), fun _ ht => (by cases ht)⟩ h
  · intro v c hv _
    refine ⟨fun token claims hget htype => ?_, fun u hu time claims hsession => ?_⟩
    · obtain ⟨role, hrole, ⟨u, hu, hread⟩, hexp⟩ := hv.signed token claims hget htype
      exact ⟨role, hrole, ⟨u, List.mem_append_left _ hu, hread⟩, hexp⟩
    · rcases List.mem_append.mp hu with hu | hu
      · exact hv.verified u hu time claims hsession
      · rw [List.mem_singleton.mp hu] at hsession
        cases hsession
  · exact fun v i t o k r l' s' _ hv ht _ _ hmove => hv.step ht hmove
  · intro v i t hv ht _ _
    refine ⟨fun token claims hget htype => ?_, fun u hu time claims hsession => ?_⟩
    · obtain ⟨role, hrole, hsigned, hexp⟩ := hv.signed token claims hget htype
      exact ⟨role, hrole, hsigned.set ht rfl fun _ _ _ => rfl, hexp⟩
    · rcases List.mem_or_eq_of_mem_set hu with hu | rfl
      · exact hv.verified u hu time claims hsession
      · exact hv.verified t (List.mem_of_getElem? ht) time claims hsession
  · intro v e s' _ hv hp hs'
    have hsigned : Signed v.shared s' := (happens e v.shared s' hp trivial hs').2
    refine ⟨fun token claims hget htype => ?_, fun u hu time claims hsession => ?_⟩
    · cases e with
      | tick elapsed =>
        obtain rfl := Option.some.inj hs'
        obtain ⟨role, hrole, hread, hexp⟩ := hv.signed token claims hget htype
        refine ⟨role, hrole, hread, ?_⟩
        have hnonneg := Int.natCast_nonneg elapsed
        change claims.exp ≤ v.shared.clock + elapsed + cfg.lifetime
        linarith
      | signOther token' claims' =>
        change happen v.shared (.signOther token' claims') = some s' at hs'
        simp only [happen] at hs'
        split at hs'
        · cases hs'
        · rename_i hnew
          obtain rfl := Option.some.inj hs'
          change (v.shared.signed.put token' claims').get token = some claims at hget
          rw [Table.get_put] at hget
          split at hget
          · -- tokens of other kinds are not of this one
            obtain rfl := Option.some.inj hget
            simp [htype] at hnew
          · exact hv.signed token claims hget htype
    · obtain ⟨token, hget, htime⟩ := hv.verified u hu time claims hsession
      exact ⟨token, hsigned _ _ hget, htime⟩

/-- What a request that was let in was let in for still stands. -/
theorem Reachable.letIn {w : DoorWorld} (h : Reachable cfg users devices w) {t : DoorThread}
    (ht : t ∈ w.threads) {route : Route} {authorization ip : Option String}
    {principal : Option Principal} (hcall : t.call = .request route authorization ip)
    (ha : t.Answered (.ok (.handled principal))) :
    LetIn cfg route authorization principal t.session w.shared := by
  obtain ⟨i, hi⟩ := List.mem_iff_getElem?.mp ht
  obtain ⟨s₀, -, hs₀, hpost⟩ := h.sound.answered hi ha
  rw [hcall] at hpost
  rcases hpost with hpublic | ⟨token, p, allowed, htoken, hp, hvouched, hallowed⟩
  · exact Or.inl hpublic
  · exact Or.inr ⟨token, p, allowed, htoken, hp, hvouched.later hs₀, hallowed⟩

/-- **Nobody gets in by default.** However requests, sign-ins and updates interleave: a handler
begins without a principal only behind a route declared public, and else only for a principal that
the presented token stands for, whose role the route declares. A staff token that let somebody in
goes back to a sign-in of that user, which read that the user was active and had that role. -/
theorem guards_let_in {w : DoorWorld} (h : Reachable cfg users devices w) {t : DoorThread}
    (ht : t ∈ w.threads) {route : Route} {authorization ip : Option String}
    {principal : Option Principal} (hcall : t.call = .request route authorization ip)
    (ha : t.Answered (.ok (.handled principal))) :
    LetIn cfg route authorization principal t.session w.shared ∧
      ∀ userId role jti, principal = some (.staff userId role jti) → SignedIn w userId role := by
  have hletIn := h.letIn ht hcall ha
  refine ⟨hletIn, fun userId role jti hstaff => ?_⟩
  rcases hletIn with ⟨-, hnone⟩ | ⟨token, p, allowed, -, hp, hvouched, -⟩
  · rw [hnone] at hstaff
    cases hstaff
  · obtain rfl := Option.some.inj (hp.symm.trans hstaff)
    generalize t.session = l at hvouched
    cases hvouched with
    | @staff time claims role hget htime htype hrole =>
      obtain ⟨role', hrole', hsigned, -⟩ := h.timely.signed token claims hget htype
      rw [hrole', userRole_roleText] at hrole
      rwa [Option.some.inj hrole] at hsigned

/-- Tokens live for fifteen minutes, and a hash is its own preimage. -/
def fifteenMinutes : Config := ⟨900, fun token => token⟩

/-- User 7 manages. -/
def oneManager : Table Id User := (∅ : Table Id User).put 7 ⟨.manager, true⟩

/-- Device 50 is paired. -/
def oneTablet : Table Id Device := (∅ : Table Id Device).put 50 ⟨some "tablet", .active, none⟩

/-- `PATCH /items/:id`. -/
def editItem : Route :=
  ⟨"ItemsController.update", false, some [.staff .admin, .staff .manager], none⟩

/-- `POST /orders`. -/
def placeOrder : Route :=
  ⟨"OrdersController.create", false,
    some [.staff .admin, .staff .manager, .staff .cashier, .kiosk], none⟩

/-- Call `i` performs its next `n` operations; Redis does not answer. -/
def steps (i n : ℕ) (jwt : String) : List DoorAct :=
  List.replicate n (.step i { jwt, reachable := false })

/-- User 7 signs in (call 0). -/
def signInAtWork : List DoorAct := .start (.signIn 7) :: steps 0 2 "h.p.s"

/-- User 7 edits an item. -/
def editByManager : Call := .request editItem (some "Bearer h.p.s") none

/-- The tablet places an order. -/
def orderByTablet : Call := .request placeOrder (some "Bearer tablet") none

/-- Call `i` is `c`, and handled for the principal. -/
def isHandled (i : ℕ) (c : Call) (p : Principal) (w : DoorWorld) : Bool :=
  (w.threads[i]?).any fun t => t.call == c && decide (t.Answered (.ok (.handled (some p))))

theorem handled_of_isHandled {i : ℕ} {c : Call} {p : Principal} {w : DoorWorld}
    (h : isHandled i c p w = true) :
    ∃ t, w.threads[i]? = some t ∧ t.call = c ∧ t.Answered (.ok (.handled (some p))) := by
  obtain ⟨t, ht, hboth⟩ := (Option.any_eq_true _ _).mp h
  obtain ⟨hcall, ha⟩ := (Bool.and_eq_true _ _).mp hboth
  exact ⟨t, ht, beq_iff_eq.mp hcall, of_decide_eq_true ha⟩

theorem guards_let_in_manager : ∃ w t, Reachable fifteenMinutes oneManager oneTablet w ∧
    t ∈ w.threads ∧ t.Answered (.ok (.handled (some (.staff 7 .manager 0)))) ∧
    SignedIn w 7 .manager := by
  obtain ⟨w, hw, hhandled⟩ := Runs.exists_of_acts (system fifteenMinutes)
    (opening oneManager oneTablet) (signInAtWork ++ .start editByManager :: steps 1 2 "")
    (fun w => isHandled 1 editByManager (.staff 7 .manager 0) w = true) (by decide)
  obtain ⟨t, ht, hcall, ha⟩ := handled_of_isHandled hhandled
  have hmem := List.mem_of_getElem? ht
  exact ⟨w, t, hw, hmem, ha, (guards_let_in hw hmem hcall ha).2 7 .manager 0 rfl⟩

/-! ## A role that was lost -/

/-- The user's row gives it the role. -/
def State.Grants (s : State) (userId : Id) (role : UserRole) : Prop :=
  s.users.get userId = some ⟨role, true⟩

/-- Nobody gives the user the role back. -/
def keepsLost (userId : Id) (role : UserRole) (c : Call) (_ : Op) (_ : Note) (_ : State) : Bool :=
  match c with
  | .updateUser userId' user => !(userId' == userId && user == ⟨role, true⟩)
  | _ => true

/-- The user has lost the role, no sign-in is about to sign a token for it, and the tokens that name
it have expired by `deadline`. -/
structure Fading (userId : Id) (role : UserRole) (deadline : Instant) (w : DoorWorld) : Prop where
  lost : ¬ w.shared.Grants userId role
  tokens : ∀ token claims, w.shared.signed.get token = some claims → claims.Names userId role →
    claims.exp ≤ deadline
  reads : ∀ t ∈ w.threads, t.call = .signIn userId → t.Running →
    t.session ≠ .read (some ⟨role, true⟩)

/-- Step lemma. -/
theorem Fading.act {userId : Id} {role : UserRole} {deadline : Instant} {w w' : DoorWorld}
    (h : Fading userId role deadline w) (hw : Reachable cfg users devices w) {a : DoorAct}
    (ha : (Permit.ofCheck (keepsLost userId role)).Allows w a)
    (hs : w.act (system cfg) a = some w') : Fading userId role deadline w' := by
  cases World.transition_of_act hs with
  | start c =>
    refine ⟨h.lost, h.tokens, fun t ht hcall hrun => ?_⟩
    rcases List.mem_append.mp ht with ht | ht
    · exact h.reads t ht hcall hrun
    · rw [List.mem_singleton.mp ht]
      simp [system, machine, Machine.atomic]
  | crash ht _ =>
    refine ⟨h.lost, h.tokens, fun u hu hcall hrun => ?_⟩
    rcases List.mem_or_eq_of_mem_set hu with hu | rfl
    · exact h.reads u hu hcall hrun
    · obtain ⟨o, k, hp⟩ := hrun
      cases hp
  | @world e s' hs' =>
    cases e with
    | tick elapsed =>
      obtain rfl := Option.some.inj hs'
      exact ⟨h.lost, h.tokens, h.reads⟩
    | signOther token claims =>
      change happen w.shared (.signOther token claims) = some s' at hs'
      simp only [happen] at hs'
      split at hs'
      · cases hs'
      · rename_i hnew
        obtain rfl := Option.some.inj hs'
        refine ⟨h.lost, fun token' claims' hget hnames => ?_, h.reads⟩
        change (w.shared.signed.put token claims).get token' = some claims' at hget
        rw [Table.get_put] at hget
        split at hget
        · obtain rfl := Option.some.inj hget
          simp [hnames.1] at hnew
        · exact h.tokens token' claims' hget hnames
  | @step i inp t o k r l' s' ht hp hx =>
    obtain ⟨hmove, -⟩ := hw.sound.step ht hp trivial hx
    have hmem := List.mem_of_getElem? ht
    have hrunning : t.Running := ⟨o, k, hp⟩
    have hcheck : keepsLost userId role t.call o t.session w.shared = true := ha _ _ _ ht hp
    -- the other sign-ins, and this one if it reads nothing
    have hreads : (t.call = .signIn userId → l' = .read (some ⟨role, true⟩) →
        t.session = .read (some ⟨role, true⟩)) → ∀ u ∈ w.threads.set i ⟨t.call, l', some (k r)⟩,
        u.call = .signIn userId → u.Running → u.session ≠ .read (some ⟨role, true⟩) := by
      intro hsame u hu hcall hrun hread
      rcases List.mem_or_eq_of_mem_set hu with hu | rfl
      · exact h.reads u hu hcall hrun hread
      · exact h.reads t hmem hcall hrunning (hsame hcall hread)
    cases hmove with
    | quiet _ husers hsigned =>
      refine ⟨?_, hsigned ▸ h.tokens, hreads fun _ hl => hl⟩
      rw [State.Grants, husers]
      exact h.lost
    | verifies | finds => exact ⟨h.lost, h.tokens, hreads fun _ hl => by cases hl⟩
    | @reads userId' hc _ =>
      refine ⟨h.lost, h.tokens, hreads fun hcall hl => ?_⟩
      -- a sign-in that reads the row now finds the role gone
      obtain rfl := Call.signIn.inj (hc.symm.trans hcall)
      exact absurd (Note.read.inj hl) h.lost
    | @signs userId' jti user jwt hc hl hactive hnone =>
      refine ⟨h.lost, fun token claims hget hnames => ?_, hreads fun _ hl => hl⟩
      change (w.shared.signed.put jwt _).get token = some claims at hget
      rw [Table.get_put] at hget
      split at hget
      · obtain rfl := Option.some.inj hget
        obtain ⟨-, rfl, hrole⟩ := hnames
        rw [userRole_roleText] at hrole
        refine absurd ?_ (h.reads t hmem hc hrunning)
        rw [hl, ← hactive, ← Option.some.inj hrole]
      · exact h.tokens token claims hget hnames
    | @setsUser userId' user hc =>
      refine ⟨fun hgrants => ?_, h.tokens, hreads fun _ hl => hl⟩
      change (w.shared.users.put userId' user).get userId = some ⟨role, true⟩ at hgrants
      rw [Table.get_put] at hgrants
      split at hgrants
      · rename_i hid
        rw [hc, ← hid, Option.some.inj hgrants] at hcheck
        simp [keepsLost] at hcheck
      · exact h.lost hgrants
    | setsDevice => exact ⟨h.lost, h.tokens, hreads fun _ hl => hl⟩

/-- Run lemma. -/
theorem Fading.runs {userId : Id} {role : UserRole} {deadline : Instant} {w w' : DoorWorld}
    (h : Fading userId role deadline w) (hw : Reachable cfg users devices w)
    (hr : Runs (system cfg) (.ofCheck (keepsLost userId role)) w w') :
    Fading userId role deadline w' ∧ Reachable cfg users devices w' := by
  induction hr with
  | refl => exact ⟨h, hw⟩
  | tail _ ha hs ih => exact ⟨ih.1.act ih.2 ha hs, ih.2.tail (Runs.allows_all _ _) hs⟩

/-- **A lost role is let in for one token's lifetime at most.** Once a user does not have a role any
more and its sign-ins have come to an end, and as long as nobody gives the role back: whatever else
happens, a request that is handled for the user in that role was authenticated before
`ACCESS_TOKEN_TTL_SECONDS` had passed. -/
theorem lost_role_ends {w w' : DoorWorld} (hw : Reachable cfg users devices w) {userId : Id}
    {role : UserRole} (hlost : ¬ w.shared.Grants userId role)
    (hended : ∀ t ∈ w.threads, t.call = .signIn userId → ¬ t.Running)
    (hr : Runs (system cfg) (.ofCheck (keepsLost userId role)) w w') {t : DoorThread}
    (ht : t ∈ w'.threads) {route : Route} {authorization ip : Option String} {jti : Id}
    (hcall : t.call = .request route authorization ip)
    (ha : t.Answered (.ok (.handled (some (.staff userId role jti))))) :
    ∃ time claims, t.session = .verified time claims ∧ time < w.shared.clock + cfg.lifetime := by
  have hfading : Fading userId role (w.shared.clock + cfg.lifetime) w := by
    refine ⟨hlost, fun token claims hget hnames => ?_, fun t ht hcall hrun => ?_⟩
    · obtain ⟨-, -, -, hexp⟩ := hw.timely.signed token claims hget hnames.1
      exact hexp
    · exact absurd hrun (hended t ht hcall)
  obtain ⟨hfading', hw'⟩ := hfading.runs hw hr
  rcases hw'.letIn ht hcall ha with ⟨-, hnone⟩ | ⟨token, p, allowed, -, hp, hvouched, -⟩
  · cases hnone
  · obtain rfl := Option.some.inj hp
    generalize hl : t.session = l at hvouched
    cases hvouched with
    | staff hget htime htype hrole =>
      have hexp := hfading'.tokens token _ hget ⟨htype, rfl, hrole⟩
      exact ⟨_, _, rfl, lt_of_lt_of_le htime hexp⟩

/-- User 7 becomes a barista (call `i`). -/
def demote (i : ℕ) : List DoorAct := .start (.updateUser 7 ⟨.barista, true⟩) :: steps i 1 ""

theorem lost_role_ends_manager : ∃ w w' t time claims,
    Reachable fifteenMinutes oneManager oneTablet w ∧ ¬ w.shared.Grants 7 .manager ∧
    Runs (system fifteenMinutes) (.ofCheck (keepsLost 7 .manager)) w w' ∧ t ∈ w'.threads ∧
    t.Answered (.ok (.handled (some (.staff 7 .manager 0)))) ∧
    t.session = .verified time claims ∧ time < 900000 := by
  obtain ⟨w, hw, hrow, hended, hclock, hrun⟩ := Runs.exists_of_acts (system fifteenMinutes)
    (opening oneManager oneTablet) (signInAtWork ++ demote 1)
    (fun w => w.shared.users.get 7 ≠ some ⟨.manager, true⟩ ∧
      (∀ t ∈ w.threads, t.call = .signIn 7 → ¬ t.running = true) ∧ w.shared.clock = 0 ∧
      (w.runIf (system fifteenMinutes) (World.passes (keepsLost 7 .manager))
        (.start editByManager :: steps 2 2 "")).any
        (fun w' => decide (isHandled 2 editByManager (.staff 7 .manager 0) w' = true)) = true)
    (by decide)
  obtain ⟨w', hw', hhandled⟩ := Runs.exists_of_passes (system fifteenMinutes)
    (keepsLost 7 .manager) w _ _ hrun
  obtain ⟨t, ht, hcall, ha⟩ := handled_of_isHandled hhandled
  have hmem := List.mem_of_getElem? ht
  obtain ⟨time, claims, hsession, htime⟩ := lost_role_ends hw hrow
    (fun t ht hcall hrunning => hended t ht hcall (Thread.running_iff.mpr hrunning)) hw' hmem hcall
    ha
  rw [hclock] at htime
  exact ⟨w, w', t, time, claims, hw, hrow, hw', hmem, ha, hsession, htime⟩

/-! ## A device that was revoked -/

/-- The device is revoked. -/
def State.IsRevoked (s : State) (deviceId : Id) : Prop :=
  (s.devices.get deviceId).map Device.status = some .revoked

/-- Nobody gives the device another status. -/
def keepsRevoked (deviceId : Id) (c : Call) (_ : Op) (_ : Note) (_ : State) : Bool :=
  match c with
  | .updateDevice deviceId' device => !(deviceId' == deviceId) || device.status == .revoked
  | _ => true

/-- The device is revoked, and whoever found it otherwise had found it before. -/
structure Refused (deviceId : Id) (before w : DoorWorld) : Prop where
  revoked : w.shared.IsRevoked deviceId
  found : ∀ (i : ℕ) (t : DoorThread) (device : Device), w.threads[i]? = some t →
    t.session = .found deviceId device → device.status ≠ .revoked →
    ∃ t₀ : DoorThread, before.threads[i]? = some t₀ ∧ t₀.session = .found deviceId device

/-- Step lemma. -/
theorem Refused.act {deviceId : Id} {before w w' : DoorWorld} (h : Refused deviceId before w)
    (hw : Reachable cfg users devices w) {a : DoorAct}
    (ha : (Permit.ofCheck (keepsRevoked deviceId)).Allows w a)
    (hs : w.act (system cfg) a = some w') : Refused deviceId before w' := by
  -- one call moves on, and finds the device only if it is there
  have hset : ∀ {i : ℕ} {t t' : DoorThread} {s' : State}, w.threads[i]? = some t →
      s'.IsRevoked deviceId → (∀ device, t'.session = .found deviceId device →
        device.status ≠ .revoked → t.session = .found deviceId device) →
      Refused deviceId before ⟨s', w.threads.set i t'⟩ := by
    intro i t t' s' ht hrevoked hsame
    refine ⟨hrevoked, fun j u device hu hfound hstatus => ?_⟩
    by_cases hij : i = j
    · subst hij
      rw [List.getElem?_set_self (List.getElem?_eq_some_iff.mp ht).1] at hu
      obtain rfl := Option.some.inj hu
      exact h.found i t device ht (hsame device hfound hstatus) hstatus
    · exact h.found j u device ((List.getElem?_set_ne hij).symm.trans hu) hfound hstatus
  cases World.transition_of_act hs with
  | start c =>
    refine ⟨h.revoked, fun i t device ht hfound hstatus => ?_⟩
    rw [List.getElem?_append] at ht
    split at ht
    · exact h.found i t device ht hfound hstatus
    · rw [List.mem_singleton.mp (List.mem_of_getElem? ht)] at hfound
      cases hfound
  | crash ht _ => exact hset ht h.revoked fun _ hfound _ => hfound
  | @world e s' hs' =>
    refine ⟨?_, h.found⟩
    cases e with
    | tick elapsed =>
      obtain rfl := Option.some.inj hs'
      exact h.revoked
    | signOther token claims =>
      change happen w.shared (.signOther token claims) = some s' at hs'
      simp only [happen] at hs'
      split at hs'
      · cases hs'
      · obtain rfl := Option.some.inj hs'
        exact h.revoked
  | @step i inp t o k r l' s' ht hp hx =>
    obtain ⟨hmove, -⟩ := hw.sound.step ht hp trivial hx
    have hcheck : keepsRevoked deviceId t.call o t.session w.shared = true := ha _ _ _ ht hp
    cases hmove with
    | quiet _ _ _ hdevices =>
      exact hset ht ((hdevices deviceId).trans h.revoked) fun _ hfound _ => hfound
    | reads | verifies => exact hset ht h.revoked fun _ hfound _ => by cases hfound
    | @finds _ _ _ deviceId' device _ hget =>
      refine hset ht h.revoked fun device' hfound hstatus => ?_
      obtain ⟨rfl, rfl⟩ := Note.found.inj hfound
      have hrevoked := h.revoked
      rw [State.IsRevoked, hget] at hrevoked
      exact absurd (Option.some.inj hrevoked) hstatus
    | signs | setsUser => exact hset ht h.revoked fun _ hfound _ => hfound
    | @setsDevice deviceId' device hc =>
      refine hset ht ?_ fun _ hfound _ => hfound
      change ((w.shared.devices.put deviceId' device).get deviceId).map Device.status = _
      rw [Table.get_put]
      split
      · rename_i hid
        rw [hc, hid] at hcheck
        simpa [keepsRevoked] using hcheck
      · exact h.revoked

/-- Run lemma. -/
theorem Refused.runs {deviceId : Id} {before w w' : DoorWorld} (h : Refused deviceId before w)
    (hw : Reachable cfg users devices w)
    (hr : Runs (system cfg) (.ofCheck (keepsRevoked deviceId)) w w') :
    Refused deviceId before w' ∧ Reachable cfg users devices w' := by
  induction hr with
  | refl => exact ⟨h, hw⟩
  | tail _ ha hs ih => exact ⟨ih.1.act ih.2 ha hs, ih.2.tail (Runs.allows_all _ _) hs⟩

/-- **A revoked device is refused at once.** Once a device is revoked, and as long as its status
stays: a request that is handled for it had its token looked up before. -/
theorem revoked_device_refused {w w' : DoorWorld} (hw : Reachable cfg users devices w)
    {deviceId : Id} (hrevoked : w.shared.IsRevoked deviceId)
    (hr : Runs (system cfg) (.ofCheck (keepsRevoked deviceId)) w w') {i : ℕ} {t : DoorThread}
    (ht : w'.threads[i]? = some t) {route : Route} {authorization ip : Option String}
    (hcall : t.call = .request route authorization ip)
    (ha : t.Answered (.ok (.handled (some (.device deviceId))))) :
    ∃ t₀, w.threads[i]? = some t₀ ∧ t₀.session = t.session := by
  have hrefused : Refused deviceId w w := ⟨hrevoked, fun i t device ht hfound _ => ⟨t, ht, hfound⟩⟩
  obtain ⟨hrefused', hw'⟩ := hrefused.runs hw hr
  rcases hw'.letIn (List.mem_of_getElem? ht) hcall ha with
    ⟨-, hnone⟩ | ⟨token, p, allowed, -, hp, hvouched, -⟩
  · cases hnone
  · obtain rfl := Option.some.inj hp
    generalize hl : t.session = l at hvouched
    cases hvouched with
    | device _ hstatus => exact hrefused'.found i t _ ht hl hstatus

/-- A tablet orders: its token is looked up (call 0), it is revoked (call 1), and the request goes
on. -/
theorem revoked_device_refused_tablet : ∃ w w' t,
    Reachable fifteenMinutes oneManager oneTablet w ∧ w.shared.IsRevoked 50 ∧
    Runs (system fifteenMinutes) (.ofCheck (keepsRevoked 50)) w w' ∧ w'.threads[0]? = some t ∧
    t.Answered (.ok (.handled (some (.device 50)))) ∧
    ∃ t₀, w.threads[0]? = some t₀ ∧ t₀.session = t.session := by
  obtain ⟨w, hw, hrevoked, hrun⟩ := Runs.exists_of_acts (system fifteenMinutes)
    (opening oneManager oneTablet)
    (.start orderByTablet :: steps 0 1 "" ++
      .start (.updateDevice 50 ⟨some "tablet", .revoked, none⟩) :: steps 1 1 "")
    (fun w => (w.shared.devices.get 50).map Device.status = some .revoked ∧
      (w.runIf (system fifteenMinutes) (World.passes (keepsRevoked 50)) (steps 0 3 "")).any
        (fun w' => decide (isHandled 0 orderByTablet (.device 50) w' = true)) = true) (by decide)
  obtain ⟨w', hw', hhandled⟩ := Runs.exists_of_passes (system fifteenMinutes)
    (keepsRevoked 50) w _ _ hrun
  obtain ⟨t, ht, hcall, ha⟩ := handled_of_isHandled hhandled
  exact ⟨w, w', t, hw, hrevoked, hw', ht, ha,
    revoked_device_refused hw hrevoked hw' ht hcall ha⟩

end CafePos.FrontDoor
