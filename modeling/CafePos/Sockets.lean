import CafePos.DenyList

/-!
# Whom a kill message reaches

A kill message disconnects the members its room has at that moment. A handshake that was checked
before a revocation was applied, and is filed in its room after the message was handled, is
reached by nothing. In every run in which no instance handles a message while it has a handshake
of somebody the message names between its check and its room (`sparesNobody`), no socket of a
revoked credential is left once every instance has handled the message.
-/

namespace CafePos.Revocation

open Interleaving

variable {cfg : Config}

/-! ## What the program does -/

/-- A call publishes what it has applied. -/
def Legal : Op → Note → Prop
  | .publish named, l => ∃ victims, l = .applied named victims
  | _, _ => True

/-- The operations of calls are legal. -/
def spec : Spec State Note Op Call Event where
  inv _ := True
  rely _ _ := True
  gua _ o l _ _ _ := Legal o l
  permit := .all
  rely_refl _ := trivial
  rely_trans _ _ := trivial
  gua_rely _ _ := trivial
  gua_inv _ _ _ := trivial

section calls

variable {c : Call} {l : Note} {s : State}

/-- An operation that announces nothing. -/
theorem ensures_perform {o : Op} {Q : o.Res → Note → State → Prop}
    {T : Err → Note → State → Prop} (hl : Legal o l) (h : ∀ r l s, Q r l s) :
    spec.Ensures (machine cfg) c (perform o) Q T l s :=
  .perform fun _ _ _ r l' s' _ _ _ => ⟨hl, h r l' s'⟩

theorem announce_ensures (key : DenyKey) :
    spec.Ensures (machine cfg) c (announce key) (fun _ _ _ => True) (fun _ _ _ => True) l s := by
  refine .bind (.perform fun s₁ inp _ r l' s₂ _ _ hx => ⟨trivial, ?_⟩)
  obtain ⟨-, rfl, rfl⟩ := Option.some.inj hx |> Prod.mk.inj |>.imp_right Prod.mk.inj
  exact ensures_perform ⟨_, rfl⟩ fun _ _ _ => trivial

theorem issuePair_ensures (userId : Id) :
    spec.Ensures (machine cfg) c (issuePair userId) (fun _ _ _ => True) (fun _ _ _ => True)
      l s := by
  refine .bind (ensures_perform trivial fun user l s => ?_)
  cases user with
  | none => exact .throw trivial
  | some user =>
    refine .ite (fun _ => .throw trivial) fun _ => ?_
    exact .bind (ensures_perform trivial fun _ _ _ => .pure trivial)

theorem revokeDevice_ensures (deviceId : Id) :
    spec.Ensures (machine cfg) c (revokeDevice deviceId) (fun _ _ _ => True)
      (fun _ _ _ => True) l s := by
  refine .bind (.perform fun s₁ inp _ (found : Bool) l' s₂ _ _ hx => ⟨trivial, ?_⟩)
  change exec cfg inp l s₁ (.revokeDevice deviceId) = _ at hx
  simp only [exec] at hx
  split at hx
  · obtain ⟨rfl, rfl, rfl⟩ := Option.some.inj hx |> Prod.mk.inj |>.imp_right Prod.mk.inj
    exact ensures_perform ⟨_, rfl⟩ fun _ _ _ => trivial
  · obtain ⟨rfl, rfl, rfl⟩ := Option.some.inj hx |> Prod.mk.inj |>.imp_right Prod.mk.inj
    exact .throw trivial

theorem handshake_ensures {m : Service (Option Id)} (hm : ∀ {Q : Option Id → Note → State → Prop}
      {T : Err → Note → State → Prop}, (∀ r l s, Q r l s) →
      spec.Ensures (machine cfg) c m Q T l s) :
    spec.Ensures (machine cfg) c (handshake m) (fun _ _ _ => True) (fun _ _ _ => True) l s := by
  refine .bind (hm fun socketId l s => ?_)
  cases socketId with
  | none => exact .throw trivial
  | some socketId => exact ensures_perform trivial fun _ _ _ => trivial

end calls

theorem starts (base : State) : Starts spec (system cfg) base 0 (fun _ _ _ _ _ => True) := by
  intro i c s _ _ _ _
  have hdone : ∀ {m : Service Unit}, spec.Ensures (machine cfg) c m (fun _ _ _ => True)
      (fun _ _ _ => True) .blank s → spec.wp (machine cfg) c (fun _ _ _ => True)
        ((fun _ : Unit => true) <$> m).run .blank s :=
    fun h => h.answers (fun _ _ _ _ => trivial) fun _ _ _ _ => trivial
  cases c with
  | login userId | refresh userId => exact hdone (issuePair_ensures userId)
  | updateUser userId isActive =>
    exact hdone (.bind (ensures_perform trivial fun _ _ _ => announce_ensures _))
  | logout jti => exact hdone (announce_ensures _)
  | isRevoked userId jti =>
    exact Spec.wp_mono (fun _ _ _ _ _ => trivial) (ensures_perform (o := .isRevoked userId jti)
      (Q := fun _ _ _ => True) (T := fun _ _ _ => True) trivial fun _ _ _ => trivial)
  | revokeDevice deviceId => exact hdone (revokeDevice_ensures deviceId)
  | connectKds inst jti =>
    exact hdone (handshake_ensures fun h => ensures_perform (o := .authenticateStaff inst jti)
      trivial h)
  | connectKiosk inst deviceId =>
    exact hdone (handshake_ensures fun h => ensures_perform (o := .authenticateDevice inst deviceId)
      trivial h)

theorem happens : Happens spec (system cfg) := fun _ _ _ _ _ _ => ⟨trivial, trivial⟩

theorem sound_of_runs {users : Table Id User} {devices : Table Id Bool} {w : RevocationWorld}
    (h : Runs (system cfg) .all (opening users devices) w) :
    Sound spec (system cfg) (opening users devices).shared 0 (fun _ _ _ _ _ => True) w :=
  Sound.runs (starts _) happens (.initial trivial) h

/-! ## Credentials that were revoked -/

/-- The credential was revoked. -/
def Dead (s : State) : Credential → Prop
  | .token jti => ∃ token, s.tokens.get jti = some token ∧ token.revoked = true
  | .device deviceId => s.devices.get deviceId = some true

/-- What was revoked stays revoked, and who was named is named. -/
structure Later (s s' : State) : Prop where
  dead : ∀ {γ}, Dead s γ → Dead s' γ
  names : ∀ {named γ}, Named.names s.tokens named γ = true → Named.names s'.tokens named γ = true

theorem Later.refl (s : State) : Later s s := ⟨id, id⟩

/-- Tokens keep their users and stay revoked, devices stay revoked. -/
theorem Later.of_tables {s s' : State}
    (htokens : ∀ jti token, s.tokens.get jti = some token → ∃ token', s'.tokens.get jti =
      some token' ∧ token'.userId = token.userId ∧ (token.revoked = true → token'.revoked = true))
    (hdevices : ∀ deviceId, s.devices.get deviceId = some true →
      s'.devices.get deviceId = some true) : Later s s' where
  dead {γ} h := by
    cases γ with
    | token jti =>
      obtain ⟨token, hget, hrevoked⟩ := h
      obtain ⟨token', hget', -, hmono⟩ := htokens jti token hget
      exact ⟨token', hget', hmono hrevoked⟩
    | device deviceId => exact hdevices deviceId h
  names {named γ} h := by
    cases named with
    | user userId =>
      cases γ with
      | token jti =>
        obtain ⟨token, hget, huser⟩ := (Option.any_eq_true _ _).mp h
        obtain ⟨token', hget', huser', -⟩ := htokens jti token hget
        exact (Option.any_eq_true _ _).mpr ⟨token', hget', by rw [huser']; exact huser⟩
      | device => cases h
    | token jti =>
      cases γ with
      | token => exact h
      | device => cases h
    | device deviceId =>
      cases γ with
      | token => cases h
      | device => exact h

/-- Whoever was revoked is not let in. -/
theorem not_admits_of_dead {s : State} (hs : Covered cfg s) :
    (∀ jti, Dead s (.token jti) → s.admitsToken jti = false) ∧
      ∀ deviceId, Dead s (.device deviceId) → s.admitsDevice deviceId = false := by
  refine ⟨fun jti hdead => ?_, fun deviceId hdead => ?_⟩
  · obtain ⟨token, hget, hrevoked⟩ := hdead
    rw [State.admitsToken, hget, Option.any_some]
    by_cases hclock : s.clock < token.expiresAt
    · have hdenied := isRevoked_of_covered hs hget hrevoked hclock
      simp [hdenied]
    · simp [hclock]
  · rw [State.admitsDevice, show s.devices.get deviceId = some true from hdead]
    rfl

/-! ## What a message has cut -/

/-- The victims were revoked, and are named. -/
def Hit (s : State) (named : Named) (victims : List Credential) : Prop :=
  ∀ γ ∈ victims, Dead s γ ∧ Named.names s.tokens named γ = true

theorem Hit.later {s s' : State} {named : Named} {victims : List Credential}
    (h : Hit s named victims) (hl : Later s s') : Hit s' named victims :=
  fun γ hγ => ⟨hl.dead (h γ hγ).1, hl.names (h γ hγ).2⟩

/-- What a call has noted is true. -/
def Note.Holds (cfg : Config) (s : State) : Note → Prop
  | blank => True
  | applied named victims => Hit s named victims
  | published message => ∀ n ∈ cfg.instances, (n, message) ∈ s.inbox ∨ (n, message) ∈ s.handled

/-- An instance that has handled a message has no socket of a victim. -/
structure Cut (cfg : Config) (w : RevocationWorld) : Prop where
  notes : ∀ t ∈ w.threads, t.session.Holds cfg w.shared
  inbox : ∀ q ∈ w.shared.inbox, Hit w.shared q.2.named q.2.victims
  handled : ∀ q ∈ w.shared.handled, Hit w.shared q.2.named q.2.victims ∧
    ∀ id socket, w.shared.sockets.get id = some socket → socket.inst = q.1 →
      socket.credential ∉ q.2.victims

/-- Nobody the next message of an instance names is between its check and its room there. -/
def sparesNobody (w : RevocationWorld) : RevocationAct → Bool
  | .world (.handle inst) => (w.shared.next inst).all fun message =>
      (w.shared.sockets.select fun _ socket => socket.inst == inst && !socket.joined &&
        message.named.names w.shared.tokens socket.credential).isEmpty
  | _ => true

/-- The state moves on: messages stay, or are handled, and no socket of a victim appears. -/
theorem Cut.moves {w : RevocationWorld} {s' : State} {ts : List RevocationThread} (h : Cut cfg w)
    (hlater : Later w.shared s')
    (hinbox : ∀ q ∈ w.shared.inbox, q ∈ s'.inbox ∨ q ∈ s'.handled)
    (hinbox' : ∀ q ∈ s'.inbox, q ∈ w.shared.inbox ∨ Hit s' q.2.named q.2.victims)
    (hhandled : ∀ q ∈ w.shared.handled, q ∈ s'.handled)
    (hhandled' : ∀ q ∈ s'.handled, q ∈ w.shared.handled ∨ Hit s' q.2.named q.2.victims ∧
      ∀ id socket, s'.sockets.get id = some socket → socket.inst = q.1 →
        socket.credential ∉ q.2.victims)
    (hsockets : ∀ id socket', s'.sockets.get id = some socket' →
      (∃ id₀ socket, w.shared.sockets.get id₀ = some socket ∧ socket'.inst = socket.inst ∧
        socket'.credential = socket.credential) ∨ ¬ Dead w.shared socket'.credential)
    (hts : ∀ t ∈ ts, (∃ t₀ ∈ w.threads, t.session = t₀.session) ∨ t.session.Holds cfg s') :
    Cut cfg ⟨s', ts⟩ where
  notes t ht := by
    rcases hts t ht with ⟨t₀, ht₀, hsession⟩ | hholds
    · have hold := h.notes t₀ ht₀
      rw [hsession]
      cases hnote : t₀.session with
      | blank => trivial
      | applied named victims =>
        rw [hnote] at hold
        exact hold.later hlater
      | published message =>
        rw [hnote] at hold
        intro n hn
        rcases hold n hn with hin | hdone
        · exact hinbox _ hin
        · exact Or.inr (hhandled _ hdone)
    · exact hholds
  inbox q hq := by
    rcases hinbox' q hq with hold | hnew
    · exact (h.inbox q hold).later hlater
    · exact hnew
  handled q hq := by
    rcases hhandled' q hq with hold | hnew
    · obtain ⟨hhit, hnone⟩ := h.handled q hold
      refine ⟨hhit.later hlater, fun id socket' hget hinst hmem => ?_⟩
      rcases hsockets id socket' hget with ⟨id₀, socket, hget₀, hinst₀, hcred⟩ | hnot
      · rw [hcred] at hmem
        exact hnone id₀ socket hget₀ (hinst₀ ▸ hinst) hmem
      · exact hnot (hhit _ hmem).1
    · exact hnew

/-- A call moves, and touches neither sockets nor messages. -/
theorem Cut.quiet {w : RevocationWorld} {s' : State} {ts : List RevocationThread} (h : Cut cfg w)
    (hlater : Later w.shared s') (hsockets : s'.sockets = w.shared.sockets)
    (hinbox : s'.inbox = w.shared.inbox) (hhandled : s'.handled = w.shared.handled)
    (hts : ∀ t ∈ ts, (∃ t₀ ∈ w.threads, t.session = t₀.session) ∨ t.session.Holds cfg s') :
    Cut cfg ⟨s', ts⟩ := by
  refine h.moves hlater (fun q hq => Or.inl (hinbox ▸ hq)) (fun q hq => Or.inl (hinbox ▸ hq))
    (fun q hq => hhandled ▸ hq) (fun q hq => Or.inl (hhandled ▸ hq)) (fun id socket' hget => ?_) hts
  rw [hsockets] at hget
  exact Or.inl ⟨id, socket', hget, rfl, rfl⟩

/-! ## One step -/

section step

variable {w : RevocationWorld} {i : ℕ} {t : RevocationThread} {l' : Note} {s' : State}
  {p : Option (Prog Op Op.Res (Except Err Bool))}

/-- What the calls have noted after a step of one of them. -/
theorem notes_set (ht : w.threads[i]? = some t) (hl : l' = t.session ∨ l'.Holds cfg s') :
    ∀ u ∈ w.threads.set i ⟨t.call, l', p⟩,
      (∃ t₀ ∈ w.threads, u.session = t₀.session) ∨ u.session.Holds cfg s' := by
  intro u hu
  rcases List.mem_or_eq_of_mem_set hu with hold | rfl
  · exact Or.inl ⟨u, hold, rfl⟩
  · rcases hl with hsame | hholds
    · exact Or.inl ⟨t, List.mem_of_getElem? ht, hsame⟩
    · exact Or.inr hholds

/-- A key is set. -/
theorem Cut.sets (h : Cut cfg w) (ht : w.threads[i]? = some t) (key : DenyKey) :
    Cut cfg ⟨{ w.shared with
        denylist := w.shared.denylist.put key (w.shared.clock + cfg.lifetime)
        tokens := w.shared.mark key },
      w.threads.set i ⟨t.call, .applied key.named (victims w.shared.tokens key), p⟩⟩ := by
  have hmark : ∀ jti token, w.shared.tokens.get jti = some token →
      (w.shared.mark key).get jti = some (token.marked key jti) := by
    intro jti token hget
    rw [State.mark, Table.get_mapKeyed, hget, Option.map_some]
  refine h.quiet (.of_tables (fun jti token hget => ⟨_, hmark jti token hget, rfl, fun hr => ?_⟩)
    fun _ hd => hd) rfl rfl rfl (notes_set ht (Or.inr fun γ hγ => ?_))
  · simp [AccessToken.marked, hr]
  · -- a token that the key names
    obtain ⟨q, hq, rfl⟩ := List.mem_map.mp hγ
    obtain ⟨hget, hnames⟩ := Table.mem_select.mp hq
    refine ⟨⟨_, hmark q.1 q.2 hget, by simp [AccessToken.marked, hnames]⟩, ?_⟩
    cases key with
    | user userId => exact (Option.any_eq_true _ _).mpr ⟨_, hmark q.1 q.2 hget, hnames⟩
    | token jti =>
      have heq : q.1 = jti := by simpa [DenyKey.names] using hnames
      simp [DenyKey.named, Named.names, heq]

/-- A handshake is let in. -/
theorem Cut.admits (h : Cut cfg w) (ht : w.threads[i]? = some t) {socketId : Id} {inst : ℕ}
    {credential : Credential} (hnot : ¬ Dead w.shared credential) :
    Cut cfg ⟨w.shared.welcome socketId inst credential,
      w.threads.set i ⟨t.call, t.session, p⟩⟩ := by
  refine h.moves (.of_tables (fun _ token hget => ⟨token, hget, rfl, id⟩) fun _ hd => hd)
    (fun _ hq => Or.inl hq) (fun _ hq => Or.inl hq) (fun _ hq => hq) (fun _ hq => Or.inl hq)
    (fun id socket' hget => ?_) (notes_set ht (Or.inl rfl))
  change (w.shared.sockets.put socketId _).get id = some socket' at hget
  rw [Table.get_put] at hget
  split at hget
  · rw [← Option.some.inj hget]
    exact Or.inr hnot
  · exact Or.inl ⟨id, socket', hget, rfl, rfl⟩

/-- Step lemma: an operation of a call. -/
theorem Cut.step {o : Op} {inp : Input} {r : o.Res} (h : Cut cfg w)
    (hcovered : Covered cfg w.shared) (ht : w.threads[i]? = some t) (hlegal : Legal o t.session)
    (hx : exec cfg inp t.session w.shared o = some (r, l', s')) :
    Cut cfg ⟨s', w.threads.set i ⟨t.call, l', p⟩⟩ := by
  cases o with
  | findUser | isRevoked | updateUser =>
    obtain ⟨-, rfl, rfl⟩ := Option.some.inj hx |> Prod.mk.inj |>.imp_right Prod.mk.inj
    exact h.quiet (.of_tables (fun _ token hget => ⟨token, hget, rfl, id⟩) fun _ hd => hd)
      rfl rfl rfl (notes_set ht (Or.inl rfl))
  | issue userId =>
    simp only [exec] at hx
    split at hx
    · cases hx
    · rename_i hfresh
      obtain ⟨-, rfl, rfl⟩ := Option.some.inj hx |> Prod.mk.inj |>.imp_right Prod.mk.inj
      refine h.quiet (.of_tables (fun jti token hget => ⟨token, ?_, rfl, id⟩) fun _ hd => hd)
        rfl rfl rfl (notes_set ht (Or.inl rfl))
      refine (Table.get_put_ne _ _ ?_).trans hget
      rintro rfl
      simp [hget] at hfresh
  | set key =>
    obtain ⟨-, rfl, rfl⟩ := Option.some.inj hx |> Prod.mk.inj |>.imp_right Prod.mk.inj
    exact h.sets ht key
  | revokeDevice deviceId =>
    simp only [exec] at hx
    split at hx
    · obtain ⟨-, rfl, rfl⟩ := Option.some.inj hx |> Prod.mk.inj |>.imp_right Prod.mk.inj
      refine h.quiet (.of_tables (fun _ token hget => ⟨token, hget, rfl, id⟩) fun deviceId' hd => ?_)
        rfl rfl rfl (notes_set ht (Or.inr fun γ hγ => ?_))
      · by_cases heq : deviceId' = deviceId
        · subst heq
          exact Table.get_put_self ..
        · exact (Table.get_put_ne _ _ heq).trans hd
      · obtain rfl := List.mem_singleton.mp hγ
        exact ⟨Table.get_put_self .., beq_self_eq_true deviceId⟩
    · obtain ⟨-, rfl, rfl⟩ := Option.some.inj hx |> Prod.mk.inj |>.imp_right Prod.mk.inj
      exact h.quiet (.refl _) rfl rfl rfl (notes_set ht (Or.inl rfl))
  | publish named =>
    obtain ⟨victims, hnote⟩ := hlegal
    obtain ⟨-, rfl, rfl⟩ := Option.some.inj hx |> Prod.mk.inj |>.imp_right Prod.mk.inj
    have hhit : Hit w.shared named t.session.victims := by
      have hold := h.notes t (List.mem_of_getElem? ht)
      rw [hnote] at hold ⊢
      exact hold
    refine h.moves (.of_tables (fun _ token hget => ⟨token, hget, rfl, id⟩) fun _ hd => hd)
      (fun q hq => Or.inl (List.mem_append_left _ hq)) (fun q hq => ?_) (fun _ hq => hq)
      (fun _ hq => Or.inl hq) (fun id socket' hget => Or.inl ⟨id, socket', hget, rfl, rfl⟩)
      (notes_set ht (Or.inr fun n hn => Or.inl ?_))
    · rcases List.mem_append.mp hq with hold | hnew
      · exact Or.inl hold
      · obtain ⟨n, -, rfl⟩ := List.mem_map.mp hnew
        exact Or.inr fun γ hγ => hhit γ hγ
    · exact List.mem_append_right _ (List.mem_map.mpr ⟨n, hn, rfl⟩)
  | authenticateStaff inst jti =>
    simp only [exec] at hx
    split at hx
    · rename_i hadmits
      obtain ⟨-, rfl, rfl⟩ := Option.some.inj hx |> Prod.mk.inj |>.imp_right Prod.mk.inj
      refine h.admits ht fun hdead => ?_
      rw [(not_admits_of_dead hcovered).1 jti hdead] at hadmits
      cases hadmits
    · split at hx
      · cases hx
      · obtain ⟨-, rfl, rfl⟩ := Option.some.inj hx |> Prod.mk.inj |>.imp_right Prod.mk.inj
        exact h.quiet (.refl _) rfl rfl rfl (notes_set ht (Or.inl rfl))
  | authenticateDevice inst deviceId =>
    simp only [exec] at hx
    split at hx
    · rename_i hadmits
      obtain ⟨-, rfl, rfl⟩ := Option.some.inj hx |> Prod.mk.inj |>.imp_right Prod.mk.inj
      refine h.admits ht fun hdead => ?_
      rw [(not_admits_of_dead hcovered).2 deviceId hdead] at hadmits
      cases hadmits
    · split at hx
      · cases hx
      · obtain ⟨-, rfl, rfl⟩ := Option.some.inj hx |> Prod.mk.inj |>.imp_right Prod.mk.inj
        exact h.quiet (.refl _) rfl rfl rfl (notes_set ht (Or.inl rfl))
  | join socketId =>
    simp only [exec] at hx
    split at hx
    · rename_i socket hsocket
      obtain ⟨-, rfl, rfl⟩ := Option.some.inj hx |> Prod.mk.inj |>.imp_right Prod.mk.inj
      refine h.moves (.of_tables (fun _ token hget => ⟨token, hget, rfl, id⟩) fun _ hd => hd)
        (fun _ hq => Or.inl hq) (fun _ hq => Or.inl hq) (fun _ hq => hq) (fun _ hq => Or.inl hq)
        (fun id socket' hget => Or.inl ?_) (notes_set ht (Or.inl rfl))
      rw [Table.get_put] at hget
      split at hget
      · rw [← Option.some.inj hget]
        exact ⟨socketId, socket, hsocket, rfl, rfl⟩
      · exact ⟨id, socket', hget, rfl, rfl⟩
    · obtain ⟨-, rfl, rfl⟩ := Option.some.inj hx |> Prod.mk.inj |>.imp_right Prod.mk.inj
      exact h.quiet (.refl _) rfl rfl rfl (notes_set ht (Or.inl rfl))

/-- Every message but the one that is handled stays. -/
theorem mem_eraseP_or_eq {α : Type} {p : α → Bool} {as : List α} {a b : α}
    (hfind : as.find? p = some a) (hb : b ∈ as) : b ∈ as.eraseP p ∨ b = a := by
  induction as with
  | nil => cases hb
  | cons c as ih =>
    by_cases hc : p c = true
    · rw [List.find?_cons_of_pos hc] at hfind
      rw [List.eraseP_cons_of_pos hc]
      rcases List.mem_cons.mp hb with rfl | hmem
      · exact Or.inr (Option.some.inj hfind)
      · exact Or.inl hmem
    · rw [List.find?_cons_of_neg hc] at hfind
      rw [List.eraseP_cons_of_neg hc]
      rcases List.mem_cons.mp hb with rfl | hmem
      · exact Or.inl (List.mem_cons_self ..)
      · exact (ih hfind hmem).imp_left (List.mem_cons_of_mem _)

/-- An instance handles a message, and spares nobody. -/
theorem Cut.handles {inst : ℕ} {message : Message} (h : Cut cfg w)
    (hnext : w.shared.next inst = some message)
    (hcheck : sparesNobody w (.world (.handle inst)) = true) :
    Cut cfg ⟨w.shared.handle inst message, w.threads⟩ := by
  obtain ⟨q, hq, hmessage⟩ := Option.map_eq_some_iff.mp hnext
  have hqmem : q ∈ w.shared.inbox := List.mem_of_find?_eq_some hq
  have hinst : q.1 = inst := by simpa using List.find?_some hq
  have hhit : Hit w.shared message.named message.victims := hmessage ▸ h.inbox q hqmem
  have hsocket : ∀ {id : Id} {socket : Socket},
      (w.shared.handle inst message).sockets.get id = some socket →
      w.shared.sockets.get id = some socket ∧
        socket.killedBy w.shared.tokens inst message.named = false := by
    intro id socket hget
    change (w.shared.sockets.keep _).get id = some socket at hget
    rw [Table.get_keep, Option.filter_eq_some_iff] at hget
    exact ⟨hget.1, by simpa using hget.2⟩
  refine h.moves (.of_tables (fun _ token hget => ⟨token, hget, rfl, id⟩) fun _ hd => hd)
    (fun q' hq' => ?_) (fun q' hq' => Or.inl (List.mem_of_mem_eraseP hq'))
    (fun _ hq' => List.mem_append_left _ hq') (fun q' hq' => ?_)
    (fun id socket' hget => Or.inl ⟨id, socket', (hsocket hget).1, rfl, rfl⟩)
    fun u hu => Or.inl ⟨u, hu, rfl⟩
  · rcases mem_eraseP_or_eq hq hq' with hstays | rfl
    · exact Or.inl hstays
    · refine Or.inr (List.mem_append_right _ (List.mem_singleton.mpr ?_))
      rw [← hinst, ← hmessage]
  · rcases List.mem_append.mp hq' with hold | hnew
    · exact Or.inl hold
    · obtain rfl := List.mem_singleton.mp hnew
      refine Or.inr ⟨fun γ hγ => hhit γ hγ, fun id socket hget hi hmem => ?_⟩
      obtain ⟨hold, hspared⟩ := hsocket hget
      have hnames := (hhit _ hmem).2
      have hjoined : socket.joined = false := by
        simpa [Socket.killedBy, hi, hnames] using hspared
      -- a handshake that the message names
      simp only [sparesNobody, hnext, Option.all_some, List.isEmpty_iff] at hcheck
      have hsel : (id, socket) ∈ w.shared.sockets.select fun _ socket => socket.inst == inst &&
          !socket.joined && message.named.names w.shared.tokens socket.credential :=
        Table.mem_select.mpr ⟨hold, by simp [hi, hjoined, hnames]⟩
      rw [hcheck] at hsel
      cases hsel

end step

/-! ## Runs -/

variable {users : Table Id User} {devices : Table Id Bool}

theorem cut_of_checked {w : RevocationWorld} (h : Checked (system cfg)
    (fun w a => sparesNobody w a = true) (opening users devices) w) : Cut cfg w := by
  induction h with
  | refl =>
    exact ⟨fun t ht => absurd ht List.not_mem_nil, fun q hq => absurd hq List.not_mem_nil,
      fun q hq => absurd hq List.not_mem_nil⟩
  | @tail w w' a hw hcheck hs ih =>
    have hcovered : Covered cfg w.shared := covered_of_runs hw.runs
    cases World.transition_of_act hs with
    | start c =>
      refine ih.quiet (.refl _) rfl rfl rfl fun u hu => ?_
      rcases List.mem_append.mp hu with hold | hnew
      · exact Or.inl ⟨u, hold, rfl⟩
      · rw [List.mem_singleton.mp hnew]
        exact Or.inr trivial
    | step ht hp hx =>
      exact ih.step hcovered ht ((sound_of_runs hw.runs).step ht hp trivial hx).1 hx
    | crash ht _ => exact ih.quiet (.refl _) rfl rfl rfl (notes_set ht (Or.inl rfl))
    | @world e s' hx =>
      cases e with
      | tick elapsed =>
        obtain rfl := Option.some.inj hx
        exact ih.quiet (.of_tables (fun _ token hget => ⟨token, hget, rfl, id⟩) fun _ hd => hd)
          rfl rfl rfl fun u hu => Or.inl ⟨u, hu, rfl⟩
      | handle inst =>
        obtain ⟨message, hnext, rfl⟩ := Option.map_eq_some_iff.mp hx
        exact ih.handles hnext hcheck
      | hangUp socketId =>
        obtain rfl := Option.some.inj hx
        refine ih.moves (.of_tables (fun _ token hget => ⟨token, hget, rfl, id⟩) fun _ hd => hd)
          (fun _ hq => Or.inl hq) (fun _ hq => Or.inl hq) (fun _ hq => hq) (fun _ hq => Or.inl hq)
          (fun id socket' hget => Or.inl ⟨id, socket', Table.get_of_keep hget, rfl, rfl⟩)
          fun u hu => Or.inl ⟨u, hu, rfl⟩

/-- The message was handled by every instance. -/
def State.Handled (cfg : Config) (s : State) (message : Message) : Prop :=
  ∀ n ∈ cfg.instances, (n, message) ∉ s.inbox

instance (cfg : Config) (s : State) (message : Message) : Decidable (s.Handled cfg message) :=
  inferInstanceAs (Decidable (∀ n ∈ cfg.instances, _))

/-- No instance has a socket that was authenticated with a victim of the message. -/
def State.Clear (cfg : Config) (s : State) (message : Message) : Prop :=
  ∀ id socket, s.sockets.get id = some socket → socket.inst ∈ cfg.instances →
    socket.credential ∉ message.victims

/-- Ada signs in (call 0) and opens a socket on instance 1 (call 1); her role is changed (call 2),
and both instances hear of it. -/
def cutOff : List RevocationAct :=
  [.start (.login 7)] ++ steps 0 2 100 ++ [.start (.connectKds 1 100)] ++ steps 1 2 500 ++
    [.start (.updateUser 7 true)] ++ steps 2 3 0 ++ [.world (.handle 1), .world (.handle 2)]

/-- The message of the change. -/
def adaChanged : Message := ⟨.user 7, 0, [.token 100]⟩

/-- Ada's handshake is checked (call 1) before the change is applied, and filed in its rooms after
both instances have handled the message. -/
def missed : List RevocationAct :=
  [.start (.login 7)] ++ steps 0 2 100 ++ [.start (.connectKds 1 100)] ++ steps 1 1 500 ++
    [.start (.updateUser 7 true)] ++ steps 2 3 0 ++ [.world (.handle 1), .world (.handle 2)] ++
    steps 1 1 0

end CafePos.Revocation
