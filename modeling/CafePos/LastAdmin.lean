import CafePos.Users

/-!
# The last admin

The locks of `update` are on the admins of one snapshot, its count and its write see later ones.
In every run in which a locking `SELECT` that returns holds every active admin there is by then
(`locksEveryAdmin`), the transactions that have their locks exclude each other, and an active
admin is left by every commit. Without that, two transactions with different locks can take each
other's admin for cover.
-/

namespace CafePos.Users

open Interleaving
open Auth (UserRole)

/-! ## Admins of a table -/

/-- The account is an active admin. -/
def IsAdmin (users : Table Id User) (id : Id) : Prop :=
  ∃ user, users.get id = some user ∧ user.isActiveAdmin

/-- There is an active admin. -/
def HasAdmin (users : Table Id User) : Prop := ∃ id, IsAdmin users id

/-- No account goes, and every account keeps what makes it an admin. -/
def Keeps (users users' : Table Id User) : Prop := ∀ id user, users.get id = some user →
  ∃ user', users'.get id = some user' ∧ user'.isActiveAdmin = user.isActiveAdmin

theorem Keeps.refl (users : Table Id User) : Keeps users users := fun _ user h => ⟨user, h, rfl⟩

theorem Keeps.isAdmin {users users' : Table Id User} (h : Keeps users users') {id : Id}
    (hid : IsAdmin users id) : IsAdmin users' id := by
  obtain ⟨user, hget, hadmin⟩ := hid
  obtain ⟨user', hget', heq⟩ := h id user hget
  exact ⟨user', hget', heq.trans hadmin⟩

/-- A row is put that is an admin if the old one was. -/
theorem Keeps.put {users : Table Id User} {id : Id} {user' : User}
    (h : ∀ user, users.get id = some user → user'.isActiveAdmin = user.isActiveAdmin) :
    Keeps users (users.put id user') := by
  intro id' user hget
  by_cases hid : id' = id
  · subst hid
    exact ⟨user', Table.get_put_self .., h user hget⟩
  · exact ⟨user, (Table.get_put_ne _ _ hid).trans hget, rfl⟩

/-- The same write on top of both. -/
theorem Keeps.apply {users users' : Table Id User} (h : Keeps users users')
    (w : Rows.Write Id User) : Keeps (w.apply users) (w.apply users') := by
  intro id user hget
  by_cases hid : id = w.row
  · -- the row that is written is the same on both sides
    have hsame : (w.apply users').get id = (w.apply users).get id := by
      subst hid
      cases w with
      | put id user => simp [Rows.Write.apply, Rows.Write.row]
      | erase id => simp [Rows.Write.apply, Rows.Write.row, Table.get_keep]
    exact ⟨user, hsame.trans hget, rfl⟩
  · rw [w.get_apply _ hid] at hget ⊢
    exact h id user hget

/-- The same writes on top of both. -/
theorem Keeps.applyAll {users users' : Table Id User} (h : Keeps users users')
    (log : List (Rows.Write Id User)) :
    Keeps (Rows.store.applyAll log users) (Rows.store.applyAll log users') := by
  induction log generalizing users users' with
  | nil => exact h
  | cons w log ih => exact ih (h.apply w)

/-- What a transaction has learnt is true of what it sees. -/
def Stage.Holds (users : Table Id User) : Stage → Prop
  | outside => True
  | notAdmin id => ∃ user, users.get id = some user ∧ user.isActiveAdmin = false
  | admin id => IsAdmin users id
  | others id => ∃ id', id' ≠ id ∧ IsAdmin users id'
  | written => True

theorem Keeps.holds {users users' : Table Id User} (h : Keeps users users') {stage : Stage}
    (hs : stage.Holds users) : stage.Holds users' := by
  cases stage with
  | outside | written => trivial
  | notAdmin id =>
    obtain ⟨user, hget, hnot⟩ := hs
    obtain ⟨user', hget', heq⟩ := h id user hget
    exact ⟨user', hget', heq.trans hnot⟩
  | admin id => exact h.isAdmin hs
  | others id =>
    obtain ⟨id', hne, hadmin⟩ := hs
    exact ⟨id', hne, h.isAdmin hadmin⟩

/-! ## What the program does -/

/-- The changes leave an active admin one. -/
def UpdateUserInput.keepsAdmin (changes : UpdateUserInput) : Prop :=
  changes.role.getD .admin = .admin ∧ changes.isActive.getD true = true

theorem keepsAdmin_of_willBeAdmin {current : UserRole × Bool} {changes : UpdateUserInput}
    (hwas : wasAdmin current) (hwill : willBeAdmin current changes) : changes.keepsAdmin := by
  simp only [wasAdmin, willBeAdmin, Bool.and_eq_true, beq_iff_eq] at hwas hwill
  rw [hwas.1, hwas.2] at hwill
  exact hwill

/-- When a call may perform an operation. -/
def Legal : Rows.Op Query → Conn → Prop
  | .statement (.insert _), l => l.session.active = false ∧ l.note = .outside
  | .statement (.rename _ changes), l => l.session.active = false ∧ l.note = .outside ∧
      changes.role = none ∧ changes.isActive = none
  | .statement (.current _), l => l.note = .outside
  | .statement (.countOthers _), l => l.note ≠ .outside
  | .statement (.update id changes), l => l.session.active = true ∧
      (l.note = .notAdmin id ∨ l.note = .admin id ∧ changes.keepsAdmin ∨ l.note = .others id)
  | _, _ => True

/-- The operations of calls are legal. -/
def spec (P : Permit (Table Id User) Conn (Rows.Op Query) Call Empty) :
    Spec (Table Id User) Conn (Rows.Op Query) Call Empty where
  inv _ := True
  rely _ _ := True
  gua _ o l _ _ _ := Legal o l
  permit := P
  rely_refl _ := trivial
  rely_trans _ _ := trivial
  gua_rely _ _ := trivial
  gua_inv _ _ _ := trivial

section calls

variable {P : Permit (Table Id User) Conn (Rows.Op Query) Call Empty} {α : Type} {c : Call}
  {T : Err → Conn → Table Id User → Prop} {l : Conn} {s : Table Id User}

/-- A statement: what it leaves of the connection, and what it teaches. -/
theorem ensures_send {q : Query} {Q : q.Ans → Conn → Table Id User → Prop}
    (hl : Legal (.statement q) l)
    (h : ∀ a l' s, (l.session.active = true → l'.session.active = true) →
      l'.note = learn l.note q a → Q a l' s) :
    (spec P).Ensures (Rows.machine language) c (send q) Q T l s := by
  refine .perform fun s₁ inp locked r l' s₂ _ _ hx => ?_
  obtain ⟨r', hr, hr'⟩ := Option.map_eq_some_iff.mp hx
  obtain ⟨rfl, rfl, rfl⟩ := Prod.mk.inj hr' |>.imp_right Prod.mk.inj
  refine ⟨hl, h _ _ _ (fun hactive => ?_) rfl⟩
  obtain ⟨-, ⟨-, hl', -⟩ | ⟨-, -, hl', -⟩ | ⟨hfalse, -, -, -⟩⟩ := Session.execute_cases hr
  · rw [hl']
    rfl
  · rw [hl']
    exact hactive
  · rw [hactive] at hfalse
    cases hfalse

/-- A transaction: its work begins on a fresh session. -/
theorem ensures_transaction {work : Service α}
    (h : ∀ l s, l.session.active = true → l.note = .outside → (spec P).Ensures
      (Rows.machine language) c work (fun _ _ _ => True) (fun _ _ _ => True) l s) :
    (spec P).Ensures (Rows.machine language) c (Rows.Service.transaction work)
      (fun _ _ _ => True) (fun _ _ _ => True) l s := by
  intro s₁ _ _ inp locked r l' s₂ _ hx
  refine ⟨trivial, ?_⟩
  obtain ⟨-, rfl, rfl⟩ := Option.some.inj hx |> Prod.mk.inj |>.imp_right Prod.mk.inj
  refine Spec.wp_bind (m := work.run) (Spec.wp_mono (fun r l' s' _ _ => ?_)
    (h ⟨l.session.begin, .outside⟩ s₁ rfl rfl))
  cases r with
  | ok a => exact fun _ _ _ _ _ _ _ _ _ _ => ⟨trivial, trivial⟩
  | error e => exact fun _ _ _ _ _ _ _ _ _ _ => ⟨trivial, trivial⟩

theorem create_ensures (input : CreateUserInput) (hl : l.session.active = false)
    (hn : l.note = .outside) :
    (spec P).Ensures (Rows.machine language) c (create input) (fun _ _ _ => True)
      (fun _ _ _ => True) l s := by
  refine .bind (.perform fun s₁ inp locked r l' s₂ _ _ hx => ⟨trivial, ?_⟩)
  -- hashing a password leaves the connection as it is
  obtain ⟨r', hr, hr'⟩ := Option.map_eq_some_iff.mp hx
  obtain ⟨rfl, rfl, rfl⟩ := Prod.mk.inj hr' |>.imp_right Prod.mk.inj
  obtain ⟨-, ⟨hactive, -, -⟩ | ⟨-, -, hl', -⟩ | ⟨-, -, hl', -⟩⟩ := Session.execute_cases hr
  · rw [hl] at hactive
    cases hactive
  all_goals
    refine .bind (ensures_send ⟨by rw [hl']; first | exact hl | rfl, hn⟩ fun a l' s _ _ => ?_)
    cases a with
    | ok id => exact .pure trivial
    | error e => exact .throw trivial

/-- The locks are taken inside the transaction. -/
theorem lockAll_ensures (ids : List Id) (hl : l.session.active = true) (hn : l.note = .outside) :
    (spec P).Ensures (Rows.machine language) c (lockAll ids)
      (fun _ l _ => l.session.active = true ∧ l.note = .outside) (fun _ _ _ => True) l s := by
  induction ids generalizing l s with
  | nil => exact .pure ⟨hl, hn⟩
  | cons id ids ih =>
    refine .bind (ensures_send trivial fun a l' s hactive hnote => ?_)
    exact ih (hactive hl) (hnote.trans hn)

/-- The account is written when the guard has passed. -/
theorem guardedUpdate_ensures (id : Id) (changes : UpdateUserInput)
    (hl : l.session.active = true) (hn : l.note = .outside) :
    (spec P).Ensures (Rows.machine language) c (guardedUpdate id changes) (fun _ _ _ => True)
      (fun _ _ _ => True) l s := by
  refine .bind (ensures_send trivial fun ids l₁ s hactive hnote => ?_)
  refine .bind (Spec.wp_mono (fun r l₂ s _ hr => ?_)
    (lockAll_ensures ids (hactive hl) (hnote.trans hn)))
  cases r with
  | error e => exact hr
  | ok _ =>
    obtain ⟨hl₂, hn₂⟩ := hr
    refine .bind (ensures_send hn₂ fun current l₃ s hactive₃ hnote₃ => ?_)
    have hl₃ := hactive₃ hl₂
    cases current with
    | none => exact .throw trivial
    | some current =>
      have hwrite : ∀ l s, l.session.active = true → (l.note = .notAdmin id ∨
          l.note = .admin id ∧ changes.keepsAdmin ∨ l.note = .others id) →
          (spec P).Ensures (Rows.machine language) c (send (.update id changes))
            (fun _ _ _ => True) (fun _ _ _ => True) l s :=
        fun l s hl hstage => ensures_send ⟨hl, hstage⟩ fun _ _ _ _ _ => trivial
      have hlearnt : l₃.note = if wasAdmin current then .admin id else .notAdmin id := hnote₃
      refine .bind (.ite (fun hwas => ?_) fun hwas => .ite (fun hwill => ?_) fun _ => ?_)
      · have hnot : wasAdmin current = false := by simpa using hwas
        exact .pure (hwrite _ _ hl₃ (Or.inl (hlearnt.trans (if_neg (by simp [hnot])))))
      · have hadmin : wasAdmin current = true := by simpa using hwas
        have hkeeps := keepsAdmin_of_willBeAdmin hadmin hwill
        exact .pure (hwrite _ _ hl₃ (Or.inr (Or.inl ⟨hlearnt.trans (if_pos hadmin), hkeeps⟩)))
      · have hadmin : wasAdmin current = true := by simpa using hwas
        have hnote : l₃.note ≠ .outside := by
          rw [hlearnt, if_pos hadmin]
          exact Stage.noConfusion
        refine .bind (ensures_send hnote fun (count : ℕ) l₄ s hactive₄ hnote₄ => ?_)
        refine .ite (fun _ => .throw trivial) fun hcount => ?_
        have hothers : l₄.note = .others id := by
          rw [hnote₄]
          change learnOthers l₃.note id count = _
          rw [learnOthers, if_neg hcount]
        exact .pure (hwrite _ _ (hactive₄ hl₃) (Or.inr (Or.inr hothers)))

theorem update_ensures (id : Id) (changes : UpdateUserInput) (hl : l.session.active = false)
    (hn : l.note = .outside) :
    (spec P).Ensures (Rows.machine language) c (update id changes) (fun _ _ _ => True)
      (fun _ _ _ => True) l s := by
  refine .ite (fun hfree => ?_) fun _ => ?_
  · have hchanges : changes.role = none ∧ changes.isActive = none := by simpa using hfree
    refine .bind (ensures_send ⟨hl, hn, hchanges⟩ fun renamed l' s _ _ => ?_)
    cases renamed with
    | none => exact .throw trivial
    | some renamed => exact .pure trivial
  · refine .bind (Spec.wp_mono (fun r l' s _ hr => ?_)
      (ensures_transaction fun l s hl hn => guardedUpdate_ensures id changes hl hn))
    cases r with
    | error e => exact trivial
    | ok updated => exact .bind (ensures_send trivial fun _ _ _ _ _ => .pure trivial)

end calls

theorem starts (P : Permit (Table Id User) Conn (Rows.Op Query) Call Empty) (base : Table Id User) :
    Starts (spec P) system base 0 (fun _ _ _ _ _ => True) := by
  intro i c s _ _ _ _
  cases c with
  | create input =>
    exact (create_ensures input rfl rfl).answers (fun _ _ _ _ => trivial) fun _ _ _ _ => trivial
  | update id changes =>
    exact Spec.wp_mono (fun _ _ _ _ _ => trivial) (update_ensures id changes rfl rfl)

theorem happens (P : Permit (Table Id User) Conn (Rows.Op Query) Call Empty) :
    Happens (spec P) system := fun e => e.elim

/-! ## Transactions that have their locks -/

/-- What a transaction sees. -/
def Conn.view (l : Conn) (s : Table Id User) : Table Id User := l.session.view Rows.store s

/-- A transaction that has its locks holds an admin, is right in what it has learnt, and will
leave an admin. -/
structure Inside (l : Conn) (s : Table Id User) : Prop where
  pinned : ∃ id ∈ l.session.held, IsAdmin s id
  stage : l.note.Holds (Conn.view l s)
  admin : HasAdmin (Conn.view l s)

/-- There is an admin, and at most one transaction has its locks. -/
structure Guarded (w : UserWorld) : Prop where
  admin : HasAdmin w.shared
  /-- before a transaction has its locks it has written nothing -/
  clean : ∀ t ∈ w.threads, t.session.note = .outside → t.session.session.log = []
  inside : ∀ t ∈ w.threads, t.session.note ≠ .outside → Inside t.session w.shared
  alone : ∀ {i j : ℕ} {t u : UserThread}, w.threads[i]? = some t → w.threads[j]? = some u →
    t.session.note ≠ .outside → u.session.note ≠ .outside → i = j

/-- What others leave as it is stays true. -/
theorem Inside.keeps {l : Conn} {s s' : Table Id User} (h : Inside l s) (hs : Keeps s s') :
    Inside l s' where
  pinned := by
    obtain ⟨id, hid, hadmin⟩ := h.pinned
    exact ⟨id, hid, hs.isAdmin hadmin⟩
  stage := (hs.applyAll l.session.log).holds h.stage
  admin := by
    obtain ⟨id, hadmin⟩ := h.admin
    exact ⟨id, (hs.applyAll l.session.log).isAdmin hadmin⟩

/-- A call moves, and nobody loses or becomes an admin who was there. -/
theorem Guarded.set {w : UserWorld} {i : ℕ} {t : UserThread} {l' : Conn} {s' : Table Id User}
    {p : Option (Prog (Rows.Op Query) (Rows.Op.Res Query.Ans) _)} (h : Guarded w)
    (ht : w.threads[i]? = some t) (hs : Keeps w.shared s')
    (hclean : l'.note = .outside → l'.session.log = [])
    (hinside : l'.note ≠ .outside → Inside l' s' ∧
      (t.session.note = .outside → ∀ u ∈ w.threads, u.session.note = .outside)) :
    Guarded ⟨s', w.threads.set i ⟨t.call, l', p⟩⟩ where
  admin := by
    obtain ⟨id, hadmin⟩ := h.admin
    exact ⟨id, hs.isAdmin hadmin⟩
  clean u hu hnote := by
    rcases List.mem_or_eq_of_mem_set hu with hold | rfl
    · exact h.clean u hold hnote
    · exact hclean hnote
  inside u hu hnote := by
    rcases List.mem_or_eq_of_mem_set hu with hold | rfl
    · exact (h.inside u hold hnote).keeps hs
    · exact (hinside hnote).1
  alone {j k u v} hu hv hnu hnv := by
    -- another call that has its locks
    have hother : ∀ {j u}, j ≠ i → (w.threads.set i ⟨t.call, l', p⟩)[j]? = some u →
        u.session.note ≠ .outside → l'.note ≠ .outside → j = i := by
      intro j u hj hu hnu hnl
      rw [List.getElem?_set_ne (Ne.symm hj)] at hu
      by_cases hnt : t.session.note = .outside
      · exact absurd ((hinside hnl).2 hnt u (List.mem_of_getElem? hu)) hnu
      · exact h.alone hu ht hnu hnt
    have hself : ∀ {u : UserThread}, (w.threads.set i ⟨t.call, l', p⟩)[i]? = some u →
        u.session = l' := by
      intro u hu
      rw [List.getElem?_set_self (List.getElem?_eq_some_iff.mp ht).1] at hu
      rw [← Option.some.inj hu]
    by_cases hj : j = i
    · subst hj
      by_cases hk : k = j
      · exact hk.symm
      · rw [hself hu] at hnu
        exact (hother hk hv hnv hnu).symm
    · by_cases hk : k = i
      · subst hk
        rw [hself hv] at hnv
        exact hother hj hu hnu hnv
      · rw [List.getElem?_set_ne (Ne.symm hj)] at hu
        rw [List.getElem?_set_ne (Ne.symm hk)] at hv
        exact h.alone hu hv hnu hnv

/-- A call begins. -/
theorem Guarded.start {w : UserWorld} (h : Guarded w) (c : Call) :
    Guarded ⟨w.shared, w.threads ++ [⟨c, system.machine.idle, some (system.program c)⟩]⟩ := by
  have hnew : ∀ {u : UserThread},
      u ∈ w.threads ++ [⟨c, system.machine.idle, some (system.program c)⟩] →
      u ∈ w.threads ∨ u.session.note = .outside ∧ u.session.session.log = [] := by
    intro u hu
    rcases List.mem_append.mp hu with hold | hlast
    · exact Or.inl hold
    · rw [List.mem_singleton.mp hlast]
      exact Or.inr ⟨rfl, rfl⟩
  have hold : ∀ {j : ℕ} {u : UserThread},
      (w.threads ++ [⟨c, system.machine.idle, some (system.program c)⟩])[j]? = some u →
      u.session.note ≠ .outside → w.threads[j]? = some u := by
    intro j u hu hnote
    rw [List.getElem?_append] at hu
    split at hu
    · exact hu
    · rw [List.mem_singleton.mp (List.mem_of_getElem? hu)] at hnote
      exact absurd rfl hnote
  refine ⟨h.admin, fun u hu hnote => ?_, fun u hu hnote => ?_, fun hu hv hnu hnv =>
    h.alone (hold hu hnu) (hold hv hnv) hnu hnv⟩
  · rcases hnew hu with hu | ⟨-, hlog⟩
    · exact h.clean u hu hnote
    · exact hlog
  · rcases hnew hu with hu | ⟨hout, -⟩
    · exact h.inside u hu hnote
    · exact absurd hout hnote

/-- A transaction that has its locks commits: nobody else has. -/
theorem Guarded.commit {w : UserWorld} {i : ℕ} {t : UserThread}
    {p : Option (Prog (Rows.Op Query) (Rows.Op.Res Query.Ans) _)} (h : Guarded w)
    (ht : w.threads[i]? = some t) (hnote : t.session.note ≠ .outside) :
    Guarded ⟨Conn.view t.session w.shared,
      w.threads.set i ⟨t.call, ⟨t.session.session.release t.session.session.log, .outside⟩, p⟩⟩ := by
  have hout : ∀ {j : ℕ} {u : UserThread}, (w.threads.set i ⟨t.call,
      ⟨t.session.session.release t.session.session.log, .outside⟩, p⟩)[j]? = some u →
      u.session.note = .outside := by
    intro j u hu
    by_cases hj : j = i
    · subst hj
      rw [List.getElem?_set_self (List.getElem?_eq_some_iff.mp ht).1] at hu
      rw [← Option.some.inj hu]
    · rw [List.getElem?_set_ne (Ne.symm hj)] at hu
      by_contra hnu
      exact hj (h.alone hu ht hnu hnote)
  refine ⟨(h.inside t (List.mem_of_getElem? ht) hnote).admin, fun u hu hnu => ?_,
    fun u hu hnu => ?_, fun hu _ hnu _ => absurd (hout hu) hnu⟩
  · rcases List.mem_or_eq_of_mem_set hu with hold | rfl
    · exact h.clean u hold hnu
    · rfl
  · obtain ⟨j, hj⟩ := List.getElem?_of_mem hu
    exact absurd (hout hj) hnu

/-! ## The lock condition -/

/-- A locking `SELECT` that returns holds every active admin there is by then. -/
def locksEveryAdmin (_ : Call) (o : Rows.Op Query) (l : Conn) (s : Table Id User) : Bool :=
  match o with
  | .statement (.current _) =>
    (s.select fun _ user => user.isActiveAdmin).all fun q => decide (q.1 ∈ l.session.held)
  | _ => true

theorem mem_held_of_locksEveryAdmin {c : Call} {id id' : Id} {l : Conn} {s : Table Id User}
    (h : locksEveryAdmin c (.statement (.current id)) l s) (hadmin : IsAdmin s id') :
    id' ∈ l.session.held := by
  obtain ⟨user, hget, huser⟩ := hadmin
  have hmem : (id', user) ∈ s.select fun _ user => user.isActiveAdmin :=
    Table.mem_select.mpr ⟨hget, huser⟩
  exact of_decide_eq_true (List.all_eq_true.mp h _ hmem)

/-- What the account statement writes leaves an admin, if the transaction may write. -/
theorem hasAdmin_put {users : Table Id User} {id : Id} {user : User} {changes : UpdateUserInput}
    {stage : Stage} (hget : users.get id = some user) (hadmin : HasAdmin users)
    (hholds : stage.Holds users)
    (hstage : stage = .notAdmin id ∨ stage = .admin id ∧ changes.keepsAdmin ∨ stage = .others id) :
    HasAdmin (users.put id (user.changed changes)) := by
  have hother : ∀ {id'}, id' ≠ id → IsAdmin users id' →
      HasAdmin (users.put id (user.changed changes)) := by
    rintro id' hne ⟨user', hget', huser'⟩
    exact ⟨id', user', (Table.get_put_ne _ _ hne).trans hget', huser'⟩
  rcases hstage with rfl | ⟨rfl, hkeeps⟩ | rfl
  · obtain ⟨user₁, hget₁, hnot⟩ := hholds
    obtain ⟨id', user', hget', huser'⟩ := hadmin
    refine hother (fun hid => ?_) ⟨user', hget', huser'⟩
    rw [hid, hget₁] at hget'
    rw [← Option.some.inj hget', hnot] at huser'
    cases huser'
  · obtain ⟨user₁, hget₁, huser₁⟩ := hholds
    obtain rfl := Option.some.inj (hget.symm.trans hget₁)
    simp only [User.isActiveAdmin, Bool.and_eq_true, beq_iff_eq] at huser₁
    refine ⟨id, _, Table.get_put_self .., ?_⟩
    simp only [User.isActiveAdmin, User.changed, huser₁.1, huser₁.2, hkeeps.1, hkeeps.2,
      beq_self_eq_true, Bool.and_self]
  · obtain ⟨id', hne, hadmin'⟩ := hholds
    exact hother hne hadmin'

/-! ## One step -/

/-- Nothing is forgotten inside a transaction. -/
theorem learn_outside {stage : Stage} {q : Query} {a : q.Ans} (h : learn stage q a = .outside) :
    stage = .outside := by
  cases q with
  | current id =>
    cases a with
    | none => exact h
    | some current =>
      simp only [learn] at h
      split at h <;> cases h
  | countOthers id =>
    simp only [learn, learnOthers] at h
    split at h
    · exact h
    · cases h
  | update id changes =>
    cases a with
    | none => exact h
    | some user => cases h
  | _ => exact h

/-- The count is right about the others. -/
theorem Stage.Holds.learnOthers {users : Table Id User} {stage : Stage} {id : Id} {count : ℕ}
    (h : stage.Holds users) (hcount : count = (Users.others users id).length) :
    (Users.learnOthers stage id count).Holds users := by
  rw [Users.learnOthers]
  split
  · exact h
  · rename_i hne
    have hnil : Users.others users id ≠ [] := by
      rintro hnil
      rw [hcount, hnil] at hne
      exact hne rfl
    obtain ⟨q, hq⟩ := List.exists_mem_of_ne_nil _ hnil
    obtain ⟨hget, hq'⟩ := Table.mem_select.mp hq
    simp only [Bool.and_eq_true, bne_iff_ne] at hq'
    exact ⟨q.1, hq'.2, q.2, hget, hq'.1⟩

section step

variable {P : Permit (Table Id User) Conn (Rows.Op Query) Call Empty} {base : Table Id User}
  {w : UserWorld} {i : ℕ} {t : UserThread} {inp : Input} {locked : Id → Bool}
  {l' : Conn} {s' : Table Id User}
  {p : Option (Prog (Rows.Op Query) (Rows.Op.Res Query.Ans) (Except Err (Option StaffAccount)))}

/-- A statement that writes nothing, and teaches what is true. -/
theorem Guarded.reads {q : Query} {a : q.Ans} (h : Guarded w) (ht : w.threads[i]? = some t)
    (hx : Rows.exec language inp locked t.session w.shared (.statement q) = some (a, l', s'))
    (hw : (effect inp (Conn.view t.session w.shared) q).writes = [])
    (hnote : l'.note = .outside ∨ t.session.note ≠ .outside)
    (hlearn : a = (effect inp (Conn.view t.session w.shared) q).answer →
      t.session.note.Holds (Conn.view t.session w.shared) →
      (learn t.session.note q a).Holds (Conn.view t.session w.shared)) :
    Guarded ⟨s', w.threads.set i ⟨t.call, l', p⟩⟩ := by
  obtain ⟨r', hr, hr'⟩ := Option.map_eq_some_iff.mp hx
  obtain ⟨rfl, rfl, rfl⟩ := Prod.mk.inj hr' |>.imp_right Prod.mk.inj
  obtain ⟨hs, hlog, hheld⟩ := Session.execute_reads (D := Rows.store) hr hw
  have hanswer := (Session.execute_cases (D := Rows.store) hr).1
  have hview : r'.2.1.view Rows.store w.shared = Conn.view t.session w.shared := by
    rw [Session.view, hlog]
    rfl
  rw [hs]
  refine h.set ht (.refl _) (fun hout => ?_) fun hin => ?_
  · have hclean := h.clean t (List.mem_of_getElem? ht) (learn_outside hout)
    exact hlog.trans hclean
  · have hin' := hnote.resolve_left hin
    have hold := h.inside t (List.mem_of_getElem? ht) hin'
    refine ⟨⟨?_, ?_, ?_⟩, fun hout => absurd hout hin'⟩
    · obtain ⟨id, hid, hadmin⟩ := hold.pinned
      exact ⟨id, hheld id hid, hadmin⟩
    · rw [Conn.view, hview]
      exact hlearn hanswer hold.stage
    · rw [Conn.view, hview]
      exact hold.admin

/-- A statement of its own, outside transactions. -/
theorem Guarded.autocommits {q : Query} {a : q.Ans} (h : Guarded w) (ht : w.threads[i]? = some t)
    (hx : Rows.exec language inp locked t.session w.shared (.statement q) = some (a, l', s'))
    (hactive : t.session.session.active = false) (hnote : learn t.session.note q a = .outside)
    (hkeeps : Keeps w.shared
      (Rows.store.applyAll (effect inp (Conn.view t.session w.shared) q).writes w.shared)) :
    Guarded ⟨s', w.threads.set i ⟨t.call, l', p⟩⟩ := by
  obtain ⟨r', hr, hr'⟩ := Option.map_eq_some_iff.mp hx
  obtain ⟨rfl, rfl, rfl⟩ := Prod.mk.inj hr' |>.imp_right Prod.mk.inj
  have hclean := h.clean t (List.mem_of_getElem? ht) (learn_outside hnote)
  obtain ⟨-, ⟨hin, -, -⟩ | ⟨-, -, hl', hs'⟩ | ⟨-, -, hl', hs'⟩⟩ :=
    Session.execute_cases (D := Rows.store) hr
  · rw [hactive] at hin
    cases hin
  · rw [hl', hs']
    exact h.set ht (.refl _) (fun _ => hclean) fun hin => absurd hnote hin
  · rw [hl', hs']
    exact h.set ht hkeeps (fun _ => rfl) fun hin => absurd hnote hin

/-- The transaction gets its last lock, and reads the account. -/
theorem Guarded.enters {id : Id} {a : Option (UserRole × Bool)} (h : Guarded w)
    (hapart : ∀ {j : ℕ} {u : UserThread}, w.threads[j]? = some u → i ≠ j →
      ∀ x ∈ t.session.session.held, x ∉ u.session.session.held)
    (ht : w.threads[i]? = some t) (hnote : t.session.note = .outside)
    (hcheck : locksEveryAdmin t.call (.statement (.current id)) t.session w.shared)
    (hx : Rows.exec language inp locked t.session w.shared (.statement (.current id)) =
      some (a, l', s')) :
    Guarded ⟨s', w.threads.set i ⟨t.call, l', p⟩⟩ := by
  obtain ⟨r', hr, hr'⟩ := Option.map_eq_some_iff.mp hx
  obtain ⟨rfl, rfl, rfl⟩ := Prod.mk.inj hr' |>.imp_right Prod.mk.inj
  obtain ⟨hs, hlog, hheld⟩ := Session.execute_reads (D := Rows.store) hr rfl
  have hclean := h.clean t (List.mem_of_getElem? ht) hnote
  have hview : ∀ l : Conn, l.session.log = [] → Conn.view l w.shared = w.shared := by
    intro l hl
    rw [Conn.view, Session.view, hl]
    rfl
  have hanswer : r'.1 = (w.shared.get id).map fun user => (user.role, user.isActive) := by
    rw [(Session.execute_cases (D := Rows.store) hr).1]
    change ((Conn.view t.session w.shared).get id).map _ = _
    rw [hview t.session hclean]
  rw [hs]
  refine h.set ht (.refl _) (fun _ => hlog.trans hclean) fun hin => ⟨⟨?_, ?_, ?_⟩, fun _ u hu => ?_⟩
  · obtain ⟨id', hadmin⟩ := h.admin
    exact ⟨id', hheld id' (mem_held_of_locksEveryAdmin hcheck hadmin), hadmin⟩
  · rw [hview _ (hlog.trans hclean)]
    cases hget : w.shared.get id with
    | none =>
      rw [hget] at hanswer
      rw [hanswer]
      exact hnote ▸ trivial
    | some user =>
      rw [hget] at hanswer
      rw [hanswer]
      change Stage.Holds _ (if user.isActiveAdmin then Stage.admin id else .notAdmin id)
      split
      · rename_i huser
        exact ⟨user, hget, huser⟩
      · rename_i huser
        exact ⟨user, hget, by simpa using huser⟩
  · rw [hview _ (hlog.trans hclean)]
    exact h.admin
  · -- whoever has its locks holds an admin, and so does this transaction
    by_contra hnu
    obtain ⟨j, hj⟩ := List.getElem?_of_mem hu
    obtain ⟨id', hid', hadmin⟩ := (h.inside u hu hnu).pinned
    have hij : i ≠ j := by
      rintro rfl
      obtain rfl := Option.some.inj (ht.symm.trans hj)
      exact hnu hnote
    exact hapart hj hij id' (mem_held_of_locksEveryAdmin hcheck hadmin) hid'

/-- The account is written. -/
theorem Guarded.writes {id : Id} {changes : UpdateUserInput} {a : Option User} (h : Guarded w)
    (ht : w.threads[i]? = some t) (hactive : t.session.session.active = true)
    (hstage : t.session.note = .notAdmin id ∨ t.session.note = .admin id ∧ changes.keepsAdmin ∨
      t.session.note = .others id)
    (hx : Rows.exec language inp locked t.session w.shared (.statement (.update id changes)) =
      some (a, l', s')) :
    Guarded ⟨s', w.threads.set i ⟨t.call, l', p⟩⟩ := by
  have hin : t.session.note ≠ .outside := by
    rcases hstage with hn | ⟨hn, -⟩ | hn <;> rw [hn] <;> exact Stage.noConfusion
  have hold := h.inside t (List.mem_of_getElem? ht) hin
  cases hget : (Conn.view t.session w.shared).get id with
  | none =>
    have hw : (effect inp (Conn.view t.session w.shared) (.update id changes)).writes = [] := by
      simp [effect, updateEffect, hget]
    refine h.reads ht hx hw (Or.inr hin) fun hanswer hholds => ?_
    have hnone : a = none := by
      rw [hanswer]
      simp [effect, updateEffect, hget]
    rw [hnone]
    exact hholds
  | some user =>
    obtain ⟨r', hr, hr'⟩ := Option.map_eq_some_iff.mp hx
    obtain ⟨rfl, rfl, rfl⟩ := Prod.mk.inj hr' |>.imp_right Prod.mk.inj
    have heffect : language.effect (.update id changes) inp (Conn.view t.session w.shared) =
        ⟨some (user.changed changes), [.put id (user.changed changes)], []⟩ := by
      change updateEffect (Conn.view t.session w.shared) id changes = _
      rw [updateEffect, hget]
      rfl
    obtain ⟨ha, ⟨-, hl', hs'⟩ | ⟨hfalse, -⟩ | ⟨hfalse, -⟩⟩ :=
      Session.execute_cases (D := Rows.store) hr
    · change _ = (language.effect _ inp (Conn.view t.session w.shared)).answer at ha
      change _ = t.session.session.push (language.effect _ inp (Conn.view t.session w.shared)) at hl'
      rw [heffect] at ha hl'
      rw [hs', hl', ha]
      have hview : (t.session.session.push ⟨some (user.changed changes),
          [.put id (user.changed changes)], []⟩).view Rows.store w.shared =
          (Conn.view t.session w.shared).put id (user.changed changes) := by
        rw [Session.view, Session.push_log, Store.applyAll_append]
        rfl
      refine h.set ht (.refl _) (fun hout => by cases hout) fun _ =>
        ⟨⟨?_, trivial, ?_⟩, fun hout => absurd hout hin⟩
      · obtain ⟨id', hid', hadmin⟩ := hold.pinned
        exact ⟨id', List.mem_append_left _ hid', hadmin⟩
      · have hleft := hasAdmin_put hget hold.admin hold.stage hstage
        rw [← hview] at hleft
        exact hleft
    · rw [hactive] at hfalse
      cases hfalse
    · rw [hactive] at hfalse
      cases hfalse

end step

/-! ## Runs -/

/-- Step lemma: an operation of a call keeps the admins guarded. -/
theorem Guarded.step {w : UserWorld} {base : Table Id User} {i : ℕ} {t : UserThread}
    {o : Rows.Op Query} {inp : Input} {r : o.Res Query.Ans} {l' : Conn} {s' : Table Id User}
    {p : Option (Prog (Rows.Op Query) (Rows.Op.Res Query.Ans) (Except Err (Option StaffAccount)))}
    (h : Guarded w)
    (hsound : Sound (spec (.ofCheck locksEveryAdmin)) system base 0 (fun _ _ _ _ _ => True) w)
    (ht : w.threads[i]? = some t) (hcheck : locksEveryAdmin t.call o t.session w.shared)
    (hlegal : Legal o t.session)
    (hx : Rows.exec language inp (w.locked system i) t.session w.shared o = some (r, l', s')) :
    Guarded ⟨s', w.threads.set i ⟨t.call, l', p⟩⟩ := by
  cases o with
  | begin | rollback =>
    obtain ⟨-, rfl, rfl⟩ := Option.some.inj hx |> Prod.mk.inj |>.imp_right Prod.mk.inj
    exact h.set ht (.refl _) (fun _ => rfl) fun hin => absurd rfl hin
  | commit =>
    obtain ⟨-, rfl, rfl⟩ := Option.some.inj hx |> Prod.mk.inj |>.imp_right Prod.mk.inj
    by_cases hnote : t.session.note = .outside
    · have hclean := h.clean t (List.mem_of_getElem? ht) hnote
      have hs : (t.session.session.commit Rows.store w.shared).2 = w.shared := by
        rw [Session.commit, hclean]
        rfl
      rw [hs]
      exact h.set ht (.refl _) (fun _ => rfl) fun hin => absurd rfl hin
    · exact h.commit ht hnote
  | statement q =>
    cases q with
    | hash | activeAdmins | lock | revokeUser =>
      have hnote : l'.note = t.session.note := by
        obtain ⟨r', -, hr'⟩ := Option.map_eq_some_iff.mp hx
        obtain ⟨-, rfl, -⟩ := Prod.mk.inj hr' |>.imp_right Prod.mk.inj
        rfl
      refine h.reads ht hx rfl ?_ fun _ hholds => hholds
      rw [hnote]
      exact Classical.em _
    | insert user =>
      refine h.autocommits ht hx hlegal.1 hlegal.2 ?_
      rw [effect]
      split
      · exact .refl _
      · rename_i hfree
        refine .put fun user' hget => ?_
        have hview : Conn.view t.session w.shared = w.shared := by
          rw [Conn.view, Session.view, h.clean t (List.mem_of_getElem? ht) hlegal.2]
          rfl
        simp [hview, hget] at hfree
    | rename id changes =>
      obtain ⟨hactive, hnote, hrole, hisActive⟩ := hlegal
      refine h.autocommits ht hx hactive hnote ?_
      have hview : Conn.view t.session w.shared = w.shared := by
        rw [Conn.view, Session.view, h.clean t (List.mem_of_getElem? ht) hnote]
        rfl
      rw [effect, updateEffect, hview]
      split
      · rename_i user hget
        refine .put fun user' hget' => ?_
        obtain rfl := Option.some.inj (hget.symm.trans hget')
        simp [User.changed, User.isActiveAdmin, hrole, hisActive]
      · exact .refl _
    | current id => exact h.enters (fun hj hij => hsound.apart ht hj hij) ht hlegal hcheck hx
    | countOthers id =>
      refine h.reads ht hx rfl (Or.inr hlegal) fun hanswer hholds => ?_
      exact hholds.learnOthers hanswer
    | update id changes => exact h.writes ht hlegal.1 hlegal.2 hx

/-- In every run in which a locking `SELECT` that returns holds every active admin there is by
then, there is an active admin in every state. -/
theorem admin_remains {users : Table Id User} (hadmin : HasAdmin users) {w : UserWorld}
    (h : Runs system (.ofCheck locksEveryAdmin) (.initial users) w) : HasAdmin w.shared := by
  have hguarded : Sound (spec (.ofCheck locksEveryAdmin)) system users 0 (fun _ _ _ _ _ => True) w ∧
      Guarded w := by
    induction h with
    | refl =>
      refine ⟨.initial trivial, hadmin, ?_, ?_, ?_⟩
      · exact fun t ht => absurd ht List.not_mem_nil
      · exact fun t ht => absurd ht List.not_mem_nil
      · exact fun ht => by cases ht
    | tail _ ha hs ih =>
      obtain ⟨hsound, hguarded⟩ := ih
      refine ⟨hsound.act (starts _ _) (happens _) ha hs, ?_⟩
      cases World.transition_of_act hs with
      | start c => exact hguarded.start c
      | step ht hp hx =>
        have hpermit := ha _ _ _ ht hp
        exact hguarded.step hsound ht hpermit (hsound.step ht hp hpermit hx).1 hx
      | crash ht _ =>
        exact hguarded.set ht (.refl _) (fun _ => rfl) fun hin => absurd rfl hin
      | @world e => exact e.elim
  exact hguarded.2.admin

/-! ## A run that leaves no admin -/

/-- An active account. -/
def account (email : String) (role : UserRole) : User := ⟨email, email, role, true, ""⟩

/-- One admin, and two baristas. -/
def staff : Table Id User :=
  (((∅ : Table Id User).put 1 (account "ada" .admin)).put 2 (account "ben" .barista)).put 3
    (account "cem" .barista)

theorem staff_hasAdmin : HasAdmin staff := ⟨1, account "ada" .admin, rfl, rfl⟩

/-- Make somebody an admin. -/
def promote (id : Id) : Call := .update id { role := some .admin }

/-- Make somebody a barista. -/
def demote (id : Id) : Call := .update id { role := some .barista }

/-- Call `i` performs its next `n` operations. -/
def steps (i n : ℕ) : List UserAct := List.replicate n (.step i {})

/-- Ben is promoted (call 0) while the demotions of Ada (call 1) and Ben (call 2) wait for Ada's
row, the only admin of their snapshots. Ada is demoted, and call 2 goes on with a lock on Ada
alone. -/
def staleLocks : List UserAct :=
  [.start (promote 2), .start (demote 1), .start (demote 2)] ++ steps 0 3 ++ steps 1 2 ++
    steps 2 2 ++ steps 0 4 ++ steps 1 6 ++ steps 2 1

/-- Cem is promoted (call 3). Call 2 counts him; the demotion of Cem (call 4) counts Ben; both
commit. -/
def disjointLocks : List UserAct :=
  [.start (promote 3), .start (demote 3)] ++ steps 3 7 ++ steps 2 2 ++ steps 4 9 ++ steps 2 3

theorem nobody_remains : ∃ w : UserWorld, HasAdmin staff ∧
    Runs system .all (.initial staff) w ∧ (∀ t ∈ w.threads, t.returned = true) ∧
    ¬ HasAdmin w.shared := by
  obtain ⟨w, hw, hreturned, hnone⟩ := Runs.exists_of_acts system (.initial staff)
    (staleLocks ++ disjointLocks)
    (fun w => (w.threads.all Thread.returned = true) ∧
      (w.shared.select fun _ user => user.isActiveAdmin) = []) (by decide)
  refine ⟨w, staff_hasAdmin, hw, List.all_eq_true.mp hreturned, ?_⟩
  rintro ⟨id, user, hget, huser⟩
  have hmem : (id, user) ∈ w.shared.select fun _ user => user.isActiveAdmin :=
    Table.mem_select.mpr ⟨hget, huser⟩
  rw [hnone] at hmem
  cases hmem

/-- Ben is promoted, and then Ada is demoted. -/
theorem admin_remains_ben : ∃ w : UserWorld,
    Runs system (.ofCheck locksEveryAdmin) (.initial staff) w ∧
    (w.shared.get 1).map User.role = some .barista ∧ HasAdmin w.shared := by
  obtain ⟨w, hw, hada⟩ := Runs.exists_of_passes system locksEveryAdmin (.initial staff)
    ([.start (promote 2)] ++ steps 0 7 ++ [.start (demote 1)] ++ steps 1 9)
    (fun w => (w.shared.get 1).map User.role = some .barista) (by decide)
  exact ⟨w, hw, hada, admin_remains staff_hasAdmin hw⟩

end CafePos.Users
