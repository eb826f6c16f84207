import CafePos.Rotation

/-!
# When the death of a family is final

A replayed token, or a logout, revokes the tokens of a family that are in the table. A refresh
that has retired its token and not yet inserted the child has none there: the child is inserted
afterwards, live. So a family stays dead if no call was about to insert a token of it when it
was revoked (`revokesAll`).
-/

namespace CafePos.Auth

open Interleaving

variable {cfg : Config}

/-- The family into which a call is about to insert a token: it is still running, and has taken
the family or retired a token of it. -/
def claims (t : AuthThread) : Option Id :=
  match t.prog with
  | some (.op _ _) => claimed t.session
  | _ => none

/-- The family that call `i` revokes with its next operation. -/
def revokesNext (w : AuthWorld) (i : ℕ) : Option Id :=
  match w.threads[i]? with
  | some t =>
    match t.prog with
    | some (.op (.revokeFamily familyId) _) => some familyId
    | _ => none
  | none => none

/-- When a family is revoked, no call is about to insert a token of it. -/
def revokesAll (w : AuthWorld) : AuthAct → Bool
  | .step i _ => (revokesNext w i).all fun familyId =>
      w.threads.all fun t => claims t != some familyId
  | _ => true

/-- The family has no live token, and nobody is about to insert one. -/
structure Dead (w : AuthWorld) (familyId : Id) : Prop where
  known : familyId ∈ w.shared.uuids
  revoked : ∀ {id row}, w.shared.refreshTokens.get id = some row → row.familyId = familyId →
    row.revokedAt ≠ none
  unclaimed : ∀ {i : ℕ} {t : AuthThread}, w.threads[i]? = some t → claims t ≠ some familyId

/-- A call of the family has ended it: a replay was refused, or a logout has returned. -/
def Ended (t : AuthThread) : Prop :=
  (∃ token, t.call = .refresh token ∧ t.Answered (.error .refreshTokenReused)) ∨
    ∃ userId tokenId token, t.call = .logout userId tokenId token ∧ t.Answered (.ok .signedOut)

/-- Such a call has revoked a family. -/
theorem Reachable.revoked_of_ended {w : AuthWorld} (h : Reachable cfg w) {t : AuthThread}
    (ht : t ∈ w.threads) (he : Ended t) :
    ∃ familyId, t.session = [.found familyId, .revoked familyId] := by
  obtain ⟨i, hi⟩ := List.mem_iff_getElem?.mp ht
  rcases he with ⟨token, hcall, ha⟩ | ⟨userId, tokenId, token, hcall, ha⟩
  all_goals
    obtain ⟨s₀, -, -, hpost⟩ := h.sound.answered hi ha
    rw [hcall] at hpost
    exact hpost

/-! ## One step -/

/-- Replacing call `i`: the family stays unclaimed if the new state of the call leaves it so. -/
theorem Dead.set {w : AuthWorld} {familyId : Id} (h : Dead w familyId) {i : ℕ}
    {t t' : AuthThread} (ht : w.threads[i]? = some t) {s' : State}
    (hknown : familyId ∈ s'.uuids)
    (hrevoked : ∀ {id row}, s'.refreshTokens.get id = some row → row.familyId = familyId →
      row.revokedAt ≠ none) (hclaims : claims t' ≠ some familyId) :
    Dead ⟨s', w.threads.set i t'⟩ familyId where
  known := hknown
  revoked := hrevoked
  unclaimed {k u} hk := by
    by_cases hki : k = i
    · subst hki
      rw [List.getElem?_set_self (List.getElem?_eq_some_iff.mp ht).1] at hk
      obtain rfl := Option.some.inj hk
      exact hclaims
    · rw [List.getElem?_set_ne (Ne.symm hki)] at hk
      exact h.unclaimed hk

/-- A call claims what its journal says, or nothing. -/
theorem claims_le {c : Call} {l : List Mark} {p : Option (Prog Op Op.Res (Except Err Reply))}
    {familyId : Id} (h : claims ⟨c, l, p⟩ = some familyId) : claimed l = some familyId := by
  simp only [claims] at h
  split at h
  · exact h
  · cases h

/-- The step lemma: a dead family stays dead, whoever does what. -/
theorem Dead.step {w : AuthWorld} {familyId : Id} (h : Dead w familyId) {i : ℕ} {t : AuthThread}
    {o : Op} {k : o.Res → Prog Op Op.Res (Except Err Reply)} {r : o.Res} {l' : List Mark}
    {s' : State} (ht : w.threads[i]? = some t) (hp : t.prog = some (.op o k))
    (hm : Move t.session w.shared l' s') :
    Dead ⟨s', w.threads.set i ⟨t.call, l', some (k r)⟩⟩ familyId := by
  have hclaim : claimed t.session ≠ some familyId := by
    have := h.unclaimed ht
    simpa only [claims, hp] using this
  cases hm with
  | quiet => exact h.set ht h.known h.revoked fun hc => hclaim (claims_le hc)
  | @opens opened hl hfresh =>
    refine h.set ht (List.mem_cons_of_mem _ h.known) h.revoked fun hc => hfresh ?_
    obtain rfl := Option.some.inj (claims_le hc)
    exact h.known
  | @retires id row now hl hrow hlive =>
    refine h.set ht h.known (fun {id' row'} hrow' hf => ?_) fun hc => ?_
    · grind [h.revoked, Table.get_put]
    · obtain rfl := Option.some.inj (claims_le hc)
      exact h.revoked hrow rfl hlive
  | @issues id issued row hc hfresh hf hlive =>
    have hne : row.familyId ≠ familyId := fun heq => hclaim (by rw [hc, ← hf, heq])
    refine h.set ht (List.mem_cons_of_mem _ h.known) (fun {id' row'} hrow' hf => ?_) fun hc' => ?_
    · grind [h.revoked, Table.get_put]
    · have := claims_le hc'
      rcases claimed_eq_some.mp hc with heq | ⟨id', heq⟩ <;> rw [heq] at this <;> cases this
  | finds hl hrow =>
    refine h.set ht h.known h.revoked fun hc => ?_
    cases claims_le hc
  | revokes hl =>
    refine h.set ht h.known (fun {id' row'} hrow' hf => ?_) fun hc => ?_
    · rw [Table.get_mapRows] at hrow'
      obtain ⟨row, hrow, rfl⟩ := Option.map_eq_some_iff.mp hrow'
      have := @h.revoked _ _ hrow
      grind [RefreshToken.revokeIn]
    · cases claims_le hc
  | deletes =>
    refine h.set ht h.known (fun {id' row'} hrow' hf => ?_) fun hc => hclaim (claims_le hc)
    rw [Table.get_keep] at hrow'
    exact h.revoked (Option.filter_eq_some_iff.mp hrow').1 hf

/-- Only the statement that revokes a family is recorded as such. -/
theorem exec_revoked {o : Op} {inp : Input} {l l' : List Mark} {s s' : State} {r : o.Res}
    {familyId : Id} (hx : exec inp l s o = some (r, l', s')) (hm : .revoked familyId ∈ l')
    (hl : .revoked familyId ∉ l) : o = .revokeFamily familyId := by
  cases o with
  | revokeFamily f =>
    obtain ⟨-, rfl, -⟩ := Option.some.inj hx |> Prod.mk.inj |>.imp_right Prod.mk.inj
    rcases List.mem_append.mp hm with hm | hm
    · exact absurd hm hl
    · obtain rfl := Mark.revoked.inj (List.mem_singleton.mp hm)
      rfl
  | findToken tokenHash =>
    obtain ⟨-, rfl, -⟩ := Option.some.inj hx |> Prod.mk.inj |>.imp_right Prod.mk.inj
    rcases List.mem_append.mp hm with hm | hm
    · exact absurd hm hl
    · simp at hm
  | retire tokenHash =>
    simp only [exec] at hx
    split at hx
    · split at hx <;>
      · obtain ⟨-, rfl, -⟩ := Option.some.inj hx |> Prod.mk.inj |>.imp_right Prod.mk.inj
        simp [hl] at hm
    · obtain ⟨-, rfl, -⟩ := Option.some.inj hx |> Prod.mk.inj |>.imp_right Prod.mk.inj
      exact absurd hm hl
  | insertToken userId tokenHash f ttl =>
    simp only [exec] at hx
    split at hx
    · cases hx
    · split at hx <;>
      · obtain ⟨-, rfl, -⟩ := Option.some.inj hx |> Prod.mk.inj |>.imp_right Prod.mk.inj
        simp [hl] at hm
  | uuid =>
    simp only [exec] at hx
    split at hx
    · cases hx
    · obtain ⟨-, rfl, -⟩ := Option.some.inj hx |> Prod.mk.inj |>.imp_right Prod.mk.inj
      simp [hl] at hm
  | _ =>
    obtain ⟨-, rfl, -⟩ := Option.some.inj hx |> Prod.mk.inj |>.imp_right Prod.mk.inj
    exact absurd hm hl

/-- The statement that revokes a family kills it, if nobody was about to insert a token. -/
theorem Dead.of_revokes {w : AuthWorld} (h : Reachable cfg w) {familyId : Id} {i : ℕ}
    {t : AuthThread} {o : Op} {k : o.Res → Prog Op Op.Res (Except Err Reply)} {r : o.Res}
    {l' : List Mark} {s' : State} (ht : w.threads[i]? = some t)
    (hm : Move t.session w.shared l' s') (hnew : .revoked familyId ∈ l')
    (hold : .revoked familyId ∉ t.session)
    (hcheck : ∀ u ∈ w.threads, claims u ≠ some familyId) :
    Dead ⟨s', w.threads.set i ⟨t.call, l', some (k r)⟩⟩ familyId := by
  cases hm with
  | quiet => exact absurd hnew hold
  | deletes => exact absurd hnew hold
  | opens | retires | finds => simp at hnew
  | issues =>
    rcases List.mem_append.mp hnew with hnew | hnew
    · exact absurd hnew hold
    · simp at hnew
  | @revokes f now hl =>
    obtain rfl : familyId = f := by simpa using hnew
    have hknown : familyId ∈ w.shared.uuids := by
      refine h.rotated.mark_known (i := i) (m := .found familyId) ?_ (by simp [Mark.ids])
      rw [World.sessionAt_eq [] ht, hl]
      exact List.mem_singleton_self _
    refine ⟨hknown, fun {id row'} hrow' hf => ?_, fun {k u} hk hc => ?_⟩
    · rw [Table.get_mapRows] at hrow'
      obtain ⟨row, hrow, rfl⟩ := Option.map_eq_some_iff.mp hrow'
      grind [RefreshToken.revokeIn]
    · rcases List.mem_or_eq_of_mem_set (List.mem_of_getElem? hk) with hu | rfl
      · exact hcheck u hu hc
      · cases claims_le hc

/-! ## Runs -/

/-- A dead family stays dead. -/
theorem Dead.act {w w' : AuthWorld} {familyId : Id} {a : AuthAct} (h : Dead w familyId)
    (hw : Reachable cfg w) (hs : w.act (system cfg) a = some w') : Dead w' familyId := by
  cases World.transition_of_act hs with
  | start c =>
    refine ⟨h.known, h.revoked, fun {i t} ht hc => ?_⟩
    rcases List.mem_append.mp (List.mem_of_getElem? ht) with hold | hnew
    · obtain ⟨j, hj⟩ := List.mem_iff_getElem?.mp hold
      exact h.unclaimed hj hc
    · rw [List.mem_singleton.mp hnew] at hc
      cases claims_le hc
  | step ht hp hx => exact h.step ht hp (hw.sound.step ht hp trivial hx).1
  | crash ht _ => exact h.set ht h.known h.revoked fun hc => by cases hc
  | @world e => exact e.elim

/-- In every run in which no family is revoked while a call is about to insert a token of it,
every family that was revoked is dead. -/
theorem dead_of_revoked {w : AuthWorld}
    (h : Checked (system cfg) (fun w a => revokesAll w a = true) opening w) :
    ∀ t ∈ w.threads, ∀ familyId, .revoked familyId ∈ t.session → Dead w familyId := by
  induction h with
  | refl => exact fun t ht => absurd ht List.not_mem_nil
  | @tail w w' a hw hcheck hs ih =>
    have hreach : Reachable cfg w := hw.runs
    have hstays : ∀ {t : AuthThread} {familyId : Id}, t ∈ w.threads →
        .revoked familyId ∈ t.session → Dead w' familyId :=
      fun ht hm => (ih _ ht _ hm).act hreach hs
    cases World.transition_of_act hs with
    | start c =>
      intro t ht familyId hm
      rcases List.mem_append.mp ht with hold | hnew
      · exact hstays hold hm
      · rw [List.mem_singleton.mp hnew] at hm
        cases hm
    | @step i inp t o k r l' s' ht hp hx =>
      intro u hu familyId hm
      rcases List.mem_or_eq_of_mem_set hu with hold | rfl
      · exact hstays hold hm
      · by_cases hl : .revoked familyId ∈ t.session
        · exact hstays (List.mem_of_getElem? ht) hl
        · -- this statement revoked the family
          obtain rfl := exec_revoked hx hm hl
          refine Dead.of_revokes hreach ht (hreach.sound.step ht hp trivial hx).1 hm hl ?_
          intro u hu
          simp only [revokesAll, revokesNext, ht, hp, Option.all_some, List.all_eq_true,
            bne_iff_ne] at hcheck
          exact hcheck u hu
    | crash ht _ =>
      intro u hu familyId hm
      rcases List.mem_or_eq_of_mem_set hu with hold | rfl
      · exact hstays hold hm
      · exact hstays (List.mem_of_getElem? ht) hm
    | @world e => exact e.elim

/-- A call that begins when a family is dead retires no token of it. -/
theorem Dead.not_retired {w w' : AuthWorld} {familyId : Id} (h : Dead w familyId)
    (hw : Reachable cfg w) (hr : Runs (system cfg) .all w w') :
    Dead w' familyId ∧ ∀ i u, w.threads.length ≤ i → w'.threads[i]? = some u →
      ∀ id, .retired id familyId ∉ u.session := by
  induction hr with
  | refl =>
    refine ⟨h, fun i u hi hu => ?_⟩
    rw [List.getElem?_eq_none hi] at hu
    cases hu
  | @tail v v' a hv _ hs ih =>
    obtain ⟨hdead, hnot⟩ := ih
    have hreach : Reachable cfg v := Runs.trans hw hv
    refine ⟨hdead.act hreach hs, fun i u hi hu id hm => ?_⟩
    cases World.transition_of_act hs with
    | start c =>
      rw [List.getElem?_append] at hu
      split at hu
      · exact hnot i u hi hu id hm
      · rw [List.mem_singleton.mp (List.mem_of_getElem? hu)] at hm
        cases hm
    | @step j inp t o k r l' s' ht hp hx =>
      by_cases hij : j = i
      · subst hij
        rw [List.getElem?_set_self (List.getElem?_eq_some_iff.mp ht).1] at hu
        obtain rfl := Option.some.inj hu
        have hold := hnot j t hi ht id
        cases (hreach.sound.step ht hp trivial hx).1 with
        | quiet => exact hold hm
        | deletes => exact hold hm
        | opens | finds | revokes => simp at hm
        | issues => simp [hold] at hm
        | retires _ hrow hlive =>
          obtain ⟨rfl, rfl⟩ := Mark.retired.inj (List.mem_singleton.mp hm)
          exact hdead.revoked hrow rfl hlive
      · rw [List.getElem?_set_ne hij] at hu
        exact hnot i u hi hu id hm
    | @crash j t ht _ =>
      by_cases hij : j = i
      · subst hij
        rw [List.getElem?_set_self (List.getElem?_eq_some_iff.mp ht).1] at hu
        obtain rfl := Option.some.inj hu
        exact hnot j t hi ht id hm
      · rw [List.getElem?_set_ne hij] at hu
        exact hnot i u hi hu id hm
    | @world e => exact e.elim

/-- The family that a call ended has no live token now, and no refresh that begins later
succeeds with a token of it. -/
def StaysDead (w w' : AuthWorld) (familyId : Id) : Prop :=
  w'.shared.liveIn familyId = [] ∧
    ∀ i u token pair, w.threads.length ≤ i → w'.threads[i]? = some u → u.call = .refresh token →
      u.Answered (.ok (.refreshed pair)) → ∃ id child other,
        u.session = [.retired id other, .issued child other] ∧ other ≠ familyId

theorem Dead.staysDead {w w' : AuthWorld} {familyId : Id} (h : Dead w familyId)
    (hw : Reachable cfg w) (hr : Runs (system cfg) .all w w') : StaysDead w w' familyId := by
  obtain ⟨hdead, hnot⟩ := h.not_retired hw hr
  constructor
  · refine Table.select_eq_nil.mpr fun id row hrow => ?_
    simp only [RefreshToken.isLive, Bool.and_eq_false_iff, beq_eq_false_iff_ne]
    by_cases hf : row.familyId = familyId
    · exact Or.inr (Option.isNone_eq_false_iff.mpr
        (Option.isSome_iff_ne_none.mpr (hdead.revoked hrow hf)))
    · exact Or.inl hf
  · intro i u token pair hi hu hcall ha
    have hreach : Reachable cfg w' := Runs.trans hw hr
    obtain ⟨s₀, -, -, hpost⟩ := hreach.sound.answered hu ha
    rw [hcall] at hpost
    obtain ⟨id, child, other, hsession⟩ := hpost
    refine ⟨id, child, other, hsession, fun heq => hnot i u hi hu id ?_⟩
    rw [hsession, heq]
    exact List.mem_cons_self ..

/-- In every run in which no family is revoked while a call is about to insert a token of it, a
family that a replay or a logout has ended stays dead, whatever happens later. -/
theorem ended_family_stays_dead {w : AuthWorld}
    (h : Checked (system cfg) (fun w a => revokesAll w a = true) opening w) :
    ∀ t ∈ w.threads, Ended t → ∃ familyId, .revoked familyId ∈ t.session ∧
      ∀ w', Runs (system cfg) .all w w' → StaysDead w w' familyId := by
  intro t ht he
  have hreach : Reachable cfg w := h.runs
  obtain ⟨familyId, hsession⟩ := hreach.revoked_of_ended ht he
  have hm : .revoked familyId ∈ t.session := by simp [hsession]
  exact ⟨familyId, hm, fun w' hr => (dead_of_revoked h t ht familyId hm).staysDead hreach hr⟩

/-- The user signs out (call 1) with token `a` of family 1. -/
def signOut (i : ℕ) : List AuthAct := .start (.logout 7 "jti" "a") :: steps i 3 (supply 0 "")

/-- Call `i` is a logout that has returned. -/
def hasSignedOut (w : AuthWorld) (i : ℕ) : Bool :=
  (w.threads[i]?).any fun t => (match t.call with
    | .logout .. => true
    | _ => false) && decide (t.Answered (.ok .signedOut) ∧ t.session = [.found 1, .revoked 1])

theorem ended_of_hasSignedOut {w : AuthWorld} {i : ℕ} (h : hasSignedOut w i) :
    ∃ t ∈ w.threads, Ended t ∧ t.session = [.found 1, .revoked 1] := by
  obtain ⟨t, ht, hc⟩ := (Option.any_eq_true _ _).mp h
  simp only [Bool.and_eq_true, decide_eq_true_eq] at hc
  obtain ⟨hcall, ha, hsession⟩ := hc
  split at hcall
  · rename_i userId tokenId token heq
    exact ⟨t, List.mem_of_getElem? ht, Or.inr ⟨userId, tokenId, token, heq, ha⟩, hsession⟩
  · cases hcall

theorem ended_family_stays_dead_signed_out : ∃ w,
    Checked (system plainAuth) (fun w a => revokesAll w a = true) opening w ∧
    hasSignedOut w 1 ∧ StaysDead w w 1 := by
  obtain ⟨w, hw, hout⟩ := Checked.exists_of_runIf (M := system plainAuth) revokesAll opening
    (signIn ++ signOut 1) (fun w => hasSignedOut w 1) (by decide)
  obtain ⟨t, ht, he, hsession⟩ := ended_of_hasSignedOut hout
  obtain ⟨familyId, hm, hdead⟩ := ended_family_stays_dead hw t ht he
  rw [hsession] at hm
  obtain rfl : familyId = 1 := by simpa using hm
  exact ⟨w, hw, hout, hdead w .refl⟩

/-! ## A run in which a family comes back -/

/-- A refresh retires token `a` (call 1), the user signs out (call 2), and the refresh inserts
its child: the family has a live token after the logout has returned. -/
theorem ended_family_alive : ∃ w, Reachable plainAuth w ∧ hasSignedOut w 2 ∧
    (w.shared.liveIn 1).map Prod.fst = [11] ∧
    ¬ ∀ t ∈ w.threads, Ended t → ∃ familyId, .revoked familyId ∈ t.session ∧
      ∀ w', Runs (system plainAuth) .all w w' → StaysDead w w' familyId := by
  obtain ⟨w, hw, hout, hlive⟩ := Reachable.exists_of_runIf plainAuth
    (signIn ++ .start (.refresh "a") :: steps 1 1 (supply 0 "") ++ signOut 2 ++
      steps 1 5 (supply 11 "b"))
    (fun w => hasSignedOut w 2 ∧ (w.shared.liveIn 1).map Prod.fst = [11]) (by decide)
  refine ⟨w, hw, hout, hlive, fun hall => ?_⟩
  obtain ⟨t, ht, he, hsession⟩ := ended_of_hasSignedOut hout
  obtain ⟨familyId, hm, hdead⟩ := hall t ht he
  rw [hsession] at hm
  obtain rfl : familyId = 1 := by simpa using hm
  rw [(hdead w .refl).1] at hlive
  cases hlive

end CafePos.Auth
