import CafePos.Auth

/-!
# Refresh rotation

`refresh` retires the parent, reads the user and inserts the child as unrelated statements. What
bounds a family is therefore not the table alone: a call that has retired a token and not yet
inserted its child counts as if it were a live token (`claimed`). `Move` says what one operation
of a call can do to its journal and to the table; the invariant `Rotated` follows from it, over
every interleaving of every number of calls.
-/

namespace CafePos.Auth

open Interleaving

variable {cfg : Config}

/-! ## What one operation does -/

/-- The family into which a call with this journal is about to insert a token. -/
def claimed : List Mark → Option Id
  | [.opened familyId] => some familyId
  | [.retired _ familyId] => some familyId
  | _ => none

theorem claimed_eq_some {l : List Mark} {familyId : Id} :
    claimed l = some familyId ↔ l = [.opened familyId] ∨ ∃ id, l = [.retired id familyId] := by
  unfold claimed
  split <;> simp_all

/-- What one operation does to the journal of its call and to the table. -/
inductive Move (l : List Mark) (s : State) : List Mark → State → Prop
  /-- nothing -/
  | quiet : Move l s l s
  /-- login takes a new family -/
  | opens {familyId : Id} : l = [] → familyId ∉ s.uuids →
      Move l s [.opened familyId] ⟨s.refreshTokens, familyId :: s.uuids⟩
  /-- refresh retires a live token -/
  | retires {id : Id} {row : RefreshToken} {now : Instant} : l = [] →
      s.refreshTokens.get id = some row → row.revokedAt = none →
      Move l s [.retired id row.familyId]
        ⟨s.refreshTokens.put id { row with revokedAt := some now }, s.uuids⟩
  /-- a token is inserted into the family the call has claimed -/
  | issues {id familyId : Id} {row : RefreshToken} : claimed l = some familyId → id ∉ s.uuids →
      row.familyId = familyId → row.revokedAt = none →
      Move l s (l ++ [.issued id familyId]) ⟨s.refreshTokens.put id row, id :: s.uuids⟩
  /-- a token is looked up, to revoke its family -/
  | finds {id : Id} {row : RefreshToken} : l = [] → s.refreshTokens.get id = some row →
      Move l s [.found row.familyId] s
  /-- a family is revoked -/
  | revokes {familyId : Id} {now : Instant} : l = [.found familyId] →
      Move l s [.found familyId, .revoked familyId]
        ⟨s.refreshTokens.mapRows fun row => row.revokeIn familyId now, s.uuids⟩
  /-- tokens are deleted -/
  | deletes {p : Id → RefreshToken → Bool} : Move l s l ⟨s.refreshTokens.keep p, s.uuids⟩

/-- What is proved of every call. -/
def spec : Spec State (List Mark) Op Call Empty where
  inv _ := True
  rely _ _ := True
  gua _ _ l s l' s' := Move l s l' s'
  permit := .all
  rely_refl _ := trivial
  rely_trans _ _ := trivial
  gua_rely _ _ := trivial
  gua_inv _ _ _ := trivial

/-- What the answer of a call says of its journal. -/
def Post : Call → Except Err Reply → List Mark → Prop
  | .refresh _, .ok _, l => ∃ id child familyId, l = [.retired id familyId, .issued child familyId]
  | .refresh _, .error .refreshTokenReused, l =>
    ∃ familyId, l = [.found familyId, .revoked familyId]
  | .logout .., .ok _, l => ∃ familyId, l = [.found familyId, .revoked familyId]
  | _, _, _ => True

/-! ## The calls -/

/-- The operations that are about no token and no id. -/
def Op.isQuiet : Op → Bool
  | retire _ | findToken _ | revokeFamily _ | insertToken .. | deleteStale _ | uuid => false
  | _ => true

theorem exec_quiet {o : Op} {inp : Input} {l l' : List Mark} {s s' : State} {r : o.Res}
    (ho : o.isQuiet) (hx : exec inp l s o = some (r, l', s')) : l' = l ∧ s' = s := by
  cases o with
  | retire | findToken | revokeFamily | insertToken | deleteStale | uuid => cases ho
  | _ =>
    obtain ⟨-, rfl, rfl⟩ := Option.some.inj hx |> Prod.mk.inj |>.imp_right Prod.mk.inj
    exact ⟨rfl, rfl⟩

section calls

variable {α : Type} {c : Call} {T : Err → List Mark → State → Prop} {l : List Mark} {s : State}

/-- An operation that does nothing. -/
theorem ensures_quiet {o : Op} {Q : o.Res → List Mark → State → Prop} (ho : o.isQuiet)
    (h : ∀ r s, Q r l s) : spec.Ensures machine c (perform o) Q T l s := by
  refine .perform fun s₁ inp locked r l' s₂ _ _ hx => ?_
  obtain ⟨rfl, rfl⟩ := exec_quiet ho hx
  exact ⟨.quiet, h r s₂⟩

theorem ensures_retire {tokenHash : String}
    {Q : Option (Id × RefreshToken) → List Mark → State → Prop} (hnone : ∀ s, Q none [] s)
    (hsome : ∀ id row s, Q (some (id, row)) [.retired id row.familyId] s) :
    spec.Ensures machine c (perform (.retire tokenHash)) Q T [] s := by
  refine .perform fun s₁ inp locked r l' s₂ _ _ hx => ?_
  change exec inp [] s₁ (.retire tokenHash) = _ at hx
  simp only [exec] at hx
  split at hx
  · rename_i id row hrow
    split at hx
    · rename_i hlive
      obtain ⟨rfl, rfl, rfl⟩ := Option.some.inj hx |> Prod.mk.inj |>.imp_right Prod.mk.inj
      have hget := (Table.mem_select.mp (List.mem_of_head? hrow)).1
      exact ⟨.retires rfl hget hlive, hsome id _ _⟩
    · obtain ⟨rfl, rfl, rfl⟩ := Option.some.inj hx |> Prod.mk.inj |>.imp_right Prod.mk.inj
      exact ⟨.quiet, hnone _⟩
  · obtain ⟨rfl, rfl, rfl⟩ := Option.some.inj hx |> Prod.mk.inj |>.imp_right Prod.mk.inj
    exact ⟨.quiet, hnone _⟩

theorem ensures_findToken {tokenHash : String}
    {Q : Option (Id × RefreshToken) → List Mark → State → Prop} (hnone : ∀ s, Q none [] s)
    (hsome : ∀ id row s, Q (some (id, row)) [.found row.familyId] s) :
    spec.Ensures machine c (perform (.findToken tokenHash)) Q T [] s := by
  refine .perform fun s₁ inp locked r l' s₂ _ _ hx => ?_
  obtain ⟨rfl, rfl, rfl⟩ := Option.some.inj hx |> Prod.mk.inj |>.imp_right Prod.mk.inj
  cases hrow : s₁.byHash tokenHash with
  | none => exact ⟨.quiet, hnone _⟩
  | some q =>
    have hget := (Table.mem_select.mp (List.mem_of_head? hrow)).1
    exact ⟨.finds rfl hget, hsome q.1 q.2 _⟩

theorem ensures_revokeFamily {familyId : Id} {Q : Unit → List Mark → State → Prop}
    (h : ∀ s, Q () [.found familyId, .revoked familyId] s) :
    spec.Ensures machine c (perform (.revokeFamily familyId)) Q T [.found familyId] s := by
  refine .perform fun s₁ inp locked r l' s₂ _ _ hx => ?_
  obtain ⟨rfl, rfl, rfl⟩ := Option.some.inj hx |> Prod.mk.inj |>.imp_right Prod.mk.inj
  exact ⟨.revokes rfl, h _⟩

theorem ensures_uuid {Q : Id → List Mark → State → Prop}
    (h : ∀ familyId s, Q familyId [.opened familyId] s) :
    spec.Ensures machine c (perform .uuid) Q T [] s := by
  refine .perform fun s₁ inp locked r l' s₂ _ _ hx => ?_
  change exec inp [] s₁ .uuid = _ at hx
  simp only [exec] at hx
  split at hx
  · cases hx
  · rename_i hfresh
    obtain ⟨rfl, rfl, rfl⟩ := Option.some.inj hx |> Prod.mk.inj |>.imp_right Prod.mk.inj
    exact ⟨.opens rfl hfresh, h _ _⟩

theorem ensures_insertToken {userId familyId : Id} {tokenHash : String} {ttl : ℤ}
    {Q : Except Unit Unit → List Mark → State → Prop} (hl : claimed l = some familyId)
    (hok : ∀ id s, Q (.ok ()) (l ++ [.issued id familyId]) s) (herr : ∀ s, Q (.error ()) l s) :
    spec.Ensures machine c (perform (.insertToken userId tokenHash familyId ttl)) Q T l s := by
  refine .perform fun s₁ inp locked r l' s₂ _ _ hx => ?_
  change exec inp l s₁ (.insertToken userId tokenHash familyId ttl) = _ at hx
  simp only [exec] at hx
  split at hx
  · cases hx
  · rename_i hfresh
    split at hx
    · obtain ⟨rfl, rfl, rfl⟩ := Option.some.inj hx |> Prod.mk.inj |>.imp_right Prod.mk.inj
      exact ⟨.quiet, herr _⟩
    · obtain ⟨rfl, rfl, rfl⟩ := Option.some.inj hx |> Prod.mk.inj |>.imp_right Prod.mk.inj
      exact ⟨.issues hl hfresh rfl rfl, hok _ _⟩

theorem ensures_deleteStale {limit : ℕ} {Q : ℕ → List Mark → State → Prop}
    (h : ∀ n s, Q n l s) : spec.Ensures machine c (perform (.deleteStale limit)) Q T l s := by
  refine .perform fun s₁ inp locked r l' s₂ _ _ hx => ?_
  obtain ⟨rfl, rfl, rfl⟩ := Option.some.inj hx |> Prod.mk.inj |>.imp_right Prod.mk.inj
  exact ⟨.deletes, h _ _⟩

theorem ensures_issuePair {userId familyId : Id} {role : UserRole}
    {Q : TokenPair → List Mark → State → Prop} (hl : claimed l = some familyId)
    (hok : ∀ pair id s, Q pair (l ++ [.issued id familyId]) s)
    (herr : ∀ s, T .uniqueViolation l s) :
    spec.Ensures machine c (issuePair cfg userId role familyId) Q T l s := by
  refine .bind (ensures_quiet rfl fun access s => ?_)
  refine .bind (ensures_quiet rfl fun refreshToken s => ?_)
  refine .bind (ensures_insertToken hl (fun id s => ?_) fun s => ?_)
  · exact .pure (hok _ id s)
  · exact .throw (herr s)

/-- One batch after the other. -/
theorem ensures_drain {Q : ℕ → List Mark → State → Prop} (h : ∀ n s, Q n l s) (size batches : ℕ) :
    spec.Ensures machine c
      (drainUpTo (fun limit => (perform (.deleteStale limit) : Service ℕ)) size batches) Q T l s := by
  induction batches generalizing Q s with
  | zero => exact .pure (h 0 s)
  | succ batches ih =>
    refine .bind (ensures_deleteStale fun n s => ?_)
    split
    · exact .pure (h n s)
    · exact .bind (ih fun rest s => .pure (h _ s))

theorem refresh_ensures (token : String) :
    spec.Ensures machine c (refresh cfg token)
      (fun _ l _ => ∃ id child familyId, l = [.retired id familyId, .issued child familyId])
      (fun e l _ => e = .refreshTokenReused →
        ∃ familyId, l = [.found familyId, .revoked familyId]) [] s := by
  refine .bind (ensures_retire (fun s => ?_) fun id row s => ?_)
  · -- a replay, or an unknown token
    refine .bind (.bind (ensures_findToken (fun s => ?_) fun id row s => ?_))
    · exact .pure (.throw fun h => by cases h)
    · exact .bind (ensures_revokeFamily fun s => .throw fun _ => ⟨_, rfl⟩)
  · refine .bind (ensures_quiet rfl fun now s => ?_)
    split
    · exact .throw fun h => by cases h
    · refine .bind (ensures_quiet rfl fun found s => ?_)
      split
      · exact .throw fun h => by cases h
      · exact ensures_issuePair rfl (fun pair child s => ⟨id, child, _, rfl⟩)
          fun s h => by cases h

theorem logout_ensures (userId : Id) (tokenId token : String) :
    spec.Ensures machine c (logout cfg userId tokenId token)
      (fun _ l _ => ∃ familyId, l = [.found familyId, .revoked familyId])
      (fun _ _ _ => True) [] s := by
  refine .bind (ensures_findToken (fun s => .throw trivial) fun id row s => ?_)
  dsimp only
  split
  · exact .throw trivial
  · refine .bind (ensures_revokeFamily fun s => ?_)
    exact .bind (ensures_quiet rfl fun _ s => .pure ⟨_, rfl⟩)

theorem login_ensures (email password : String) :
    spec.Ensures machine c (login cfg email password) (fun _ _ _ => True) (fun _ _ _ => True)
      [] s := by
  refine .bind (ensures_quiet rfl fun lockout s => ?_)
  cases lockout with
  | error seconds => exact .throw trivial
  | ok _ =>
    refine .bind (ensures_quiet rfl fun found s => ?_)
    refine .bind (ensures_quiet rfl fun passwordMatches s => ?_)
    split
    · exact .bind (ensures_quiet rfl fun _ s => .throw trivial)
    · refine .bind (ensures_quiet rfl fun _ s => ?_)
      refine .bind (ensures_uuid fun familyId s => ?_)
      exact .bind (ensures_issuePair rfl (fun pair id s => .pure trivial) fun s => trivial)

end calls

/-- Every call stays inside `Move`, and ends as `Post` says. -/
theorem starts (base : State) : Starts spec (system cfg) base 0 (fun _ c a l _ => Post c a l) := by
  intro i c s _ _ _ _
  cases c with
  | login email password =>
    exact (login_ensures email password).answers (fun _ _ _ _ => trivial) fun _ _ _ _ => trivial
  | refresh token =>
    refine (refresh_ensures token).answers (fun _ _ _ h => h) fun e l s h => ?_
    cases e with
    | refreshTokenReused => exact h rfl
    | _ => trivial
  | logout userId tokenId token =>
    exact (logout_ensures userId tokenId token).answers (fun _ _ _ h => h) fun _ _ _ _ => trivial
  | deleteStaleRefreshTokens =>
    have h : spec.Ensures machine .deleteStaleRefreshTokens deleteStaleRefreshTokens
        (fun _ _ _ => True) (fun _ _ _ => True) [] s := ensures_drain (fun _ _ => trivial) _ _
    exact h.answers (fun _ _ _ _ => trivial) fun _ _ _ _ => trivial

theorem happens : Happens spec (system cfg) := fun e => e.elim

theorem Reachable.sound {w : AuthWorld} (h : Reachable cfg w) :
    Sound spec (system cfg) opening.shared 0 (fun _ c a l _ => Post c a l) w :=
  Sound.runs (starts _) happens (.initial trivial) h

/-! ## The invariant -/

/-- The token is live. -/
def RefreshToken.isLive (row : RefreshToken) : Bool := row.revokedAt.isNone

/-- The ids a mark names. -/
def Mark.ids : Mark → List Id
  | .opened familyId => [familyId]
  | .retired id familyId => [id, familyId]
  | .issued id familyId => [id, familyId]
  | .found familyId => [familyId]
  | .revoked familyId => [familyId]

/-- A family has one live token at most, or one call that is about to insert one; and no token
is retired twice. -/
structure Rotated (journal : ℕ → List Mark) (s : State) : Prop where
  /-- ids come from the generator -/
  row_known : ∀ {id row}, s.refreshTokens.get id = some row → id ∈ s.uuids ∧ row.familyId ∈ s.uuids
  mark_known : ∀ {i m id}, m ∈ journal i → id ∈ m.ids → id ∈ s.uuids
  /-- one live token a family -/
  live : ∀ {id id' row row'}, s.refreshTokens.get id = some row →
    s.refreshTokens.get id' = some row' → row.revokedAt = none → row'.revokedAt = none →
    row.familyId = row'.familyId → id = id'
  /-- and none while a call is about to insert one -/
  pending : ∀ {i id row}, s.refreshTokens.get id = some row →
    claimed (journal i) = some row.familyId → row.revokedAt ≠ none
  /-- one such call a family -/
  apart : ∀ {i k familyId}, claimed (journal i) = some familyId →
    claimed (journal k) = some familyId → i = k
  /-- a token that was retired is revoked -/
  gone : ∀ {i id familyId row}, .retired id familyId ∈ journal i →
    s.refreshTokens.get id = some row → row.revokedAt ≠ none
  /-- by one call -/
  once : ∀ {i k id familyId familyId'}, .retired id familyId ∈ journal i →
    .retired id familyId' ∈ journal k → i = k

namespace Rotated

variable {journal : ℕ → List Mark} {s s' : State} {i : ℕ} {l' : List Mark}

/-- A family that is claimed comes from the generator. -/
theorem claimed_known (h : Rotated journal s) {familyId : Id}
    (hc : claimed (journal i) = some familyId) : familyId ∈ s.uuids := by
  rcases claimed_eq_some.mp hc with heq | ⟨id, heq⟩
  · exact h.mark_known (i := i) (m := .opened familyId) (by rw [heq]; simp) (by simp [Mark.ids])
  · exact h.mark_known (i := i) (m := .retired id familyId) (by rw [heq]; simp)
      (by simp [Mark.ids])

/-- Rows may go, and may be revoked. -/
theorem shrink (h : Rotated journal s) {t : Table Id RefreshToken}
    (ht : ∀ {id row'}, t.get id = some row' → ∃ row, s.refreshTokens.get id = some row ∧
      row'.familyId = row.familyId ∧ (row'.revokedAt = none → row.revokedAt = none)) :
    Rotated journal ⟨t, s.uuids⟩ where
  row_known hrow' := by
    obtain ⟨row, hrow, hf, -⟩ := ht hrow'
    rw [hf]
    exact h.row_known hrow
  mark_known := h.mark_known
  live hrow' hrow'' hlive hlive' hf := by
    obtain ⟨row₁, hrow₁, hf₁, hl₁⟩ := ht hrow'
    obtain ⟨row₂, hrow₂, hf₂, hl₂⟩ := ht hrow''
    exact h.live hrow₁ hrow₂ (hl₁ hlive) (hl₂ hlive') (hf₁.symm.trans (hf.trans hf₂))
  pending hrow' hc hlive := by
    obtain ⟨row, hrow, hf, hl⟩ := ht hrow'
    rw [hf] at hc
    exact h.pending hrow hc (hl hlive)
  apart := h.apart
  gone hm hrow' hlive := by
    obtain ⟨row, hrow, -, hl⟩ := ht hrow'
    exact h.gone hm hrow (hl hlive)
  once := h.once

/-- Login takes a family nobody has seen. -/
theorem opens (h : Rotated journal s) {familyId : Id} (hfresh : familyId ∉ s.uuids) :
    Rotated (Function.update journal i [.opened familyId])
      ⟨s.refreshTokens, familyId :: s.uuids⟩ where
  row_known hrow := by
    obtain ⟨hid, hfamily⟩ := h.row_known hrow
    exact ⟨List.mem_cons_of_mem _ hid, List.mem_cons_of_mem _ hfamily⟩
  mark_known := by grind [h.mark_known, Function.update_apply, Mark.ids]
  live := h.live
  pending {k id row} hrow hc := by
    have hfamily := (h.row_known hrow).2
    grind [h.pending, Function.update_apply, claimed]
  apart := by grind [h.apart, h.claimed_known, Function.update_apply, claimed]
  gone := by grind [h.gone, Function.update_apply]
  once := by grind [h.once, Function.update_apply]

/-- Refresh retires the one live token of a family, and claims the family. -/
theorem retires (h : Rotated journal s) {id : Id} {row : RefreshToken} {now : Instant}
    (hrow : s.refreshTokens.get id = some row) (hlive : row.revokedAt = none) :
    Rotated (Function.update journal i [.retired id row.familyId])
      ⟨s.refreshTokens.put id { row with revokedAt := some now }, s.uuids⟩ where
  row_known {id' row'} hrow' := by
    have hknown := h.row_known hrow
    have hknown' : ∀ r, s.refreshTokens.get id' = some r → _ := fun r hr => h.row_known hr
    grind [Table.get_put]
  mark_known {k m id'} hm hid := by
    have hknown := h.row_known hrow
    grind [h.mark_known, Function.update_apply, Mark.ids]
  live := by grind [h.live, Table.get_put]
  pending {k id' row'} hrow' hc := by
    -- another live token of the family would be this one
    have hother : ∀ r, s.refreshTokens.get id' = some r → r.revokedAt = none →
        r.familyId = row.familyId → id' = id := fun r hr hl hf => h.live hr hrow hl hlive hf
    grind [h.pending, Function.update_apply, claimed, Table.get_put]
  apart {k k' familyId} hk hk' := by
    have hnone : ∀ k, claimed (journal k) ≠ some row.familyId :=
      fun k hc => h.pending hrow hc hlive
    grind [h.apart, Function.update_apply, claimed]
  gone {k id' familyId row'} hm hrow' := by
    grind [h.gone, Function.update_apply, Table.get_put]
  once {k k' id' familyId familyId'} hk hk' := by
    have hnone : ∀ k f, .retired id f ∉ journal k := fun k f hm => h.gone hm hrow hlive
    grind [h.once, Function.update_apply]

/-- The family a call has claimed gets its token. -/
theorem issues (h : Rotated journal s) {id familyId : Id} {row : RefreshToken}
    (hc : claimed (journal i) = some familyId) (hfresh : id ∉ s.uuids)
    (hfamily : row.familyId = familyId) :
    Rotated (Function.update journal i (journal i ++ [.issued id familyId]))
      ⟨s.refreshTokens.put id row, id :: s.uuids⟩ := by
  have hdone : claimed (journal i ++ [.issued id familyId]) = none := by
    rcases claimed_eq_some.mp hc with heq | ⟨id', heq⟩ <;> rw [heq] <;> rfl
  have hknown := h.claimed_known hc
  have hold : ∀ {id' r}, s.refreshTokens.get id' = some r → id' ≠ id :=
    fun hr hid => hfresh (hid ▸ (h.row_known hr).1)
  have hmark : ∀ {k f}, .retired id f ∉ journal k :=
    fun hm => hfresh (h.mark_known hm (by simp [Mark.ids]))
  refine ⟨fun {id' row'} hrow' => ?_, fun {k m id'} hm hid => ?_, fun {id₁ id₂ r₁ r₂} h₁ h₂ => ?_,
    fun {k id' row'} hrow' hk => ?_, fun {k k' f} hk hk' => ?_, fun {k id' f row'} hm hrow' => ?_,
    fun {k k' id' f f'} hk hk' => ?_⟩
  · have hknown' : ∀ r, s.refreshTokens.get id' = some r → _ := fun r hr => h.row_known hr
    grind [Table.get_put]
  · grind [h.mark_known, Function.update_apply, Mark.ids]
  · have hnone : ∀ {id' r}, s.refreshTokens.get id' = some r → r.familyId = familyId →
        r.revokedAt ≠ none := fun hr hf => h.pending hr (hf ▸ hc)
    grind [h.live, Table.get_put]
  · have hone : ∀ k, claimed (journal k) = some familyId → k = i := fun k hk => h.apart hk hc
    grind [h.pending, Function.update_apply, Table.get_put]
  · grind [h.apart, Function.update_apply]
  · grind [h.gone, Function.update_apply, Table.get_put]
  · grind [h.once, Function.update_apply]

/-- A call takes note of a family it saw. -/
theorem notes (h : Rotated journal s) (hc : claimed l' = none)
    (hids : ∀ m ∈ l', ∀ id ∈ m.ids, id ∈ s.uuids) (hret : ∀ id f, .retired id f ∉ l') :
    Rotated (Function.update journal i l') s where
  row_known := h.row_known
  mark_known := by grind [h.mark_known, Function.update_apply]
  live := h.live
  pending {k id row} hrow hk := by
    have hold : claimed (journal k) = some row.familyId → _ := fun hk => h.pending hrow hk
    grind [Function.update_apply]
  apart := by grind [h.apart, Function.update_apply]
  gone := by grind [h.gone, Function.update_apply]
  once := by grind [h.once, Function.update_apply]

/-- The live token of a family, if there is one, is revoked. -/
theorem revokes (h : Rotated journal s) {familyId : Id} {now : Instant} :
    Rotated journal ⟨s.refreshTokens.mapRows fun row => row.revokeIn familyId now, s.uuids⟩ := by
  refine h.shrink fun {id row'} hrow' => ?_
  rw [Table.get_mapRows] at hrow'
  obtain ⟨row, hrow, rfl⟩ := Option.map_eq_some_iff.mp hrow'
  refine ⟨row, hrow, ?_, ?_⟩ <;> grind [RefreshToken.revokeIn]

/-- The step lemma. -/
theorem step (h : Rotated journal s) (hm : Move (journal i) s l' s') :
    Rotated (Function.update journal i l') s' := by
  cases hm with
  | quiet =>
    rw [Function.update_eq_self]
    exact h
  | opens _ hfresh => exact h.opens hfresh
  | retires _ hrow hlive => exact h.retires hrow hlive
  | issues hc hfresh hfamily _ => exact h.issues hc hfresh hfamily
  | finds _ hrow =>
    have hknown := (h.row_known hrow).2
    exact h.notes rfl (by simp [Mark.ids, hknown]) (by simp)
  | @revokes familyId now hl =>
    have hknown : familyId ∈ s.uuids :=
      h.mark_known (i := i) (m := .found familyId) (by simp [hl]) (by simp [Mark.ids])
    have hs : Rotated journal ⟨s.refreshTokens.mapRows fun row => row.revokeIn familyId now,
        s.uuids⟩ := h.revokes
    exact hs.notes rfl (by simp [Mark.ids, hknown]) (by simp)
  | deletes =>
    rw [Function.update_eq_self]
    refine h.shrink fun hrow => ?_
    rw [Table.get_keep] at hrow
    exact ⟨_, (Option.filter_eq_some_iff.mp hrow).1, rfl, fun h => h⟩

theorem initial : Rotated (fun _ => []) ⟨∅, []⟩ where
  row_known h := by cases h
  mark_known h := by cases h
  live h := by cases h
  pending h := by cases h
  apart h := by cases h
  gone h := by cases h
  once h := by cases h

end Rotated

/-- What every operation of every call preserves of the journals and the table holds in every
world that a run reaches. -/
theorem Reachable.invariant {J : (ℕ → List Mark) → State → Prop} (init : J (fun _ => []) ⟨∅, []⟩)
    (step : ∀ j i s l' s', J j s → Move (j i) s l' s' → J (Function.update j i l') s')
    {w : AuthWorld} (h : Reachable cfg w) : J (w.sessionAt []) w.shared := by
  refine Sound.sessions_invariant (starts opening.shared) happens (fun _ => rfl)
    (fun j i c o s l' s' hJ _ hm => step j i s l' s' hJ hm) (fun _ e => e.elim) (.initial trivial)
    ?_ h
  have hidle : opening.sessionAt (system cfg).machine.idle = fun _ => [] :=
    funext fun i => by cases i <;> rfl
  exact hidle ▸ init

theorem Reachable.rotated {w : AuthWorld} (h : Reachable cfg w) :
    Rotated (w.sessionAt []) w.shared :=
  h.invariant .initial fun _ _ _ _ _ hJ hm => hJ.step hm

/-- The token a mark says was inserted. -/
def Mark.child : Mark → Option Id
  | .issued id _ => some id
  | _ => none

/-- A call inserts one token at most. -/
theorem Reachable.one_child {w : AuthWorld} (h : Reachable cfg w) (i : ℕ) :
    ((w.sessionAt [] i).filterMap Mark.child).length ≤ 1 := by
  refine h.invariant (J := fun j _ => ∀ i, ((j i).filterMap Mark.child).length ≤ 1)
    (fun _ => Nat.zero_le _) ?_ i
  intro j i s l' s' hJ hm k
  by_cases hk : k = i
  · subst hk
    rw [Function.update_self]
    cases hm with
    | quiet => exact hJ k
    | deletes => exact hJ k
    | opens | retires | finds | revokes => exact Nat.zero_le 1
    | issues hc =>
      rcases claimed_eq_some.mp hc with heq | ⟨id, heq⟩ <;> rw [heq] <;> exact Nat.le_refl 1
  · rw [Function.update_of_ne hk]
    exact hJ k

/-! ## The results -/

/-- The live tokens of a family. -/
def State.liveIn (s : State) (familyId : Id) : List (Id × RefreshToken) :=
  s.refreshTokens.select fun _ row => row.familyId == familyId && row.isLive

/-- A call has retired token `id` and inserted token `child`. -/
def IsParent (w : AuthWorld) (id child : Id) : Prop :=
  ∃ t ∈ w.threads, ∃ familyId familyId', .retired id familyId ∈ t.session ∧
    .issued child familyId' ∈ t.session

theorem Rotated.liveIn_length {journal : ℕ → List Mark} {s : State} (h : Rotated journal s)
    (familyId : Id) : (s.liveIn familyId).length ≤ 1 := by
  -- the ids of a select are distinct, and all live ones are one
  have hnodup : ((s.liveIn familyId).map Prod.fst).Nodup := Table.nodup_select ..
  have hsame : ∀ q ∈ s.liveIn familyId, ∀ q' ∈ s.liveIn familyId, q.1 = q'.1 := by
    rintro ⟨id, row⟩ hq ⟨id', row'⟩ hq'
    obtain ⟨hrow, hp⟩ := Table.mem_select.mp hq
    obtain ⟨hrow', hp'⟩ := Table.mem_select.mp hq'
    simp only [RefreshToken.isLive, Bool.and_eq_true, beq_iff_eq, Option.isNone_iff_eq_none]
      at hp hp'
    exact h.live hrow hrow' hp.2 hp'.2 (hp.1.trans hp'.1.symm)
  rcases hl : s.liveIn familyId with _ | ⟨q, _ | ⟨q', qs⟩⟩
  · simp
  · simp
  · rw [hl] at hnodup hsame
    simp [hsame q (by simp) q' (by simp)] at hnodup

theorem Reachable.one_parent {w : AuthWorld} (h : Reachable cfg w) {id child child' : Id}
    (hc : IsParent w id child) (hc' : IsParent w id child') : child = child' := by
  obtain ⟨t, ht, f, g, hret, hiss⟩ := hc
  obtain ⟨t', ht', f', g', hret', hiss'⟩ := hc'
  obtain ⟨i, hi⟩ := List.mem_iff_getElem?.mp ht
  obtain ⟨k, hk⟩ := List.mem_iff_getElem?.mp ht'
  rw [← World.sessionAt_eq [] hi] at hret hiss
  rw [← World.sessionAt_eq [] hk] at hret' hiss'
  -- the token was retired once, so it is one call
  obtain rfl := h.rotated.once hret hret'
  have hone := h.one_child i
  have hmem : child ∈ (w.sessionAt [] i).filterMap Mark.child :=
    List.mem_filterMap.mpr ⟨_, hiss, rfl⟩
  have hmem' : child' ∈ (w.sessionAt [] i).filterMap Mark.child :=
    List.mem_filterMap.mpr ⟨_, hiss', rfl⟩
  rcases hl : (w.sessionAt [] i).filterMap Mark.child with _ | ⟨x, _ | ⟨y, ys⟩⟩ <;>
    rw [hl] at hone hmem hmem'
  · cases hmem
  · rw [List.mem_singleton.mp hmem, List.mem_singleton.mp hmem']
  · simp at hone

/-- A row that was revoked stays as it is, as long as it is there. -/
structure Kept (s₀ s : State) : Prop where
  uuids : ∀ x ∈ s₀.uuids, x ∈ s.uuids
  revoked : ∀ {id row row'}, s₀.refreshTokens.get id = some row → row.revokedAt ≠ none →
    s.refreshTokens.get id = some row' → row'.revokedAt ≠ none

theorem Kept.step {s₀ s s' : State} {l l' : List Mark} (h : Kept s₀ s)
    (hknown : ∀ {id row}, s₀.refreshTokens.get id = some row → id ∈ s₀.uuids)
    (hm : Move l s l' s') : Kept s₀ s' := by
  cases hm with
  | quiet => exact h
  | opens _ _ => exact ⟨fun x hx => List.mem_cons_of_mem _ (h.uuids x hx), h.revoked⟩
  | retires _ hrow hlive =>
    refine ⟨h.uuids, fun {id row row'} h₀ hrev h₁ => ?_⟩
    grind [h.revoked, Table.get_put]
  | @issues id _ _ _ hfresh _ _ =>
    refine ⟨fun x hx => List.mem_cons_of_mem _ (h.uuids x hx), fun {id' row row'} h₀ hrev h₁ => ?_⟩
    have hne : id' ≠ id := fun heq => hfresh (heq ▸ h.uuids _ (hknown h₀))
    rw [Table.get_put_ne _ _ hne] at h₁
    exact h.revoked h₀ hrev h₁
  | finds _ _ => exact h
  | revokes _ =>
    refine ⟨h.uuids, fun {id row row'} h₀ hrev h₁ => ?_⟩
    rw [Table.get_mapRows] at h₁
    obtain ⟨row₁, hrow₁, rfl⟩ := Option.map_eq_some_iff.mp h₁
    have := h.revoked h₀ hrev hrow₁
    grind [RefreshToken.revokeIn]
  | deletes =>
    refine ⟨h.uuids, fun {id row row'} h₀ hrev h₁ => ?_⟩
    rw [Table.get_keep] at h₁
    exact h.revoked h₀ hrev (Option.filter_eq_some_iff.mp h₁).1

theorem Reachable.kept {w w' : AuthWorld} (h : Reachable cfg w)
    (hr : Runs (system cfg) .all w w') : Kept w.shared w'.shared :=
  h.sound.shared_invariant (starts opening.shared) happens (J := Kept w.shared)
    (fun _ _ _ _ _ _ _ hJ _ hm => hJ.step (fun hrow => (h.rotated.row_known hrow).1) hm)
    (fun e => e.elim) ⟨fun _ hx => hx, fun h₀ hrev h₁ => by
      obtain rfl := Option.some.inj (h₀.symm.trans h₁)
      exact hrev⟩ hr

/-- In every reachable state a family has at most one live token, a token is the parent of at
most one other, and what is revoked stays revoked. -/
theorem refresh_rotation {w : AuthWorld} (h : Reachable cfg w) :
    (∀ familyId, (w.shared.liveIn familyId).length ≤ 1) ∧
    (∀ id child child', IsParent w id child → IsParent w id child' → child = child') ∧
    ∀ w', Runs (system cfg) .all w w' → ∀ id row row',
      w.shared.refreshTokens.get id = some row → row.revokedAt ≠ none →
      w'.shared.refreshTokens.get id = some row' → row'.revokedAt ≠ none :=
  ⟨h.rotated.liveIn_length, fun _ _ _ => h.one_parent,
    fun _ hr _ _ _ hrow hrev hrow' => (h.kept hr).revoked hrow hrev hrow'⟩

/-! ## A run -/

/-- A sequence of actions from the opening, evaluated. -/
theorem Reachable.exists_of_runIf (cfg : Config) (acts : List AuthAct) (p : AuthWorld → Prop)
    [DecidablePred p]
    (h : (opening.runIf (system cfg) (fun _ _ => true) acts).any (fun w => decide (p w)) = true) :
    ∃ w, Reachable cfg w ∧ p w :=
  Runs.exists_of_runIf (fun w a _ => Runs.allows_all w a) h

/-- A service whose hash of a secret is the secret. -/
def plainAuth : Config := ⟨1209600, id⟩

/-- What the outside supplies: user 7, an id and a secret. -/
def supply (fresh : Id) (secret : String) : Input :=
  { fresh, secret, now := 5, user := some ⟨7, "m@cafe.test", "M", .manager, "h", true⟩ }

/-- Call `i` performs its next `n` operations. -/
def steps (i n : ℕ) (inp : Input) : List AuthAct := List.replicate n (.step i inp)

/-- User 7 signs in (call 0): family 1, token 10 with the secret `a`. -/
def signIn : List AuthAct :=
  .start (.login "m@cafe.test" "pw") :: steps 0 5 (supply 1 "") ++ steps 0 3 (supply 10 "a")

/-- Token 10 is presented twice at once; call 1 wins and inserts token 11. -/
theorem refresh_rotation_raced : ∃ w, Reachable plainAuth w ∧
    (w.shared.liveIn 1).map Prod.fst = [] ∧ w.threads.length = 3 ∧
    (∀ id child child', IsParent w id child → IsParent w id child' → child = child') := by
  obtain ⟨w, hw, hlive, hlen⟩ := Reachable.exists_of_runIf plainAuth
    (signIn ++ .start (.refresh "a") :: .start (.refresh "a") :: steps 1 1 (supply 0 "") ++
      steps 2 1 (supply 0 "") ++ steps 1 5 (supply 11 "b") ++ steps 2 2 (supply 0 ""))
    (fun w => (w.shared.liveIn 1).map Prod.fst = [] ∧ w.threads.length = 3) (by decide)
  exact ⟨w, hw, hlive, hlen, (refresh_rotation hw).2.1⟩

end CafePos.Auth
