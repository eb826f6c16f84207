import CafePos.Settlement

/-!
# A logic for doors

`Ensures Γ c m Q E l s`: the door `m`, run by call `c` from session `l` and state `s` in
any interleaving, returns into `Q` or throws into `E`, and every operation of it is a
`Move`. There is one rule for each way a door is built and one for each operation; the
rules for operations hand over the state `s₁` the operation found, which is only known to
be `After` the state the last one left.

A `Context` is what a proof may assume of the other calls beyond `Settled` and `Grows`: a
condition on the actions of the run, and an invariant that permitted moves keep.
-/

namespace CafePos

open Interleaving

/-! ## Contexts -/

/-- A condition on runs, and an invariant of the runs that meet it. -/
structure Context (cfg : Config) where
  /-- the runs considered -/
  permit : PosPermit
  /-- the invariant, beyond `Settled` -/
  extra : Shared → Prop
  move : ∀ {c o l s l' s'}, permit.step c o l s → Settled s.db → extra s →
    Move cfg permit c o l s l' s' → extra s'
  happen : ∀ {e s s'}, permit.world e → Settled s.db → extra s → happen e s = some s' → extra s'

variable {cfg : Config}

/-- Every run, and no invariant beyond `Settled`. -/
def Context.plain (cfg : Config) : Context cfg where
  permit := .all
  extra _ := True
  move _ _ _ _ := trivial
  happen _ _ _ _ := trivial

/-- What happens by itself moves the state forward. -/
theorem happen_grows {e : Happening} {s s' : Shared} (h : happen e s = some s') : Grows s s' := by
  have hdb := happen_db h
  cases e with
  | confirm i eventId =>
    obtain ⟨g, hg, rfl⟩ := Option.map_eq_some_iff.mp h
    exact ⟨.refl _, .confirm hg⟩
  | decline i eventId =>
    obtain ⟨g, hg, rfl⟩ := Option.map_eq_some_iff.mp h
    exact ⟨.refl _, .decline hg⟩

/-- So does every operation. -/
theorem Move.grows {P : PosPermit} {c : Call} {o : Op} {l l' : Sess} {s s' : Shared}
    (h : Move cfg P c o l s l' s') (hs : Settled s.db) : Grows s s' :=
  h.preserves (.refl s) (fun _ hg => ⟨.refl _, hg.grows⟩)
    (fun _ hc _ _ => ⟨hc.grows hs, .refl _⟩)

theorem Move.settled {P : PosPermit} {c : Call} {o : Op} {l l' : Sess} {s s' : Shared}
    (h : Move cfg P c o l s l' s') (hs : Settled s.db) : Settled s'.db :=
  h.preserves (J := fun s => Settled s.db) hs (fun _ _ => hs) (fun _ hc _ _ => hc.settled hs)

namespace Context

variable (Γ : Context cfg)

/-- What is proved of every call. -/
def spec : Spec Shared Sess Op Call Happening where
  inv s := Settled s.db ∧ Γ.extra s
  rely := Grows
  gua := Move cfg Γ.permit
  permit := Γ.permit
  rely_refl := .refl
  rely_trans := .trans
  gua_rely hi hg := hg.grows hi.1
  gua_inv hp hi hg := ⟨hg.settled hi.1, Γ.move hp hi.1 hi.2 hg⟩

theorem happens : Happens Γ.spec (system cfg) := by
  intro e s s' hp hi hs
  have hdb : s'.db = s.db := happen_db hs
  exact ⟨⟨hdb ▸ hi.1, Γ.happen hp hi.1 hi.2 hs⟩, happen_grows hs⟩

/-- The states in which the next operation may find itself. -/
abbrev After (l : Sess) (s s₁ : Shared) : Prop := Γ.spec.After machine l s s₁

end Context

/-! ## Doors -/

/-- Door `m` of call `c`, begun with session `l` in state `s`, returns into `Q` or throws
into `E`. -/
def Ensures {α : Type} (Γ : Context cfg) (c : Call) (m : Door α) (Q : α → Sess → Shared → Prop)
    (E : Err → Sess → Shared → Prop) (l : Sess) (s : Shared) : Prop :=
  Γ.spec.wp machine c (fun r l s => match r with
    | .ok a => Q a l s
    | .error e => E e l s) m.run l s

namespace Ensures

variable {α β : Type} {Γ : Context cfg} {c : Call} {Q : α → Sess → Shared → Prop}
  {E : Err → Sess → Shared → Prop} {l : Sess} {s : Shared}

theorem pure {a : α} (h : Q a l s) : Ensures Γ c (Pure.pure a) Q E l s := h

theorem throw {e : Err} (h : E e l s) : Ensures Γ c (MonadExcept.throw e : Door α) Q E l s := h

/-- A door that ends in more precise ways ends in these. -/
theorem mono {Q' : α → Sess → Shared → Prop} {E' : Err → Sess → Shared → Prop} {m : Door α}
    (h : Ensures Γ c m Q' E' l s) (hQ : ∀ a l' s', Grows s s' → Q' a l' s' → Q a l' s')
    (hE : ∀ e l' s', Grows s s' → E' e l' s' → E e l' s') : Ensures Γ c m Q E l s := by
  refine Spec.wp_mono (fun r l' s' hs => ?_) h
  cases r with
  | ok a => exact hQ a l' s' hs
  | error e => exact hE e l' s' hs

theorem bind {m : Door β} {f : β → Door α}
    (h : Ensures Γ c m (fun b l s => Ensures Γ c (f b) Q E l s) E l s) :
    Ensures Γ c (m >>= f) Q E l s := by
  refine Spec.wp_bind (Spec.wp_mono (fun r l' s' _ hr => ?_) h)
  cases r with
  | ok b => exact hr
  | error e => exact hr

theorem map {m : Door β} {f : β → α} (h : Ensures Γ c m (fun b => Q (f b)) E l s) :
    Ensures Γ c (f <$> m) Q E l s := by
  refine Spec.wp_bind (Spec.wp_mono (fun r l' s' _ hr => ?_) h)
  cases r with
  | ok b => exact hr
  | error e => exact hr

theorem tryCatch {m : Door α} {handle : Err → Door α}
    (h : Ensures Γ c m Q (fun e l s => Ensures Γ c (handle e) Q E l s) l s) :
    Ensures Γ c (MonadExcept.tryCatch m handle) Q E l s := by
  refine Spec.wp_bind (Spec.wp_mono (fun r l' s' _ hr => ?_) h)
  cases r with
  | ok b => exact hr
  | error e => exact hr

/-- A statement's SQLSTATE is thrown. -/
theorem raising {m : Door (Except SqlState α)}
    (h : Ensures Γ c m (fun r l s => match r with
      | .ok a => Q a l s
      | .error state => E (.sql state) l s) E l s) :
    Ensures Γ c (Door.raising m) Q E l s := by
  refine bind (mono h (fun r l' s' _ hr => ?_) (fun _ _ _ _ h => h))
  cases r with
  | ok a => exact pure hr
  | error state => exact throw hr

end Ensures

/-! ## Operations -/

namespace Ensures

variable {Γ : Context cfg} {c : Call} {E : Err → Sess → Shared → Prop} {l : Sess} {s : Shared}

/-- One operation: every way it can run is a `Move`, and ends in `Q`. -/
theorem perform {o : Op} {Q : o.Res → Sess → Shared → Prop}
    (h : ∀ s₁ inp locked r l' s₂, Γ.After l s s₁ → Γ.permit.step c o l s₁ →
      exec inp locked l s₁ o = some (r, l', s₂) →
      Move cfg Γ.permit c o l s₁ l' s₂ ∧ Q r l' s₂) :
    Ensures Γ c (Door.perform o) Q E l s :=
  fun s₁ hs₁ hp inp locked r l' s₂ _ hx => h s₁ inp locked r l' s₂ hs₁ hp hx

/-- An operation that changes nothing anybody could see. -/
theorem quiet {o : Op} {Q : o.Res → Sess → Shared → Prop}
    (ho : ∀ s₁ inp locked r l' s₂, exec inp locked l s₁ o = some (r, l', s₂) → l' = l ∧ s₂ = s₁)
    (h : ∀ s₁ inp locked r, Γ.After l s s₁ → Γ.permit.step c o l s₁ →
      exec inp locked l s₁ o = some (r, l, s₁) → Q r l s₁) :
    Ensures Γ c (Door.perform o) Q E l s := by
  refine perform fun s₁ inp locked r l' s₂ hs₁ hp hx => ?_
  obtain ⟨rfl, rfl⟩ := ho s₁ inp locked r l' s₂ hx
  exact ⟨.quiet rfl rfl, h s₂ inp locked r hs₁ hp hx⟩

theorem now {Q : Instant → Sess → Shared → Prop} (h : ∀ s₁ t, Γ.After l s s₁ → Q t l s₁) :
    Ensures Γ c (Door.perform .now) Q E l s := by
  refine quiet (fun s₁ inp locked r l' s₂ hx => ?_) fun s₁ inp locked r hs₁ _ _ => h s₁ r hs₁
  obtain ⟨-, rfl, rfl⟩ := Option.some.inj hx |> Prod.mk.inj |>.imp_right Prod.mk.inj
  exact ⟨rfl, rfl⟩

theorem menuItems {ids : List Id} {Q : List MenuItemRow → Sess → Shared → Prop}
    (h : ∀ s₁ rows, Γ.After l s s₁ → Q rows l s₁) :
    Ensures Γ c (Door.perform (.menuItems ids)) Q E l s := by
  refine quiet (fun s₁ inp locked r l' s₂ hx => ?_) fun s₁ inp locked r hs₁ _ _ => h s₁ r hs₁
  obtain ⟨-, rfl, rfl⟩ := Option.some.inj hx |> Prod.mk.inj |>.imp_right Prod.mk.inj
  exact ⟨rfl, rfl⟩

theorem deviceStatus {deviceId : Id} {Q : Option DeviceStatus → Sess → Shared → Prop}
    (h : ∀ s₁ r, Γ.After l s s₁ → Q r l s₁) :
    Ensures Γ c (Door.perform (.deviceStatus deviceId)) Q E l s := by
  refine quiet (fun s₁ inp locked r l' s₂ hx => ?_) fun s₁ inp locked r hs₁ _ _ => h s₁ r hs₁
  obtain ⟨-, rfl, rfl⟩ := Option.some.inj hx |> Prod.mk.inj |>.imp_right Prod.mk.inj
  exact ⟨rfl, rfl⟩

theorem stripeRetrieve {i : String} {Q : Except StripeError RetrievedIntent → Sess → Shared → Prop}
    (h : ∀ s₁ inp, Γ.After l s s₁ → Q (stripeRetrieve inp i s₁.gateway) l s₁) :
    Ensures Γ c (Door.perform (.stripeRetrieve i)) Q E l s := by
  refine quiet (fun s₁ inp locked r l' s₂ hx => ?_) fun s₁ inp locked r hs₁ _ hx => ?_
  · obtain ⟨-, rfl, rfl⟩ := Option.some.inj hx |> Prod.mk.inj |>.imp_right Prod.mk.inj
    exact ⟨rfl, rfl⟩
  · obtain ⟨rfl, -⟩ := Option.some.inj hx |> Prod.mk.inj
    exact h s₁ inp hs₁

/-- A `SELECT` sees what is committed when it runs. -/
theorem select {q : Query} {Q : q.Answer → Sess → Shared → Prop}
    (h : ∀ s₁, Γ.After l s s₁ → Γ.permit.step c (.query .pool q) l s₁ →
      Q (q.answer s₁.db) l s₁) : Ensures Γ c (Door.select q) Q E l s := by
  refine quiet (fun s₁ inp locked r l' s₂ hx => ?_) fun s₁ inp locked r hs₁ hp hx => ?_
  · obtain ⟨-, rfl, rfl⟩ := Option.some.inj hx |> Prod.mk.inj |>.imp_right Prod.mk.inj
    exact ⟨rfl, rfl⟩
  · obtain ⟨rfl, -⟩ := Option.some.inj hx |> Prod.mk.inj
    exact h s₁ hs₁ hp

/-- A `SELECT` of a transaction sees the transaction's own writes too. -/
theorem selectTx {q : Query} {Q : q.Answer → Sess → Shared → Prop}
    (h : ∀ s₁, Γ.After l s s₁ → Q (q.answer (l.view store s₁.db)) l s₁) :
    Ensures Γ c (Door.selectTx q) Q E l s := by
  refine quiet (fun s₁ inp locked r l' s₂ hx => ?_) fun s₁ inp locked r hs₁ hp hx => ?_
  · obtain ⟨-, rfl, rfl⟩ := Option.some.inj hx |> Prod.mk.inj |>.imp_right Prod.mk.inj
    exact ⟨rfl, rfl⟩
  · obtain ⟨rfl, -⟩ := Option.some.inj hx |> Prod.mk.inj
    exact h s₁ hs₁

theorem stripeCreate {request : CreateIntentRequest}
    {Q : Except StripeError (String × ClientSecret) → Sess → Shared → Prop}
    (h : ∀ s₁ inp r g, Γ.After l s s₁ → stripeCreate inp request s₁.gateway = some (r, g) →
      Q r l ⟨s₁.db, g⟩) : Ensures Γ c (Door.perform (.stripeCreate request)) Q E l s := by
  refine perform fun s₁ inp locked r l' s₂ hs₁ _ hx => ?_
  obtain ⟨⟨r', g⟩, hr, hr'⟩ := Option.map_eq_some_iff.mp hx
  obtain ⟨rfl, rfl, rfl⟩ := Prod.mk.inj hr' |>.imp_right Prod.mk.inj
  exact ⟨.gateway (Or.inl ⟨inp, request, _, hr⟩), h s₁ inp r' g hs₁ hr⟩

theorem stripeCancel {i : String} {Q : Except StripeError Unit → Sess → Shared → Prop}
    (h : ∀ s₁ inp, Γ.After l s s₁ → Q (stripeCancel inp i s₁.gateway).1 l
      ⟨s₁.db, (CafePos.stripeCancel inp i s₁.gateway).2⟩) :
    Ensures Γ c (Door.perform (.stripeCancel i)) Q E l s := by
  refine perform fun s₁ inp locked r l' s₂ hs₁ _ hx => ?_
  obtain ⟨rfl, rfl, rfl⟩ := Option.some.inj hx |> Prod.mk.inj |>.imp_right Prod.mk.inj
  exact ⟨.gateway (Or.inr ⟨inp, i, rfl⟩), h s₁ inp hs₁⟩

theorem publish {events : List DomainEvent} {Q : Unit → Sess → Shared → Prop}
    (hann : Announces (l.published ++ events) l.committed)
    (h : ∀ s₁, Γ.After l s s₁ → Q () (l.publish events) s₁) :
    Ensures Γ c (Door.perform (.publish events)) Q E l s := by
  refine perform fun s₁ inp locked r l' s₂ hs₁ _ hx => ?_
  obtain ⟨-, rfl, rfl⟩ := Option.some.inj hx |> Prod.mk.inj |>.imp_right Prod.mk.inj
  exact ⟨.publish hann, h s₁ hs₁⟩

end Ensures

end CafePos
