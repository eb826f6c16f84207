import CafePos.Revocation

/-!
# What the denylist answers

A key of the denylist outlives every token that was minted before it was set, so a token that was
revoked since it was minted is denied until it expires, in every run (`Covered`). The converse
fails: the key of a user does not say when it was set, and denies the tokens that are minted while
it lives as well. In every run in which no token is minted while a key of its user lives
(`mintsUndenied`), the denylist denies exactly the tokens that were revoked since they were minted.
-/

namespace CafePos.Revocation

open Interleaving

variable {cfg : Config}

/-- No token is minted while a key of its user lives. -/
def mintsUndenied (_ : Call) (o : Op) (_ : Note) (s : State) : Bool :=
  match o with
  | .issue userId => (s.denylist.get (.user userId)).isNone
  | _ => true

/-! ## Keys outlive tokens -/

/-- No token lives longer than a lifetime, and a token that was revoked is denied as long as it
lives. -/
structure Covered (cfg : Config) (s : State) : Prop where
  lifetime : ∀ jti token, s.tokens.get jti = some token → token.expiresAt ≤ s.clock + cfg.lifetime
  denied : ∀ jti token, s.tokens.get jti = some token → token.revoked = true →
    s.clock < token.expiresAt →
    ∃ key expiresAt, key.names jti token = true ∧ s.denylist.get key = some expiresAt ∧
      token.expiresAt ≤ expiresAt

/-- Only the tokens that were revoked are named by a key. -/
def Exact (s : State) : Prop := ∀ jti token key, s.tokens.get jti = some token →
  (s.denylist.get key).isSome → key.names jti token = true → token.revoked = true

theorem Config.expiry_le (cfg : Config) (now : Instant) :
    cfg.expiry now ≤ now + cfg.lifetime := by
  have hfloor := Int.ediv_mul_le now (by decide : (1000 : ℤ) ≠ 0)
  exact Int.add_le_add_right hfloor cfg.lifetime

/-- A token as it was before a key was set. -/
theorem get_mark {s : State} {key : DenyKey} {jti : Id} {token : AccessToken}
    (h : (s.mark key).get jti = some token) :
    ∃ token₀, s.tokens.get jti = some token₀ ∧ token = token₀.marked key jti := by
  rw [State.mark, Table.get_mapKeyed, Option.map_eq_some_iff] at h
  obtain ⟨token₀, hget, rfl⟩ := h
  exact ⟨token₀, hget, rfl⟩

@[simp] theorem DenyKey.names_marked (key key' : DenyKey) (jti : Id) (token : AccessToken) :
    key.names jti (token.marked key' jti) = key.names jti token := by
  cases key <;> rfl

/-- A token is minted. -/
theorem Covered.issue {s : State} (h : Covered cfg s) {jti userId : Id} : Covered cfg { s with
    tokens := s.tokens.put jti ⟨userId, cfg.expiry s.clock, false⟩ } where
  lifetime jti' token hget := by
    rw [Table.get_put] at hget
    split at hget
    · rw [← Option.some.inj hget]
      exact cfg.expiry_le s.clock
    · exact h.lifetime jti' token hget
  denied jti' token hget hrevoked hclock := by
    rw [Table.get_put] at hget
    split at hget
    · rw [← Option.some.inj hget] at hrevoked
      cases hrevoked
    · exact h.denied jti' token hget hrevoked hclock

/-- A key is set: it outlives every token there is. -/
theorem Covered.set {s : State} (h : Covered cfg s) (key : DenyKey) : Covered cfg { s with
    denylist := s.denylist.put key (s.clock + cfg.lifetime)
    tokens := s.mark key } where
  lifetime jti token hget := by
    obtain ⟨token₀, hget₀, rfl⟩ := get_mark hget
    exact h.lifetime jti token₀ hget₀
  denied jti token hget hrevoked hclock := by
    obtain ⟨token₀, hget₀, rfl⟩ := get_mark hget
    by_cases hnames : key.names jti token₀ = true
    · exact ⟨key, _, by simpa using hnames, Table.get_put_self .., h.lifetime jti token₀ hget₀⟩
    · have hrevoked₀ : token₀.revoked = true := by
        simpa [AccessToken.marked, hnames] using hrevoked
      obtain ⟨key', expiresAt, hkey', hlive, hle⟩ := h.denied jti token₀ hget₀ hrevoked₀ hclock
      have hne : key' ≠ key := fun heq => hnames (heq ▸ hkey')
      exact ⟨key', expiresAt, by simpa using hkey', (Table.get_put_ne _ _ hne).trans hlive, hle⟩

/-- Time passes. -/
theorem Covered.tick {s : State} (h : Covered cfg s) (elapsed : ℕ) : Covered cfg { s with
    clock := s.clock + elapsed
    denylist := s.denylist.keep fun _ expiresAt => decide (s.clock + elapsed ≤ expiresAt) } where
  lifetime jti token hget := by
    have hle := h.lifetime jti token hget
    have hnonneg := Int.natCast_nonneg elapsed
    change token.expiresAt ≤ s.clock + elapsed + cfg.lifetime
    linarith
  denied jti token hget hrevoked hclock := by
    change s.clock + elapsed < token.expiresAt at hclock
    have hnonneg := Int.natCast_nonneg elapsed
    obtain ⟨key, expiresAt, hkey, hlive, hle⟩ := h.denied jti token hget hrevoked (by linarith)
    refine ⟨key, expiresAt, hkey, ?_, hle⟩
    rw [Table.get_keep, Option.filter_eq_some_iff]
    exact ⟨hlive, decide_eq_true (by linarith)⟩

/-! ## What operations do to tokens and keys -/

/-- Whom an operation mints a token for. -/
def Op.mints : Op → Option Id
  | issue userId => some userId
  | _ => none

/-- What an operation or an event does to the tokens and to the denylist, and whom it mints a
token for. -/
inductive Turns (cfg : Config) (s : State) : Option Id → State → Prop
  /-- nothing -/
  | quiet {s' : State} : s'.clock = s.clock → s'.denylist = s.denylist → s'.tokens = s.tokens →
      Turns cfg s none s'
  /-- a token is minted -/
  | mints {jti userId : Id} : s.denylist.get (.token jti) = none → s.tokens.get jti = none →
      Turns cfg s (some userId)
        { s with tokens := s.tokens.put jti ⟨userId, cfg.expiry s.clock, false⟩ }
  /-- a key is set -/
  | denies (key : DenyKey) : Turns cfg s none { s with
      denylist := s.denylist.put key (s.clock + cfg.lifetime)
      tokens := s.mark key }
  /-- time passes -/
  | passes (elapsed : ℕ) : Turns cfg s none { s with
      clock := s.clock + elapsed
      denylist := s.denylist.keep fun _ expiresAt => decide (s.clock + elapsed ≤ expiresAt) }

theorem turns_of_exec {s s' : State} {inp : Input} {l l' : Note} {o : Op} {r : o.Res}
    (hx : exec cfg inp l s o = some (r, l', s')) : Turns cfg s o.mints s' := by
  cases o with
  | findUser | isRevoked | updateUser | publish =>
    obtain ⟨-, -, rfl⟩ := Option.some.inj hx |> Prod.mk.inj |>.imp_right Prod.mk.inj
    exact .quiet rfl rfl rfl
  | issue userId =>
    simp only [exec] at hx
    split at hx
    · cases hx
    · rename_i hfresh
      obtain ⟨-, -, rfl⟩ := Option.some.inj hx |> Prod.mk.inj |>.imp_right Prod.mk.inj
      simp only [Bool.or_eq_true, not_or, Option.not_isSome_iff_eq_none] at hfresh
      exact .mints hfresh.2 hfresh.1
  | set key =>
    obtain ⟨-, -, rfl⟩ := Option.some.inj hx |> Prod.mk.inj |>.imp_right Prod.mk.inj
    exact .denies key
  | revokeDevice deviceId =>
    simp only [exec] at hx
    split at hx
    all_goals
      obtain ⟨-, -, rfl⟩ := Option.some.inj hx |> Prod.mk.inj |>.imp_right Prod.mk.inj
      exact .quiet rfl rfl rfl
  | authenticateStaff inst jti | authenticateDevice inst jti =>
    simp only [exec] at hx
    split at hx
    · obtain ⟨-, -, rfl⟩ := Option.some.inj hx |> Prod.mk.inj |>.imp_right Prod.mk.inj
      exact .quiet rfl rfl rfl
    · split at hx
      · cases hx
      · obtain ⟨-, -, rfl⟩ := Option.some.inj hx |> Prod.mk.inj |>.imp_right Prod.mk.inj
        exact .quiet rfl rfl rfl
  | join socketId =>
    simp only [exec] at hx
    split at hx
    all_goals
      obtain ⟨-, -, rfl⟩ := Option.some.inj hx |> Prod.mk.inj |>.imp_right Prod.mk.inj
      exact .quiet rfl rfl rfl

theorem turns_of_happen (cfg : Config) {s s' : State} {e : Event} (hx : happen s e = some s') :
    Turns cfg s none s' := by
  cases e with
  | tick elapsed =>
    obtain rfl := Option.some.inj hx
    exact .passes elapsed
  | handle inst =>
    obtain ⟨message, -, rfl⟩ := Option.map_eq_some_iff.mp hx
    exact .quiet rfl rfl rfl
  | hangUp socketId =>
    obtain rfl := Option.some.inj hx
    exact .quiet rfl rfl rfl

/-- Step lemma: every revoked token stays denied. -/
theorem Covered.turns {s s' : State} {minted : Option Id} (h : Covered cfg s)
    (ht : Turns cfg s minted s') :
    Covered cfg s' := by
  cases ht with
  | quiet hclock hdeny htokens =>
    refine ⟨?_, ?_⟩
    · rw [hclock, htokens]
      exact h.lifetime
    · rw [hclock, hdeny, htokens]
      exact h.denied
  | mints => exact h.issue
  | denies key => exact h.set key
  | passes elapsed => exact h.tick elapsed

/-- Step lemma: only revoked tokens are denied, if none is minted under a key of its user. -/
theorem Exact.turns {s s' : State} {minted : Option Id} (h : Exact s)
    (ht : Turns cfg s minted s')
    (hmint : ∀ userId ∈ minted, s.denylist.get (.user userId) = none) : Exact s' := by
  cases ht with
  | quiet hclock hdeny htokens =>
    unfold Exact
    rw [hdeny, htokens]
    exact h
  | @mints jti userId hkey hnone =>
    intro jti' token key hget hlive hnames
    rw [Table.get_put] at hget
    split at hget
    · rename_i heq
      subst heq
      obtain rfl := Option.some.inj hget
      have huser := hmint userId rfl
      cases key with
      | user userId' =>
        have heq : userId = userId' := by simpa [DenyKey.names] using hnames
        rw [← heq, huser] at hlive
        cases hlive
      | token jti'' =>
        have heq : jti' = jti'' := by simpa [DenyKey.names] using hnames
        rw [← heq, hkey] at hlive
        cases hlive
    · exact h jti' token key hget hlive hnames
  | denies key =>
    intro jti token key' hget hlive hnames
    obtain ⟨token₀, hget₀, rfl⟩ := get_mark hget
    rw [DenyKey.names_marked] at hnames
    by_cases heq : key' = key
    · subst heq
      simp [AccessToken.marked, hnames]
    · rw [Table.get_put_ne _ _ heq] at hlive
      simp [AccessToken.marked, h jti token₀ key' hget₀ hlive hnames]
  | passes elapsed =>
    intro jti token key hget hlive hnames
    obtain ⟨expiresAt, hkey⟩ := Option.isSome_iff_exists.mp hlive
    exact h jti token key hget (Option.isSome_iff_exists.mpr ⟨_, Table.get_of_keep hkey⟩) hnames

/-! ## Runs -/

variable {users : Table Id User} {devices : Table Id Bool}

theorem covered_opening : Covered cfg (opening users devices).shared :=
  ⟨fun _ _ hget => (by cases hget), fun _ _ hget => (by cases hget)⟩

/-- Every revoked token is denied, in every run. -/
theorem covered_of_runs {P : Permit State Note Op Call Event} {w : RevocationWorld}
    (h : Runs (system cfg) P (opening users devices) w) : Covered cfg w.shared := by
  induction h with
  | refl => exact covered_opening
  | tail _ _ hs ih =>
    cases World.transition_of_act hs with
    | start c => exact ih
    | step ht hp hx => exact ih.turns (turns_of_exec hx)
    | crash ht _ => exact ih
    | world hx => exact ih.turns (turns_of_happen cfg hx)

/-- Only revoked tokens are denied, in every run that mints no token under a key of its user. -/
theorem exact_of_runs {w : RevocationWorld}
    (h : Runs (system cfg) (.ofCheck mintsUndenied) (opening users devices) w) :
    Exact w.shared := by
  induction h with
  | refl => exact fun _ _ _ hget => by cases hget
  | @tail w w' a hw ha hs ih =>
    cases World.transition_of_act hs with
    | start c => exact ih
    | @step i inp t o k r l' s' ht hp hx =>
      refine ih.turns (turns_of_exec hx) fun userId hmints => ?_
      have hcheck : mintsUndenied t.call o t.session w.shared = true := ha _ _ _ ht hp
      cases o with
      | issue userId' =>
        obtain rfl := Option.some.inj hmints
        exact Option.isNone_iff_eq_none.mp hcheck
      | _ => cases hmints
    | crash ht _ => exact ih
    | world hx => exact ih.turns (turns_of_happen cfg hx) fun userId hmints => by cases hmints

/-- A token that was revoked is denied as long as it lives. -/
theorem isRevoked_of_covered {s : State} (h : Covered cfg s) {jti : Id} {token : AccessToken}
    (hget : s.tokens.get jti = some token) (hrevoked : token.revoked = true)
    (hlive : s.clock < token.expiresAt) : s.isRevoked token.userId jti = true := by
  obtain ⟨key, expiresAt, hnames, hkey, -⟩ := h.denied jti token hget hrevoked hlive
  rw [State.isRevoked, Bool.or_eq_true]
  cases key with
  | user userId =>
    obtain rfl : token.userId = userId := by simpa [DenyKey.names] using hnames
    exact Or.inl (Option.isSome_iff_exists.mpr ⟨_, hkey⟩)
  | token jti' =>
    obtain rfl : jti = jti' := by simpa [DenyKey.names] using hnames
    exact Or.inr (Option.isSome_iff_exists.mpr ⟨_, hkey⟩)

/-- Two instances, and tokens that live for fifteen minutes. -/
def twoInstances : Config := ⟨[1, 2], 900⟩

/-- Ada is staff. -/
def oneUser : Table Id User := (∅ : Table Id User).put 7 ⟨true⟩

/-- Call `i` performs its next `n` operations. -/
def steps (i n : ℕ) (fresh : Id) : List RevocationAct := List.replicate n (.step i ⟨fresh⟩)

/-- Ada signs in (call 0, token 100), and her role is changed (call 1). -/
def signInThenChange : List RevocationAct :=
  [.start (.login 7)] ++ steps 0 2 100 ++ [.start (.updateUser 7 true)] ++ steps 1 3 0

end CafePos.Revocation
