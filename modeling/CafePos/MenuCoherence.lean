import CafePos.MenuCache

/-!
# The cached menu is the menu

A read builds after it has a version, and a version is reached by an increment. Whatever is cached
or served under a version was built from the catalog as it was when the counter reached that
version, or from a later one. If every catalog write that committed has bumped, nothing has been
committed since the counter reached its present version, and all these documents are the present
menu.
-/

namespace CafePos.MenuCache

open Interleaving

variable {cfg : Config} {catalog : Catalog}

/-- The worlds the system can reach. -/
def Reachable (cfg : Config) (catalog : Catalog) (w : MenuWorld) : Prop :=
  Runs (system cfg) .all (opening catalog) w

/-! ## What the program does -/

/-- When a call may perform an operation. -/
def Legal (c : Call) : Op → Note → Prop
  | .getVersion, l | .createVersion, l => l = .blank
  | .write change, l => l = .blank ∧ c = .write change
  | .readDocument version, l => l = .versioned version
  | .build, l => l = .blank ∨ ∃ version, l = .versioned version
  | .writeDocument version document, l =>
      ∃ got, l = .rendered (some version) got ∧ got.document = document
  | .bump, l => l = .wrote

/-- What a legal operation does. -/
inductive Turns (cfg : Config) (s : State) : Note → Note → State → Prop
  /-- nothing -/
  | idles (l : Note) : Turns cfg s l l s
  /-- a read learns the version -/
  | learns {version : ℕ} : s.version = some version → Turns cfg s .blank (.versioned version) s
  /-- a read creates the counter -/
  | creates : Turns cfg s .blank (.versioned (s.version.getD 0 + 1)) s.incr
  /-- a document is in the cache -/
  | hits {version : ℕ} {got : Rendered} : s.documents.get version = some got →
      Turns cfg s (.versioned version) (.rendered (some version) got) s
  /-- a document is built -/
  | builds {l : Note} : (l = .blank ∨ ∃ version, l = .versioned version) →
      Turns cfg s l (.rendered l.version ⟨build cfg s.catalog, s.commits⟩) s
  /-- a document is cached -/
  | caches (version : ℕ) (got : Rendered) :
      Turns cfg s (.rendered (some version) got) (.rendered (some version) got)
        { s with documents := s.documents.put version got }
  /-- a catalog write commits -/
  | commits (catalog : Catalog) :
      Turns cfg s .blank .wrote { s with catalog, commits := s.commits + 1 }
  /-- a catalog write bumps -/
  | bumps : Turns cfg s .wrote .blank s.incr

theorem turns_of_exec {c : Call} {o : Op} {inp : Input} {l l' : Note} {s s' : State} {r : o.Res}
    (hl : Legal c o l) (hx : exec cfg inp l s o = (r, l', s')) : Turns cfg s l l' s' := by
  cases o with
  | getVersion =>
    obtain rfl : l = .blank := hl
    simp only [exec] at hx
    split at hx
    · obtain ⟨-, rfl, rfl⟩ := Prod.mk.inj hx |>.imp_right Prod.mk.inj
      cases hversion : s.version with
      | none => exact .idles _
      | some version => exact .learns hversion
    · obtain ⟨-, rfl, rfl⟩ := Prod.mk.inj hx |>.imp_right Prod.mk.inj
      exact .idles _
  | createVersion =>
    obtain rfl : l = .blank := hl
    simp only [exec] at hx
    split at hx
    · obtain ⟨-, rfl, rfl⟩ := Prod.mk.inj hx |>.imp_right Prod.mk.inj
      exact .creates
    · obtain ⟨-, rfl, rfl⟩ := Prod.mk.inj hx |>.imp_right Prod.mk.inj
      exact .idles _
  | readDocument version =>
    obtain rfl : l = .versioned version := hl
    simp only [exec] at hx
    split at hx
    · cases hget : s.documents.get version with
      | some got =>
        rw [hget] at hx
        obtain ⟨-, rfl, rfl⟩ := Prod.mk.inj hx |>.imp_right Prod.mk.inj
        exact .hits hget
      | none =>
        rw [hget] at hx
        obtain ⟨-, rfl, rfl⟩ := Prod.mk.inj hx |>.imp_right Prod.mk.inj
        exact .idles _
    · obtain ⟨-, rfl, rfl⟩ := Prod.mk.inj hx |>.imp_right Prod.mk.inj
      exact .idles _
  | build =>
    obtain ⟨-, rfl, rfl⟩ := Prod.mk.inj hx |>.imp_right Prod.mk.inj
    exact .builds hl
  | writeDocument version document =>
    obtain ⟨got, rfl, rfl⟩ := hl
    simp only [exec] at hx
    split at hx
    · obtain ⟨-, rfl, rfl⟩ := Prod.mk.inj hx |>.imp_right Prod.mk.inj
      exact .caches version got
    · obtain ⟨-, rfl, rfl⟩ := Prod.mk.inj hx |>.imp_right Prod.mk.inj
      exact .idles _
  | write change =>
    obtain rfl : l = .blank := hl.1
    simp only [exec] at hx
    split at hx
    · obtain ⟨-, rfl, rfl⟩ := Prod.mk.inj hx |>.imp_right Prod.mk.inj
      exact .commits _
    · obtain ⟨-, rfl, rfl⟩ := Prod.mk.inj hx |>.imp_right Prod.mk.inj
      exact .idles _
  | bump =>
    obtain rfl : l = .wrote := hl
    simp only [exec] at hx
    split at hx
    · obtain ⟨-, rfl, rfl⟩ := Prod.mk.inj hx |>.imp_right Prod.mk.inj
      exact .bumps
    · obtain ⟨-, rfl, rfl⟩ := Prod.mk.inj hx |>.imp_right Prod.mk.inj
      exact .idles _

/-- A read leaves the catalog alone. -/
theorem commits_of_exec {c : Call} {o : Op} {inp : Input} {l l' : Note} {s s' : State} {r : o.Res}
    (hl : Legal c o l) (hx : exec cfg inp l s o = (r, l', s'))
    (hread : ∃ header, c = .get header) : s'.commits = s.commits := by
  cases o with
  | getVersion | createVersion | readDocument | writeDocument | bump =>
    simp only [exec] at hx
    split at hx
    · first
      | split at hx
        all_goals
          obtain ⟨-, -, rfl⟩ := Prod.mk.inj hx |>.imp_right Prod.mk.inj
          rfl
      | obtain ⟨-, -, rfl⟩ := Prod.mk.inj hx |>.imp_right Prod.mk.inj
        rfl
    · obtain ⟨-, -, rfl⟩ := Prod.mk.inj hx |>.imp_right Prod.mk.inj
      rfl
  | build =>
    obtain ⟨-, -, rfl⟩ := Prod.mk.inj hx |>.imp_right Prod.mk.inj
    rfl
  | write change =>
    obtain ⟨header, rfl⟩ := hread
    cases hl.2

/-- The operations of calls are legal. -/
def spec (cfg : Config) : Spec State Note Op Call ℕ where
  inv _ := True
  rely _ _ := True
  gua c _ l s l' s' := Turns cfg s l l' s' ∧
    ((∃ header, c = .get header) → s'.commits = s.commits)
  permit := .all
  rely_refl _ := trivial
  rely_trans _ _ := trivial
  gua_rely _ _ := trivial
  gua_inv _ _ _ := trivial

/-- What an answer says of its call. -/
def Post (c : Call) : Except Err Reply → Note → Prop
  | .ok (.ok version body), l => ∃ got, l = .rendered version got ∧ got.document = body
  | .ok (.notModified version), l => l = .versioned version ∧
      ∃ header, c = .get header ∧ matchesEtag header (etagFor version) = true
  | _, _ => ∃ change, c = .write change

section calls

variable {c : Call} {T : Err → Note → State → Prop} {l : Note} {s : State}

/-- A legal operation. -/
theorem ensures_perform {o : Op} {Q : o.Res → Note → State → Prop} (hl : Legal c o l)
    (h : ∀ inp s₁ r l' s₂, exec cfg inp l s₁ o = (r, l', s₂) → Q r l' s₂) :
    (spec cfg).Ensures (machine cfg) c (perform o) Q T l s := by
  refine .perform fun s₁ inp _ r l' s₂ _ _ hx => ?_
  have hexec : exec cfg inp l s₁ o = (r, l', s₂) := Option.some.inj hx
  exact ⟨⟨turns_of_exec hl hexec, commits_of_exec hl hexec⟩, h inp s₁ r l' s₂ hexec⟩

/-- The version, and the note of it. -/
theorem currentVersion_ensures :
    (spec cfg).Ensures (machine cfg) c currentVersion
      (fun version l _ => l = (version.map Note.versioned).getD .blank) T .blank s := by
  refine .bind (ensures_perform rfl fun inp s₁ read l' s₂ hx => ?_)
  simp only [exec] at hx
  split at hx
  · obtain ⟨rfl, rfl, rfl⟩ := Prod.mk.inj hx |>.imp_right Prod.mk.inj
    cases s₁.version with
    | some version => exact .pure rfl
    | none =>
      refine ensures_perform rfl fun inp s₃ created l' s₄ hx => ?_
      simp only [exec] at hx
      split at hx
      all_goals
        obtain ⟨rfl, rfl, rfl⟩ := Prod.mk.inj hx |>.imp_right Prod.mk.inj
        rfl
  · obtain ⟨rfl, rfl, rfl⟩ := Prod.mk.inj hx |>.imp_right Prod.mk.inj
    exact .pure rfl

/-- The menu of a snapshot. -/
theorem ensures_build {Q : Menu → Note → State → Prop}
    (hl : l = .blank ∨ ∃ version, l = .versioned version)
    (h : ∀ got s, Q got.document (.rendered l.version got) s) :
    (spec cfg).Ensures (machine cfg) c (perform .build) Q T l s := by
  refine ensures_perform hl fun inp s₁ r l' s₂ hx => ?_
  obtain ⟨rfl, rfl, rfl⟩ := Prod.mk.inj hx |>.imp_right Prod.mk.inj
  exact h ⟨_, _⟩ _

/-- A miss: build, and cache. -/
theorem miss_ensures (version : ℕ) :
    (spec cfg).Ensures (machine cfg) c (do
      let document : Menu ← perform .build
      perform (.writeDocument version document)
      pure document)
      (fun body l _ => ∃ got, l = .rendered (some version) got ∧ got.document = body) T
      (.versioned version) s := by
  refine .bind (ensures_build (Or.inr ⟨version, rfl⟩) fun got s => ?_)
  refine .bind (ensures_perform ⟨got, rfl, rfl⟩ fun inp s₁ r l' s₂ hx => ?_)
  simp only [exec] at hx
  split at hx
  all_goals
    obtain ⟨-, rfl, rfl⟩ := Prod.mk.inj hx |>.imp_right Prod.mk.inj
    exact .pure ⟨got, rfl, rfl⟩

/-- What is served is what was noted. -/
theorem document_ensures (version : Option ℕ) :
    (spec cfg).Ensures (machine cfg) c (document version)
      (fun body l _ => ∃ got, l = .rendered version got ∧ got.document = body) T
      ((version.map Note.versioned).getD .blank) s := by
  cases version with
  | none => exact ensures_build (Or.inl rfl) fun got s => ⟨got, rfl, rfl⟩
  | some version =>
    refine .bind (ensures_perform rfl fun inp s₁ cached l' s₂ hx => ?_)
    simp only [exec] at hx
    split at hx
    · cases hget : s₁.documents.get version with
      | some got =>
        rw [hget] at hx
        obtain ⟨rfl, rfl, rfl⟩ := Prod.mk.inj hx |>.imp_right Prod.mk.inj
        exact .pure ⟨got, rfl, rfl⟩
      | none =>
        rw [hget] at hx
        obtain ⟨rfl, rfl, rfl⟩ := Prod.mk.inj hx |>.imp_right Prod.mk.inj
        exact miss_ensures version
    · obtain ⟨rfl, rfl, rfl⟩ := Prod.mk.inj hx |>.imp_right Prod.mk.inj
      exact miss_ensures version

theorem get_ensures (ifNoneMatch : Option String) :
    (spec cfg).Ensures (machine cfg) c (get ifNoneMatch)
      (fun a l _ => Post (.get ifNoneMatch) (.ok a) l) T .blank s := by
  refine .bind (Spec.wp_mono (fun r l s _ hr => ?_) (currentVersion_ensures (T := T)))
  cases r with
  | error e => exact hr
  | ok version =>
    obtain rfl := hr
    refine .ite (fun hmatch => .pure ?_) fun _ => ?_
    · obtain ⟨v, rfl, htag⟩ := (Option.any_eq_true _ _).mp hmatch
      exact ⟨rfl, ifNoneMatch, rfl, htag⟩
    · refine .bind (Spec.wp_mono (fun r l s _ hr => ?_) (document_ensures (T := T) version))
      cases r with
      | error e => exact hr
      | ok body => exact .pure hr

theorem write_ensures (change : Catalog → Option Catalog) :
    (spec cfg).Ensures (machine cfg) (.write change) (write change)
      (fun a l _ => Post (.write change) (.ok a) l) (fun _ _ _ => True) .blank s := by
  refine .bind (ensures_perform ⟨rfl, rfl⟩ fun inp s₁ done l' s₂ hx => ?_)
  simp only [exec] at hx
  split at hx
  · obtain ⟨rfl, rfl, rfl⟩ := Prod.mk.inj hx |>.imp_right Prod.mk.inj
    exact .bind (ensures_perform rfl fun _ _ _ _ _ _ => .pure ⟨change, rfl⟩)
  · obtain ⟨rfl, rfl, rfl⟩ := Prod.mk.inj hx |>.imp_right Prod.mk.inj
    exact .throw trivial

end calls

theorem starts (base : State) :
    Starts (spec cfg) (system cfg) base 0 (fun _ c a l _ => Post c a l) := by
  intro i c s _ _ _ _
  cases c with
  | get ifNoneMatch =>
    refine Spec.wp_mono (fun r l s _ hr => ?_)
      (get_ensures (T := fun _ _ _ => False) ifNoneMatch)
    cases r with
    | ok a => exact hr
    | error e => exact hr.elim
  | write change =>
    refine Spec.wp_mono (fun r l s _ hr => ?_) (write_ensures change)
    cases r with
    | ok a => exact hr
    | error e => exact ⟨change, rfl⟩

theorem happens : Happens (spec cfg) (system cfg) := fun _ _ _ _ _ _ => ⟨trivial, trivial⟩

theorem Reachable.sound {w : MenuWorld} (h : Reachable cfg catalog w) :
    Sound (spec cfg) (system cfg) (opening catalog).shared 0 (fun _ c a l _ => Post c a l) w :=
  Sound.runs (starts _) happens (.initial trivial) h

/-- An answer fits the notes of its call. -/
theorem Reachable.post {w : MenuWorld} (h : Reachable cfg catalog w) {i : ℕ} {t : MenuThread}
    {a : Except Err Reply} (ht : w.threads[i]? = some t) (ha : t.Answered a) :
    Post t.call a (w.sessionAt .blank i) := by
  obtain ⟨s₀, -, -, hpost⟩ := h.sound.answered ht ha
  rw [World.sessionAt_eq .blank ht]
  exact hpost

/-! ## What an action does -/

/-- What an action does to the notes of the calls and to the state. -/
inductive Moves (cfg : Config) (notes : ℕ → Note) (s : State) : (ℕ → Note) → State → Prop
  /-- a call performs an operation, or nothing happens -/
  | turns (i : ℕ) {l' : Note} {s' : State} : Turns cfg s (notes i) l' s' →
      Moves cfg notes s (Function.update notes i l') s'
  /-- a cached document expires -/
  | expires (version : ℕ) :
      Moves cfg notes s notes { s with documents := s.documents.keep fun v _ => v != version }

/-- Nothing happens. -/
theorem Moves.stays (notes : ℕ → Note) (s : State) : Moves cfg notes s notes s := by
  have h : Moves cfg notes s (Function.update notes 0 (notes 0)) s := .turns 0 (.idles _)
  rwa [Function.update_eq_self] at h

theorem Reachable.moves {w w' : MenuWorld} {a : MenuAct} (h : Reachable cfg catalog w)
    (ha : w.act (system cfg) a = some w') :
    Moves cfg (w.sessionAt .blank) w.shared (w'.sessionAt .blank) w'.shared := by
  cases World.transition_of_act ha with
  | start c =>
    change Moves cfg _ _ (World.sessionAt Note.blank ⟨_, _ ++ [⟨c, Note.blank, _⟩]⟩) _
    rw [World.sessionAt_start]
    exact .stays _ _
  | @step i inp t o k r l' s' ht hp hx =>
    have hturns := (h.sound.step ht hp trivial hx).1.1
    rw [World.sessionAt_set (s := w.shared) ht]
    rw [← World.sessionAt_eq .blank ht] at hturns
    exact .turns i hturns
  | @crash i t ht _ =>
    rw [World.sessionAt_set (s := w.shared) ht]
    change Moves cfg _ _ (Function.update _ i t.session) _
    rw [← World.sessionAt_eq .blank ht, Function.update_eq_self]
    exact .stays _ _
  | @world version s' hs =>
    obtain rfl := Option.some.inj hs
    exact .expires version

/-! ## Every document is as new as its version -/

/-- A document that goes by a version: it is not newer than the catalog, it is the menu if nothing
has been committed since, and it was built after the counter had reached the version. -/
structure Genuine (cfg : Config) (s : State) (version : Option ℕ) (got : Rendered) : Prop where
  builtAt_le : got.builtAt ≤ s.commits
  eq_build : got.builtAt = s.commits → got.document = build cfg s.catalog
  reached : ∀ v ∈ version, ∃ f, s.reached.get v = some f ∧ f ≤ got.builtAt

/-- What is known of the counter, the cache and the notes. -/
structure Coherent (cfg : Config) (notes : ℕ → Note) (s : State) : Prop where
  /-- nothing was committed since the counter reached the version it has, but by writes that are
  still to bump -/
  current : ∀ v ∈ s.version, ∃ f, s.reached.get v = some f ∧
    (f = s.commits ∨ ∃ i, notes i = .wrote)
  /-- the counter only goes up, and so does the number of writes -/
  reached : ∀ v f, s.reached.get v = some f → v ≤ s.version.getD 0 ∧ f ≤ s.commits
  documents : ∀ v got, s.documents.get v = some got → Genuine cfg s (some v) got
  versioned : ∀ i v, notes i = .versioned v → ∃ f, s.reached.get v = some f
  rendered : ∀ i version got, notes i = .rendered version got → Genuine cfg s version got

/-- The counter goes up to a version it has not had. -/
theorem Coherent.get_incr {notes : ℕ → Note} {s : State} (h : Coherent cfg notes s) {v f : ℕ}
    (hget : s.reached.get v = some f) : s.incr.reached.get v = some f := by
  have hle := (h.reached v f hget).1
  rw [State.incr, Table.get_put_ne _ _ (by omega), hget]

theorem Genuine.incr {notes : ℕ → Note} {s : State} {version : Option ℕ} {got : Rendered}
    (h : Coherent cfg notes s) (hg : Genuine cfg s version got) :
    Genuine cfg s.incr version got := by
  refine ⟨hg.builtAt_le, hg.eq_build, fun v hv => ?_⟩
  obtain ⟨f, hget, hle⟩ := hg.reached v hv
  exact ⟨f, h.get_incr hget, hle⟩

/-- A catalog write leaves the documents that are there behind. -/
theorem Genuine.commit {s : State} {version : Option ℕ} {got : Rendered} {next : Catalog}
    (hg : Genuine cfg s version got) :
    Genuine cfg { s with catalog := next, commits := s.commits + 1 } version got := by
  have hle := hg.builtAt_le
  refine ⟨Nat.le_succ_of_le hle, fun heq => ?_, hg.reached⟩
  change got.builtAt = s.commits + 1 at heq
  omega

/-- `INCR`: the counter reaches its new version now. -/
theorem Coherent.incr {notes : ℕ → Note} {s : State} (h : Coherent cfg notes s) :
    Coherent cfg notes s.incr := by
  refine ⟨fun v hv => ?_, fun v f hget => ?_, fun v got hget => ?_, fun i v hi => ?_,
    fun i version got hi => ?_⟩
  · obtain rfl := Option.some.inj hv
    exact ⟨s.commits, Table.get_put_self .., Or.inl rfl⟩
  · by_cases hv : v = s.version.getD 0 + 1
    · subst hv
      rw [State.incr, Table.get_put_self] at hget
      obtain rfl := Option.some.inj hget
      exact ⟨le_refl _, le_refl _⟩
    · rw [State.incr, Table.get_put_ne _ _ hv] at hget
      obtain ⟨hle, hf⟩ := h.reached v f hget
      exact ⟨Nat.le_succ_of_le hle, hf⟩
  · exact .incr h (h.documents v got hget)
  · obtain ⟨f, hget⟩ := h.versioned i v hi
    exact ⟨f, h.get_incr hget⟩
  · exact .incr h (h.rendered i version got hi)

/-- One call has a new note; it was not of a write, or nothing was committed since the counter
reached its version. -/
theorem Coherent.note {notes : ℕ → Note} {s : State} (h : Coherent cfg notes s) (i : ℕ) {l : Note}
    (hi : notes i ≠ .wrote ∨ ∀ v ∈ s.version, s.reached.get v = some s.commits)
    (hversioned : ∀ v, l = .versioned v → ∃ f, s.reached.get v = some f)
    (hrendered : ∀ version got, l = .rendered version got → Genuine cfg s version got) :
    Coherent cfg (Function.update notes i l) s := by
  refine ⟨fun v hv => ?_, h.reached, h.documents, fun k v hk => ?_, fun k version got hk => ?_⟩
  · rcases hi with hi | hi
    · obtain ⟨f, hget, hf⟩ := h.current v hv
      refine ⟨f, hget, hf.imp_right fun hwrote => ?_⟩
      obtain ⟨k, hk⟩ := hwrote
      have hne : k ≠ i := by
        rintro rfl
        exact hi hk
      exact ⟨k, by rw [Function.update_of_ne hne, hk]⟩
    · exact ⟨s.commits, hi v hv, Or.inl rfl⟩
  · by_cases hki : k = i
    · subst hki
      rw [Function.update_self] at hk
      exact hversioned v hk
    · rw [Function.update_of_ne hki] at hk
      exact h.versioned k v hk
  · by_cases hki : k = i
    · subst hki
      rw [Function.update_self] at hk
      exact hrendered version got hk
    · rw [Function.update_of_ne hki] at hk
      exact h.rendered k version got hk

/-- A catalog write commits; it has not bumped. -/
theorem Coherent.commit {notes : ℕ → Note} {s : State} (h : Coherent cfg notes s) (i : ℕ)
    (next : Catalog) : Coherent cfg (Function.update notes i .wrote)
      { s with catalog := next, commits := s.commits + 1 } := by
  refine ⟨fun v hv => ?_, fun v f hget => ?_, fun v got hget => ?_, fun k v hk => ?_,
    fun k version got hk => ?_⟩
  · obtain ⟨f, hget, -⟩ := h.current v hv
    exact ⟨f, hget, Or.inr ⟨i, Function.update_self ..⟩⟩
  · obtain ⟨hle, hf⟩ := h.reached v f hget
    exact ⟨hle, Nat.le_succ_of_le hf⟩
  · exact (h.documents v got hget).commit
  · by_cases hki : k = i
    · subst hki
      rw [Function.update_self] at hk
      cases hk
    · rw [Function.update_of_ne hki] at hk
      exact h.versioned k v hk
  · by_cases hki : k = i
    · subst hki
      rw [Function.update_self] at hk
      cases hk
    · rw [Function.update_of_ne hki] at hk
      exact (h.rendered k version got hk).commit

/-- A document that was built by now. -/
theorem Coherent.genuine_build {notes : ℕ → Note} {s : State} (h : Coherent cfg notes s) {i : ℕ}
    (hi : notes i = .blank ∨ ∃ version, notes i = .versioned version) :
    Genuine cfg s (notes i).version ⟨build cfg s.catalog, s.commits⟩ := by
  refine ⟨le_refl _, fun _ => rfl, fun v hv => ?_⟩
  rcases hi with hi | ⟨version, hi⟩
  · rw [hi] at hv
    cases hv
  · rw [hi] at hv
    obtain rfl : version = v := Option.some.inj hv
    obtain ⟨f, hget⟩ := h.versioned i version hi
    exact ⟨f, hget, (h.reached version f hget).2⟩

/-- Step lemma. -/
theorem Coherent.moves {notes notes' : ℕ → Note} {s s' : State} (h : Coherent cfg notes s)
    (hm : Moves cfg notes s notes' s') : Coherent cfg notes' s' := by
  cases hm with
  | expires version =>
    refine ⟨h.current, h.reached, fun v got hget => ?_, h.versioned, fun i v got hi => ?_⟩
    · obtain ⟨hle, heq, hreached⟩ := h.documents v got (Table.get_of_keep hget)
      exact ⟨hle, heq, hreached⟩
    · obtain ⟨hle, heq, hreached⟩ := h.rendered i v got hi
      exact ⟨hle, heq, hreached⟩
  | @turns i l' s' ht =>
    generalize hl : notes i = l at ht
    cases ht with
    | idles =>
      rw [← hl, Function.update_eq_self]
      exact h
    | @learns version hversion =>
      refine h.note i (Or.inl (by simp [hl])) (fun v hv => ?_) fun v got hv => by cases hv
      obtain rfl := Note.versioned.inj hv
      obtain ⟨f, hget, -⟩ := h.current version hversion
      exact ⟨f, hget⟩
    | creates =>
      refine h.incr.note i (Or.inl (by simp [hl])) (fun v hv => ?_) fun v got hv => by cases hv
      obtain rfl := Note.versioned.inj hv
      exact ⟨s.commits, Table.get_put_self ..⟩
    | @hits version got hget =>
      refine h.note i (Or.inl (by simp [hl])) (fun v hv => by cases hv) fun v got' hv => ?_
      obtain ⟨rfl, rfl⟩ := Note.rendered.inj hv
      exact h.documents version got hget
    | builds hblank =>
      subst hl
      refine h.note i (Or.inl ?_) (fun v hv => by cases hv) fun v got' hv => ?_
      · rcases hblank with hi | ⟨version, hi⟩
        · simp [hi]
        · simp [hi]
      · obtain ⟨rfl, rfl⟩ := Note.rendered.inj hv
        exact h.genuine_build hblank
    | caches version got =>
      have hput : Coherent cfg notes { s with documents := s.documents.put version got } := by
        refine ⟨h.current, h.reached, fun v got' hget => ?_, h.versioned, fun k v got' hk => ?_⟩
        · have hgenuine : Genuine cfg s (some v) got' := by
            rw [Table.get_put] at hget
            split at hget
            · rename_i hv
              subst hv
              obtain rfl := Option.some.inj hget
              exact h.rendered i _ got hl
            · exact h.documents v got' hget
          exact ⟨hgenuine.1, hgenuine.2, hgenuine.3⟩
        · obtain ⟨hle, heq, hreached⟩ := h.rendered k v got' hk
          exact ⟨hle, heq, hreached⟩
      rw [← hl, Function.update_eq_self]
      exact hput
    | commits next => exact h.commit i next
    | bumps =>
      refine h.incr.note i (Or.inr fun v hv => ?_) (fun v hv => by cases hv)
        fun v got hv => by cases hv
      obtain rfl := Option.some.inj hv
      exact Table.get_put_self ..

theorem Reachable.coherent {w : MenuWorld} (h : Reachable cfg catalog w) :
    Coherent cfg (w.sessionAt .blank) w.shared := by
  induction h with
  | refl =>
    refine ⟨fun v hv => ?_, fun v f hget => ?_, fun v got hget => ?_, fun i v hi => ?_,
      fun i version got hi => ?_⟩
    · cases hv
    · cases hget
    · cases hget
    · cases hi
    · cases hi
  | tail hw _ hs ih => exact ih.moves (Reachable.moves hw hs)

end CafePos.MenuCache
