import CafePos.MenuCoherence
import CafePos.Text.Digits

/-!
# Reads of the menu

What a read serves that starts when every catalog write that committed has bumped, and what a
client may keep that is told so.
-/

namespace CafePos.MenuCache

open Interleaving

variable {cfg : Config} {opened : Catalog}

/-! ## ETags -/

theorem splitCommas_eq {cs : List Char} (h : ',' ∉ cs) : splitCommas cs = [cs] := by
  induction cs with
  | nil => rfl
  | cons c cs ih =>
    simp only [List.mem_cons, not_or] at h
    rw [splitCommas, if_neg (Ne.symm h.1), ih h.2]

/-- The text of an ETag. -/
theorem toList_etagFor (version : ℕ) : (etagFor version).toList =
    'W' :: ('/' :: '"' :: "catalog-".toList ++ Nat.toDigits 10 version ++ ['"']) := by
  simp [etagFor, Nat.repr]

theorem trim_etagFor (version : ℕ) : trim (etagFor version).toList = (etagFor version).toList := by
  have hfirst : Char.isWhitespace 'W' = false := by decide
  have hlast : Char.isWhitespace '"' = false := by decide
  rw [toList_etagFor, trim, List.dropWhile_cons_of_neg (by simp [hfirst])]
  simp [hlast]

theorem etagFor_injective {v v' : ℕ} (h : etagFor v = etagFor v') : v = v' := by
  have htext := congrArg String.toList h
  rw [toList_etagFor, toList_etagFor] at htext
  have hdigits : Nat.toDigits 10 v = Nat.toDigits 10 v' := by simpa using htext
  have hscan := congrArg Text.scanNat hdigits
  rw [Text.scanNat_toDigits, Text.scanNat_toDigits] at hscan
  exact Option.some.inj hscan

/-- A header that carries one ETag matches that one only. -/
theorem matchesEtag_etagFor {issued version : ℕ}
    (h : matchesEtag (some (etagFor issued)) (etagFor version) = true) : issued = version := by
  have hcomma : ',' ∉ (etagFor issued).toList := by
    rw [toList_etagFor]
    intro hmem
    have hdigit : ',' ∈ Nat.toDigits 10 issued := by simpa using hmem
    have hno := Text.isDigit_toDigits hdigit
    exact absurd hno (by decide)
  simp only [matchesEtag, Option.any_some, splitCommas_eq hcomma, List.any_cons, List.any_nil,
    trim_etagFor, Bool.or_false, Bool.or_eq_true, beq_iff_eq] at h
  rcases h with hstar | htag
  · rw [toList_etagFor] at hstar
    simp at hstar
  · exact etagFor_injective (String.toList_inj.mp htag)

/-! ## What the later reads go by -/

/-- From a state on in which `since` writes had committed: the counter has a version that was
reached after them, and the calls from `first` on go by such versions, and have such documents. -/
structure Late (first since : ℕ) (notes : ℕ → Note) (s : State) : Prop where
  commits : since ≤ s.commits
  current : ∀ v ∈ s.version, ∃ f, s.reached.get v = some f ∧ since ≤ f
  versioned : ∀ i, first ≤ i → ∀ v, notes i = .versioned v →
    ∃ f, s.reached.get v = some f ∧ since ≤ f
  rendered : ∀ i, first ≤ i → ∀ version got, notes i = .rendered version got →
    since ≤ got.builtAt

section late

variable {first since : ℕ} {notes notes' : ℕ → Note} {s s' : State}

theorem Late.incr (hc : Coherent cfg notes s) (h : Late first since notes s) :
    Late first since notes s.incr := by
  refine ⟨h.commits, fun v hv => ?_, fun i hi v hnote => ?_, h.rendered⟩
  · obtain rfl := Option.some.inj hv
    exact ⟨s.commits, Table.get_put_self .., h.commits⟩
  · obtain ⟨f, hget, hle⟩ := h.versioned i hi v hnote
    exact ⟨f, hc.get_incr hget, hle⟩

/-- One call has a new note. -/
theorem Late.note (h : Late first since notes s) (i : ℕ) {l : Note}
    (hversioned : first ≤ i → ∀ v, l = .versioned v → ∃ f, s.reached.get v = some f ∧ since ≤ f)
    (hrendered : first ≤ i → ∀ version got, l = .rendered version got → since ≤ got.builtAt) :
    Late first since (Function.update notes i l) s := by
  refine ⟨h.commits, h.current, fun k hk v hnote => ?_, fun k hk version got hnote => ?_⟩
  · by_cases hki : k = i
    · subst hki
      rw [Function.update_self] at hnote
      exact hversioned hk v hnote
    · rw [Function.update_of_ne hki] at hnote
      exact h.versioned k hk v hnote
  · by_cases hki : k = i
    · subst hki
      rw [Function.update_self] at hnote
      exact hrendered hk version got hnote
    · rw [Function.update_of_ne hki] at hnote
      exact h.rendered k hk version got hnote

/-- Step lemma: a read that goes by such a version finds such a document. -/
theorem Late.moves (hc : Coherent cfg notes s) (h : Late first since notes s)
    (hm : Moves cfg notes s notes' s') : Late first since notes' s' := by
  cases hm with
  | expires version => exact ⟨h.commits, h.current, h.versioned, h.rendered⟩
  | @turns i l' s' ht =>
    generalize hl : notes i = l at ht
    cases ht with
    | idles =>
      rw [← hl, Function.update_eq_self]
      exact h
    | @learns version hversion =>
      refine h.note i (fun _ v hv => ?_) fun _ v got hv => by cases hv
      obtain rfl := Note.versioned.inj hv
      exact h.current version hversion
    | creates =>
      refine (Late.incr hc h).note i (fun _ v hv => ?_) fun _ v got hv => by cases hv
      obtain rfl := Note.versioned.inj hv
      exact ⟨s.commits, Table.get_put_self .., h.commits⟩
    | @hits version got hget =>
      refine h.note i (fun _ v hv => by cases hv) fun hi v got' hv => ?_
      obtain ⟨rfl, rfl⟩ := Note.rendered.inj hv
      obtain ⟨f, hreached, hle⟩ := h.versioned i hi version hl
      obtain ⟨f', hreached', hle'⟩ := (hc.documents version got hget).reached version rfl
      obtain rfl : f = f' := Option.some.inj (hreached.symm.trans hreached')
      exact le_trans hle hle'
    | builds =>
      refine h.note i (fun _ v hv => by cases hv) fun hi v got' hv => ?_
      obtain ⟨rfl, rfl⟩ := Note.rendered.inj hv
      exact h.commits
    | caches version got =>
      rw [← hl, Function.update_eq_self]
      exact ⟨h.commits, h.current, h.versioned, h.rendered⟩
    | commits next =>
      have hcommit : Late first since notes
          { s with catalog := next, commits := s.commits + 1 } :=
        ⟨Nat.le_succ_of_le h.commits, h.current, h.versioned, h.rendered⟩
      exact hcommit.note i (fun _ v hv => by cases hv) fun _ v got hv => by cases hv
    | bumps =>
      exact (Late.incr hc h).note i (fun _ v hv => by cases hv) fun _ v got hv => by cases hv

/-! ## Where documents come from -/

/-- Every document that is cached, or that a call has. -/
structure EveryDocument (P : Rendered → Prop) (notes : ℕ → Note) (s : State) : Prop where
  cached : ∀ v got, s.documents.get v = some got → P got
  noted : ∀ i version got, notes i = .rendered version got → P got

theorem EveryDocument.congr {P : Rendered → Prop} (h : EveryDocument P notes s)
    (hs : s'.documents = s.documents) : EveryDocument P notes s' :=
  ⟨fun v got hget => h.cached v got (hs ▸ hget), h.noted⟩

theorem EveryDocument.note {P : Rendered → Prop} (h : EveryDocument P notes s) (i : ℕ) {l : Note}
    (hl : ∀ version got, l = .rendered version got → P got) :
    EveryDocument P (Function.update notes i l) s := by
  refine ⟨h.cached, fun k version got hk => ?_⟩
  by_cases hki : k = i
  · subst hki
    rw [Function.update_self] at hk
    exact hl version got hk
  · rw [Function.update_of_ne hki] at hk
    exact h.noted k version got hk

/-- Step lemma: a document was there, or it is the menu of now. -/
theorem EveryDocument.moves {P : Rendered → Prop} (h : EveryDocument P notes s)
    (hbuild : P ⟨build cfg s.catalog, s.commits⟩) (hm : Moves cfg notes s notes' s') :
    EveryDocument P notes' s' := by
  cases hm with
  | expires version =>
    exact ⟨fun v got hget => h.cached v got (Table.get_of_keep hget), h.noted⟩
  | @turns i l' s' ht =>
    generalize hl : notes i = l at ht
    cases ht with
    | idles =>
      rw [← hl, Function.update_eq_self]
      exact h
    | learns => exact h.note i fun v got hv => by cases hv
    | creates | bumps | commits next =>
      refine (h.note i fun v got hv => ?_).congr rfl
      cases hv
    | @hits version got hget =>
      refine h.note i fun v got' hv => ?_
      obtain ⟨rfl, rfl⟩ := Note.rendered.inj hv
      exact h.cached version got hget
    | builds =>
      refine h.note i fun v got' hv => ?_
      obtain ⟨rfl, rfl⟩ := Note.rendered.inj hv
      exact hbuild
    | caches version got =>
      rw [← hl, Function.update_eq_self]
      refine ⟨fun v got' hget => ?_, h.noted⟩
      rw [Table.get_put] at hget
      split at hget
      · obtain rfl := Option.some.inj hget
        exact h.noted i _ got hl
      · exact h.cached v got' hget

/-- The catalog is what it was, if no write committed. -/
theorem Moves.catalog (hm : Moves cfg notes s notes' s') :
    s.commits ≤ s'.commits ∧ (s'.commits = s.commits → s'.catalog = s.catalog) := by
  cases hm with
  | expires version => exact ⟨le_refl _, fun _ => rfl⟩
  | turns i ht =>
    generalize notes i = l at ht
    cases ht with
    | commits next =>
      refine ⟨Nat.le_succ _, fun heq => ?_⟩
      change s.commits + 1 = s.commits at heq
      omega
    | _ => exact ⟨le_refl _, fun _ => rfl⟩

end late

/-! ## Runs -/

/-- The document was the menu at some time from `w` to `w'`. -/
def Between (cfg : Config) (w w' : MenuWorld) (document : Menu) : Prop :=
  ∃ u, Runs (system cfg) .all w u ∧ Runs (system cfg) .all u w' ∧
    document = build cfg u.shared.catalog

/-- Every catalog write that committed has bumped. -/
def Settled (w : MenuWorld) : Prop := ∀ t ∈ w.threads, t.session ≠ .wrote

instance (w : MenuWorld) : Decidable (Settled w) :=
  inferInstanceAs (Decidable (∀ t ∈ w.threads, t.session ≠ .wrote))

section runs

variable {w w' : MenuWorld}

/-- The counter of a settled world reached its version after the last write. -/
theorem Settled.reached (hs : Settled w) (h : Reachable cfg opened w) :
    ∀ v ∈ w.shared.version, w.shared.reached.get v = some w.shared.commits := by
  intro v hv
  obtain ⟨f, hget, rfl | ⟨i, hi⟩⟩ := h.coherent.current v hv
  · exact hget
  · rw [World.sessionAt] at hi
    cases ht : w.threads[i]? with
    | none =>
      rw [ht] at hi
      cases hi
    | some t =>
      rw [ht] at hi
      exact absurd hi (hs t (List.mem_of_getElem? ht))

/-- The calls that start in a settled world go by versions and documents that are late. -/
theorem Settled.late (hs : Settled w) (h : Reachable cfg opened w)
    (hr : Runs (system cfg) .all w w') :
    Late w.threads.length w.shared.commits (w'.sessionAt .blank) w'.shared := by
  have hunstarted : ∀ i, w.threads.length ≤ i → w.sessionAt .blank i = .blank := by
    intro i hi
    rw [World.sessionAt, List.getElem?_eq_none hi]
    rfl
  induction hr with
  | refl =>
    refine ⟨le_refl _, fun v hv => ⟨_, hs.reached h v hv, le_refl _⟩, fun i hi v hnote => ?_,
      fun i hi version got hnote => ?_⟩
    · rw [hunstarted i hi] at hnote
      cases hnote
    · rw [hunstarted i hi] at hnote
      cases hnote
  | @tail v v' a hv _ ha ih =>
    have hreach : Reachable cfg opened v := Runs.trans h hv
    exact ih.moves hreach.coherent (hreach.moves ha)

/-- A document that is late was the menu since. -/
theorem Reachable.between (h : Reachable cfg opened w) (hr : Runs (system cfg) .all w w') :
    EveryDocument (fun got => w.shared.commits ≤ got.builtAt → Between cfg w w' got.document)
      (w'.sessionAt .blank) w'.shared := by
  induction hr with
  | refl =>
    have hnow : ∀ version got, Genuine cfg w.shared version got →
        w.shared.commits ≤ got.builtAt → Between cfg w w got.document :=
      fun version got hg hle =>
        ⟨w, .refl, .refl, hg.eq_build (Nat.le_antisymm hg.builtAt_le hle)⟩
    exact ⟨fun v got hget => hnow _ got (h.coherent.documents v got hget),
      fun i version got hi => hnow _ got (h.coherent.rendered i version got hi)⟩
  | @tail v v' a hv hall ha ih =>
    have hstep : Runs (system cfg) .all v v' := .tail .refl hall ha
    have hreach : Reachable cfg opened v := Runs.trans h hv
    have hlater : ∀ got : Rendered,
        (w.shared.commits ≤ got.builtAt → Between cfg w v got.document) →
        w.shared.commits ≤ got.builtAt → Between cfg w v' got.document := by
      intro got hbetween hle
      obtain ⟨u, hwu, huv, heq⟩ := hbetween hle
      exact ⟨u, hwu, huv.trans hstep, heq⟩
    refine EveryDocument.moves (s := v.shared)
      ⟨fun k got hget => hlater got (ih.cached k got hget),
        fun i version got hi => hlater got (ih.noted i version got hi)⟩
      (fun _ => ⟨v, hv, hstep, rfl⟩) (hreach.moves ha)

/-- The catalog of a run in which no write committed. -/
theorem Reachable.catalog (h : Reachable cfg opened w) (hr : Runs (system cfg) .all w w') :
    w.shared.commits ≤ w'.shared.commits ∧
    (w'.shared.commits = w.shared.commits → w'.shared.catalog = w.shared.catalog) := by
  induction hr with
  | refl => exact ⟨le_refl _, fun _ => rfl⟩
  | @tail v v' a hv _ ha ih =>
    obtain ⟨hle, heq⟩ := (Reachable.moves (Runs.trans h hv) ha).catalog
    obtain ⟨hle₀, heq₀⟩ := ih
    refine ⟨hle₀.trans hle, fun hcommits => ?_⟩
    rw [heq (by omega), heq₀ (by omega)]

/-- What was the menu since is the menu, if no write committed. -/
theorem Reachable.eq_build (h : Reachable cfg opened w)
    (hcommits : w'.shared.commits = w.shared.commits) {document : Menu}
    (hb : Between cfg w w' document) : document = build cfg w.shared.catalog := by
  obtain ⟨u, hwu, huw', rfl⟩ := hb
  have hle := (h.catalog hwu).1
  have hle' := (Reachable.catalog (Runs.trans h hwu) huw').1
  rw [(h.catalog hwu).2 (by omega)]

/-- A call finishes, whatever the others have done; a read leaves the catalog alone. -/
theorem Reachable.finishes (h : Reachable cfg opened w) {i : ℕ} {t : MenuThread}
    {p : Prog Op Op.Res (Except Err Reply)} (ht : w.threads[i]? = some t)
    (hp : t.prog = some p) :
    ∃ w' t' a, Runs (system cfg) .all w w' ∧ w'.threads[i]? = some t' ∧ t'.call = t.call ∧
      t'.Answered a ∧ ((∃ header, t.call = .get header) →
        w'.shared.commits = w.shared.commits) := by
  induction p generalizing w t with
  | done a => exact ⟨w, t, a, .refl, ht, rfl, hp, fun _ => rfl⟩
  | op o k ih =>
    rcases hx : exec cfg {} t.session w.shared o with ⟨r, l', s'⟩
    have hexec : (system cfg).machine.exec o {} (w.locked (system cfg) i) t.session w.shared =
        some (r, l', s') := congrArg some hx
    have hact : w.act (system cfg) (.step i {}) =
        some ⟨s', w.threads.set i ⟨t.call, l', some (k r)⟩⟩ := by
      simp only [World.act, ht, hp, World.stepThread, hexec, Option.map_some]
    have hget : (w.threads.set i ⟨t.call, l', some (k r)⟩)[i]? = some ⟨t.call, l', some (k r)⟩ :=
      List.getElem?_set_self (List.getElem?_eq_some_iff.mp ht).1
    have hgua := (h.sound.step ht hp trivial hexec).1
    obtain ⟨w', t', a, hr, ht', hcall, ha, hcommits⟩ :=
      ih r (Runs.tail h (Runs.allows_all _ _) hact) hget rfl
    refine ⟨w', t', a, Runs.trans (.tail .refl (Runs.allows_all _ _) hact) hr, ht', hcall, ha,
      fun hread => ?_⟩
    rw [hcommits hread]
    exact hgua.2 hread

/-- A read that starts in a settled world, and answers with a document. -/
theorem Settled.serves (hs : Settled w) (h : Reachable cfg opened w)
    (hr : Runs (system cfg) .all w w') {i : ℕ} {t : MenuThread} (hi : w.threads.length ≤ i)
    (ht : w'.threads[i]? = some t) {version : Option ℕ} {body : Menu}
    (ha : t.Answered (.ok (.ok version body))) : Between cfg w w' body := by
  obtain ⟨got, hnote, rfl⟩ := Reachable.post (Runs.trans h hr) ht ha
  exact (h.between hr).noted i version got hnote ((hs.late h hr).rendered i hi version got hnote)

/-- A read that starts in a settled world, and answers that nothing was modified: all that was
served under its version was the menu since. -/
theorem Settled.unmodified (hs : Settled w) (h : Reachable cfg opened w)
    (hr : Runs (system cfg) .all w w') {i : ℕ} {t : MenuThread} (hi : w.threads.length ≤ i)
    (ht : w'.threads[i]? = some t) {version : ℕ} (ha : t.Answered (.ok (.notModified version)))
    {k : ℕ} {t' : MenuThread} (ht' : w'.threads[k]? = some t') {body : Menu}
    (ha' : t'.Answered (.ok (.ok (some version) body))) : Between cfg w w' body := by
  have hreach : Reachable cfg opened w' := Runs.trans h hr
  obtain ⟨hnote, -⟩ := hreach.post ht ha
  obtain ⟨got, hnote', rfl⟩ := hreach.post ht' ha'
  obtain ⟨f, hget, hle⟩ := (hs.late h hr).versioned i hi version hnote
  obtain ⟨f', hget', hle'⟩ := (hreach.coherent.rendered k _ got hnote').reached version rfl
  obtain rfl : f = f' := Option.some.inj (hget.symm.trans hget')
  exact (h.between hr).noted k _ got hnote' (le_trans hle hle')

/-- What a read answers that starts in `w` and has answered by `w'`. -/
structure Faithful (cfg : Config) (w w' : MenuWorld) (t : MenuThread) : Prop where
  /-- a document was the menu since the read started, and is the menu if no write committed -/
  serves : ∀ version body, t.Answered (.ok (.ok version body)) → Between cfg w w' body ∧
    (w'.shared.commits = w.shared.commits → body = build cfg w.shared.catalog)
  /-- a 304 names an ETag that the header carries, and so were all documents served with it -/
  unmodified : ∀ version, t.Answered (.ok (.notModified version)) →
    (∀ header, t.call = .get header → matchesEtag header (etagFor version) = true) ∧
    (∀ issued, t.call = .get (some (etagFor issued)) → issued = version) ∧
    ∀ t' ∈ w'.threads, ∀ issued body, t'.Answered (.ok (.ok (some issued) body)) →
      etagFor issued = etagFor version → Between cfg w w' body ∧
      (w'.shared.commits = w.shared.commits → body = build cfg w.shared.catalog)

end runs

/-- In every reachable world in which every catalog write that committed has bumped: the cached
document of the current version is the menu, every read that starts then serves the menu, and a
304 is answered only to a client whose copy is the menu; and every read that starts does answer. -/
theorem menu_coherent {w : MenuWorld} (h : Reachable cfg opened w) (hs : Settled w) :
    (∀ v ∈ w.shared.version, ∀ got, w.shared.documents.get v = some got →
      got.document = build cfg w.shared.catalog) ∧
    (∀ w', Runs (system cfg) .all w w' → ∀ i t, w.threads.length ≤ i → w'.threads[i]? = some t →
      Faithful cfg w w' t) ∧
    ∀ header, ∃ w' t reply, Runs (system cfg) .all w w' ∧
      w'.threads[w.threads.length]? = some t ∧ t.call = .get header ∧ t.Answered (.ok reply) ∧
      reply ≠ .written ∧ w'.shared.commits = w.shared.commits := by
  refine ⟨fun v hv got hget => ?_, fun w' hr i t hi ht => ⟨fun version body ha => ?_,
    fun version ha => ⟨fun header hcall => ?_, fun issued hcall => ?_, ?_⟩⟩, fun header => ?_⟩
  · have hg := h.coherent.documents v got hget
    obtain ⟨f, hreached, hle⟩ := hg.reached v rfl
    obtain rfl : w.shared.commits = f := Option.some.inj ((hs.reached h v hv).symm.trans hreached)
    exact hg.eq_build (Nat.le_antisymm hg.builtAt_le hle)
  · have hb := hs.serves h hr hi ht ha
    exact ⟨hb, fun hcommits => h.eq_build hcommits hb⟩
  · obtain ⟨-, header', hcall', hmatch⟩ := Reachable.post (Runs.trans h hr) ht ha
    obtain rfl : header = header' := Call.get.inj (hcall.symm.trans hcall')
    exact hmatch
  · obtain ⟨-, header, hcall', hmatch⟩ := Reachable.post (Runs.trans h hr) ht ha
    obtain rfl := Call.get.inj (hcall.symm.trans hcall')
    exact matchesEtag_etagFor hmatch
  · intro t' ht' issued body ha' htag
    obtain rfl := etagFor_injective htag
    obtain ⟨k, hk⟩ := List.getElem?_of_mem ht'
    have hb := hs.unmodified h hr hi ht ha hk ha'
    exact ⟨hb, fun hcommits => h.eq_build hcommits hb⟩
  · let started : MenuWorld :=
      ⟨w.shared, w.threads ++ [⟨.get header, .blank, some (program (.get header))⟩]⟩
    have hrun : Runs (system cfg) .all w started :=
      .tail .refl (Runs.allows_all _ (.start (.get header))) rfl
    have ht : started.threads[w.threads.length]? =
        some ⟨.get header, .blank, some (program (.get header))⟩ := by
      simp [started]
    have hreach : Reachable cfg opened started := Runs.trans h hrun
    obtain ⟨w', t', a, hr, ht', hcall, ha, hcommits⟩ := hreach.finishes ht rfl
    have hpost := Reachable.post (Runs.trans hreach hr) ht' ha
    rw [hcall] at hpost
    cases a with
    | error e =>
      obtain ⟨change, hchange⟩ := hpost
      cases hchange
    | ok reply =>
      refine ⟨w', t', reply, hrun.trans hr, ht', hcall, ha, ?_, hcommits ⟨header, rfl⟩⟩
      rintro rfl
      obtain ⟨change, hchange⟩ := hpost
      cases hchange

/-- Names by their characters. -/
def byName : Config := ⟨fun a b => decide (a.toList ≤ b.toList)⟩

/-- A catalog of one category. -/
def coffee : Catalog := ⟨[⟨1, "Coffee", 0, true⟩], [], [], [], []⟩

/-- The category is renamed. -/
def renamed : Catalog := ⟨[⟨1, "Espresso", 0, true⟩], [], [], [], []⟩

/-- A read, and a write that bumps. -/
def readThenWrite : List MenuAct :=
  [.start (.get none)] ++ List.replicate 5 (.step 0 {}) ++
  [.start (.write fun _ => some renamed)] ++ List.replicate 2 (.step 1 {})

theorem menu_coherent_renamed : ∃ w w' t reply, Reachable byName coffee w ∧ Settled w ∧
    w.shared.catalog = renamed ∧ Runs (system byName) .all w w' ∧
    w'.threads[w.threads.length]? = some t ∧ t.Answered (.ok reply) ∧
    Faithful byName w w' t := by
  obtain ⟨w, hw, hs, hcatalog⟩ := Runs.exists_of_acts (system byName) (opening coffee)
    readThenWrite (fun w => Settled w ∧ w.shared.catalog = renamed) (by decide)
  obtain ⟨-, hfaithful, hread⟩ := menu_coherent hw hs
  obtain ⟨w', t, reply, hr, ht, -, ha, -, -⟩ := hread none
  exact ⟨w, w', t, reply, hw, hs, hcatalog, hr, ht, ha, hfaithful w' hr _ t (le_refl _) ht⟩

end CafePos.MenuCache
