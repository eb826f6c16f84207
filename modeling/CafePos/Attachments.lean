import CafePos.OptionGroups

/-!
# Replacing attachments, one call at a time

Two calls for one item that overlap leave the rows of both, or one of them fails on a key the
other has inserted. In every run in which the `DELETE` of a call chooses its rows only while no
other call for the item is between that point and its commit (`takesTurns`), no call fails, no
call waits for another, and the rows of an item are those of one request.
-/

namespace CafePos.OptionGroups

open Interleaving

variable {cat : Catalog}

/-! ## What the program does -/

/-- When a call may perform an operation. -/
def Legal (c : Call) : Rows.Op Query → Conn → Prop
  | .statement (.attached itemId), l => itemId = c.itemId ∧ l.note = .idle ∧
      l.session.active = true
  | .statement (.delete itemId _), l => l.session.active = true ∧
      ∃ rest, l.note = .busy itemId rest []
  | .statement (.insert itemId g sortOrder), l => l.session.active = true ∧
      ∃ done, l.note = .busy itemId [] done ∧ sortOrder = done.length ∧ g ∉ done
  | .begin, l => l.note = .idle
  | .commit, l => l.note = .busy c.itemId [] c.optionGroupIds
  | _, _ => True

/-- Every call is valid, and processes may die. -/
def permit (cat : Catalog) : Permit Attachments Conn (Rows.Op Query) Call Empty :=
  ⟨fun c => c.valid cat = true, fun _ _ _ _ => True, True, fun _ => True⟩

/-- The operations of calls are legal. -/
def spec (cat : Catalog) : Spec Attachments Conn (Rows.Op Query) Call Empty where
  inv _ := True
  rely _ _ := True
  gua c o l _ _ _ := Legal c o l
  permit := permit cat
  rely_refl _ := trivial
  rely_trans _ _ := trivial
  gua_rely _ _ := trivial
  gua_inv _ _ _ := trivial

section calls

variable {c : Call} {T : Err → Conn → Attachments → Prop} {l : Conn} {s : Attachments}

/-- Whoever throws has failed. -/
abbrev Thrown (_ : Err) (l : Conn) (_ : Attachments) : Prop := l.note = .failed

theorem checkGroups_ensures {ids : List Id} (hids : ∀ id ∈ ids, (cat.group id).isSome = true)
    (hn : l.note = .idle) (hl : l.session.active = true) :
    (spec cat).Ensures (Rows.machine (language cat)) c (checkGroups ids)
      (fun _ l _ => l.note = .idle ∧ l.session.active = true) Thrown l s := by
  refine .ite (fun _ => .pure ⟨hn, hl⟩) fun _ => ?_
  refine .bind (Rows.ensures_send (fun _ _ _ => trivial)
    fun (found : List Id) l' s hanswer hactive hnote => ?_)
  obtain ⟨_, s₁, hanswer⟩ := hanswer
  have hfound : found = ids := hanswer.trans (List.filter_eq_self.mpr hids)
  have hunknown : (ids.filter fun id => !List.contains found id) = [] := by
    rw [hfound]
    exact List.filter_eq_nil_iff.mpr fun id hid => by simp [hid]
  refine .ite (fun hne => ?_) fun _ => .pure ⟨hnote.trans hn, hactive.trans hl⟩
  rw [hunknown] at hne
  cases hne

/-- Every row of the snapshot is gone through. -/
theorem deleteAll_ensures {itemId : Id} {rows rest : List Id} (hrest : ∀ g ∈ rest, g ∈ rows)
    (hn : l.note = .busy itemId rest []) (hl : l.session.active = true) :
    (spec cat).Ensures (Rows.machine (language cat)) c (deleteAll itemId rows)
      (fun _ l _ => l.note = .busy itemId [] [] ∧ l.session.active = true) T l s := by
  induction rows generalizing l s rest with
  | nil =>
    have hnil : rest = [] := List.eq_nil_iff_forall_not_mem.mpr fun g hg => by cases hrest g hg
    rw [hnil] at hn
    exact .pure ⟨hn, hl⟩
  | cons g gs ih =>
    refine .bind (Rows.ensures_send (fun _ _ _ => ⟨hl, rest, hn⟩) fun a l' s _ hactive hnote => ?_)
    have hrest' : ∀ g' ∈ rest.filter (· != g), g' ∈ gs := by
      intro g' hg'
      obtain ⟨hmem, hne⟩ := List.mem_filter.mp hg'
      exact (List.mem_cons.mp (hrest g' hmem)).resolve_left (by simpa using hne)
    refine ih hrest' ?_ (hactive.trans hl)
    · rw [hnote, hn]
      rfl

/-- The rows of the request are inserted in its order, unless a key is taken. -/
theorem insertAll_ensures {itemId : Id} (done : List Id) {ids : List Id} (hids : (done ++ ids).Nodup)
    (hn : l.note = .busy itemId [] done) (hl : l.session.active = true) :
    (spec cat).Ensures (Rows.machine (language cat)) c (insertAll itemId done.length ids)
      (fun _ l _ => l.note = .busy itemId [] (done ++ ids) ∧ l.session.active = true) Thrown l s := by
  induction ids generalizing l s done with
  | nil =>
    rw [List.append_nil]
    exact .pure ⟨hn, hl⟩
  | cons g gs ih =>
    have hg : g ∉ done := fun hmem => by
      have := List.nodup_append.mp hids
      exact this.2.2 g hmem g (List.mem_cons_self ..) rfl
    refine .bind (Rows.ensures_send (fun _ _ _ => ⟨hl, done, hn, rfl, hg⟩)
      fun a l' s _ hactive hnote => ?_)
    cases a with
    | error e => exact .throw hnote
    | ok _ =>
      have hassoc : done ++ g :: gs = (done ++ [g]) ++ gs := by simp
      have hlength : done.length + 1 = (done ++ [g]).length := by simp
      dsimp only
      rw [hassoc] at hids ⊢
      rw [hlength]
      refine ih _ hids ?_ (hactive.trans hl)
      rw [hnote, hn]
      rfl

/-- A valid call commits its own list, unless a key is taken. -/
theorem setForItem_ensures (hc : c.valid cat = true) (hn : l.note = .idle) :
    (spec cat).Ensures (Rows.machine (language cat)) c (setForItem c.itemId c.optionGroupIds)
      (fun _ l _ => l.note = .committed) Thrown l s := by
  simp only [Call.valid, Bool.and_eq_true, decide_eq_true_eq, List.all_eq_true] at hc
  obtain ⟨⟨⟨-, hdistinct⟩, hitem⟩, hgroups⟩ := hc
  refine Rows.ensures_transaction (fun _ _ _ => hn) fun s => ?_
  refine .bind (Rows.ensures_send (fun _ _ _ => trivial)
    fun (item : Bool) l' s hanswer hactive hnote => ?_)
  obtain ⟨_, s₁, hanswer⟩ := hanswer
  have htrue : item = true := hanswer.trans hitem
  refine .ite (fun hfalse => ?_) fun _ => ?_
  · rw [htrue] at hfalse
    cases hfalse
  · -- what a failed transaction leaves
    have hthrown : ∀ {l : Conn}, l.note = .failed → ∀ s : Attachments,
        (∀ l' s', (spec cat).gua c .rollback l s l' s') ∧
          ((language cat).onRollback l.note) = .failed := by
      intro l hl s
      exact ⟨fun _ _ => trivial, by rw [hl]; rfl⟩
    refine .bind (Spec.wp_mono (fun r l₁ s₁ _ hr => ?_)
      (checkGroups_ensures hgroups hnote hactive))
    cases r with
    | error e => exact hthrown hr
    | ok _ =>
      refine .bind (Rows.ensures_send (fun _ _ _ => ⟨rfl, hr.1, hr.2⟩)
        fun (rows : List Id) l₂ s _ hactive₂ hnote₂ => ?_)
      refine .bind (Spec.wp_mono (fun r l₃ s₃ _ hr₃ => ?_)
        (deleteAll_ensures (T := Thrown) (fun g hg => hg) hnote₂ (hactive₂.trans hr.2)))
      cases r with
      | error e => exact hthrown hr₃
      | ok _ =>
        refine .bind (Spec.wp_mono (fun r l₄ s₄ _ hr₄ => ?_)
          (insertAll_ensures [] hdistinct hr₃.1 hr₃.2))
        cases r with
        | error e => exact hthrown hr₄
        | ok _ =>
          refine Rows.ensures_send (fun _ _ _ => trivial) fun a l₅ s _ _ hnote₅ s => ?_
          exact ⟨fun _ _ => hnote₅.trans hr₄.1, rfl⟩

end calls

/-- What an answer says of its call. -/
def Post (a : Except Err (List AttachedOptionGroup)) (l : Conn) : Prop :=
  (∃ groups, a = .ok groups) ∧ l.note = .committed ∨ l.note = .failed

theorem starts (base : Attachments) :
    Starts (spec cat) (system cat) base 0 (fun _ _ a l _ => Post a l) := by
  intro i c s _ hc _ _
  refine Spec.wp_mono (fun r l s _ hr => ?_) (setForItem_ensures hc rfl)
  cases r with
  | ok groups => exact Or.inl ⟨⟨groups, rfl⟩, hr⟩
  | error e => exact Or.inr hr

theorem happens : Happens (spec cat) (system cat) := fun e => e.elim

/-! ## One call at a time -/

/-- The item a call is replacing the attachments of. -/
def Stage.item : Stage → Option Id
  | busy itemId _ _ => some itemId
  | _ => none

/-- Call `i` is the only one, if any, that is replacing the attachments of the item. -/
def onlyOne (w : ItemWorld) (i : ℕ) (itemId : Id) : Bool :=
  w.threads.zipIdx.all fun q => q.2 == i || q.1.session.note.item != some itemId

/-- Every call is valid, and chooses the rows it deletes while no other call for the item is
between that point and the end of its transaction. -/
def takesTurns (cat : Catalog) (w : ItemWorld) : ItemAct → Bool
  | .start c => c.valid cat
  | .step i _ =>
    match (w.threads[i]?).bind Thread.prog with
    | some (.op (.statement (.attached itemId)) _) => onlyOne w i itemId
    | _ => true
  | _ => true

/-- The rows of the item are the list, in its order. -/
def Attached (rows : Attachments) (itemId : Id) (ids : List Id) : Prop :=
  ∀ g n, rows.get (itemId, g) = some n ↔ ids[n]? = some g

/-- What a call that is replacing attachments has reached. -/
structure Draft (l : Conn) (s : Attachments) (itemId : Id) (rest done : List Id) : Prop where
  log : ∀ w ∈ l.session.log, w.row.1 = itemId
  held : ∀ k ∈ l.session.held, k.1 = itemId
  /-- what is there is still to be deleted, or was inserted -/
  sound : ∀ g n, (l.view s).get (itemId, g) = some n → g ∈ rest ∨ done[n]? = some g
  /-- what was inserted is there -/
  complete : ∀ g n, done[n]? = some g → (l.view s).get (itemId, g) = some n

/-- What is known of a call. -/
def Fine (l : Conn) (s : Attachments) : Prop :=
  match l.note with
  | .busy itemId rest done => Draft l s itemId rest done
  | .failed => False
  | _ => l.session.log = [] ∧ l.session.held = []

/-- The calls for an item take turns. -/
structure Serial (initial : Attachments) (w : ItemWorld) : Prop where
  fine : ∀ t ∈ w.threads, Fine t.session w.shared
  alone : ∀ {i j : ℕ} {t u : ItemThread} {itemId : Id}, w.threads[i]? = some t →
    w.threads[j]? = some u → t.session.note.item = some itemId →
    u.session.note.item = some itemId → i = j
  /-- the rows of an item are those of a call, or nobody has committed yet -/
  rows : ∀ itemId, (∃ t ∈ w.threads, t.call.itemId = itemId ∧
      Attached w.shared itemId t.call.optionGroupIds) ∨
    (∀ g, w.shared.get (itemId, g) = initial.get (itemId, g)) ∧
      ∀ t ∈ w.threads, t.call.itemId = itemId → t.session.note ≠ .committed

theorem Draft.attached {l : Conn} {s : Attachments} {itemId : Id} {done : List Id}
    (h : Draft l s itemId [] done) : Attached (l.view s) itemId done := by
  intro g n
  refine ⟨fun hget => ?_, h.complete g n⟩
  rcases h.sound g n hget with hmem | hdone
  · cases hmem
  · exact hdone

/-- What others commit for other items. -/
theorem Fine.congr {l : Conn} {s s' : Attachments} (h : Fine l s)
    (hs : ∀ itemId, l.note.item = some itemId → ∀ g, s'.get (itemId, g) = s.get (itemId, g)) :
    Fine l s' := by
  unfold Fine at h ⊢
  split at h
  · rename_i itemId rest done hnote
    have hview : ∀ g, (l.view s').get (itemId, g) = (l.view s).get (itemId, g) :=
      fun g => l.get_view_congr (hs itemId (by rw [hnote]; rfl) g)
    exact ⟨h.log, h.held, fun g n => by rw [hview]; exact h.sound g n,
      fun g n hd => by rw [hview]; exact h.complete g n hd⟩
  · exact h
  · exact h

section step

variable {initial : Attachments} {w : ItemWorld} {i : ℕ} {t : ItemThread} {l' : Conn}
  {p : Option (Prog (Rows.Op Query) (Rows.Op.Res Query.Ans)
    (Except Err (List AttachedOptionGroup)))}

/-- Where a call of the new list comes from. -/
theorem mem_set_cases {u : ItemThread} {j : ℕ} (ht : w.threads[i]? = some t)
    (hu : (w.threads.set i ⟨t.call, l', p⟩)[j]? = some u) :
    j = i ∧ u.call = t.call ∧ u.session = l' ∨ j ≠ i ∧ w.threads[j]? = some u := by
  by_cases hj : j = i
  · subst hj
    rw [List.getElem?_set_self (List.getElem?_eq_some_iff.mp ht).1] at hu
    rw [← Option.some.inj hu]
    exact Or.inl ⟨rfl, rfl, rfl⟩
  · rw [List.getElem?_set_ne (Ne.symm hj)] at hu
    exact Or.inr ⟨hj, hu⟩

/-- A call is still there after a step. -/
theorem exists_set {P : Call → Prop} (ht : w.threads[i]? = some t)
    (h : ∃ u ∈ w.threads, P u.call) : ∃ u ∈ w.threads.set i ⟨t.call, l', p⟩, P u.call := by
  obtain ⟨u, hu, hP⟩ := h
  obtain ⟨j, hj⟩ := List.getElem?_of_mem hu
  have hi := (List.getElem?_eq_some_iff.mp ht).1
  by_cases hij : i = j
  · subst hij
    obtain rfl := Option.some.inj (ht.symm.trans hj)
    exact ⟨_, List.mem_of_getElem? (List.getElem?_set_self hi), hP⟩
  · refine ⟨u, List.mem_of_getElem? (i := j) ?_, hP⟩
    rw [List.getElem?_set_ne hij]
    exact hj

/-- A call moves, and nothing is committed. -/
theorem Serial.set (h : Serial initial w) (ht : w.threads[i]? = some t)
    (hfine : Fine l' w.shared) (hnote : l'.note = .committed → t.session.note = .committed)
    (hitem : ∀ itemId, l'.note.item = some itemId → t.session.note.item = some itemId ∨
      ∀ j u, j ≠ i → w.threads[j]? = some u → u.session.note.item ≠ some itemId) :
    Serial initial ⟨w.shared, w.threads.set i ⟨t.call, l', p⟩⟩ where
  fine u hu := by
    rcases List.mem_or_eq_of_mem_set hu with hold | rfl
    · exact h.fine u hold
    · exact hfine
  alone {j k u v itemId} hu hv hju hkv := by
    -- another call for the item of this one
    have hother : ∀ {j : ℕ} {u : ItemThread}, j ≠ i → w.threads[j]? = some u →
        u.session.note.item = some itemId → l'.note.item = some itemId → j = i := by
      intro j u hj hu hju hl
      rcases hitem itemId hl with hold | hnone
      · exact h.alone hu ht hju hold
      · exact absurd hju (hnone j u hj hu)
    rcases mem_set_cases ht hu with ⟨hj, -, hul⟩ | ⟨hj, hu₀⟩
    · rcases mem_set_cases ht hv with ⟨hk, -, -⟩ | ⟨hk, hv₀⟩
      · exact hj.trans hk.symm
      · rw [hul] at hju
        exact hj.trans (hother hk hv₀ hkv hju).symm
    · rcases mem_set_cases ht hv with ⟨hk, -, hvl⟩ | ⟨-, hv₀⟩
      · rw [hvl] at hkv
        exact (hother hj hu₀ hju hkv).trans hk.symm
      · exact h.alone hu₀ hv₀ hju hkv
  rows itemId := by
    rcases h.rows itemId with hcall | ⟨hsame, hnone⟩
    · exact Or.inl (exists_set (P := fun c => c.itemId = itemId ∧
        Attached w.shared itemId c.optionGroupIds) ht hcall)
    · refine Or.inr ⟨hsame, fun u hu hu' hcommitted => ?_⟩
      rcases List.mem_or_eq_of_mem_set hu with hold | rfl
      · exact hnone u hold hu' hcommitted
      · exact hnone t (List.mem_of_getElem? ht) hu' (hnote hcommitted)

/-- A call commits its list. -/
theorem Serial.commit (h : Serial initial w) (ht : w.threads[i]? = some t)
    (hnote : t.session.note = .busy t.call.itemId [] t.call.optionGroupIds) :
    Serial initial ⟨t.session.view w.shared, w.threads.set i
      ⟨t.call, ⟨t.session.session.release t.session.session.log, .committed⟩, p⟩⟩ := by
  have hdraft : Draft t.session w.shared t.call.itemId [] t.call.optionGroupIds := by
    have hfine := h.fine t (List.mem_of_getElem? ht)
    rw [Fine, hnote] at hfine
    exact hfine
  have hother : ∀ {itemId : Id}, itemId ≠ t.call.itemId → ∀ g,
      (t.session.view w.shared).get (itemId, g) = w.shared.get (itemId, g) := by
    intro itemId hne g
    refine Rows.Conn.get_view_of_not_mem fun wr hwr heq => hne ?_
    rw [← hdraft.log wr hwr, ← heq]
  have hitem : t.session.note.item = some t.call.itemId := by rw [hnote]; rfl
  refine ⟨fun u hu => ?_, fun {j k u v itemId} hu hv hju hkv => ?_, fun itemId => ?_⟩
  · obtain ⟨j, hj⟩ := List.getElem?_of_mem hu
    rcases mem_set_cases ht hj with ⟨-, -, hul⟩ | ⟨hji, huj⟩
    · rw [hul]
      exact ⟨rfl, rfl⟩
    · refine (h.fine u (List.mem_of_getElem? huj)).congr fun itemId hu' g => hother ?_ g
      rintro rfl
      exact hji (h.alone huj ht hu' hitem)
  · rcases mem_set_cases ht hu with ⟨-, -, hul⟩ | ⟨-, hu⟩
    · rw [hul] at hju
      cases hju
    · rcases mem_set_cases ht hv with ⟨-, -, hvl⟩ | ⟨-, hv⟩
      · rw [hvl] at hkv
        cases hkv
      · exact h.alone hu hv hju hkv
  · by_cases hid : itemId = t.call.itemId
    · subst hid
      have hi := (List.getElem?_eq_some_iff.mp ht).1
      exact Or.inl ⟨_, List.mem_of_getElem? (List.getElem?_set_self hi), rfl, hdraft.attached⟩
    · rcases h.rows itemId with hcall | ⟨hsame, hnone⟩
      · refine Or.inl (exists_set (P := fun c => c.itemId = itemId ∧
          Attached (t.session.view w.shared) itemId c.optionGroupIds) ht ?_)
        obtain ⟨u, hu, hu', hattached⟩ := hcall
        refine ⟨u, hu, hu', fun g n => ?_⟩
        rw [hother hid]
        exact hattached g n
      · refine Or.inr ⟨fun g => (hother hid g).trans (hsame g), fun u hu hu' => ?_⟩
        rcases List.mem_or_eq_of_mem_set hu with hold | rfl
        · exact hnone u hold hu'
        · exact absurd hu'.symm hid

/-- A read leaves a call where it is. -/
theorem Serial.reads (h : Serial initial w) (ht : w.threads[i]? = some t)
    (hlog : l'.session.log = t.session.session.log)
    (hheld : l'.session.held = t.session.session.held) (hnote : l'.note = t.session.note) :
    Serial initial ⟨w.shared, w.threads.set i ⟨t.call, l', p⟩⟩ := by
  have hview : l'.view w.shared = t.session.view w.shared := by
    rw [Rows.Conn.view, Session.view, hlog]
    rfl
  refine h.set ht ?_ (fun hc => hnote ▸ hc) fun itemId hl => Or.inl (hnote ▸ hl)
  have hfine := h.fine t (List.mem_of_getElem? ht)
  unfold Fine at hfine ⊢
  rw [hnote]
  split at hfine
  · rename_i itemId rest done _
    exact ⟨hlog ▸ hfine.log, hheld ▸ hfine.held, hview ▸ hfine.sound, hview ▸ hfine.complete⟩
  · exact hfine
  · exact ⟨hlog.trans hfine.1, hheld.trans hfine.2⟩

/-- A call chooses the rows it deletes, alone. -/
theorem Serial.chooses {itemId : Id} {rows : List Id} (h : Serial initial w)
    (ht : w.threads[i]? = some t) (hidle : t.session.note = .idle)
    (honly : onlyOne w i itemId) (hlog : l'.session.log = t.session.session.log)
    (hheld : l'.session.held = t.session.session.held) (hnote : l'.note = .busy itemId rows [])
    (hrows : rows = (groupsOf (t.session.view w.shared) itemId).map Prod.fst) :
    Serial initial ⟨w.shared, w.threads.set i ⟨t.call, l', p⟩⟩ := by
  have hfine := h.fine t (List.mem_of_getElem? ht)
  rw [Fine, hidle] at hfine
  refine h.set ht ?_ (fun hc => ?_) fun itemId' hl => Or.inr fun j u hj hu hju => ?_
  · rw [Fine, hnote]
    refine ⟨fun wr hwr => ?_, fun k hk => ?_, fun g n hget => Or.inl ?_, fun g n hd => ?_⟩
    · rw [hlog, hfine.1] at hwr
      cases hwr
    · rw [hheld, hfine.2] at hk
      cases hk
    · rw [hrows, Rows.Conn.view_eq hfine.1]
      rw [Rows.Conn.view_eq (hlog.trans hfine.1)] at hget
      have hmem : ((itemId, g), n) ∈ w.shared.select fun k _ => k.1 == itemId :=
        Table.mem_select.mpr ⟨hget, beq_self_eq_true itemId⟩
      exact List.mem_map.mpr ⟨(g, n), List.mem_map.mpr ⟨_, hmem, rfl⟩, rfl⟩
    · cases hd
  · rw [hnote] at hc
    cases hc
  · rw [hnote] at hl
    obtain rfl := Option.some.inj hl
    have hall := List.all_eq_true.mp honly (u, j) (List.mem_zipIdx_iff_getElem?.mpr hu)
    simp only [Bool.or_eq_true, beq_iff_eq, bne_iff_ne] at hall
    rcases hall with hji | hne
    · exact hj hji
    · exact hne hju

variable (cat) in
/-- A row is deleted. -/
theorem Serial.deletes {itemId g : Id} {rest : List Id} (h : Serial initial w)
    (ht : w.threads[i]? = some t) (hbusy : t.session.note = .busy itemId rest [])
    (hsession : l'.session = t.session.session.push
      (effect cat (t.session.view w.shared) (.delete itemId g)))
    (hnote : l'.note = .busy itemId (rest.filter (· != g)) []) :
    Serial initial ⟨w.shared, w.threads.set i ⟨t.call, l', p⟩⟩ := by
  have hdraft : Draft t.session w.shared itemId rest [] := by
    have hfine := h.fine t (List.mem_of_getElem? ht)
    rw [Fine, hbusy] at hfine
    exact hfine
  have hview : l'.view w.shared = Rows.store.applyAll
      (effect cat (t.session.view w.shared) (.delete itemId g)).writes (t.session.view w.shared) := by
    rw [← t.session.view_push _ l'.note, ← hsession]
  -- the row is gone, whether it was there or not
  have hget : ∀ g', (l'.view w.shared).get (itemId, g') =
      if g' = g then none else (t.session.view w.shared).get (itemId, g') := by
    intro g'
    rw [hview]
    simp only [effect]
    cases hrow : (t.session.view w.shared).get (itemId, g) with
    | none =>
      simp only [Option.isSome_none, Bool.false_eq_true, if_false, Store.applyAll_nil]
      split
      · rename_i hg
        rw [hg, hrow]
      · rfl
    | some n =>
      simp only [Option.isSome_some, if_true, Store.applyAll_cons, Store.applyAll_nil]
      by_cases hg : g' = g
      · subst hg
        change ((t.session.view w.shared).keep _).get (itemId, g') = _
        rw [Table.get_keep]
        simp
      · have hne : (itemId, g') ≠ (itemId, g) := by simpa using hg
        rw [if_neg hg]
        exact Rows.Write.get_apply (.erase (itemId, g)) _ hne
  refine h.set ht ?_ (fun hc => ?_) fun itemId' hl => Or.inl ?_
  · rw [Fine, hnote]
    refine ⟨fun wr hwr => ?_, fun k hk => ?_, fun g' n hrow => Or.inl ?_, fun g' n hd => ?_⟩
    · rw [hsession, Session.push_log] at hwr
      rcases List.mem_append.mp hwr with hold | hnew
      · exact hdraft.log wr hold
      · simp only [effect] at hnew
        split at hnew
        · rw [List.mem_singleton.mp hnew]
          rfl
        · cases hnew
    · rw [hsession, Session.push_held] at hk
      rcases List.mem_append.mp hk with hold | hnew
      · exact hdraft.held k hold
      · simp only [effect, Effect.needs] at hnew
        split at hnew
        · simp [Rows.store, Rows.Write.row] at hnew
          rw [hnew]
        · simp at hnew
          rw [hnew]
    · rw [hget] at hrow
      split at hrow
      · cases hrow
      · rename_i hg
        rcases hdraft.sound g' n hrow with hmem | hd
        · exact List.mem_filter.mpr ⟨hmem, by simpa using hg⟩
        · cases hd
    · cases hd
  · rw [hnote] at hc
    cases hc
  · rw [hnote] at hl
    rw [hbusy]
    exact hl

variable (cat) in
/-- A row is inserted: its key is free. -/
theorem Serial.inserts {itemId g : Id} {done : List Id} {a : Except Unit Unit}
    (h : Serial initial w) (ht : w.threads[i]? = some t)
    (hbusy : t.session.note = .busy itemId [] done) (hg : g ∉ done)
    (hsession : l'.session = t.session.session.push
      (effect cat (t.session.view w.shared) (.insert itemId g done.length)))
    (ha : a = (effect cat (t.session.view w.shared) (.insert itemId g done.length)).answer)
    (hnote : l'.note = learn t.session.note (.insert itemId g done.length) a) :
    Serial initial ⟨w.shared, w.threads.set i ⟨t.call, l', p⟩⟩ := by
  have hdraft : Draft t.session w.shared itemId [] done := by
    have hfine := h.fine t (List.mem_of_getElem? ht)
    rw [Fine, hbusy] at hfine
    exact hfine
  have hfree : (t.session.view w.shared).get (itemId, g) = none := by
    cases hrow : (t.session.view w.shared).get (itemId, g) with
    | none => rfl
    | some n => exact absurd (List.mem_of_getElem? ((hdraft.attached g n).mp hrow)) hg
  have heffect : effect cat (t.session.view w.shared) (.insert itemId g done.length) =
      ⟨.ok (), [.put (itemId, g) done.length], []⟩ := by
    simp [effect, hfree]
  rw [heffect] at hsession ha
  rw [ha, hbusy] at hnote
  have hview : l'.view w.shared = (t.session.view w.shared).put (itemId, g) done.length := by
    rw [Rows.Conn.view, hsession]
    exact t.session.view_push _ l'.note w.shared
  refine h.set ht ?_ (fun hc => ?_) fun itemId' hl => Or.inl ?_
  · rw [Fine, hnote]
    refine ⟨fun wr hwr => ?_, fun k hk => ?_, fun g' n hrow => Or.inr ?_, fun g' n hd => ?_⟩
    · rw [hsession, Session.push_log] at hwr
      rcases List.mem_append.mp hwr with hold | hnew
      · exact hdraft.log wr hold
      · rw [List.mem_singleton.mp hnew]
        rfl
    · rw [hsession, Session.push_held] at hk
      rcases List.mem_append.mp hk with hold | hnew
      · exact hdraft.held k hold
      · simp [Effect.needs, Rows.store, Rows.Write.row] at hnew
        rw [hnew]
    · rw [hview, Table.get_put] at hrow
      split at hrow
      · rename_i hk
        obtain rfl := (Prod.mk.inj hk).2
        obtain rfl := Option.some.inj hrow
        simp
      · have hd := (hdraft.attached g' n).mp hrow
        exact (List.getElem?_append_left (List.getElem?_eq_some_iff.mp hd).1).trans hd
    · rw [hview, Table.get_put]
      rw [List.getElem?_append] at hd
      split at hd
      · have hne : (itemId, g') ≠ (itemId, g) := by
          rintro heq
          rw [← (Prod.mk.inj heq).2] at hg
          exact hg (List.mem_of_getElem? hd)
        rw [if_neg hne]
        exact hdraft.complete g' n hd
      · rename_i hn
        have hlt := (List.getElem?_eq_some_iff.mp hd).1
        have hlast : n = done.length := by
          simp only [List.length_singleton] at hlt
          omega
        subst hlast
        simp only [Nat.sub_self, List.getElem?_cons_zero, Option.some.injEq] at hd
        rw [hd, if_pos rfl]
  · rw [hnote] at hc
    cases hc
  · rw [hnote] at hl
    rw [hbusy]
    exact hl

/-- A row of an item is held by the call that replaces its attachments. -/
theorem Fine.item_of_held {l : Conn} {s : Attachments} (h : Fine l s) {k : Key}
    (hk : k ∈ l.session.held) : l.note.item = some k.1 := by
  unfold Fine at h
  split at h
  · rename_i itemId rest done hnote
    rw [hnote, h.held k hk]
    rfl
  · exact h.elim
  · rw [h.2] at hk
    cases hk

/-- Nobody else holds a row of the item. -/
theorem Serial.not_locked (h : Serial initial w) (ht : w.threads[i]? = some t) {k : Key}
    (hitem : t.session.note.item = some k.1) : w.locked (system cat) i k = false := by
  cases hlocked : w.locked (system cat) i k with
  | false => rfl
  | true =>
    obtain ⟨j, u, hu, hj, hk⟩ := World.locked_eq_true.mp hlocked
    exact absurd (h.alone hu ht ((h.fine u (List.mem_of_getElem? hu)).item_of_held hk) hitem) hj

/-- Step lemma: an operation of a call keeps the calls in turns. -/
theorem Serial.step {o : Rows.Op Query} {k : o.Res Query.Ans → Prog (Rows.Op Query) _ _}
    {locked : Key → Bool} {r : o.Res Query.Ans} {s' : Attachments} (h : Serial initial w)
    (ht : w.threads[i]? = some t) (hp : t.prog = some (.op o k))
    (hcheck : takesTurns cat w (.step i ()) = true) (hlegal : Legal t.call o t.session)
    (hx : Rows.exec (language cat) () locked t.session w.shared o = some (r, l', s')) :
    Serial initial ⟨s', w.threads.set i ⟨t.call, l', p⟩⟩ := by
  cases o with
  | begin =>
    obtain ⟨-, rfl, rfl⟩ := Option.some.inj hx |> Prod.mk.inj |>.imp_right Prod.mk.inj
    exact h.set ht ⟨rfl, rfl⟩ (fun hc => by cases hc) fun _ hl => by cases hl
  | commit =>
    obtain ⟨-, rfl, rfl⟩ := Option.some.inj hx |> Prod.mk.inj |>.imp_right Prod.mk.inj
    exact h.commit ht hlegal
  | rollback =>
    obtain ⟨-, rfl, rfl⟩ := Option.some.inj hx |> Prod.mk.inj |>.imp_right Prod.mk.inj
    have hnote : (language cat).onRollback t.session.note = .idle := by
      refine if_neg fun hfailed => ?_
      have hfine := h.fine t (List.mem_of_getElem? ht)
      rw [Fine, hfailed] at hfine
      exact hfine
    rw [hnote]
    exact h.set ht ⟨rfl, rfl⟩ (fun hc => by cases hc) fun _ hl => by cases hl
  | statement q =>
    obtain ⟨r', hr, hr'⟩ := Option.map_eq_some_iff.mp hx
    obtain ⟨rfl, rfl, rfl⟩ := Prod.mk.inj hr' |>.imp_right Prod.mk.inj
    obtain ⟨hanswer, hcases⟩ := Session.execute_cases (D := Rows.store) hr
    -- a statement that writes and locks nothing
    have hquiet : (effect cat (t.session.view w.shared) q).writes = [] →
        (effect cat (t.session.view w.shared) q).locks = [] → r'.2.2 = w.shared ∧
        r'.2.1.log = t.session.session.log ∧ r'.2.1.held = t.session.session.held := by
      intro hw hl
      rcases hcases with ⟨-, hl', hs'⟩ | ⟨-, -, hl', hs'⟩ | ⟨-, hne, -, -⟩
      · have hw' : ((language cat).effect q ()
            (t.session.session.view Rows.store w.shared)).writes = [] := hw
        have hl'' : ((language cat).effect q ()
            (t.session.session.view Rows.store w.shared)).locks = [] := hl
        refine ⟨hs', ?_, ?_⟩
        · rw [hl', Session.push_log, hw', List.append_nil]
        · rw [hl', Session.push_held, Effect.needs, hw', hl'', List.flatMap_nil, List.append_nil,
            List.append_nil]
      · exact ⟨hs', by rw [hl'], by rw [hl']⟩
      · exact absurd hw hne
    -- a statement inside a transaction
    have hpush : t.session.session.active = true → r'.2.2 = w.shared ∧
        r'.2.1 = t.session.session.push (effect cat (t.session.view w.shared) q) := by
      intro hactive
      rcases hcases with ⟨-, hl', hs'⟩ | ⟨hfalse, -⟩ | ⟨hfalse, -⟩
      · exact ⟨hs', hl'⟩
      · rw [hactive] at hfalse
        cases hfalse
      · rw [hactive] at hfalse
        cases hfalse
    cases q with
    | item | found | readBack =>
      obtain ⟨hs', hlog, hheld⟩ := hquiet rfl rfl
      rw [hs']
      exact h.reads ht hlog hheld rfl
    | attached itemId =>
      obtain ⟨hs', hlog, hheld⟩ := hquiet rfl rfl
      rw [hs']
      have honly : onlyOne w i itemId := by simpa [takesTurns, ht, hp] using hcheck
      exact h.chooses ht hlegal.2.1 honly hlog hheld rfl hanswer
    | delete itemId g =>
      obtain ⟨hactive, rest, hbusy⟩ := hlegal
      obtain ⟨hs', hl'⟩ := hpush hactive
      rw [hs']
      refine h.deletes cat ht hbusy hl' ?_
      change learn t.session.note (.delete itemId g) r'.1 = _
      rw [hbusy]
      rfl
    | insert itemId g sortOrder =>
      obtain ⟨hactive, done, hbusy, rfl, hg⟩ := hlegal
      obtain ⟨hs', hl'⟩ := hpush hactive
      rw [hs']
      exact h.inserts cat ht hbusy hg hl' hanswer rfl

variable (cat) in
/-- No operation waits. -/
theorem Serial.runs {o : Rows.Op Query} (h : Serial initial w) (ht : w.threads[i]? = some t)
    (hlegal : Legal t.call o t.session) :
    ∃ q, Rows.exec (language cat) () (w.locked (system cat) i) t.session w.shared o = some q := by
  refine Rows.exec_isSome fun q ho k hk => h.not_locked ht ?_
  subst ho
  cases q with
  | item | found | attached | readBack => cases hk
  | delete itemId g =>
    obtain ⟨-, rest, hbusy⟩ := hlegal
    have hkey : k = (itemId, g) := by
      simp only [language, effect, Effect.needs] at hk
      split at hk <;> simpa [Rows.store, Rows.Write.row] using hk
    rw [hbusy, hkey]
    rfl
  | insert itemId g sortOrder =>
    obtain ⟨-, done, hbusy, -⟩ := hlegal
    have hkey : k = (itemId, g) := by
      simp only [language, effect] at hk
      split at hk <;> simpa [Effect.needs, Rows.store, Rows.Write.row] using hk
    rw [hbusy, hkey]
    rfl

end step

/-! ## Runs -/

/-- A run in which calls take turns. -/
abbrev InTurns (cat : Catalog) (initial : Attachments) (w : ItemWorld) : Prop :=
  Checked (system cat) (fun w a => takesTurns cat w a = true) (.initial initial) w

theorem InTurns.sound {initial : Attachments} {w : ItemWorld} (h : InTurns cat initial w) :
    Sound (spec cat) (system cat) initial 0 (fun _ _ a l _ => Post a l) w := by
  refine Sound.runs (starts _) happens (.initial trivial) (h.permitted fun w a ha => ?_)
  cases a with
  | start c => exact ha
  | step i inp => exact fun _ _ _ _ _ => trivial
  | crash i => trivial
  | world e => exact e.elim

/-- In every run in which calls take turns. -/
theorem InTurns.serial {initial : Attachments} {w : ItemWorld} (h : InTurns cat initial w) :
    Serial initial w := by
  induction h with
  | refl =>
    refine ⟨fun t ht => absurd ht List.not_mem_nil, fun ht => (by cases ht),
      fun itemId => Or.inr ⟨fun _ => rfl, fun t ht => absurd ht List.not_mem_nil⟩⟩
  | @tail w w' a hw hcheck hs ih =>
    have hsound : Sound (spec cat) (system cat) initial 0 (fun _ _ a l _ => Post a l) w :=
      InTurns.sound hw
    cases World.transition_of_act hs with
    | start c =>
      -- the new call has done nothing
      have hold : ∀ {j : ℕ} {u : ItemThread} {itemId : Id},
          (w.threads ++ [⟨c, (system cat).machine.idle, some ((system cat).program c)⟩])[j]? =
            some u → u.session.note.item = some itemId → w.threads[j]? = some u := by
        intro j u itemId hu hitem
        rw [List.getElem?_append] at hu
        split at hu
        · exact hu
        · rw [List.mem_singleton.mp (List.mem_of_getElem? hu)] at hitem
          cases hitem
      refine ⟨fun u hu => ?_, fun hu hv hju hkv => ih.alone (hold hu hju) (hold hv hkv) hju hkv,
        fun itemId => ?_⟩
      · rcases List.mem_append.mp hu with hu | hu
        · exact ih.fine u hu
        · rw [List.mem_singleton.mp hu]
          exact ⟨rfl, rfl⟩
      · rcases ih.rows itemId with ⟨u, hu, hrows⟩ | ⟨hsame, hnone⟩
        · exact Or.inl ⟨u, List.mem_append_left _ hu, hrows⟩
        · refine Or.inr ⟨hsame, fun u hu hu' hc => ?_⟩
          rcases List.mem_append.mp hu with hu | hu
          · exact hnone u hu hu' hc
          · rw [List.mem_singleton.mp hu] at hc
            cases hc
    | step ht hp hx => exact ih.step ht hp hcheck (hsound.step ht hp trivial hx).1 hx
    | crash ht _ => exact ih.set ht ⟨rfl, rfl⟩ (fun hc => by cases hc) fun _ hl => by cases hl
    | @world e => exact e.elim

/-- Calls replace attachments as a whole. -/
structure Replaces (cat : Catalog) (w : ItemWorld) : Prop where
  /-- no call throws -/
  succeeds : ∀ t ∈ w.threads, ∀ a, t.Answered a → ∃ groups, a = .ok groups
  /-- no call waits for another -/
  advances : ∀ i t, w.threads[i]? = some t → t.Running →
    ∃ w', w.act (system cat) (.step i ()) = some w'
  /-- once a call has answered, the rows of its item are the list of one request -/
  rows : ∀ t ∈ w.threads, t.returned = true → ∃ u ∈ w.threads, u.call.itemId = t.call.itemId ∧
    Attached w.shared t.call.itemId u.call.optionGroupIds

/-- One item, and two groups. -/
def smallMenu : Catalog := ⟨fun itemId => itemId == 1, fun g =>
  if g = 1 then some ⟨"Milk", 1, 1⟩ else if g = 2 then some ⟨"Syrup", 0, 3⟩ else none⟩

/-- Call `i` performs its next `n` operations. -/
def steps (i n : ℕ) : List ItemAct := List.replicate n (.step i ())

/-- Every call is valid. -/
def onlyValid (cat : Catalog) (_ : ItemWorld) : ItemAct → Bool
  | .start c => c.valid cat
  | _ => true

theorem allows_of_onlyValid {w : ItemWorld} {a : ItemAct} (h : onlyValid cat w a = true) :
    (permit cat).Allows w a := by
  cases a with
  | start c => exact h
  | step i inp => exact fun _ _ _ _ _ => trivial
  | crash i => trivial
  | world e => exact e.elim

end CafePos.OptionGroups
