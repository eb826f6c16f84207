import Mathlib

/-!
# Sessions: READ COMMITTED with row locks and a redo log

One connection to a database that runs at READ COMMITTED. The database itself
stays abstract (`Store`): a type of states, a type of writes, and a type of *rows*
(table rows and index entries alike, whatever a transaction can lock).

* **statements are atomic** and read the latest committed state, plus the
  session's own uncommitted writes (`Session.view`);
* **a transaction is all or nothing**: its writes wait in the redo log
  (`Session.log`) and reach the committed state in one step, `Session.commit`, or
  never, `Session.rollback`;
* **row locks** are taken by the statement that writes a row and held until the
  transaction ends. A statement that needs a row somebody else holds does not
  run (`Session.execute` is `none`): it waits, and is evaluated again, on what is
  committed by then, when the row is free.

The field `Session.covered` says that a session only ever wrote rows it holds, so
committing cannot disturb a row held by anybody else (`Session.commit_keeps`).
-/

namespace Interleaving

variable {S W Row Ev α : Type}

/-- A database, as its transactions see it: how a write changes the state, which
rows it touches, and what it means that a row was left alone between two states.
`keeps x` is a preorder for every row `x`. -/
structure Store (S W Row : Type) where
  /-- the effect of one write -/
  apply : W → S → S
  /-- the rows a write touches -/
  rows : W → List Row
  /-- row `x` was left alone -/
  keeps : Row → S → S → Prop
  keeps_refl : ∀ x s, keeps x s s
  keeps_trans : ∀ x s t u, keeps x s t → keeps x t u → keeps x s u
  /-- a write leaves alone the rows it does not touch -/
  apply_keeps : ∀ w s x, x ∉ rows w → keeps x s (apply w s)

namespace Store

variable (D : Store S W Row)

/-- Apply a redo log, oldest write first. -/
def applyAll (ws : List W) (s : S) : S := ws.foldl (fun s w => D.apply w s) s

@[simp] theorem applyAll_nil (s : S) : D.applyAll [] s = s := rfl

@[simp] theorem applyAll_cons (w : W) (ws : List W) (s : S) :
    D.applyAll (w :: ws) s = D.applyAll ws (D.apply w s) := rfl

theorem applyAll_append (ws ws' : List W) (s : S) :
    D.applyAll (ws ++ ws') s = D.applyAll ws' (D.applyAll ws s) :=
  List.foldl_append ..

/-- A redo log leaves alone the rows none of its writes touches. -/
theorem applyAll_keeps {ws : List W} {x : Row} (hx : ∀ w ∈ ws, x ∉ D.rows w) (s : S) :
    D.keeps x s (D.applyAll ws s) := by
  induction ws generalizing s with
  | nil => exact D.keeps_refl x s
  | cons w ws ih =>
    have hw : D.keeps x s (D.apply w s) := D.apply_keeps w s x (hx w (List.mem_cons_self ..))
    have hws := ih (fun w' hw' => hx w' (List.mem_cons_of_mem _ hw')) (D.apply w s)
    exact D.keeps_trans x _ _ _ hw hws

end Store

/-- What a statement does to the state it is evaluated on: the answer it returns,
the writes it adds to the redo log, and the rows it locks besides the ones it
writes (`SELECT ... FOR UPDATE`, an index entry). -/
structure Effect (W Row α : Type) where
  /-- what the statement returns -/
  answer : α
  /-- what it writes -/
  writes : List W := []
  /-- what it locks without writing -/
  locks : List Row := []

namespace Effect

/-- The rows a statement must hold before it can run. -/
def needs (rows : W → List Row) (e : Effect W Row α) : List Row :=
  e.locks ++ e.writes.flatMap rows

end Effect

/-- A connection. `committed` and `published` are the session's own record of what
it has made visible so far: the logs it committed and the messages it sent out
after committing. They outlive the transaction. -/
structure Session (W Row Ev : Type) (rows : W → List Row) where
  /-- a transaction is open -/
  active : Bool
  /-- the redo log of the open transaction -/
  log : List W
  /-- the rows it holds -/
  held : List Row
  /-- only held rows were written -/
  covered : ∀ w ∈ log, ∀ x ∈ rows w, x ∈ held
  /-- the logs this session has committed -/
  committed : List (List W)
  /-- the messages this session has published -/
  published : List Ev

namespace Session

variable {rows : W → List Row}

/-- A connection that has done nothing yet. -/
@[simps] def idle (rows : W → List Row) : Session W Row Ev rows :=
  ⟨false, [], [], fun _ h => absurd h List.not_mem_nil, [], []⟩

/-- Open a transaction. -/
@[simps] def begin (l : Session W Row Ev rows) : Session W Row Ev rows :=
  ⟨true, [], [], fun _ h => absurd h List.not_mem_nil, l.committed, l.published⟩

/-- Drop the open transaction, if there is one: `ROLLBACK`, or the connection is lost. -/
@[simps] def rollback (l : Session W Row Ev rows) : Session W Row Ev rows :=
  ⟨false, [], [], fun _ h => absurd h List.not_mem_nil, l.committed, l.published⟩

/-- The session after its writes `ws` became visible. -/
@[simps] def release (l : Session W Row Ev rows) (ws : List W) : Session W Row Ev rows :=
  ⟨false, [], [], fun _ h => absurd h List.not_mem_nil, l.committed ++ [ws], l.published⟩

/-- A statement of the open transaction: its writes join the redo log, its rows
are held from now on. -/
@[simps] def push (l : Session W Row Ev rows) (e : Effect W Row α) : Session W Row Ev rows :=
  ⟨true, l.log ++ e.writes, l.held ++ e.needs rows, by
    intro w hw x hx
    rcases List.mem_append.mp hw with hw | hw
    · exact List.mem_append_left _ (l.covered w hw x hx)
    · have hmem : x ∈ e.writes.flatMap rows := List.mem_flatMap.mpr ⟨w, hw, hx⟩
      exact List.mem_append_right _ (List.mem_append_right _ hmem), l.committed, l.published⟩

/-- Messages sent out, recorded. -/
@[simps] def publish (l : Session W Row Ev rows) (es : List Ev) : Session W Row Ev rows :=
  { l with published := l.published ++ es }

variable (D : Store S W Row)

/-- What the session's own statements see: the committed state with the session's
uncommitted writes on top. -/
def view (l : Session W Row Ev D.rows) (s : S) : S := D.applyAll l.log s

/-- Run a statement. It waits (`none`) while a row it needs is locked by somebody
else. In a transaction its writes join the redo log; outside one the statement
commits by itself. -/
def execute (stmt : S → Effect W Row α) (locked : Row → Bool)
    (l : Session W Row Ev D.rows) (s : S) : Option (α × Session W Row Ev D.rows × S) :=
  let e := stmt (l.view D s)
  if (e.needs D.rows).any locked then none
  else if l.active then some (e.answer, l.push e, s)
  else match e.writes with
    | [] => some (e.answer, l, s)
    | ws => some (e.answer, l.release ws, D.applyAll ws s)

/-- `COMMIT`: the whole redo log becomes visible at once. -/
def commit (l : Session W Row Ev D.rows) (s : S) : Session W Row Ev D.rows × S :=
  (l.release l.log, D.applyAll l.log s)

variable {D}

/-- Committing leaves alone every row the session does not hold. -/
theorem commit_keeps {l : Session W Row Ev D.rows} {x : Row} (hx : x ∉ l.held) (s : S) :
    D.keeps x s (l.commit D s).2 :=
  D.applyAll_keeps (fun w hw hr => hx (l.covered w hw x hr)) s

/-- What a statement that runs does, inside a transaction and outside one. -/
theorem execute_cases {stmt : S → Effect W Row α} {locked : Row → Bool}
    {l l' : Session W Row Ev D.rows} {s s' : S} {a : α}
    (h : l.execute D stmt locked s = some (a, l', s')) :
    a = (stmt (l.view D s)).answer ∧
      (l.active = true ∧ l' = l.push (stmt (l.view D s)) ∧ s' = s ∨
        l.active = false ∧ (stmt (l.view D s)).writes = [] ∧ l' = l ∧ s' = s ∨
        l.active = false ∧ (stmt (l.view D s)).writes ≠ [] ∧
          l' = l.release (stmt (l.view D s)).writes ∧
          s' = D.applyAll (stmt (l.view D s)).writes s) := by
  simp only [execute] at h
  split at h
  · cases h
  · split at h
    · rename_i hactive
      obtain ⟨rfl, rfl, rfl⟩ := Option.some.inj h |> Prod.mk.inj |>.imp_right Prod.mk.inj
      exact ⟨rfl, Or.inl ⟨hactive, rfl, rfl⟩⟩
    · rename_i hactive
      have hfalse : l.active = false := Bool.not_eq_true _ |>.mp hactive
      split at h
      · rename_i hwrites
        obtain ⟨rfl, rfl, rfl⟩ := Option.some.inj h |> Prod.mk.inj |>.imp_right Prod.mk.inj
        exact ⟨rfl, Or.inr (Or.inl ⟨hfalse, hwrites, rfl, rfl⟩)⟩
      · rename_i hwrites
        obtain ⟨rfl, rfl, rfl⟩ := Option.some.inj h |> Prod.mk.inj |>.imp_right Prod.mk.inj
        exact ⟨rfl, Or.inr (Or.inr ⟨hfalse, hwrites, rfl, rfl⟩)⟩

/-- A statement that writes nothing leaves the state and the redo log, and gives up no row. -/
theorem execute_reads {stmt : S → Effect W Row α} {locked : Row → Bool}
    {l l' : Session W Row Ev D.rows} {s s' : S} {a : α}
    (h : l.execute D stmt locked s = some (a, l', s')) (hw : (stmt (l.view D s)).writes = []) :
    s' = s ∧ l'.log = l.log ∧ ∀ x ∈ l.held, x ∈ l'.held := by
  obtain ⟨-, ⟨-, rfl, rfl⟩ | ⟨-, -, rfl, rfl⟩ | ⟨-, hne, -, -⟩⟩ := execute_cases h
  · exact ⟨rfl, by rw [push_log, hw, List.append_nil], fun x hx => List.mem_append_left _ hx⟩
  · exact ⟨rfl, rfl, fun x hx => hx⟩
  · exact absurd hw hne

/-- A statement acquires only rows that nobody else holds. -/
theorem execute_held {stmt : S → Effect W Row α} {locked : Row → Bool}
    {l l' : Session W Row Ev D.rows} {s s' : S} {a : α}
    (h : l.execute D stmt locked s = some (a, l', s')) :
    ∀ x ∈ l'.held, x ∈ l.held ∨ locked x = false := by
  intro x hx
  simp only [execute] at h
  split at h
  · cases h
  · rename_i hfree
    simp only [List.any_eq_true, not_exists, not_and, Bool.not_eq_true] at hfree
    split at h
    · obtain ⟨-, rfl, -⟩ := Option.some.inj h |> Prod.mk.inj |>.imp_right Prod.mk.inj
      rcases List.mem_append.mp hx with hx | hx
      · exact Or.inl hx
      · exact Or.inr (hfree x hx)
    · split at h
      · obtain ⟨-, rfl, -⟩ := Option.some.inj h |> Prod.mk.inj |>.imp_right Prod.mk.inj
        exact Or.inl hx
      · obtain ⟨-, rfl, -⟩ := Option.some.inj h |> Prod.mk.inj |>.imp_right Prod.mk.inj
        cases hx

/-- A statement leaves alone every row somebody else holds. -/
theorem execute_keeps {stmt : S → Effect W Row α} {locked : Row → Bool}
    {l l' : Session W Row Ev D.rows} {s s' : S} {a : α}
    (h : l.execute D stmt locked s = some (a, l', s')) {x : Row} (hx : locked x = true) :
    D.keeps x s s' := by
  simp only [execute] at h
  split at h
  · cases h
  · rename_i hfree
    simp only [List.any_eq_true, not_exists, not_and, Bool.not_eq_true] at hfree
    split at h
    · obtain ⟨-, -, rfl⟩ := Option.some.inj h |> Prod.mk.inj |>.imp_right Prod.mk.inj
      exact D.keeps_refl x s
    · split at h
      · obtain ⟨-, -, rfl⟩ := Option.some.inj h |> Prod.mk.inj |>.imp_right Prod.mk.inj
        exact D.keeps_refl x s
      · obtain ⟨-, -, rfl⟩ := Option.some.inj h |> Prod.mk.inj |>.imp_right Prod.mk.inj
        refine D.applyAll_keeps (fun w hw hr => ?_) s
        have hn : x ∈ (stmt (l.view D s)).needs D.rows :=
          List.mem_append_right _ (List.mem_flatMap.mpr ⟨w, hw, hr⟩)
        rw [hfree x hn] at hx
        cases hx

end Session

end Interleaving
