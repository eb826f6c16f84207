import Mathlib

/-!
# Programs: the syntax of a call that talks to the outside

A call of a service is a tree of *operations*: a statement sent to a database, a
request to a remote party, a look at the clock. Between two operations everything
is a pure computation, so a call is exactly a free monad `Prog Op Res α` over the
operations `Op` with answers `Res`. Nothing here says what an operation does; an
interpreter does (`World.lean`), and it may run the operations of other calls
between any two of ours.
-/

namespace Interleaving

/-- Program syntax: the free monad over operations `o : Op` answered in `Res o`.

* `done a` — the call has ended with the answer `a`.
* `op o k` — perform `o`; `k` continues with what the outside answers. -/
inductive Prog (Op : Type) (Res : Op → Type) (α : Type) : Type where
  /-- the call is over -/
  | done : α → Prog Op Res α
  /-- one operation, and what the call does with its answer -/
  | op : (o : Op) → (Res o → Prog Op Res α) → Prog Op Res α

namespace Prog

variable {Op : Type} {Res : Op → Type} {α β : Type}

/-- Graft a continuation onto every `done` leaf. -/
protected def bind : Prog Op Res α → (α → Prog Op Res β) → Prog Op Res β
  | done a, g => g a
  | op o k, g => op o fun r => (k r).bind g

instance : Monad (Prog Op Res) where
  pure := done
  bind := Prog.bind

/-- The program that performs one operation and returns its answer. -/
def perform (o : Op) : Prog Op Res (Res o) := op o done

@[simp] theorem pure_eq (a : α) : (pure a : Prog Op Res α) = done a := rfl

@[simp] theorem done_bind (a : α) (g : α → Prog Op Res β) : (done a >>= g) = g a := rfl

@[simp] theorem op_bind (o : Op) (k : Res o → Prog Op Res α) (g : α → Prog Op Res β) :
    (op o k >>= g) = op o fun r => k r >>= g := rfl

end Prog

end Interleaving
