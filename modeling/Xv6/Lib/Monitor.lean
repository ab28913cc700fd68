import Xv6.Lib.Prog

/-!
# Monitors

A monitor watches a program from outside: it has a state of its own, says which operation may
come next and which answers can come back, and moves on with every operation.  `Prog.Obeys` says
that a program never does what its monitor forbids, whatever the admitted answers are, and that its
result satisfies a postcondition together with the state that the monitor is left in.

* `obeys_op` and `Prog.Obeys.seq` are the rules, one for a single operation and one for programs
  that follow each other.

A monitor does not execute anything, so it says something about a program that runs next to
others: an invariant of the whole system ties the monitors of its parts to the state they share,
and has to show no more than that the real answers are among the admitted ones.
-/

namespace Lib

/-- A monitor with states in `L`. -/
structure Monitor (E : Type) (R : E → Type) (L : Type) where
  /-- The operation may come next. -/
  ok : L → E → Prop
  /-- The answer can come back. -/
  ans : L → (e : E) → R e → Prop
  /-- The state after the operation. -/
  next : L → (e : E) → R e → L

namespace Prog

variable {E : Type} {R : E → Type} {L α β : Type} {M : Monitor E R L}

/-- The program stays within the bounds of the monitor, and ends in `Q`. -/
def Obeys (M : Monitor E R L) : Prog E R α → (α → L → Prop) → L → Prop
  | ret a, Q, l => Q a l
  | op e k, Q, l => M.ok l e ∧ ∀ r, M.ans l e r → (k r).Obeys M Q (M.next l e r)

variable {Q Q' : α → L → Prop} {l : L}

lemma obeys_op {e : E} {k : R e → Prog E R α} :
    (op e k).Obeys M Q l ↔
      M.ok l e ∧ ∀ r, M.ans l e r → (k r).Obeys M Q (M.next l e r) := Iff.rfl

lemma obeys_bind {p : Prog E R β} {f : β → Prog E R α} :
    (p >>= f).Obeys M Q l ↔ p.Obeys M (fun b l' => (f b).Obeys M Q l') l := by
  induction p generalizing l with
  | ret b => exact Iff.rfl
  | op e k ih =>
    rw [op_bind, obeys_op, obeys_op]
    exact and_congr_right fun _ => forall₂_congr fun r _ => ih r

lemma Obeys.mono {p : Prog E R α} (hp : p.Obeys M Q l) (hQ : ∀ a l', Q a l' → Q' a l') :
    p.Obeys M Q' l := by
  induction p generalizing l with
  | ret a => exact hQ a l hp
  | op e k ih => exact ⟨hp.1, fun r hr => ih r (hp.2 r hr)⟩

lemma Obeys.seq {p : Prog E R β} {f : β → Prog E R α} {J : β → L → Prop} (hp : p.Obeys M J l)
    (hf : ∀ b l', J b l' → (f b).Obeys M Q l') : (p >>= f).Obeys M Q l :=
  obeys_bind.mpr (hp.mono hf)

end Prog

end Lib
