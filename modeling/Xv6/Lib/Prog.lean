import Mathlib.Logic.Basic
import Mathlib.Logic.Relation

/-!
# Programs over a signature of atomic operations

A program is a tree of atomic operations: it either returns, or issues one operation and
continues with the operation's answer.  `Prog E R α` is that tree for a signature `E` of
operations whose answers have the types `R e`.  Nothing in the tree says what an operation
does; a `Handler` supplies the meaning, as a state transformer that either answers or halts.

Keeping the code and its meaning apart is what the rest of the development is built on.

* `run` executes a program against one handler, `wp` is the corresponding weakest
  precondition, and `wp_bind` is the rule of sequential composition.
* `Visits` collects every state in which an execution can be interrupted between two atomic
  operations, the halting state included; `wpc` is the weakest precondition which in addition
  constrains all of those states.  A crash is an interruption.
* `run_sim`, `visits_sim` and `reaches_sim` say that a simulation between two handlers, checked
  one operation at a time, is a simulation between all programs over them.

The signature, the states and the reasons for halting are arbitrary types throughout.
-/

namespace Lib

/-- A program over the operations `E`, whose operation `e` answers in `R e`. -/
inductive Prog (E : Type) (R : E → Type) (α : Type) : Type
  /-- Return a value. -/
  | ret (a : α)
  /-- Issue one atomic operation and continue with its answer. -/
  | op (e : E) (k : R e → Prog E R α)

/-- The meaning of every operation: a state transformer that may halt. -/
abbrev Handler (E : Type) (R : E → Type) (ε σ : Type) := (e : E) → EStateM ε σ (R e)

namespace Prog

variable {E : Type} {R : E → Type} {ε σ τ α β γ : Type}

/-- Sequential composition. -/
protected def bind : Prog E R α → (α → Prog E R β) → Prog E R β
  | ret a, f => f a
  | op e k, f => op e fun r => (k r).bind f

instance : Monad (Prog E R) where
  pure := ret
  bind := Prog.bind

@[simp] lemma pure_eq (a : α) : (pure a : Prog E R α) = ret a := rfl

@[simp] lemma ret_bind (a : α) (f : α → Prog E R β) : (ret a >>= f) = f a := rfl

@[simp] lemma op_bind (e : E) (k : R e → Prog E R α) (f : α → Prog E R β) :
    (op e k >>= f) = op e fun r => k r >>= f := rfl

lemma bind_assoc' (p : Prog E R α) (f : α → Prog E R β) (g : β → Prog E R γ) :
    ((p >>= f) >>= g) = p >>= fun a => f a >>= g := by
  induction p with
  | ret a => rfl
  | op e k ih =>
    simp only [op_bind]
    congr 1
    funext r
    exact ih r

lemma bind_ret' (p : Prog E R α) : (p >>= fun a => ret a) = p := by
  induction p with
  | ret a => rfl
  | op e k ih =>
    simp only [op_bind]
    congr 1
    funext r
    exact ih r

/-! ## Execution -/

/-- Execute a program against a handler. -/
def run (h : Handler E R ε σ) : Prog E R α → EStateM ε σ α
  | ret a => fun s => .ok a s
  | op e k => fun s =>
    match h e s with
    | .ok r s' => (k r).run h s'
    | .error x s' => .error x s'

variable (h : Handler E R ε σ)

@[simp] lemma run_ret (a : α) (s : σ) : (ret a : Prog E R α).run h s = .ok a s := rfl

lemma run_op_ok {e : E} {k : R e → Prog E R α} {s s' : σ} {r : R e} (he : h e s = .ok r s') :
    (op e k).run h s = (k r).run h s' := by
  simp [run, he]

lemma run_op_error {e : E} {k : R e → Prog E R α} {s s' : σ} {x : ε}
    (he : h e s = .error x s') : (op e k).run h s = .error x s' := by
  simp [run, he]

lemma run_bind (p : Prog E R α) (f : α → Prog E R β) (s : σ) :
    (p >>= f).run h s =
      match p.run h s with
      | .ok a s' => (f a).run h s'
      | .error x s' => .error x s' := by
  induction p generalizing s with
  | ret a => rfl
  | op e k ih =>
    rw [op_bind]
    cases he : h e s with
    | ok r s' => rw [run_op_ok h he, run_op_ok h he, ih]
    | error x s' => rw [run_op_error h he, run_op_error h he]

lemma run_bind_ok {p : Prog E R α} {f : α → Prog E R β} {s s' : σ} {a : α}
    (hp : p.run h s = .ok a s') : (p >>= f).run h s = (f a).run h s' := by
  rw [run_bind, hp]

lemma run_bind_error {p : Prog E R α} {f : α → Prog E R β} {s s' : σ} {x : ε}
    (hp : p.run h s = .error x s') : (p >>= f).run h s = .error x s' := by
  rw [run_bind, hp]

/-! ## Weakest preconditions -/

/-- Every execution from `s` either returns in `Q` or halts for a reason and in a state in `A`. -/
def wp (A : ε → σ → Prop) (p : Prog E R α) (Q : α → σ → Prop) (s : σ) : Prop :=
  match p.run h s with
  | .ok a s' => Q a s'
  | .error x s' => A x s'

variable {h} {A : ε → σ → Prop} {Q Q' : α → σ → Prop} {s : σ}

@[simp] lemma wp_ret (a : α) : wp h A (ret a : Prog E R α) Q s ↔ Q a s := Iff.rfl

lemma wp_op {e : E} {k : R e → Prog E R α} :
    wp h A (op e k) Q s ↔
      match h e s with
      | .ok r s' => wp h A (k r) Q s'
      | .error x s' => A x s' := by
  unfold wp
  cases he : h e s with
  | ok r s' => rw [run_op_ok h he]
  | error x s' => rw [run_op_error h he]

lemma wp_op_ok {e : E} {k : R e → Prog E R α} {r : R e} {s' : σ} (he : h e s = .ok r s')
    (hk : wp h A (k r) Q s') : wp h A (op e k) Q s := by
  rw [wp_op, he]
  exact hk

lemma wp_op_error {e : E} {k : R e → Prog E R α} {x : ε} {s' : σ} (he : h e s = .error x s')
    (hx : A x s') : wp h A (op e k) Q s := by
  rw [wp_op, he]
  exact hx

lemma wp_bind {p : Prog E R β} {f : β → Prog E R α} :
    wp h A (p >>= f) Q s ↔ wp h A p (fun b s' => wp h A (f b) Q s') s := by
  unfold wp
  rw [run_bind]
  cases p.run h s <;> rfl

lemma wp_mono {p : Prog E R α} (hp : wp h A p Q s) (hQ : ∀ a s', Q a s' → Q' a s') :
    wp h A p Q' s := by
  unfold wp at hp ⊢
  cases hr : p.run h s with
  | ok a s' => rw [hr] at hp; exact hQ a s' hp
  | error x s' => rw [hr] at hp; exact hp

lemma wp_seq {p : Prog E R β} {f : β → Prog E R α} {M : β → σ → Prop} (hp : wp h A p M s)
    (hf : ∀ b s', M b s' → wp h A (f b) Q s') : wp h A (p >>= f) Q s :=
  wp_bind.mpr (wp_mono hp hf)

lemma wp_of_run_ok {p : Prog E R α} {a : α} {s' : σ} (hr : p.run h s = .ok a s')
    (hQ : Q a s') : wp h A p Q s := by
  unfold wp
  rw [hr]
  exact hQ

lemma wp_ok {p : Prog E R α} {a : α} {s' : σ} (hp : wp h A p Q s)
    (hr : p.run h s = .ok a s') : Q a s' := by
  unfold wp at hp
  rw [hr] at hp
  exact hp

lemma wp_error {p : Prog E R α} {x : ε} {s' : σ} (hp : wp h A p Q s)
    (hr : p.run h s = .error x s') : A x s' := by
  unfold wp at hp
  rw [hr] at hp
  exact hp

/-- The specification of a concrete execution is checked by executing it. -/
instance {p : Prog E R α} [∀ a s', Decidable (Q a s')] [∀ x s', Decidable (A x s')] :
    Decidable (wp h A p Q s) :=
  match hr : p.run h s with
  | .ok a s' => decidable_of_iff (Q a s') ⟨wp_of_run_ok hr, fun hp => wp_ok hp hr⟩
  | .error x s' => decidable_of_iff (A x s') ⟨fun hx => by rwa [wp, hr], fun hp => wp_error hp hr⟩

lemma exists_ok_of_wp {p : Prog E R α} (hp : wp h (fun _ _ => False) p Q s) :
    ∃ a s', p.run h s = .ok a s' ∧ Q a s' := by
  cases hr : p.run h s with
  | ok a s' => exact ⟨a, s', rfl, wp_ok hp hr⟩
  | error x s' => exact (wp_error hp hr).elim

lemma exists_error_of_wp {p : Prog E R α} (hp : wp h A p (fun _ _ => False) s) :
    ∃ x s', p.run h s = .error x s' ∧ A x s' := by
  cases hr : p.run h s with
  | ok a s' => exact (wp_ok hp hr).elim
  | error x s' => exact ⟨x, s', rfl, wp_error hp hr⟩

/-! ## Interruptions -/

variable (h) in
/-- `Visits h p s t`: an execution of `p` from `s` can be interrupted in the state `t`, that
is before its first operation, between two operations, after the last, or where it halts. -/
inductive Visits : Prog E R α → σ → σ → Prop
  | here (p : Prog E R α) (s : σ) : Visits p s s
  | step {e : E} {k : R e → Prog E R α} {s s' t : σ} {r : R e} (he : h e s = .ok r s')
      (ht : Visits (k r) s' t) : Visits (op e k) s t
  | halt {e : E} {k : R e → Prog E R α} {s s' : σ} {x : ε} (he : h e s = .error x s') :
      Visits (op e k) s s'

lemma visits_ret {a : α} {t : σ} : Visits h (ret a : Prog E R α) s t ↔ t = s := by
  constructor
  · rintro ⟨⟩
    rfl
  · rintro rfl
    exact .here _ _

/-- The interruptions of a sequence are those of its first part and, once that has returned,
those of the second. -/
lemma visits_bind {p : Prog E R β} {f : β → Prog E R α} {t : σ} :
    Visits h (p >>= f) s t ↔
      Visits h p s t ∨ ∃ b s', p.run h s = .ok b s' ∧ Visits h (f b) s' t := by
  induction p generalizing s with
  | ret b =>
    rw [ret_bind, visits_ret]
    constructor
    · intro hv
      exact Or.inr ⟨b, s, rfl, hv⟩
    · rintro (rfl | ⟨b', s', hr, hv⟩)
      · exact .here _ _
      · rw [run_ret] at hr
        obtain ⟨rfl, rfl⟩ := EStateM.Result.ok.inj hr
        exact hv
  | op e k ih =>
    rw [op_bind]
    constructor
    · intro hv
      cases hv with
      | here => exact Or.inl (.here _ _)
      | step he ht =>
        rcases (ih _).mp ht with hl | ⟨b, s', hr, hv⟩
        · exact Or.inl (.step he hl)
        · exact Or.inr ⟨b, s', by rw [run_op_ok h he, hr], hv⟩
      | halt he => exact Or.inl (.halt he)
    · rintro (hv | ⟨b, s', hr, hv⟩)
      · cases hv with
        | here => exact .here _ _
        | step he ht => exact .step he ((ih _).mpr (Or.inl ht))
        | halt he => exact .halt he
      -- the first part returned, so its first operation did not halt
      · cases he : h e s with
        | ok r s₁ =>
          rw [run_op_ok h he] at hr
          exact .step he ((ih r).mpr (Or.inr ⟨b, s', hr, hv⟩))
        | error x s₁ =>
          rw [run_op_error h he] at hr
          cases hr

lemma visits_of_run_ok {p : Prog E R α} {a : α} {s' : σ} (hr : p.run h s = .ok a s') :
    Visits h p s s' := by
  have hb : Visits h (p >>= fun a => ret a) s s' :=
    visits_bind.mpr (Or.inr ⟨a, s', hr, .here _ _⟩)
  rwa [bind_ret'] at hb

variable (h) in
/-- The state in which an execution is interrupted after `n` operations, if it gets so far. -/
def after : Nat → Prog E R α → σ → σ
  | 0, _, s => s
  | _ + 1, ret _, s => s
  | n + 1, op e k, s =>
    match h e s with
    | .ok r s' => after n (k r) s'
    | .error _ s' => s'

lemma visits_after (n : Nat) (p : Prog E R α) (s : σ) : Visits h p s (after h n p s) := by
  induction n generalizing p s with
  | zero => exact .here p s
  | succ n ih =>
    cases p with
    | ret a => exact .here _ s
    | op e k =>
      rw [after]
      cases he : h e s with
      | ok r s' => exact .step he (ih (k r) s')
      | error x s' => exact .halt he

variable (h) in
/-- `Reaches h p s t`: an execution of `p` from `s` passes through `t` and goes on from there,
or returns in `t`. -/
inductive Reaches : Prog E R α → σ → σ → Prop
  | here (p : Prog E R α) (s : σ) : Reaches p s s
  | step {e : E} {k : R e → Prog E R α} {s s' t : σ} {r : R e} (he : h e s = .ok r s')
      (ht : Reaches (k r) s' t) : Reaches (op e k) s t

lemma Reaches.visits {p : Prog E R α} {t : σ} (hr : Reaches h p s t) : Visits h p s t := by
  induction hr with
  | here => exact .here _ _
  | step he _ ih => exact .step he ih

lemma Reaches.bind {p : Prog E R β} {f : β → Prog E R α} {t : σ} (hr : Reaches h p s t) :
    Reaches h (p >>= f) s t := by
  induction hr with
  | here => exact .here _ _
  | step he _ ih => exact .step he ih

lemma reaches_bind_ok {p : Prog E R β} {f : β → Prog E R α} {b : β} {s' t : σ}
    (hr : p.run h s = .ok b s') (ht : Reaches h (f b) s' t) : Reaches h (p >>= f) s t := by
  induction p generalizing s with
  | ret a =>
    obtain ⟨rfl, rfl⟩ := EStateM.Result.ok.inj hr
    exact ht
  | op e k ih =>
    cases he : h e s with
    | ok r s₁ => exact .step he (ih r (by rwa [run_op_ok h he] at hr))
    | error x s₁ => exact nomatch (run_op_error h he).symm.trans hr

variable (h) in
/-- The weakest precondition that also keeps every interruption inside `C`. -/
def wpc (C : σ → Prop) (A : ε → σ → Prop) (p : Prog E R α) (Q : α → σ → Prop) (s : σ) : Prop :=
  (∀ t, Visits h p s t → C t) ∧ wp h A p Q s

variable {C : σ → Prop}

lemma wpc_ret {a : α} (hC : C s) (hQ : Q a s) : wpc h C A (ret a : Prog E R α) Q s :=
  ⟨fun _ ht => visits_ret.mp ht ▸ hC, hQ⟩

lemma wpc_op_ok {e : E} {k : R e → Prog E R α} {r : R e} {s' : σ} (hC : C s)
    (he : h e s = .ok r s') (hk : wpc h C A (k r) Q s') : wpc h C A (op e k) Q s := by
  refine ⟨fun t ht => ?_, wp_op_ok he hk.2⟩
  cases ht with
  | here => exact hC
  | step he' ht =>
    obtain ⟨rfl, rfl⟩ := EStateM.Result.ok.inj (he.symm.trans he')
    exact hk.1 t ht
  | halt he' => exact nomatch he.symm.trans he'

lemma wpc_op_error {e : E} {k : R e → Prog E R α} {x : ε} {s' : σ} (hC : C s) (hC' : C s')
    (he : h e s = .error x s') (hx : A x s') : wpc h C A (op e k) Q s := by
  refine ⟨fun t ht => ?_, wp_op_error he hx⟩
  cases ht with
  | here => exact hC
  | step he' ht => exact nomatch he.symm.trans he'
  | halt he' =>
    obtain ⟨rfl, rfl⟩ := EStateM.Result.error.inj (he.symm.trans he')
    exact hC'

lemma wpc_seq {p : Prog E R β} {f : β → Prog E R α} {M : β → σ → Prop} (hp : wpc h C A p M s)
    (hf : ∀ b s', M b s' → wpc h C A (f b) Q s') : wpc h C A (p >>= f) Q s := by
  refine ⟨fun t ht => ?_, wp_seq hp.2 fun b s' hM => (hf b s' hM).2⟩
  rcases visits_bind.mp ht with hv | ⟨b, s', hr, hv⟩
  · exact hp.1 t hv
  · exact (hf b s' (wp_ok hp.2 hr)).1 t hv

lemma wpc_mono {C' : σ → Prop} {p : Prog E R α} (hp : wpc h C A p Q s)
    (hC : ∀ t, C t → C' t) (hQ : ∀ a s', Q a s' → Q' a s') : wpc h C' A p Q' s :=
  ⟨fun t ht => hC t (hp.1 t ht), wp_mono hp.2 hQ⟩

/-! ## Simulation -/

/-- The right result simulates the left one: it answers the same in a related state, and it
halts for the same reason whenever that reason is one of `G`.  A left halt outside `G`
promises nothing. -/
def SimResult (Rel RelE : σ → τ → Prop) (G : ε → Prop) :
    EStateM.Result ε σ α → EStateM.Result ε τ α → Prop
  | .ok a s, r => ∃ t, r = .ok a t ∧ Rel s t
  | .error x s, r => G x → ∃ t, r = .error x t ∧ RelE s t

variable {h' : Handler E R ε τ} {Rel RelE : σ → τ → Prop} {G : ε → Prop}

/-- **Simulation of programs from simulation of operations.** -/
theorem run_sim
    (hstep : ∀ e s t, Rel s t → SimResult Rel RelE G (h e s) (h' e t))
    (p : Prog E R α) {s : σ} {t : τ} (hst : Rel s t) :
    SimResult Rel RelE G (p.run h s) (p.run h' t) := by
  induction p generalizing s t with
  | ret a => exact ⟨t, rfl, hst⟩
  | op e k ih =>
    have hs := hstep e s t hst
    cases he : h e s with
    | ok r s' =>
      rw [he] at hs
      obtain ⟨t', ht', hrel⟩ := hs
      rw [run_op_ok h he, run_op_ok h' ht']
      exact ih r hrel
    | error x s' =>
      rw [he] at hs
      rw [run_op_error h he]
      intro hx
      obtain ⟨t', ht', hrel⟩ := hs hx
      exact ⟨t', run_op_error h' ht', hrel⟩

/-- Where one side halts, both were in related states before the same operation. -/
theorem error_sim
    (hstep : ∀ e s t, Rel s t → SimResult Rel RelE G (h e s) (h' e t))
    (p : Prog E R α) {s s' : σ} {t : τ} {x : ε} (hst : Rel s t) (hx : G x)
    (hr : p.run h s = .error x s') :
    ∃ e s₀ t₀ t', Rel s₀ t₀ ∧ h e s₀ = .error x s' ∧ h' e t₀ = .error x t' ∧
      p.run h' t = .error x t' := by
  induction p generalizing s t with
  | ret a => cases hr
  | op e k ih =>
    have hs := hstep e s t hst
    cases he : h e s with
    | ok r s₁ =>
      rw [he] at hs
      obtain ⟨t₁, ht₁, hrel⟩ := hs
      rw [run_op_ok h he] at hr
      obtain ⟨e', s₀, t₀, t', hrel₀, he', ht', hrun⟩ := ih r hrel hr
      exact ⟨e', s₀, t₀, t', hrel₀, he', ht', by rw [run_op_ok h' ht₁, hrun]⟩
    | error x₁ s₁ =>
      rw [run_op_error h he] at hr
      obtain ⟨rfl, rfl⟩ := EStateM.Result.error.inj hr
      rw [he] at hs
      obtain ⟨t', ht', -⟩ := hs hx
      exact ⟨e, s, t, t', hst, he, ht', run_op_error h' ht'⟩

/-- Every interruption of the simulating execution is matched by one of the simulated
execution, as long as that one never halts outside `G`. -/
theorem visits_sim
    (hstep : ∀ e s t, Rel s t → SimResult Rel RelE G (h e s) (h' e t))
    (hRel : ∀ s t, Rel s t → RelE s t)
    {p : Prog E R α} {s : σ} {t t' : τ} (hst : Rel s t)
    (hG : ∀ x s', p.run h s = .error x s' → G x) (hv : Visits h' p t t') :
    ∃ s', Visits h p s s' ∧ RelE s' t' := by
  induction hv generalizing s with
  | here p t => exact ⟨s, .here _ _, hRel s t hst⟩
  | @step e k t t₁ t₂ r he hv ih =>
    have hs := hstep e s t hst
    cases hes : h e s with
    | ok r' s₁ =>
      rw [hes] at hs
      obtain ⟨t₁', ht₁, hrel⟩ := hs
      obtain ⟨rfl, rfl⟩ := EStateM.Result.ok.inj (he.symm.trans ht₁)
      obtain ⟨s', hs', hE⟩ := ih hrel fun x s' hx => hG x s' (by rw [run_op_ok h hes, hx])
      exact ⟨s', .step hes hs', hE⟩
    | error x s₁ =>
      rw [hes] at hs
      obtain ⟨t₁', ht₁, -⟩ := hs (hG x s₁ (run_op_error h hes))
      exact nomatch he.symm.trans ht₁
  | @halt e k t t₁ x he =>
    have hs := hstep e s t hst
    cases hes : h e s with
    | ok r' s₁ =>
      rw [hes] at hs
      obtain ⟨t₁', ht₁, -⟩ := hs
      exact nomatch he.symm.trans ht₁
    | error x' s₁ =>
      rw [hes] at hs
      obtain ⟨t₁', ht₁, hE⟩ := hs (hG x' s₁ (run_op_error h hes))
      obtain ⟨rfl, rfl⟩ := EStateM.Result.error.inj (he.symm.trans ht₁)
      exact ⟨s₁, .halt hes, hE⟩

/-- Every state the simulating execution passes through is related to one that the simulated
execution passes through. -/
theorem reaches_sim
    (hstep : ∀ e s t, Rel s t → SimResult Rel RelE G (h e s) (h' e t))
    {p : Prog E R α} {s : σ} {t t' : τ} (hst : Rel s t)
    (hG : ∀ x s', p.run h s = .error x s' → G x) (hr : Reaches h' p t t') :
    ∃ s', Reaches h p s s' ∧ Rel s' t' := by
  induction hr generalizing s with
  | here p t => exact ⟨s, .here _ _, hst⟩
  | @step e k t t₁ t₂ r he hr ih =>
    have hs := hstep e s t hst
    cases hes : h e s with
    | ok r' s₁ =>
      rw [hes] at hs
      obtain ⟨t₁', ht₁, hrel⟩ := hs
      obtain ⟨rfl, rfl⟩ := EStateM.Result.ok.inj (he.symm.trans ht₁)
      obtain ⟨s', hs', hR⟩ := ih hrel fun x s' hx => hG x s' (by rw [run_op_ok h hes, hx])
      exact ⟨s', .step hes hs', hR⟩
    | error x s₁ =>
      rw [hes] at hs
      obtain ⟨t₁', ht₁, -⟩ := hs (hG x s₁ (run_op_error h hes))
      exact nomatch he.symm.trans ht₁

end Prog

/-! ## Two signatures side by side -/

section Sum

variable {E₁ E₂ : Type} {R₁ : E₁ → Type} {R₂ : E₂ → Type} {ε σ τ ρ : Type}

/-- The handler of two signatures that act on separate halves of the state. -/
def Handler.sum (h₁ : Handler E₁ R₁ ε σ) (h₂ : Handler E₂ R₂ ε ρ) :
    Handler (E₁ ⊕ E₂) (Sum.elim R₁ R₂) ε (σ × ρ)
  | .inl e => fun s =>
    match h₁ e s.1 with
    | .ok r s' => .ok r (s', s.2)
    | .error x s' => .error x (s', s.2)
  | .inr e => fun s =>
    match h₂ e s.2 with
    | .ok r s' => .ok r (s.1, s')
    | .error x s' => .error x (s.1, s')

lemma Handler.sum_inl_error {h₁ : Handler E₁ R₁ ε σ} {h₂ : Handler E₂ R₂ ε ρ} {e : E₁} {s t : σ × ρ}
    {x : ε} (h : h₁.sum h₂ (.inl e) s = .error x t) :
    ∃ s', h₁ e s.1 = .error x s' ∧ t = (s', s.2) := by
  simp only [Handler.sum] at h
  cases he : h₁ e s.1 with
  | ok r s' => rw [he] at h; cases h
  | error y s' =>
    rw [he] at h
    obtain ⟨rfl, rfl⟩ := EStateM.Result.error.inj h
    exact ⟨s', rfl, rfl⟩

lemma Handler.sum_inr_error {h₁ : Handler E₁ R₁ ε σ} {h₂ : Handler E₂ R₂ ε ρ} {e : E₂} {s t : σ × ρ}
    {x : ε} (h : h₁.sum h₂ (.inr e) s = .error x t) :
    ∃ s', h₂ e s.2 = .error x s' ∧ t = (s.1, s') := by
  simp only [Handler.sum] at h
  cases he : h₂ e s.2 with
  | ok r s' => rw [he] at h; cases h
  | error y s' =>
    rw [he] at h
    obtain ⟨rfl, rfl⟩ := EStateM.Result.error.inj h
    exact ⟨s', rfl, rfl⟩

/-- Relate the left halves and keep the right halves equal. -/
def relFst (Rel : σ → τ → Prop) (s : σ × ρ) (t : τ × ρ) : Prop := Rel s.1 t.1 ∧ s.2 = t.2

/-- A simulation between left handlers extends to the sums with a common right handler. -/
lemma Handler.sum_sim {h₁ : Handler E₁ R₁ ε σ} {h₁' : Handler E₁ R₁ ε τ}
    {h₂ : Handler E₂ R₂ ε ρ} {Rel RelE : σ → τ → Prop} {G : ε → Prop}
    (hRel : ∀ s t, Rel s t → RelE s t)
    (hstep : ∀ e s t, Rel s t → Prog.SimResult Rel RelE G (h₁ e s) (h₁' e t))
    (e : E₁ ⊕ E₂) (s : σ × ρ) (t : τ × ρ) (hst : relFst Rel s t) :
    Prog.SimResult (relFst Rel) (relFst RelE) G (h₁.sum h₂ e s) (h₁'.sum h₂ e t) := by
  obtain ⟨s₁, s₂⟩ := s
  obtain ⟨t₁, t₂⟩ := t
  obtain ⟨hrel, rfl : s₂ = t₂⟩ := hst
  cases e with
  | inl e =>
    have hs := hstep e s₁ t₁ hrel
    simp only [Handler.sum]
    cases he : h₁ e s₁ with
    | ok r s' =>
      rw [he] at hs
      obtain ⟨t', ht', hrel'⟩ := hs
      exact ⟨(t', s₂), by rw [ht'], hrel', rfl⟩
    | error x s' =>
      rw [he] at hs
      intro hx
      obtain ⟨t', ht', hrel'⟩ := hs hx
      exact ⟨(t', s₂), by rw [ht'], hrel', rfl⟩
  | inr e =>
    simp only [Handler.sum]
    cases h₂ e s₂ with
    | ok r s' => exact ⟨(t₁, s'), rfl, hrel, rfl⟩
    | error x s' => exact fun _ => ⟨(t₁, s'), rfl, hRel _ _ hrel, rfl⟩

end Sum

/-! ## A record next to the state -/

section Track

variable {E : Type} {R : E → Type} {ε σ τ γ : Type}

/-- A handler next to which a record is kept of the operations that have answered. -/
def Handler.track (h : Handler E R ε σ) (g : E → γ → γ) : Handler E R ε (σ × γ) := fun e s =>
  match h e s.1 with
  | .ok r t => .ok r (t, g e s.2)
  | .error x t => .error x (t, s.2)

lemma Prog.Reaches.track {α : Type} {h : Handler E R ε σ} {p : Prog E R α} {s t : σ}
    (hr : Reaches h p s t) (g : E → γ → γ) (y : γ) :
    ∃ y', Reaches (h.track g) p (s, y) (t, y') := by
  induction hr generalizing y with
  | here => exact ⟨y, .here _ _⟩
  | @step e k s s' t r he _ ih =>
    obtain ⟨y', hy⟩ := ih (g e y)
    exact ⟨y', .step (by simp only [Handler.track, he]) hy⟩

/-- A simulation extends to the record, with what the simulated handler says about it. -/
lemma Handler.track_sim {h : Handler E R ε σ} {h' : Handler E R ε τ} {g : E → γ → γ}
    {Rel RelE : σ → τ → Prop} {G : ε → Prop} {J : σ → γ → Prop}
    (hstep : ∀ e s t, Rel s t → Prog.SimResult Rel RelE G (h e s) (h' e t))
    (hJ : ∀ e s r s' y, h e s = .ok r s' → J s y → J s' (g e y))
    (e : E) (s : σ) (t : τ × γ) (hst : Rel s t.1 ∧ J s t.2) :
    Prog.SimResult (fun s t => Rel s t.1 ∧ J s t.2) (fun s t => RelE s t.1) G (h e s)
      (h'.track g e t) := by
  have hs := hstep e s t.1 hst.1
  unfold Handler.track
  cases he : h e s with
  | ok r s' =>
    rw [he] at hs
    obtain ⟨t', ht', hrel⟩ := hs
    exact ⟨(t', g e t.2), by rw [ht'], hrel, hJ e s r s' t.2 he hst.2⟩
  | error x s' =>
    rw [he] at hs
    intro hx
    obtain ⟨t', ht', hrel⟩ := hs hx
    exact ⟨(t', t.2), by rw [ht'], hrel⟩

end Track

end Lib
