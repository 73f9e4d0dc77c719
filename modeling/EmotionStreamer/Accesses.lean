import Mathlib.Logic.Basic

/-! Programs that share a state through single accesses. A program is a tree of the
accesses it still makes; a protocol says which access may come next, and the programs
that follow it are composed by one rule for `bind`. -/
namespace EmotionStreamer.Accesses

variable {A R ε σ Φ α β : Type}

/-- A program that makes accesses `A` answered by `R`, and ends or fails. -/
inductive Prog (A R ε α : Type)
  | ret (a : α)
  | fail (e : ε)
  | call (a : A) (rest : R → Prog A R ε α)

def Prog.bind (p : Prog A R ε α) (f : α → Prog A R ε β) : Prog A R ε β :=
  match p with
  | .ret a => f a
  | .fail e => .fail e
  | .call a rest => .call a fun r => (rest r).bind f

instance : Monad (Prog A R ε) where
  pure := .ret
  bind := .bind

def Prog.access (a : A) : Prog A R ε R := .call a .ret

def Prog.lift : Except ε α → Prog A R ε α
  | .ok a => .ret a
  | .error e => .fail e

/-- The program without any other program between its accesses. -/
def Prog.run (perform : A → σ → Except ε (R × σ)) : Prog A R ε α → σ → Except ε (α × σ)
  | .ret a, s => .ok (a, s)
  | .fail e, _ => .error e
  | .call a rest, s =>
    match perform a s with
    | .ok (r, t) => (rest r).run perform t
    | .error e => .error e

/-- Which accesses a thread in a phase may make, which answers it may get, and the
phase it is in then. -/
structure Protocol (Φ A R : Type) where
  allowed : Φ → A → Prop
  answers : Φ → A → R → Prop
  next : Φ → A → R → Φ

/-- Whatever answers the protocol lets the program get, its accesses are allowed and it
ends as `post` says. -/
def Prog.Follows (P : Protocol Φ A R) (post : α → Φ → Prop) : Φ → Prog A R ε α → Prop
  | φ, .ret a => post a φ
  | _, .fail _ => True
  | φ, .call a rest => P.allowed φ a ∧
      ∀ r, P.answers φ a r → (rest r).Follows P post (P.next φ a r)

variable {perform : A → σ → Except ε (R × σ)} {P : Protocol Φ A R} {post : α → Φ → Prop}
  {post' : β → Φ → Prop} {φ : Φ} {p : Prog A R ε α} {f : α → Prog A R ε β}

@[simp] theorem run_pure (a : α) (s : σ) : (pure a : Prog A R ε α).run perform s = .ok (a, s) := rfl

@[simp] theorem run_ite (c : Prop) [Decidable c] (p q : Prog A R ε α) (s : σ) :
    (if c then p else q).run perform s = if c then p.run perform s else q.run perform s := by
  split <;> rfl

@[simp] theorem run_lift (x : Except ε α) (s : σ) :
    (Prog.lift x : Prog A R ε α).run perform s = x.map (·, s) := by
  cases x <;> rfl

@[simp] theorem run_access (a : A) (s : σ) :
    (Prog.access a : Prog A R ε R).run perform s = perform a s := by
  simp only [Prog.access, Prog.run]
  cases perform a s <;> rfl

@[simp] theorem run_bind (p : Prog A R ε α) (f : α → Prog A R ε β) (s : σ) :
    (p >>= f).run perform s = p.run perform s >>= fun r => (f r.1).run perform r.2 := by
  induction p generalizing s with
  | ret a => rfl
  | fail e => rfl
  | call a rest ih =>
    change ((Prog.call a rest).bind f).run perform s = _
    simp only [Prog.bind, Prog.run]
    cases perform a s with
    | error e => rfl
    | ok r => exact ih r.1 r.2

theorem Prog.Follows.lift (x : Except ε α) (h : ∀ a, x = .ok a → post a φ) :
    (Prog.lift x : Prog A R ε α).Follows P post φ := by
  cases x with
  | ok a => exact h a rfl
  | error e => exact trivial

/-- The rule for programs one after the other. -/
theorem Prog.Follows.bind (h : p.Follows P post φ) (hf : ∀ a ψ, post a ψ → (f a).Follows P post' ψ) :
    (p >>= f).Follows P post' φ := by
  induction p generalizing φ with
  | ret a => exact hf a φ h
  | fail e => exact trivial
  | call a rest ih => exact ⟨h.1, fun r hr => ih r (h.2 r hr)⟩

/-- The rule for one access and what comes behind it. -/
theorem Prog.Follows.access_bind {f : R → Prog A R ε β} (a : A) (hallow : P.allowed φ a)
    (h : ∀ r, P.answers φ a r → (f r).Follows P post' (P.next φ a r)) :
    (Prog.access a >>= f).Follows P post' φ := ⟨hallow, h⟩

/-- The rule for the next access of a thread. -/
theorem Prog.Follows.call {a : A} {rest : R → Prog A R ε α} (h : (Prog.call a rest).Follows P post φ)
    {r : R} (hr : P.answers φ a r) : P.allowed φ a ∧ (rest r).Follows P post (P.next φ a r) :=
  ⟨h.1, h.2 r hr⟩

end EmotionStreamer.Accesses
