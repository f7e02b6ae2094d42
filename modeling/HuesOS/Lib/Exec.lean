import Mathlib.Logic.Basic
import Mathlib.Tactic.Common

/-! State passing programs that may stop early. A program that stops still returns the
state it had reached, so what a failed call leaves behind can be stated. -/

/-- A program over the state `σ` that returns an `α` or stops with an `ε`. -/
def Exec (σ ε α : Type) : Type := σ → Except ε α × σ

namespace Exec
variable {σ ε α β : Type}

def ret (a : α) : Exec σ ε α := fun s => (.ok a, s)

def andThen (x : Exec σ ε α) (f : α → Exec σ ε β) : Exec σ ε β := fun s =>
  match x s with
  | (.ok a, s') => f a s'
  | (.error e, s') => (.error e, s')

instance : Monad (Exec σ ε) where
  pure := ret
  bind := andThen

def stop (e : ε) : Exec σ ε α := fun s => (.error e, s)

def gets (f : σ → α) : Exec σ ε α := fun s => (.ok (f s), s)

def modify (f : σ → σ) : Exec σ ε Unit := fun s => (.ok (), f s)

def lift (r : Except ε α) : Exec σ ε α := fun s => (r, s)

def below (bound n : Nat) (e : ε) : Exec σ ε Nat := if n < bound then pure n else stop e

section Run
variable (s : σ)

@[simp] theorem pure_run (a : α) : (pure a : Exec σ ε α) s = (.ok a, s) := rfl

@[simp] theorem ret_run (a : α) : (ret a : Exec σ ε α) s = (.ok a, s) := rfl

@[simp] theorem stop_run (e : ε) : (stop e : Exec σ ε α) s = (.error e, s) := rfl

@[simp] theorem gets_run (f : σ → α) : (gets f : Exec σ ε α) s = (.ok (f s), s) := rfl

@[simp] theorem modify_run (f : σ → σ) : (modify f : Exec σ ε Unit) s = (.ok (), f s) := rfl

@[simp] theorem lift_run (r : Except ε α) : (lift r : Exec σ ε α) s = (r, s) := rfl

theorem bind_run (x : Exec σ ε α) (f : α → Exec σ ε β) :
    (x >>= f) s = match x s with
      | (.ok a, s') => f a s'
      | (.error e, s') => (.error e, s') := rfl

@[simp] theorem gets_bind (f : σ → α) (g : α → Exec σ ε β) :
    ((gets f : Exec σ ε α) >>= g) s = g (f s) s := rfl

@[simp] theorem modify_bind (f : σ → σ) (g : Unit → Exec σ ε β) :
    ((modify f : Exec σ ε Unit) >>= g) s = g () (f s) := rfl

@[simp] theorem stop_bind (e : ε) (g : α → Exec σ ε β) :
    ((stop e : Exec σ ε α) >>= g) s = (.error e, s) := rfl

@[simp] theorem pure_bind (a : α) (g : α → Exec σ ε β) : ((pure a : Exec σ ε α) >>= g) s = g a s := rfl

@[simp] theorem ret_bind (a : α) (g : α → Exec σ ε β) : ((ret a : Exec σ ε α) >>= g) s = g a s := rfl

theorem bind_of_ok {x : Exec σ ε α} {f : α → Exec σ ε β} {s s' : σ} {a : α}
    (h : x s = (.ok a, s')) : (x >>= f) s = f a s' := by
  rw [bind_run, h]

variable {e : ε}

theorem bind_of_error {x : Exec σ ε α} {f : α → Exec σ ε β} {s s' : σ}
    (h : x s = (.error e, s')) : (x >>= f) s = (.error e, s') := by
  rw [bind_run, h]

theorem below_bind_of_lt {bound n : Nat} {g : Nat → Exec σ ε β} (lt : n < bound) :
    (below bound n e >>= g) s = g n s := by
  rw [below, if_pos lt, pure_bind]

theorem below_bind_of_le {bound n : Nat} {g : Nat → Exec σ ε β} (out : bound ≤ n) :
    (below bound n e >>= g) s = (.error e, s) := by
  rw [below, if_neg (by omega), stop_bind]

theorem bind_assoc {γ : Type} (x : Exec σ ε α) (f : α → Exec σ ε β) (g : β → Exec σ ε γ) :
    x >>= f >>= g = x >>= fun a => f a >>= g := by
  funext s
  rw [bind_run, bind_run, bind_run]
  rcases x s with ⟨_ | a, s'⟩ <;> rfl

end Run

instance : LawfulMonad (Exec σ ε) := LawfulMonad.mk' (Exec σ ε)
  (fun x => by
    funext s
    change (x >>= fun a => pure a) s = x s
    rw [bind_run]
    rcases x s with ⟨_ | a, s'⟩ <;> rfl)
  (fun _ _ => rfl) bind_assoc

variable {x : Exec σ ε α} {s t : σ} {f : α → Exec σ ε β}

theorem outcome_of {P : Except ε α → σ → Prop} {r : Except ε α}
    (h : P (x s).1 (x s).2) (run : x s = (r, t)) : P r t := by
  rw [run] at h
  exact h

theorem map_run (x : Exec σ ε α) (f : α → β) (s : σ) :
    (f <$> x) s = match x s with
      | (.ok a, s') => (.ok (f a), s')
      | (.error e, s') => (.error e, s') := by
  rw [← bind_pure_comp, bind_run]
  rcases x s with ⟨_ | a, s'⟩ <;> rfl

/-- A relation between a state and a later one that bounds what may have changed. -/
structure Frame (σ : Type) where
  rel : σ → σ → Prop
  refl : ∀ s, rel s s
  trans : ∀ {s t u}, rel s t → rel t u → rel s u

/-- Whatever the program does, it stays within the frame. -/
def Respects (x : Exec σ ε α) (F : Frame σ) : Prop := ∀ s, F.rel s (x s).2

section Respects
variable {F : Frame σ}
variable {x : Exec σ ε α}

theorem respects_bind {f : α → Exec σ ε β} (hx : x.Respects F)
    (hf : ∀ a, (f a).Respects F) : (x >>= f).Respects F := by
  intro s
  have first := hx s
  rw [bind_run]
  rcases h : x s with ⟨e | a, s'⟩
  · rw [h] at first
    exact first
  rw [h] at first
  exact F.trans first (hf a s')

theorem respects_pure (a : α) : (pure a : Exec σ ε α).Respects F := fun s => F.refl s

theorem respects_stop (e : ε) : (stop e : Exec σ ε α).Respects F := fun s => F.refl s

theorem respects_gets (f : σ → α) : (gets f : Exec σ ε α).Respects F := fun s => F.refl s

theorem respects_modify {f : σ → σ} (h : ∀ s, F.rel s (f s)) : (modify f : Exec σ ε Unit).Respects F := h

theorem respects_below (bound n : Nat) (e : ε) : (below bound n e : Exec σ ε Nat).Respects F := by
  unfold below
  split
  · exact respects_pure n
  · exact respects_stop e

theorem respects_of_state_eq (h : ∀ s, (x s).2 = s) : x.Respects F := by
  intro s
  rw [h s]
  exact F.refl s

theorem respects_ite {c : Prop} [Decidable c] {y : Exec σ ε α} (hx : x.Respects F)
    (hy : y.Respects F) : (if c then x else y).Respects F := by
  split
  · exact hx
  · exact hy

/-- A frame as a class: that a program respects it is then found from the parts of the program. -/
class Keeps (F : Frame σ) (x : Exec σ ε α) : Prop where
  respects : x.Respects F

instance (a : α) : Keeps F (pure a : Exec σ ε α) := ⟨respects_pure a⟩

instance (e : ε) : Keeps F (stop e : Exec σ ε α) := ⟨respects_stop e⟩

instance (f : σ → α) : Keeps F (gets f : Exec σ ε α) := ⟨respects_gets f⟩

instance {f : α → Exec σ ε β} [Keeps F x] [∀ a, Keeps F (f a)] : Keeps F (x >>= f) :=
  ⟨respects_bind Keeps.respects fun _ => Keeps.respects⟩

instance {c : Prop} [Decidable c] {y : Exec σ ε α} [Keeps F x] [Keeps F y] :
    Keeps F (if c then x else y) := ⟨respects_ite Keeps.respects Keeps.respects⟩

end Respects

/-- Run from related states, the program returns the same result and related states. -/
def Alike (R : σ → σ → Prop) (x : Exec σ ε α) : Prop :=
  ∀ s t, R s t → (x s).1 = (x t).1 ∧ R (x s).2 (x t).2

section Alike
variable {R : σ → σ → Prop}

theorem alike_bind {x : Exec σ ε α} {f : α → Exec σ ε β} (hx : x.Alike R)
    (hf : ∀ a, (f a).Alike R) : (x >>= f).Alike R := by
  intro s t related
  obtain ⟨eq, after⟩ := hx s t related
  rw [bind_run, bind_run]
  rcases hs : x s with ⟨r, s'⟩
  rcases ht : x t with ⟨q, t'⟩
  rw [hs, ht] at eq after
  dsimp only at eq after
  subst eq
  cases r with
  | error e => exact ⟨rfl, after⟩
  | ok a => exact hf a s' t' after

theorem alike_pure (a : α) : (pure a : Exec σ ε α).Alike R := fun _ _ related => ⟨rfl, related⟩

theorem alike_stop (e : ε) : (stop e : Exec σ ε α).Alike R := fun _ _ related => ⟨rfl, related⟩

theorem alike_gets {f : σ → α} (h : ∀ s t, R s t → f s = f t) : (gets f : Exec σ ε α).Alike R := by
  intro s t related
  exact ⟨congrArg Except.ok (h s t related), related⟩

theorem alike_modify {f : σ → σ} (h : ∀ s t, R s t → R (f s) (f t)) :
    (modify f : Exec σ ε Unit).Alike R := fun s t related => ⟨rfl, h s t related⟩

end Alike
end Exec
