import Mathlib.Order.Basic

/-!
# Programs that ask

A program of one party, by what it asks of another one: after each request it goes on with the
answer, or with the error that it got instead. Errors are raised and caught as exceptions are.

* `Program`, `Program.andThen`, its monad, `Program.tryCatch`, `Program.tryFinally`;
* `Protocol`, `Program.Follows`, what a program does as long as the other party answers as the
  protocol says, and its rules;
* `Program.Run`, `Follows.post_of_run`.
-/

namespace Tokenweir

/-- A program that makes requests `Q` with answers `A`, and ends with a result or an error. -/
inductive Program (Q : Type) (A : Q → Type) (ε α : Type)
  | done (result : Except ε α)
  | ask (q : Q) (next : Except ε (A q) → Program Q A ε α)

namespace Program

variable {Q : Type} {A : Q → Type} {ε α β : Type}

/-- Go on after the end of a program, however it ends. -/
def andThen : Program Q A ε α → (Except ε α → Program Q A ε β) → Program Q A ε β
  | done r, f => f r
  | ask q next, f => ask q fun x => (next x).andThen f

/-- Go on after a result. -/
protected def bind (p : Program Q A ε α) (f : α → Program Q A ε β) : Program Q A ε β :=
  p.andThen fun
    | .ok a => f a
    | .error e => done (.error e)

instance : Monad (Program Q A ε) where
  pure a := done (.ok a)
  bind := Program.bind

/-- `raise`. -/
protected def throw (e : ε) : Program Q A ε α := done (.error e)

/-- `try … except`. -/
protected def tryCatch (p : Program Q A ε α) (handle : ε → Program Q A ε α) : Program Q A ε α :=
  p.andThen fun
    | .ok a => done (.ok a)
    | .error e => handle e

/-- `try … finally`. -/
protected def tryFinally (p : Program Q A ε α) (cleanup : Program Q A ε Unit) :
    Program Q A ε α :=
  p.andThen fun r => cleanup.andThen fun
    | .ok () => done r
    | .error e => done (.error e)

instance : MonadExcept ε (Program Q A ε) where
  throw := Program.throw
  tryCatch := Program.tryCatch

/-- A computation that makes no requests. -/
def ofExcept (r : Except ε α) : Program Q A ε α := done r

end Program

/-- What a party may ask in a state, and what follows a request: the answer, or the error, and
the next state. -/
structure Protocol (σ Q : Type) (A : Q → Type) (ε : Type) where
  allowed : σ → Q → Prop
  next : σ → (q : Q) → Except ε (A q) → σ → Prop

namespace Program

variable {σ Q : Type} {A : Q → Type} {ε α β : Type} {P : Protocol σ Q A ε}
  {post post' : σ → Except ε α → Prop}

/-- All that the program asks is allowed, and where it ends, `post` holds. -/
def Follows (P : Protocol σ Q A ε) (post : σ → Except ε α → Prop) : Program Q A ε α → σ → Prop
  | done r, s => post s r
  | ask q next, s => P.allowed s q ∧ ∀ x s', P.next s q x s' → Follows P post (next x) s'

@[simp] theorem follows_done {r : Except ε α} {s : σ} : Follows P post (done r) s ↔ post s r :=
  Iff.rfl

theorem Follows.mono {p : Program Q A ε α} {s : σ} (h : Follows P post p s)
    (hpost : ∀ s r, post s r → post' s r) : Follows P post' p s := by
  induction p generalizing s with
  | done r => exact hpost s r h
  | ask q next ih => exact ⟨h.1, fun x s' hs' => ih x (h.2 x s' hs')⟩

/-- **The rule of composition.** -/
theorem follows_andThen {p : Program Q A ε α} {f : Except ε α → Program Q A ε β}
    {post : σ → Except ε β → Prop} {s : σ} :
    Follows P post (p.andThen f) s ↔ Follows P (fun s r => Follows P post (f r) s) p s := by
  induction p generalizing s with
  | done r => exact Iff.rfl
  | ask q next ih =>
    exact and_congr_right fun _ => forall_congr' fun x => forall₂_congr fun s' _ => ih x

theorem follows_bind {p : Program Q A ε α} {f : α → Program Q A ε β}
    {post : σ → Except ε β → Prop} {s : σ} :
    Follows P post (p >>= f) s ↔ Follows P (fun s r =>
      match r with
      | .ok a => Follows P post (f a) s
      | .error e => post s (.error e)) p s := by
  refine follows_andThen.trans (iff_of_eq (congrArg (fun post => Follows P post p s) ?_))
  funext s r
  cases r <;> rfl

theorem follows_tryCatch {p : Program Q A ε α} {handle : ε → Program Q A ε α} {s : σ} :
    Follows P post (tryCatch p handle) s ↔ Follows P (fun s r =>
      match r with
      | .ok a => post s (.ok a)
      | .error e => Follows P post (handle e) s) p s := by
  refine follows_andThen.trans (iff_of_eq (congrArg (fun post => Follows P post p s) ?_))
  funext s r
  cases r <;> rfl

theorem follows_tryFinally {p : Program Q A ε α} {cleanup : Program Q A ε Unit} {s : σ} :
    Follows P post (p.tryFinally cleanup) s ↔ Follows P (fun s r => Follows P (fun s r' =>
      match r' with
      | .ok () => post s r
      | .error e => post s (.error e)) cleanup s) p s := by
  refine follows_andThen.trans (iff_of_eq (congrArg (fun post => Follows P post p s) ?_))
  funext s r
  refine propext (follows_andThen.trans (iff_of_eq ?_))
  refine congrArg (fun post => Follows P post cleanup s) ?_
  funext s r'
  cases r' <;> rfl

/-- A run of a program to its end, with answers as the protocol says. -/
inductive Run (P : Protocol σ Q A ε) : Program Q A ε α → σ → Except ε α → σ → Prop
  | done (r : Except ε α) (s : σ) : Run P (done r) s r s
  | ask {q : Q} {next : Except ε (A q) → Program Q A ε α} {x : Except ε (A q)} {s s' s'' : σ}
      {r : Except ε α} (hnext : P.next s q x s') (hrun : Run P (next x) s' r s'') :
      Run P (ask q next) s r s''

/-- What a program follows holds at the end of each of its runs. -/
theorem Follows.post_of_run {p : Program Q A ε α} {s s' : σ} {r : Except ε α}
    (h : Follows P post p s) (hrun : Run P p s r s') : post s' r := by
  induction hrun with
  | done r s => exact h
  | ask hnext _ ih =>
    apply ih
    exact h.2 _ _ hnext

end Program

end Tokenweir
