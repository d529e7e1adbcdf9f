import Mathlib.Data.List.Flatten
import Mathlib.Tactic

/-!
# The ledger of a delivery queue

What a first-in first-out delivery queue with one consumer is for, whatever its
threads and timeouts: entries are accepted in an order, taken from the front in
batches, handed over, and each handed entry is then counted delivered or failed;
at the end the entries still waiting may be abandoned, all at once.

A `Ledger` carries the two facts that make this an account: the accepted entries
are exactly those handed over, pending, abandoned and waiting, in this order, and
every handed entry is delivered, failed or not counted yet. Its operations are the
only ways to change it, so both facts hold of any ledger that can be built.
-/

namespace Tokenweir

/-- The state of an account of deliveries. -/
@[ext]
structure Ledger (ρ : Type) where
  log : List ρ
  batches : List (List ρ)
  pending : List ρ
  lost : List ρ
  waiting : List ρ
  delivered : ℕ
  failed : ℕ
  uncounted : ℕ
  conserved : log = batches.flatten ++ pending ++ lost ++ waiting
  counted : batches.flatten.length = delivered + failed + uncounted
  /-- Nothing waits once something was abandoned. -/
  sealed : lost ≠ [] → waiting = []

namespace Ledger

variable {ρ : Type}

/-- No entry was accepted yet. -/
@[simps]
def empty : Ledger ρ where
  log := []
  batches := []
  pending := []
  lost := []
  waiting := []
  delivered := 0
  failed := 0
  uncounted := 0
  conserved := rfl
  counted := rfl
  sealed := fun _ => rfl

/-- Accept an entry; only while nothing was abandoned. -/
@[simps]
def accept (l : Ledger ρ) (r : ρ) (h : l.lost = []) : Ledger ρ :=
  { l with
    log := l.log ++ [r]
    waiting := l.waiting ++ [r]
    conserved := by rw [l.conserved]; simp
    sealed := fun hl => absurd h hl }

/-- Take the first `n` waiting entries as the next batch. -/
@[simps]
def take (l : Ledger ρ) (n : ℕ) (h : l.pending = []) : Ledger ρ :=
  { l with
    pending := l.waiting.take n
    waiting := l.waiting.drop n
    conserved := by
      rw [l.conserved, h]
      by_cases hl : l.lost = []
      · simp [hl]
      · simp [l.sealed hl]
    sealed := fun hl => by simp [l.sealed hl] }

/-- Hand over the first `n` pending entries in one call. -/
@[simps]
def hand (l : Ledger ρ) (n : ℕ) (h : l.uncounted = 0) : Ledger ρ :=
  { l with
    batches := l.batches ++ [l.pending.take n]
    pending := l.pending.drop n
    uncounted := (l.pending.take n).length
    conserved := by
      rw [l.conserved, List.flatten_append, List.flatten_singleton, List.append_assoc _ _ (l.pending.drop n),
        List.take_append_drop]
    counted := by
      have := l.counted
      simp only [List.flatten_append, List.length_append, List.flatten_singleton]
      omega }

/-- Count the entries handed over last. -/
@[simps]
def count (l : Ledger ρ) (ok : Bool) : Ledger ρ :=
  { l with
    delivered := l.delivered + if ok then l.uncounted else 0
    failed := l.failed + if ok then 0 else l.uncounted
    uncounted := 0
    counted := by
      have h := l.counted
      cases ok
      · show l.batches.flatten.length = l.delivered + 0 + (l.failed + l.uncounted) + 0
        omega
      · show l.batches.flatten.length = l.delivered + l.uncounted + (l.failed + 0) + 0
        omega }

/-- Abandon everything that waits; only once. -/
@[simps]
def abandon (l : Ledger ρ) (h : l.lost = []) : Ledger ρ :=
  { l with
    lost := l.waiting
    waiting := []
    conserved := by rw [l.conserved, h]; simp
    sealed := fun _ => rfl }

/-- **The account closes**: every accepted entry is delivered, failed, abandoned,
waiting, pending or handed over and not counted yet. -/
theorem length_log (l : Ledger ρ) :
    l.log.length =
      l.delivered + l.failed + l.lost.length + l.waiting.length +
        (l.pending.length + l.uncounted) := by
  have h := l.counted
  rw [l.conserved]
  simp only [List.length_append]
  omega

/-- What was handed over is, in order, a first part of what was accepted. -/
theorem batches_prefix (l : Ledger ρ) : l.batches.flatten <+: l.log :=
  ⟨l.pending ++ l.lost ++ l.waiting, by rw [l.conserved]; simp⟩

end Ledger

end Tokenweir
