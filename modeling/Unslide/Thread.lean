import Unslide.Address
import Unslide.Text.Numeral

/-!
# Unslide.Thread

Processes and threads. A process is known by its number; one number stands for the kernel. A thread
is a pair of a process number and a thread number: threads of one process share its address space,
but each has a command name of its own.

* `before_trans`, `eq_of_not_before`: `Thread.Before` is a strict total order.
-/

namespace Unslide

/-- The number under which the kernel's own mappings are recorded. -/
def kernelPid : Nat := topId

def pidText (pid : Nat) : String :=
  if pid = kernelPid then "PID:kernel" else "PID:" ++ Text.decimal pid

def tidText (tid : Nat) : String := "TID:" ++ Text.decimal tid

structure Thread where
  pid : Nat
  tid : Nat
  deriving DecidableEq, Repr

namespace Thread

def text (t : Thread) : String := pidText t.pid ++ "/" ++ tidText t.tid

/-- Order by process number, then by thread number. -/
def Before (a b : Thread) : Prop := a.pid < b.pid ∨ (a.pid = b.pid ∧ a.tid < b.tid)

instance (a b : Thread) : Decidable (a.Before b) := inferInstanceAs (Decidable (_ ∨ _))

theorem before_trans {a b c : Thread} (hab : a.Before b) (hbc : b.Before c) : a.Before c := by
  simp only [Before] at *
  omega

theorem eq_of_not_before {a b : Thread} (hab : ¬ a.Before b) (hba : ¬ b.Before a) : a = b := by
  obtain ⟨p, t⟩ := a
  obtain ⟨q, u⟩ := b
  simp only [Before, mk.injEq] at *
  omega

/-- Put a thread into an ascending list, at most once. -/
def insert (t : Thread) : List Thread → List Thread
  | [] => [t]
  | u :: rest =>
    if t.Before u then t :: u :: rest
    else if t = u then u :: rest
    else u :: insert t rest

theorem mem_insert {t x : Thread} {l : List Thread} : x ∈ insert t l ↔ x = t ∨ x ∈ l := by
  induction l with
  | nil => simp [insert]
  | cons u rest ih =>
    simp only [insert]
    split
    · simp
    · split
      · rename_i h
        subst h
        simp
      · simp [ih, or_left_comm]

end Thread
end Unslide
