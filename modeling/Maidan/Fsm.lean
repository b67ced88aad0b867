/-
# The thread's state machine

`maidan-fsm`: the transition function `apply` on the four states of a thread, and the
hierarchical rule of `hsm.rs` that looks from a moving child at its parent.

Both are pure.  What the store does around them -- gates, the transition row, the claim that a
terminal state ends -- is in the modules that embed `thread_transitions.rs`.
-/
import Maidan.Types

namespace Maidan

/-! ## 1. States and actions -/

inductive ThreadState
  | open
  | inReview
  | closed
  | archived
deriving DecidableEq, Repr

namespace ThreadState

def asStr : ThreadState → String
  | .open => "open"
  | .inReview => "in_review"
  | .closed => "closed"
  | .archived => "archived"

/-- A terminal state: a task in it counts as done for dependency readiness. -/
def isTerminal : ThreadState → Bool
  | .closed | .archived => true
  | .open | .inReview => false

end ThreadState

inductive ThreadAction
  | startReview
  | close
  | archive
  | requestChanges
deriving DecidableEq, Repr

def ThreadAction.asStr : ThreadAction → String
  | .startReview => "start_review"
  | .close => "close"
  | .archive => "archive"
  | .requestChanges => "request_changes"

/-- `maidan_fsm::apply`; `none` is `InvalidTransition`. -/
def apply : ThreadState → ThreadAction → Option ThreadState
  | .open, .startReview => some .inReview
  | .inReview, .close => some .closed
  | .closed, .archive => some .archived
  | .inReview, .requestChanges => some .open
  | _, _ => none

/-! ## 2. The hierarchical rule -/

inductive HsmError
  | parentArchived
  | childAheadOfParent

def HsmError.asStr : HsmError → String
  | .parentArchived => "parent thread is archived"
  | .childAheadOfParent => "child state cannot advance beyond parent state"

/-- `state_rank`: higher is further along the lifecycle. -/
def stateRank : ThreadState → Nat
  | .open => 0
  | .inReview => 1
  | .closed => 2
  | .archived => 3

/-- `parent_allows_transition`. -/
def parentAllowsTransition (parent childTo : ThreadState) : Except HsmError Unit :=
  if parent = .archived then .error .parentArchived
  else if stateRank childTo > stateRank parent then .error .childAheadOfParent
  else .ok ()

/-- **An allowed child is not ahead of its parent.** -/
theorem parentAllowsTransition_eq_ok : parentAllowsTransition parent childTo = .ok () ↔
      parent ≠ .archived ∧ stateRank childTo ≤ stateRank parent := by
  unfold parentAllowsTransition
  split
  · rename_i h
    simp [h]
  · rename_i h
    split
    · simp only [reduceCtorEq, false_iff, not_and]
      omega
    · simp only [true_iff]
      exact ⟨h, by omega⟩

/-- **A transition raises the rank, except `request_changes`.** -/
theorem stateRank_apply (h : apply s a = some s') : stateRank s' = stateRank s + 1 ∨
      (a = .requestChanges ∧ s = .inReview ∧ s' = .open) := by
  cases s <;> cases a <;> simp [apply] at h <;> subst h <;> simp [stateRank]

end Maidan
