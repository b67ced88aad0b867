/-
# Fencing tokens

Resources are handed to holders under TOKENS, and an operation on a resource presents the token it
was given.  The mathematics of that pattern, over any system that steps by `next`:

* `holds s k t`  -- in state `s`, resource `k` is held under token `t`;
* `issues a`     -- the token operation `a` draws, if it draws one.

One assumption about single steps, `Issued`: a token held after a step was held before it, or was
drawn by that very step.  Over a run whose tokens are drawn fresh it gives

* `holds_since` -- a token held now was drawn by one step of the run and held ever since;
* `gone_stays_gone` -- a token that lost its resource never holds it again.

When the token of a resource can be READ from the state (`holder`), every step has at most one
token to CLOSE: the one it finds and does not leave.  `ledger` lists the tokens a run closes, each
with what the closing step bills for it, and again under fresh tokens

* `ledger_nodup` -- no token is closed twice;
* `mem_ledger_of_gone` -- every token that was held and is not held in the end was closed.
-/
import Maidan.Lib.Run

namespace Fencing

open Run List

variable {σ α κ τ : Type}

/-- **What a step may do to a token**: keep it where it is, drop it, or draw it. -/
def Issued (next : σ → α → σ) (holds : σ → κ → τ → Prop) (issues : α → Option τ) : Prop :=
  ∀ s a k t, holds (next s a) k t → holds s k t ∨ issues a = some t

/-! ## 1. Drawing tokens -/

section Runs

variable {next : σ → α → σ} {holds : σ → κ → τ → Prop} {issues : α → Option τ}

/-- A run that ends with a token held began with it held or drew it. -/
theorem holds_or_drawn (hi : Issued next holds issues) {k : κ} {t : τ} :
    ∀ (ops : List α) (s : σ), holds (exec next s ops) k t → holds s k t ∨ t ∈ ops.filterMap issues
  | [], _, h => .inl h
  | a :: ops, s, h => by
    rcases holds_or_drawn hi ops (next s a) h with h | h
    · rcases hi s a k t h with h | h
      · exact .inl h
      · exact .inr (mem_filterMap.mpr ⟨a, mem_cons_self, h⟩)
    · obtain ⟨b, hb, hbt⟩ := mem_filterMap.mp h
      exact .inr (mem_filterMap.mpr ⟨b, mem_cons_of_mem a hb, hbt⟩)

/-- **Held since it was drawn.**  The step that drew the token is a step of the run, and after it
the token is held in every state up to the last. -/
theorem holds_since (hi : Issued next holds issues) {k : κ} {t : τ} {s : σ} (h0 : ¬holds s k t)
    (ops : List α) (h : holds (exec next s ops) k t) :
    ∃ pre a post, ops = pre ++ a :: post ∧ issues a = some t ∧ ¬holds (exec next s pre) k t ∧
      ∀ mid, mid <+: post → holds (exec next s (pre ++ a :: mid)) k t := by
  -- on the last step: either it drew the token, or the token was held before it already
  induction ops using List.reverseRecOn with
  | nil => exact absurd h h0
  | append_singleton ops a ih =>
    by_cases hprev : holds (exec next s ops) k t
    · obtain ⟨pre, b, post, rfl, hb, hnot, hall⟩ := ih hprev
      refine ⟨pre, b, post ++ [a], by simp, hb, hnot, ?_⟩
      intro mid hmid
      rcases prefix_concat_iff.mp hmid with rfl | hmid
      · simpa using h
      · exact hall mid hmid
    · refine ⟨ops, a, [], rfl, ?_, hprev, ?_⟩
      · rw [exec_append] at h
        exact (hi _ a k t h).resolve_left hprev
      · intro mid hmid
        rw [prefix_nil.mp hmid]
        exact h

/-- **Gone stays gone.**  With tokens drawn fresh, one that was held and lost its resource is
never held again. -/
theorem gone_stays_gone (hi : Issued next holds issues) {k : κ} {t : τ} {s : σ}
    (h0 : ¬holds s k t) {pre mid post : List α}
    (hfresh : ((pre ++ mid ++ post).filterMap issues).Nodup)
    (hheld : holds (exec next s pre) k t) (hgone : ¬holds (exec next s (pre ++ mid)) k t) :
    ¬holds (exec next s (pre ++ mid ++ post)) k t := by
  intro h
  have hpre := (holds_or_drawn hi pre s hheld).resolve_left h0
  rw [exec_append] at h
  have hpost := (holds_or_drawn hi post _ h).resolve_left hgone
  rw [append_assoc, filterMap_append, filterMap_append] at hfresh
  have hne := (nodup_append.mp hfresh).2.2 t hpre t (mem_append.mpr (.inr hpost))
  exact hne rfl

end Runs

/-! ## 2. Closing tokens -/

section Fresh

variable {next : σ → α → σ} {holder : σ → κ → Option τ} {issues : α → Option τ}

/-- The tokens still to be drawn are new: none is held, none is drawn twice. -/
def Fresh (holder : σ → κ → Option τ) (issues : α → Option τ) (s : σ) (ops : List α) : Prop :=
  (ops.filterMap issues).Nodup ∧ ∀ k t, holder s k = some t → t ∉ ops.filterMap issues

/-- **Freshness moves along the run.** -/
theorem Fresh.step (hi : Issued next (fun s k t => holder s k = some t) issues) {s : σ} {a : α}
    {ops : List α} (h : Fresh holder issues s (a :: ops)) :
    Fresh holder issues (next s a) ops := by
  obtain ⟨hn, hold⟩ := h
  have hsub : (ops.filterMap issues).Sublist ((a :: ops).filterMap issues) :=
    (sublist_cons_self a ops).filterMap issues
  refine ⟨hn.sublist hsub, fun k t ht hmem => ?_⟩
  rcases hi s a k t ht with h | h
  · exact hold k t h (hsub.subset hmem)
  · rw [filterMap_cons_some h] at hn
    exact (nodup_cons.mp hn).1 hmem

theorem Fresh.drop (hi : Issued next (fun s k t => holder s k = some t) issues) :
    ∀ {s : σ} (pre post : List α), Fresh holder issues s (pre ++ post) →
      Fresh holder issues (exec next s pre) post
  | _, [], _, h => h
  | _, _ :: pre, post, h => Fresh.drop hi pre post (h.step hi)

end Fresh

section Ledger

variable [DecidableEq τ] {β : Type} (next : σ → α → σ) (holder : σ → κ → Option τ)
  (bill : σ → α → κ → β)

/-- The token step `a` closes on `k`, with its bill. -/
def closes (s : σ) (a : α) (k : κ) : Option (τ × β) :=
  match holder s k with
  | none => none
  | some t => if holder (next s a) k = some t then none else some (t, bill s a k)

/-- The tokens a run closes on `k`, in order, each with its bill. -/
def ledger (k : κ) : σ → List α → List (τ × β)
  | _, [] => []
  | s, a :: ops => (closes next holder bill s a k).toList ++ ledger k (next s a) ops

variable {next holder bill}

theorem closes_eq_some {s : σ} {a : α} {k : κ} {t : τ} {b : β}
    (h : closes next holder bill s a k = some (t, b)) :
    holder s k = some t ∧ holder (next s a) k ≠ some t := by
  unfold closes at h
  split at h
  · cases h
  rename_i t' ht
  split at h
  · cases h
  rename_i hne
  cases h
  exact ⟨ht, hne⟩

variable {issues : α → Option τ}

/-- A closed token was held at the start of the run, or drawn on the way. -/
theorem mem_ledger (hi : Issued next (fun s k t => holder s k = some t) issues) {k : κ} {t : τ} :
    ∀ (ops : List α) (s : σ), t ∈ (ledger next holder bill k s ops).map Prod.fst →
      holder s k = some t ∨ t ∈ ops.filterMap issues
  | [], _, h => by simp [ledger] at h
  | a :: ops, s, h => by
    rw [ledger, map_append, mem_append] at h
    have hcons : ∀ x ∈ ops.filterMap issues, x ∈ (a :: ops).filterMap issues := by
      intro x hx
      obtain ⟨b, hb, hbx⟩ := mem_filterMap.mp hx
      exact mem_filterMap.mpr ⟨b, mem_cons_of_mem a hb, hbx⟩
    rcases h with h | h
    · obtain ⟨⟨t', b⟩, he, rfl⟩ := mem_map.mp h
      exact .inl (closes_eq_some (Option.mem_toList.mp he)).1
    · rcases mem_ledger hi ops (next s a) h with h | h
      · rcases hi s a k t h with h | h
        · exact .inl h
        · exact .inr (mem_filterMap.mpr ⟨a, mem_cons_self, h⟩)
      · exact .inr (hcons t h)

/-- **No token is closed twice.** -/
theorem ledger_nodup (hi : Issued next (fun s k t => holder s k = some t) issues) (k : κ) :
    ∀ (ops : List α) (s : σ), Fresh holder issues s ops →
      ((ledger next holder bill k s ops).map Prod.fst).Nodup
  | [], _, _ => by simp [ledger]
  | a :: ops, s, h => by
    have ih := ledger_nodup hi k ops (next s a) (h.step hi)
    rw [ledger]
    cases hc : closes next holder bill s a k with
    | none => simpa using ih
    | some e =>
      obtain ⟨t, b⟩ := e
      obtain ⟨ht, hne⟩ := closes_eq_some hc
      rw [Option.toList_some, singleton_append, map_cons, nodup_cons]
      refine ⟨fun hmem => ?_, ih⟩
      rcases mem_ledger hi ops (next s a) hmem with hm | hm
      · exact hne hm
      · exact h.2 k t ht (((sublist_cons_self a ops).filterMap issues).subset hm)

/-- **A token that was held and is gone was closed.** -/
theorem mem_ledger_of_gone {k : κ} {t : τ} : ∀ (pre post : List α) (s : σ),
    holder (exec next s pre) k = some t → holder (exec next s (pre ++ post)) k ≠ some t →
      t ∈ (ledger next holder bill k s (pre ++ post)).map Prod.fst
  | [], [], _, h, hne => absurd h hne
  | [], a :: post, s, h, hne => by
    rw [nil_append, ledger, map_append, mem_append]
    by_cases hkept : holder (next s a) k = some t
    · exact .inr (mem_ledger_of_gone [] post (next s a) hkept hne)
    · refine .inl (mem_map.mpr ⟨(t, bill s a k), ?_, rfl⟩)
      have hs : holder s k = some t := h
      rw [Option.mem_toList, closes, hs]
      exact if_neg hkept
  | a :: pre, post, s, h, hne => by
    rw [cons_append, ledger, map_append, mem_append]
    exact .inr (mem_ledger_of_gone pre post (next s a) h hne)

/-- **The accounting rule.**  If each step moves `m` by the cost of the token it closes, the run
moves `m` by the cost of its ledger. -/
theorem exec_ledger (m : σ → Int) (cost : β → Int) {ok : σ → α → Prop} {Inv : σ → Prop} {k : κ}
    (hi : Issued next (fun s k t => holder s k = some t) issues)
    (hinv : ∀ s a, Inv s → Inv (next s a))
    (hstep : ∀ s a, Inv s → ok s a → (∀ t, holder s k = some t → issues a ≠ some t) →
      m (next s a) = m s + ((closes next holder bill s a k).map fun e => cost e.2).getD 0) :
    ∀ (ops : List α) (s : σ), Inv s → Meets next ok s ops → Fresh holder issues s ops →
      m (exec next s ops) = m s + ((ledger next holder bill k s ops).map fun e => cost e.2).sum
  | [], s, _, _, _ => by simp [ledger]
  | a :: ops, s, hs, hm, hf => by
    have ih := exec_ledger m cost hi hinv hstep ops (next s a) (hinv s a hs) hm.2 (hf.step hi)
    have hnew : ∀ t, holder s k = some t → issues a ≠ some t :=
      fun t ht ha => hf.2 k t ht (mem_filterMap.mpr ⟨a, mem_cons_self, ha⟩)
    rw [exec_cons, ih, hstep s a hs hm.1 hnew, ledger, map_append, sum_append]
    cases closes next holder bill s a k with
    | none => simp
    | some => simp [Int.add_assoc]

end Ledger

end Fencing
