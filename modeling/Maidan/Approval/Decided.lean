/-
# An approval is decided once, by a current link

A gate's row and a link's row are written by different routes, and a link's row is REUSED: the next
link of the same gate and member overwrites one that was used or has expired.  What holds over every
history of these transactions, with a fresh token for each link:

* a gate that is no longer pending never changes;
* no token is spent twice;
* a confirm that answers `Accepted` spent the token issued LAST for its gate and member, before it
  expired, and is itself the transaction that moved the gate.

The history is kept beside the state (§1): what every transaction returned.  `Ledger` (§2) ties the
links to it, and is kept by every step.
-/
import Maidan.Approval.Gates

namespace Maidan

open Relational Run List

/-! ## 1. Histories -/

/-- A transaction and what it returned, if it committed. -/
abbrev GateRecord := GateOp × Option GateOutcome

def gateRecord (s : GateRoom) (op : GateOp) : GateRecord := (op, gateOutcome s op)

/-- The history of a run. -/
def gateHistory (s : GateRoom) (ops : List GateOp) : List GateRecord :=
  outputs gateNext gateRecord s ops

/-- The link a transaction issued. -/
def GateRecord.issued : GateRecord → Option NewApprovalConfirmation
  | (.issue new, some (.issued _ true)) => some new
  | _ => none

/-- The token a transaction spent. -/
def GateRecord.spent : GateRecord → Option String
  | (.confirm ask _ _, some (.confirmed outcome)) =>
    if outcome = .notFound then none else some ask.tokenHash
  | _ => none

/-- The tokens spent, in order. -/
def spends (history : List GateRecord) : List String := history.filterMap GateRecord.spent

/-- The last link issued for a gate and member. -/
def lastIssued (history : List GateRecord) (gate : GateId) (member : MemberId) :
    Option NewApprovalConfirmation :=
  ((history.filterMap GateRecord.issued).filter fun new =>
    new.gateId == gate && new.memberId == member).getLast?

/-- The token of a link a transaction asks for. -/
def GateOp.token : GateOp → Option String
  | .issue new => some new.tokenHash
  | _ => none

variable {new : NewApprovalConfirmation}

theorem token_of_issued (h : new ∈ (gateHistory s ops).filterMap GateRecord.issued) :
    new.tokenHash ∈ ops.filterMap GateOp.token := by
  induction ops generalizing s with
  | nil => simp [gateHistory, outputs] at h
  | cons op ops ih =>
    obtain ⟨r, hr, hissued⟩ := mem_filterMap.mp h
    rcases mem_cons.mp hr with rfl | hr
    · refine mem_filterMap.mpr ⟨op, mem_cons_self, ?_⟩
      unfold GateRecord.issued gateRecord at hissued
      split at hissued
      · rename_i hrecord
        cases hissued
        rw [(Prod.mk.inj hrecord).1]
        rfl
      · cases hissued
    · obtain ⟨op', hop', htoken⟩ := mem_filterMap.mp
        (ih (mem_filterMap.mpr ⟨r, hr, hissued⟩))
      exact mem_filterMap.mpr ⟨op', mem_cons_of_mem _ hop', htoken⟩

theorem lastIssued_concat (hr : r.issued = some new) (gate : GateId) (member : MemberId) :
    lastIssued (history ++ [r]) gate member =
      if new.gateId = gate ∧ new.memberId = member then some new
      else lastIssued history gate member := by
  unfold lastIssued
  by_cases hnew : new.gateId = gate ∧ new.memberId = member
  · simp [hr, hnew]
  · simp [hr, hnew]

theorem lastIssued_concat_none (hr : r.issued = none) (gate : GateId) (member : MemberId) :
    lastIssued (history ++ [r]) gate member = lastIssued history gate member := by
  simp [lastIssued, hr]

/-! ## 2. The ledger -/

/-- **The links, against the history**: each row is the last link issued for its gate and member,
an unused one was never spent, and what was spent had been issued. -/
structure Ledger (s : GateRoom) (history : List GateRecord) : Prop where
  once : (spends history).Nodup
  issued : ∀ t ∈ spends history, ∃ new ∈ history.filterMap GateRecord.issued, new.tokenHash = t
  links : ∀ c ∈ s.links.rows, ∃ new, lastIssued history c.gateId c.memberId = some new ∧
    { c with usedAt := none } = new.row ∧ (c.usedAt = none → c.tokenHash ∉ spends history)

section Steps

variable {s s' : GateRoom} {history : List GateRecord} {r : GateRecord}

theorem spends_concat (history : List GateRecord) (r : GateRecord) :
    spends (history ++ [r]) = spends history ++ r.spent.toList := by
  unfold spends
  cases hr : r.spent <;> simp [hr]

section

variable (h : Ledger s history)
include h

theorem Ledger.quiet (hlinks : s'.links = s.links) (hissued : r.issued = none)
    (hspent : r.spent = none) : Ledger s' (history ++ [r]) := by
  have hspends : spends (history ++ [r]) = spends history := by
    simp [spends_concat, hspent]
  have hnone : (history ++ [r]).filterMap GateRecord.issued = history.filterMap GateRecord.issued := by
    simp [hissued]
  refine ⟨?_, ?_, ?_⟩
  · rw [hspends]
    exact h.once
  · rw [hspends, hnone]
    exact h.issued
  · rw [hlinks, hspends]
    intro c hc
    rw [lastIssued_concat_none hissued]
    exact h.links c hc

/-- **A new link** takes the row of its gate and member. -/
theorem Ledger.issue
    (hfresh : ∀ old ∈ history.filterMap GateRecord.issued, old.tokenHash ≠ new.tokenHash)
    (hrows : ∀ c, c ∈ s'.links.rows ↔ c = new.row ∨ (c ∈ s.links.rows ∧ c.key ≠ new.row.key))
    (hissued : r.issued = some new) (hspent : r.spent = none) : Ledger s' (history ++ [r]) := by
  have hspends : spends (history ++ [r]) = spends history := by
    simp [spends_concat, hspent]
  refine ⟨?_, ?_, fun c hc => ?_⟩
  · rw [hspends]
    exact h.once
  · rw [hspends]
    intro t ht
    obtain ⟨old, hold, htoken⟩ := h.issued t ht
    exact ⟨old, by rw [filterMap_append]; exact mem_append_left _ hold, htoken⟩
  · rw [hspends, lastIssued_concat hissued]
    rcases (hrows c).mp hc with rfl | ⟨hold, hkey⟩
    · refine ⟨new, if_pos ⟨rfl, rfl⟩, rfl, fun _ hmem => ?_⟩
      obtain ⟨old, hold, htoken⟩ := h.issued _ hmem
      exact hfresh old hold htoken
    · have hother : ¬(new.gateId = c.gateId ∧ new.memberId = c.memberId) := by
        rintro ⟨hgate, hmember⟩
        exact hkey (Prod.ext hgate.symm hmember.symm)
      rw [if_neg hother]
      exact h.links c hold

/-- **A spend** is of a token no transaction has spent, and no other row has it. -/
theorem Ledger.spend {ask : Confirm} {c : ConfirmationRow} (hc : c ∈ s.links.rows)
    (hspendable : c.spendable ask = true) (hlinks : s'.links = s.links.spend ask)
    (hissued : r.issued = none) (hspent : r.spent = some ask.tokenHash) :
    Ledger s' (history ++ [r]) := by
  simp only [ConfirmationRow.spendable, Bool.and_eq_true, beq_iff_eq, isNone_iff_eq_none,
    decide_eq_true_eq] at hspendable
  obtain ⟨⟨⟨⟨htoken, hws⟩, hmember⟩, hunused⟩, hlive⟩ := hspendable
  obtain ⟨link, hlast, hrow, hnotSpent⟩ := h.links c hc
  have hnone : (history ++ [r]).filterMap GateRecord.issued = history.filterMap GateRecord.issued := by
    simp [hissued]
  have hspends : spends (history ++ [r]) = spends history ++ [ask.tokenHash] := by
    simp [spends_concat, hspent]
  have hnew : ask.tokenHash ∉ spends history := htoken ▸ hnotSpent hunused
  refine ⟨?_, ?_, ?_⟩
  · rw [hspends]
    exact nodup_append.mpr ⟨h.once, nodup_singleton _, fun a ha b hb hab =>
      hnew ((hab.trans (mem_singleton.mp hb)) ▸ ha)⟩
  · rw [hspends, hnone]
    intro t ht
    rcases mem_append.mp ht with hold | hthis
    · exact h.issued t hold
    · obtain rfl := mem_singleton.mp hthis
      refine ⟨link, ?_, ?_⟩
      · exact (mem_filter.mp (mem_of_getLast? hlast)).1
      · rw [← htoken]
        exact (congrArg ConfirmationRow.tokenHash hrow).symm
  · rw [hlinks, hspends]
    intro x hx
    rw [lastIssued_concat_none hissued]
    obtain ⟨y, hy, hxy⟩ := Confirmations.mem_spend.mp hx
    obtain ⟨new, hnewLast, hnewRow, hnewSpent⟩ := h.links y hy
    by_cases hspend : y.spendable ask = true
    · rw [if_pos hspend] at hxy
      subst hxy
      exact ⟨new, hnewLast, hnewRow, fun hused => nomatch hused⟩
    · rw [if_neg hspend] at hxy
      subst hxy
      refine ⟨new, hnewLast, hnewRow, fun hused hmem => ?_⟩
      rcases mem_append.mp hmem with hold | hthis
      · exact hnewSpent hused hold
      · have hsame : y = c := inj_on_of_nodup_map s.links.tokens hy hc
          ((mem_singleton.mp hthis).trans htoken.symm)
        subst hsame
        apply hspend
        simp [ConfirmationRow.spendable, htoken, hws, hmember, hunused, hlive]

/-- **Every transaction** keeps the ledger, with a fresh token for each link. -/
theorem Ledger.next (op : GateOp)
    (hfresh : ∀ t ∈ op.token, ∀ old ∈ history.filterMap GateRecord.issued, old.tokenHash ≠ t) :
    Ledger (gateNext s op) (history ++ [gateRecord s op]) := by
  cases op with
  | create id thread =>
    refine h.quiet ?_ rfl rfl
    simp only [gateNext, gateTx]
    cases createGate s.db id thread <;> rfl
  | resolve | resolveAudited => exact h.quiet rfl rfl rfl
  | issue new =>
    have hrecord : gateRecord s (.issue new) = (.issue new, gateOutcome s (.issue new)) := rfl
    simp only [hrecord, gateNext, gateOutcome, gateTx]
    cases hissue : issueConfirmation s new with
    | error => exact h.quiet rfl rfl rfl
    | ok result =>
      obtain ⟨s', link, fresh⟩ := result
      rcases issueConfirmation_cases hissue with ⟨rfl, rfl⟩ | ⟨rfl, _, hrows⟩
      · exact h.quiet rfl rfl rfl
      · exact h.issue (hfresh _ rfl) hrows rfl rfl
  | confirm ask attribution now =>
    have hrecord : gateRecord s (.confirm ask attribution now) =
        (.confirm ask attribution now, some (.confirmed (confirm s ask attribution now).2)) := rfl
    have hnext : gateNext s (.confirm ask attribution now) = (confirm s ask attribution now).1 := rfl
    rw [hrecord, hnext]
    rcases confirm_cases s ask attribution now with hnone | ⟨c, hc, hspendable, hlinks, _, houtcome⟩
    · rw [hnone]
      exact h.quiet rfl rfl rfl
    · refine h.spend hc hspendable hlinks rfl ?_
      generalize (resolveOn s.db c.gateId (c.decision ask attribution now)).2 = resolved at houtcome
      cases resolved <;> simp [GateRecord.spent, houtcome]

end

theorem Ledger.start (hnew : s.links.rows = []) : Ledger s [] where
  once := nodup_nil
  issued := by simp [spends]
  links := by simp [hnew]

/-- **Every run** from a state without links, with a fresh token for each link. -/
theorem Ledger.run (hnew : s.links.rows = []) (ops : List GateOp)
    (hfresh : (ops.filterMap GateOp.token).Nodup) :
    Ledger (exec gateNext s ops) (gateHistory s ops) := by
  induction ops using List.reverseRecOn with
  | nil => exact .start hnew
  | append_singleton ops op ih =>
    rw [filterMap_append, nodup_append] at hfresh
    obtain ⟨hbefore, _, hdisjoint⟩ := hfresh
    rw [exec_append]
    unfold gateHistory
    rw [outputs_concat]
    refine (ih hbefore).next op fun t ht old hold heq => ?_
    exact hdisjoint _ (token_of_issued hold) t
      (mem_filterMap.mpr ⟨op, mem_singleton_self op, ht⟩) heq

end Steps

/-! ## 3. Decided once -/

/-- A confirm that answers `Accepted` found a link it could spend, on a gate that was pending. -/
theorem confirm_accepted {s s' : GateRoom} {ask : Confirm} {attribution : Option Attribution}
    {now : Int} {gate : ApprovalGateRow}
    (h : confirm s ask attribution now = (s', .accepted gate)) :
    ∃ c ∈ s.links.rows, c.spendable ask = true ∧ c.gateId = gate.id ∧
      (∃ before, s.db.approvalGates.get? gate.id = some before ∧ before.state = .pending) ∧
      s'.db.approvalGates.get? gate.id = some gate ∧ gate.state = .accepted ∧
      gate.resolvedBy = some ask.memberId := by
  rcases confirm_cases s ask attribution now with hnone | ⟨c, hc, hspendable, _, hdb, houtcome⟩
  · rw [h] at hnone
    cases hnone
  · rw [h] at hdb houtcome
    rcases resolveOn_cases s.db c.gateId (c.decision ask attribution now) with
      ⟨hsame, _⟩ | ⟨before, hget, hpending, hresolved, hgates⟩
    · rw [hsame] at houtcome
      cases houtcome
    · rw [hresolved] at houtcome
      cases houtcome
      have hid : c.gateId = before.id := (Table.key_of_get? hget).symm
      refine ⟨c, hc, hspendable, hid, ⟨before, ?_, hpending⟩, ?_, rfl, rfl⟩
      · exact hid ▸ hget
      · change s'.db.approvalGates.get? before.id = _
        rw [hdb, hgates, ← hid, Table.get?_update, if_pos rfl, hget]
        rfl

/-- **An approval is decided once, by a current link.**  In every history of transactions on the
gates, with a fresh token for each link: a gate that has left `pending` keeps its row; no token is
spent twice; and a confirm that answers `Accepted` spent the token last issued for that gate and
member, unexpired, and moved the gate from `pending` to `accepted` itself. -/
theorem approval_decided_once (s : GateRoom) (hnew : s.links.rows = []) (ops : List GateOp)
    (hfresh : (ops.filterMap GateOp.token).Nodup) :
    (∀ pre post, ops = pre ++ post → ∀ g row,
      (exec gateNext s pre).db.approvalGates.get? g = some row → row.state ≠ .pending →
        (exec gateNext s ops).db.approvalGates.get? g = some row) ∧
    (spends (gateHistory s ops)).Nodup ∧
    ∀ pre ask attribution now post, ops = pre ++ .confirm ask attribution now :: post →
      ∀ s' gate, confirm (exec gateNext s pre) ask attribution now = (s', .accepted gate) →
        (∃ link, lastIssued (gateHistory s pre) gate.id ask.memberId = some link ∧
          link.tokenHash = ask.tokenHash ∧ ask.now < link.expiresAt) ∧
        (∃ before, (exec gateNext s pre).db.approvalGates.get? gate.id = some before ∧
          before.state = .pending) ∧
        s'.db.approvalGates.get? gate.id = some gate ∧ gate.state = .accepted ∧
        gate.resolvedBy = some ask.memberId := by
  refine ⟨?_, (Ledger.run hnew ops hfresh).once, ?_⟩
  · rintro pre post rfl g row hg hrow
    rw [exec_append]
    exact exec_inv (gateNext_keeps hrow) post hg
  · rintro pre ask attribution now post rfl s' gate hconfirm
    rw [filterMap_append] at hfresh
    have hledger := Ledger.run hnew pre (nodup_append.mp hfresh).1
    obtain ⟨c, hc, hspendable, hgate, hmoved⟩ := confirm_accepted hconfirm
    refine ⟨?_, hmoved⟩
    obtain ⟨link, hlast, hrow, _⟩ := hledger.links c hc
    simp only [ConfirmationRow.spendable, Bool.and_eq_true, beq_iff_eq, decide_eq_true_eq]
      at hspendable
    obtain ⟨⟨⟨⟨htoken, _⟩, hmember⟩, _⟩, hlive⟩ := hspendable
    have hexpires : c.expiresAt = tsMillis link.expiresAt := congrArg ConfirmationRow.expiresAt hrow
    refine ⟨link, hgate ▸ hmember ▸ hlast, ?_, lt_of_tsMillis_lt (hexpires ▸ hlive)⟩
    rw [← htoken]
    exact (congrArg ConfirmationRow.tokenHash hrow).symm

/-- A gate of a room with one member, and a link to it that expires at `expires`. -/
def gateRoom : GateRoom where
  db := {
    workspaces := oneWorkspace
    members := oneMember
    approvalGates := { rows := [{ id := ⟨1⟩, threadId := none, kind := .request, state := .pending }] } }

def linkTo (token : String) (now expires : Int) : GateOp :=
  .issue { gateId := ⟨1⟩, memberId := ⟨1⟩, workspaceId := ⟨1⟩, nonce := 0, tokenHash := token,
           now := now, expiresAt := expires }

def confirms (token : String) (now : Int) : GateOp :=
  .confirm { tokenHash := token, workspaceId := ⟨1⟩, memberId := ⟨1⟩, now := now } none now

/-- The first link expires, the second is confirmed, and everything after comes too late. -/
def twoLinks : List GateOp :=
  [linkTo "first" 0 (seconds 1), confirms "first" (seconds 2), linkTo "second" (seconds 2) (seconds 9),
   confirms "second" (seconds 3), confirms "second" (seconds 4),
   .resolve ⟨1⟩ ⟨1⟩ .declined none none (seconds 5)]

/-- What a person presents at second 3. -/
def secondLink : Confirm :=
  { tokenHash := "second", workspaceId := ⟨1⟩, memberId := ⟨1⟩, now := seconds 3 }

theorem approval_decided_once_twoLinks :
    spends (gateHistory gateRoom twoLinks) = ["second"] ∧
    (exec gateNext gateRoom twoLinks).db.approvalGates.get? ⟨1⟩ =
      some { id := ⟨1⟩, threadId := none, kind := .request, state := .accepted,
             resolvedAt := some (seconds 3), resolvedBy := some ⟨1⟩, decidedVia := some {} } ∧
    ∃ link, lastIssued (gateHistory gateRoom (twoLinks.take 3)) ⟨1⟩ ⟨1⟩ = some link ∧
      link.tokenHash = "second" ∧ seconds 3 < link.expiresAt := by
  have hgate : (confirm (exec gateNext gateRoom (twoLinks.take 3)) secondLink none (seconds 3)).2 =
      .accepted { id := ⟨1⟩, threadId := none, kind := .request, state := .accepted,
                  resolvedAt := some (seconds 3), resolvedBy := some ⟨1⟩, decidedVia := some {} } := by
    decide +kernel
  refine ⟨by decide +kernel, by decide +kernel, ?_⟩
  exact ((approval_decided_once gateRoom rfl twoLinks (by decide +kernel)).2.2 (twoLinks.take 3)
    secondLink none (seconds 3) (twoLinks.drop 4) rfl _ _ (Prod.ext rfl hgate)).1

end Maidan
