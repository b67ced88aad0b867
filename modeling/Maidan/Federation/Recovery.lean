/-
# A poller recovers -- unless a fault left an event half done

After the faults have stopped, polling again and again should bring a node to the end of the
origin's log.  It does exactly when NO FAULT FELL BETWEEN THE RECORD OF A LINK AND WHAT MAKES THE
RETRY PASS: the ingest row of the event, or a cursor beyond it (`harmless`).

* One direction is progress.  §1 shows that every call and every harmless fault leaves the poller
  where a retry may start (`PollInv`); §2 that every call brings a measure down.
* The other is a trap.  A link on record without its ingest row is refused by the id check of
  `verify_peer_link` in every poll to come, and an event that is not federated never gets an ingest
  row (`Wedged`, §3).  No act of the machine leads out of it.
-/
import Maidan.Federation.AtMostOnce
import Maidan.Federation.Poll

namespace Maidan

open Relational Run Ordered List

variable {node : Node} {d : Delivery} {page past : List StoredEvent} {lastSynced maxId : Int}
  {s : Poller} {e : StoredEvent}

section

variable {env : HashEnv} {origin : OriginLog env} {peer : Peer}

/-! ## 1. Calls and harmless faults keep the position -/

/-- What the batch has passed, seen from the saved cursor. -/
structure Marked (origin : OriginLog env) (lastSynced maxId : Int) : Prop where
  le : lastSynced ≤ maxId
  event : lastSynced < maxId → ∃ e ∈ origin.events, e.id = maxId

/-- Where the phase puts the mark, and what is still to come of the page. -/
def PhaseOk (origin : OriginLog env) (peer : Peer) (node : Node) (lastSynced : Int)
    (past : List StoredEvent) : PollPhase → Prop
  | .idle => Position origin (ingestExists node peer.id) past lastSynced
  | .batch page maxId =>
    Position origin (ingestExists node peer.id) past maxId ∧
      page <+: after StoredEvent.id maxId origin.events ∧ Marked origin lastSynced maxId
  | .ingesting d pc page maxId =>
    PcOk origin peer node past maxId d.envelope.event pc ∧
      Handling origin peer d page maxId ∧ Marked origin lastSynced maxId

/-- **A poller that can go on.** -/
def PollInv (origin : OriginLog env) (peer : Peer) (s : Poller) : Prop :=
  ∃ past, Standing origin peer s.node past ∧ PhaseOk origin peer s.node s.lastSynced past s.phase

/-- A node that has nothing of this peer. -/
structure NewPeer (node : Node) (peer : PeerId) : Prop where
  unverified : node.verifiedLink.get? peer = none
  uningested : ∀ id, ingestExists node peer id = false

theorem PollInv.start (h : NewPeer node peer.id) : PollInv origin peer { node := node } := by
  refine ⟨[], ⟨by simp, h.unverified, ?_, ?_⟩, ⟨?_, ?_, ?_⟩⟩
  · intro id hin
    rw [h.uningested id] at hin
    cases hin
  · intro id hin
    rw [h.uningested id] at hin
    cases hin
  · intro e he hle
    exact absurd (origin.positive e he) (Int.not_lt.mpr hle)
  · intro e he hle
    exact absurd (origin.positive e he) (Int.not_lt.mpr hle)
  · intro e he
    cases he

theorem accept_polled {e : StoredEvent} (he : e ∈ origin.events) :
    ∃ d, accept peer (polledEnvelope peer e) = .ok d ∧ d.peer = peer ∧ d.envelope.event = e := by
  have hpos := origin.positive e he
  have hstamp := origin.stamped e he
  have hvalid : (polledEnvelope peer e).validate = .ok () := by
    simp [FederationEnvelope.validate, polledEnvelope, hstamp, Int.not_lt.mpr (Int.le_of_lt hpos)]
  refine ⟨⟨peer, polledEnvelope peer e, hvalid, rfl⟩, ?_, rfl, rfl⟩
  unfold accept
  split
  · rename_i hbad
    rw [hvalid] at hbad
    cases hbad
  · exact dif_pos rfl

theorem Marked.advance (h : Marked origin lastSynced maxId) (hh : Handling origin peer d page maxId) :
    Marked origin lastSynced d.envelope.event.id where
  le := Int.le_of_lt (Int.lt_of_le_of_lt h.le hh.beyond)
  event := fun _ => ⟨_, hh.event_mem, rfl⟩

theorem Handling.max_eq (hh : Handling origin peer d page maxId) :
    max maxId d.envelope.remoteEventId = d.envelope.event.id := by
  rw [d.remote_eq]
  exact Int.max_eq_right (Int.le_of_lt hh.beyond)

section

variable (hopens : ∀ e ∈ origin.events, ∃ event, env.openedEvent e.payload = .ok event)
include hopens

/-- **Every call keeps the position.** -/
theorem pollCall_inv (h : PollInv origin peer s) :
    PollInv origin peer (pollCall env peer origin.events s) := by
  obtain ⟨node, lastSynced, phase⟩ := s
  obtain ⟨past, hst, hphase⟩ := h
  cases phase with
  | idle =>
    refine ⟨past, hst, hphase, take_prefix _ _, ?_⟩
    exact ⟨Int.le_refl _, fun hlt => absurd hlt (Int.lt_irrefl _)⟩
  | batch page maxId =>
    obtain ⟨hpos, hpage, hmarked⟩ := hphase
    cases page with
    | nil =>
      by_cases hlt : lastSynced < maxId
      · simp only [pollCall, if_pos hlt]
        exact ⟨past, hst, hpos⟩
      · have heq : maxId = lastSynced := Int.le_antisymm (Int.not_lt.mp hlt) hmarked.le
        simp only [pollCall, if_neg hlt]
        exact ⟨past, hst, heq ▸ hpos⟩
    | cons e =>
      have he : e ∈ origin.events := (mem_filter.mp (hpage.subset mem_cons_self)).1
      obtain ⟨d, hd, hpeer, hevent⟩ := @accept_polled env origin peer e he
      simp only [pollCall, hd]
      exact ⟨past, hst, hpos, ⟨hpeer, by rw [hevent]; exact hpage⟩, hmarked⟩
  | ingesting d pc =>
    obtain ⟨hpc, hh, hmarked⟩ := hphase
    by_cases hrank : pc.rank = 0
    · cases pc with
      | done result =>
        cases result with
        | ok =>
          simp only [pollCall, hh.max_eq]
          exact ⟨past, hst, hpc, hh.rest, hmarked.advance hh⟩
        | error => exact ⟨past, hst, hpc, nil_prefix, hmarked⟩
      | _ => cases hrank
    · obtain ⟨past', hst', hpc', -, -⟩ := ingestCall_ok hopens hst hh hpc hrank
      cases pc with
      | done => exact absurd rfl hrank
      | _ => exact ⟨past', hst', hpc', hh, hmarked⟩

end

theorem Standing.mem_iff (h : Standing origin peer node past) (hlast : past.getLast? = some last) :
    ∀ e ∈ origin.events, e ∈ past ↔ e.id ≤ last.id := by
  obtain ⟨rest, hrest⟩ := h.verified
  obtain ⟨front, hfront⟩ := getLast?_eq_some_iff.mp hlast
  have hinc := origin.increasing
  rw [← hrest] at hinc
  obtain ⟨hpast, -, hbeyond⟩ := pairwise_append.mp hinc
  intro e he
  constructor
  · intro hin
    rw [hfront] at hpast hin
    rcases mem_append.mp hin with hin | hin
    · exact Int.le_of_lt ((pairwise_append.mp hpast).2.2 e hin last (by simp))
    · exact Int.le_of_eq (congrArg _ (mem_singleton.mp hin))
  · intro hle
    rw [← hrest] at he
    rcases mem_append.mp he with hin | hin
    · exact hin
    · exact absurd hle (Int.not_le.mpr (hbeyond last (mem_of_getLast? hlast) e hin))

/-- **What `caughtUp` reads off the tables**: no verified event beyond the saved cursor lacks its
ingest row. -/
theorem Standing.caughtUp_iff (h : Standing origin peer s.node past) :
    caughtUp peer origin.events s = true ↔
      ∀ e ∈ past, s.lastSynced < e.id → ingestExists s.node peer.id e.id = true := by
  unfold caughtUp
  rw [h.lastVerifiedLink]
  cases hlast : past.getLast? with
  | none => simp [getLast?_eq_none_iff.mp hlast]
  | some x =>
    have hmem := h.mem_iff hlast
    simp only [map_some, all_eq_true, Bool.or_eq_true, decide_eq_true_eq, StoredEvent.link]
    constructor
    · intro hall e he hlt
      have hin := h.verified.subset he
      have hle := (hmem e hin).mp he
      rcases hall e hin with (hsynced | hnew) | hdone
      · omega
      · omega
      · exact hdone
    · intro hall e he
      by_cases hsynced : e.id ≤ s.lastSynced
      · exact .inl (.inl hsynced)
      · by_cases hnew : x.id < e.id
        · exact .inl (.inr hnew)
        · exact .inr (hall e ((hmem e he).mpr (Int.not_lt.mp hnew)) (Int.not_le.mp hsynced))

/-- Up to the saved cursor everything is verified, and what federates is ingested, whatever the
phase. -/
theorem PhaseOk.synced (h : PhaseOk origin peer node lastSynced past phase) :
    (∀ e ∈ origin.events, e.id ≤ lastSynced → e ∈ past) ∧
      ∀ e ∈ origin.events, e.id ≤ lastSynced → federates env e = true →
        ingestExists node peer.id e.id = true := by
  have hof : ∀ mark, lastSynced ≤ mark → Position origin (ingestExists node peer.id) past mark →
      (∀ e ∈ origin.events, e.id ≤ lastSynced → e ∈ past) ∧
        ∀ e ∈ origin.events, e.id ≤ lastSynced → federates env e = true →
          ingestExists node peer.id e.id = true := fun mark hle hpos =>
    ⟨fun e he hid => hpos.reached e he (Int.le_trans hid hle),
      fun e he hid => hpos.kept e he (Int.le_trans hid hle)⟩
  cases phase with
  | idle => exact hof _ (Int.le_refl _) h
  | batch => exact hof _ h.2.2.le h.1
  | ingesting d pc page maxId =>
    obtain ⟨hpc, hh, hmarked⟩ := h
    have hhalf : HalfDone origin (ingestExists node peer.id) past maxId d.envelope.event →
        (∀ e ∈ origin.events, e.id ≤ lastSynced → e ∈ past) ∧
          ∀ e ∈ origin.events, e.id ≤ lastSynced → federates env e = true →
            ingestExists node peer.id e.id = true := by
      intro hhalf
      have hle := hmarked.le
      have hlt := hh.beyond
      exact ⟨fun e he hid => hhalf.reached e he (by omega),
        fun e he hid => hhalf.kept e he (by omega)⟩
    cases pc with
    | existsCheck => exact hof _ hmarked.le hpc
    | readLink => exact hof _ hmarked.le hpc.1
    | verify => exact hof _ hmarked.le hpc.1.1
    | recordLink => exact hof _ hmarked.le hpc.1
    | append => exact hhalf hpc
    | recordIngest => exact hhalf hpc.1
    | done result =>
      cases result with
      | ok => exact hof _ (hmarked.advance hh).le hpc
      | error => exact hof _ hmarked.le hpc

theorem PollInv.forget (h : PollInv origin peer s) (hcaught : caughtUp peer origin.events s = true) :
    PollInv origin peer { s with phase := .idle } := by
  obtain ⟨past, hst, hphase⟩ := h
  obtain ⟨hreached, hkept⟩ := hphase.synced
  exact ⟨past, hst, hreached, hkept, hst.caughtUp_iff.mp hcaught⟩

/-- **A harmless failure keeps the position.** -/
theorem pollFail_inv (h : PollInv origin peer s)
    (hharmless : harmless env peer origin.events s .fail = true) :
    PollInv origin peer (pollFail env s) := by
  obtain ⟨node, lastSynced, phase⟩ := s
  cases phase with
  | idle => exact h
  | batch page maxId =>
    cases page with
    | cons => exact h
    | nil =>
      simp only [harmless, Bool.or_eq_true, decide_eq_true_eq] at hharmless
      rcases hharmless with hle | hcaught
      · obtain ⟨past, hst, hpos, -, hmarked⟩ := h
        have heq : maxId = lastSynced := Int.le_antisymm hle hmarked.le
        exact ⟨past, hst, heq ▸ hpos⟩
      · exact h.forget hcaught
  | ingesting d pc =>
    obtain ⟨past, hst, hpc, hh, hmarked⟩ := h
    refine ⟨past, hst, ?_, hh, hmarked⟩
    cases pc with
    | existsCheck => exact hpc
    | readLink => exact hpc.1
    | verify => exact hpc
    | recordLink => exact hpc.1
    | append =>
      simp only [harmless, Bool.not_eq_true'] at hharmless
      simp only [Pc.failed, hharmless, Bool.false_eq_true, if_false]
      exact hpc
    | recordIngest => cases hharmless
    | done => exact hpc

/-! ## 2. Every call brings the end nearer -/

/-- How many events the saved cursor has still to pass. -/
def Poller.pending (events : List StoredEvent) (s : Poller) : Nat :=
  (after StoredEvent.id s.lastSynced events).length

/-- A batch that will end without moving the cursor, because a call failed at its first event. -/
def Poller.held (s : Poller) : Nat :=
  match s.phase with
  | .batch [] maxId => if s.lastSynced < maxId then 0 else 1
  | .ingesting _ (.done (.error _)) _ _ => 1
  | _ => 0

/-- The calls left in the batch. -/
def PollPhase.left : PollPhase → Nat
  | .idle => 802
  | .batch page _ => 8 * page.length + 1
  | .ingesting _ pc page _ => 8 * page.length + pc.rank + 2

/-- The work left: a round for every event, one more for a batch in vain, and what is left of this
one. -/
def Poller.work (events : List StoredEvent) (s : Poller) : Nat :=
  803 * (s.pending events + s.held) + s.phase.left

theorem work_lt {s' : Poller} (hsynced : s'.lastSynced = s.lastSynced) (hheld : s'.held ≤ s.held)
    (hleft : s'.phase.left < s.phase.left) : s'.work events < s.work events := by
  unfold Poller.work Poller.pending
  rw [hsynced]
  omega

/-- The cursor has passed the whole log. -/
def Poller.passed (origin : OriginLog env) (s : Poller) : Prop :=
  ∀ e ∈ origin.events, e.id ≤ s.lastSynced

theorem pending_lt (hmarked : Marked origin lastSynced maxId) (hlt : lastSynced < maxId) :
    (after StoredEvent.id maxId origin.events).length <
      (after StoredEvent.id lastSynced origin.events).length := by
  obtain ⟨e, he, hid⟩ := hmarked.event hlt
  rw [← after_after hmarked.le]
  refine length_filter_lt_length_iff_exists.mpr ⟨e, ?_, ?_⟩
  · exact mem_filter.mpr ⟨he, by simpa [hid] using hlt⟩
  · simp [hid]

theorem listEvents_ne_nil (h : ¬s.passed origin) : listEvents origin.events s.lastSynced ≠ [] := by
  intro hnil
  refine h fun e he => ?_
  rcases take_eq_nil_iff.mp hnil with hzero | hafter
  · cases hzero
  · exact Int.not_lt.mp fun hlt => by
      have hin : e ∈ after StoredEvent.id s.lastSynced origin.events :=
        mem_filter.mpr ⟨he, decide_eq_true hlt⟩
      rw [hafter] at hin
      cases hin

theorem held_ingesting (h : pc.isError = false) :
    Poller.held ⟨node, lastSynced, .ingesting d pc page maxId⟩ = 0 := by
  unfold Poller.held
  split
  · rename_i heq
    cases heq
  · rename_i heq
    cases heq
    cases h
  · rfl

/-- **Every call brings the work down**, as long as the cursor has not passed the log. -/
theorem pollCall_work (hopens : ∀ e ∈ origin.events, ∃ event, env.openedEvent e.payload = .ok event)
    (h : PollInv origin peer s) (hnot : ¬s.passed origin) :
    (pollCall env peer origin.events s).work origin.events < s.work origin.events := by
  have hpage := listEvents_ne_nil hnot
  obtain ⟨node, lastSynced, phase⟩ := s
  obtain ⟨past, hst, hphase⟩ := h
  cases phase with
  | idle =>
    obtain ⟨e, page, hcons⟩ := exists_cons_of_ne_nil hpage
    have hlen : (e :: page).length ≤ 100 := by
      rw [← hcons]
      exact length_take_le _ _
    simp only [pollCall, hcons]
    refine work_lt rfl (Nat.le_refl 0) ?_
    simp only [PollPhase.left]
    omega
  | batch page maxId =>
    obtain ⟨-, hpage', (hmarked : Marked origin lastSynced maxId)⟩ := hphase
    cases page with
    | nil =>
      by_cases hlt : lastSynced < maxId
      · have hfewer := pending_lt hmarked hlt
        simp only [pollCall, Poller.work, Poller.pending, Poller.held, PollPhase.left, if_pos hlt,
          length_nil]
        omega
      · -- nothing was passed, so this was the batch in vain
        simp only [pollCall, Poller.work, Poller.pending, Poller.held, PollPhase.left, if_neg hlt,
          length_nil]
        omega
    | cons e =>
      have he : e ∈ origin.events := (mem_filter.mp (hpage'.subset mem_cons_self)).1
      obtain ⟨d, hd, -, -⟩ := @accept_polled env origin peer e he
      simp only [pollCall, hd]
      refine work_lt rfl (Nat.le_refl 0) ?_
      simp only [PollPhase.left, Pc.rank, length_cons]
      omega
  | ingesting d pc page maxId =>
    obtain ⟨hpc, hh, (hmarked : Marked origin lastSynced maxId)⟩ := hphase
    cases pc with
    | done result =>
      cases result with
      | ok =>
        have hlt : lastSynced < d.envelope.event.id := Int.lt_of_le_of_lt hmarked.le hh.beyond
        simp only [pollCall, hh.max_eq]
        refine work_lt rfl ?_ (Nat.lt_succ_self _)
        cases page with
        | nil => exact Nat.le_of_eq (if_pos hlt)
        | cons => exact Nat.le_refl 0
      | error =>
        simp only [pollCall]
        refine work_lt rfl ?_ ?_
        · simp only [Poller.held]
          split <;> omega
        · simp only [PollPhase.left, Pc.rank, length_nil]
          omega
    | _ =>
      obtain ⟨-, -, -, herror, hrank⟩ := ingestCall_ok hopens hst hh hpc (by simp [Pc.rank])
      refine work_lt rfl ?_ (Nat.add_lt_add_right (Nat.add_lt_add_left hrank _) _)
      exact Nat.le_trans (Nat.le_of_eq (held_ingesting herror)) (Nat.zero_le _)

/-! ## 3. The trap -/

/-- The ingestion of an event that is verified already never gets past the check of its link. -/
def Pc.refused (e : StoredEvent) : Pc → Prop
  | .existsCheck | .readLink | .done (.error _) => True
  | .verify previous => ∃ link ∈ previous, e.id ≤ link.id
  | _ => False

/-- **A wedged poller**: the event `e` is at or before the last verified link, has no ingest row,
and lies beyond the cursor and beyond everything the batch has passed. -/
structure Wedged (origin : OriginLog env) (peer : Peer) (e : StoredEvent) (s : Poller) : Prop where
  event : e ∈ origin.events
  unsynced : s.lastSynced < e.id
  missing : ingestExists s.node peer.id e.id = false
  verified : ∃ row, s.node.verifiedLink.get? peer.id = some row ∧ row.originContentHash ≠ "" ∧
    e.id ≤ row.remoteEventId
  phase : match s.phase with
    | .idle => True
    | .batch page maxId => maxId < e.id ∧ page <+: after StoredEvent.id maxId origin.events
    | .ingesting d pc page maxId =>
      maxId < e.id ∧ Handling origin peer d page maxId ∧ (d.envelope.event = e → pc.refused e)

theorem Wedged.link (h : Wedged origin peer e s) :
    ∃ link ∈ lastVerifiedLink s.node peer.id, e.id ≤ link.id := by
  obtain ⟨row, hrow, hhash, hle⟩ := h.verified
  refine ⟨⟨row.remoteEventId, row.remoteEventId, row.originPrevHash, row.originContentHash⟩, ?_, hle⟩
  unfold lastVerifiedLink
  rw [hrow]
  simp [hhash]

theorem verified_of_record (hx : x ∈ origin.events)
    (h : ∃ row, node.verifiedLink.get? peer.id = some row ∧ row.originContentHash ≠ "" ∧
      e.id ≤ row.remoteEventId) :
    ∃ row, (recordVerifiedLink node peer.id x.link).verifiedLink.get? peer.id = some row ∧
      row.originContentHash ≠ "" ∧ e.id ≤ row.remoteEventId := by
  obtain ⟨row, hrow, hhash, hle⟩ := h
  unfold recordVerifiedLink
  simp only [Table.get?_upsert, hrow, if_true, Option.elim_some]
  by_cases hlt : row.remoteEventId < x.link.id
  · rw [if_pos hlt]
    exact ⟨_, rfl, (origin.rowOk hx).contentHash_ne, Int.le_trans hle (Int.le_of_lt hlt)⟩
  · rw [if_neg hlt]
    exact ⟨row, rfl, hhash, hle⟩

/-- **No call of an ingestion opens the trap.** -/
theorem Wedged.ingestCall (h : Wedged origin peer e ⟨node, lastSynced, .ingesting d pc page maxId⟩) :
    Wedged origin peer e ⟨(ingestCall env node d pc).1, lastSynced,
        .ingesting d (ingestCall env node d pc).2 page maxId⟩ := by
  obtain ⟨link, hlink, hle⟩ := h.link
  obtain ⟨hevent, hunsynced, hmissing, hverified, hmark, hh, hrefused⟩ := h
  simp only at hunsynced hmissing hverified hmark hh hrefused hlink
  have hpeer := hh.ours
  -- calls that write nothing and move the program counter on
  have hstill : ∀ pc', (d.envelope.event = e → pc'.refused e) →
      Wedged origin peer e ⟨node, lastSynced, .ingesting d pc' page maxId⟩ := fun pc' hpc' =>
    ⟨hevent, hunsynced, hmissing, hverified, hmark, hh, hpc'⟩
  cases pc with
  | existsCheck =>
    simp only [Maidan.ingestCall, d.remote_eq, hpeer]
    cases hin : ingestExists node peer.id d.envelope.event.id with
    | true =>
      refine hstill _ fun heq => ?_
      rw [heq, hmissing] at hin
      cases hin
    | false => exact hstill _ fun _ => trivial
  | readLink =>
    simp only [Maidan.ingestCall, hpeer]
    exact hstill _ fun _ => ⟨link, hlink, hle⟩
  | verify previous =>
    cases hver : verifyPeerLink env d.envelope.event.link d.envelope.event.payload previous with
    | error =>
      simp only [Maidan.ingestCall, hver]
      exact hstill _ fun _ => trivial
    | ok =>
      simp only [Maidan.ingestCall, hver]
      refine hstill _ fun heq => ?_
      obtain ⟨prev, hprev, hbehind⟩ := hrefused heq
      have hahead := (verifyPeerLink_spec hver).1 prev hprev
      rw [heq] at hahead
      exact absurd hahead (Int.not_lt.mpr hbehind)
  | recordLink =>
    simp only [Maidan.ingestCall, hpeer]
    exact ⟨hevent, hunsynced, hmissing, verified_of_record hh.event_mem hverified, hmark, hh,
      fun heq => (hrefused heq).elim⟩
  | append =>
    have hother : d.envelope.event ≠ e := fun heq => hrefused heq
    cases hopen : env.openedEvent d.envelope.event.payload with
    | error =>
      simp only [Maidan.ingestCall, hopen]
      exact hstill _ fun heq => absurd heq hother
    | ok event =>
      cases hfed : event.kind.federatable with
      | true =>
        simp only [Maidan.ingestCall, hopen, hfed, if_true]
        exact ⟨hevent, hunsynced, hmissing, hverified, hmark, hh, fun heq => absurd heq hother⟩
      | false =>
        simp only [Maidan.ingestCall, hopen, hfed, Bool.false_eq_true, if_false]
        exact hstill _ fun heq => absurd heq hother
  | recordIngest =>
    have hother : d.envelope.event ≠ e := fun heq => hrefused heq
    have hid : e.id ≠ d.envelope.event.id := fun heq =>
      hother (origin.increasing.eq_of_key hh.event_mem hevent heq.symm)
    simp only [Maidan.ingestCall, d.remote_eq, hpeer]
    refine ⟨hevent, hunsynced, ?_, hverified, hmark, hh, fun heq => absurd heq hother⟩
    rw [ingestExists_tryRecordIngest]
    simpa [hid] using hmissing
  | done =>
    exact hstill _ hrefused

/-- **Nothing leads out of the trap.** -/
theorem Wedged.next (h : Wedged origin peer e s) (act : PollAct) :
    Wedged origin peer e (pollNext env peer origin.events s act) := by
  have hforget : Wedged origin peer e { s with phase := .idle } :=
    ⟨h.event, h.unsynced, h.missing, h.verified, trivial⟩
  obtain ⟨node, lastSynced, phase⟩ := s
  cases act with
  | stop => exact hforget
  | fail =>
    cases phase with
    | idle => exact h
    | batch page =>
      cases page with
      | nil => exact hforget
      | cons => exact h
    | ingesting d pc =>
      obtain ⟨hevent, hunsynced, hmissing, hverified, hmark, hh, hrefused⟩ := h
      refine ⟨hevent, hunsynced, hmissing, hverified, hmark, hh, fun heq => ?_⟩
      have hpc := hrefused heq
      cases pc with
      | existsCheck | readLink => trivial
      | verify => exact hpc
      | recordLink => trivial
      | append => exact hpc.elim
      | recordIngest => trivial
      | done => exact hpc
  | go =>
    cases phase with
    | idle =>
      exact ⟨h.event, h.unsynced, h.missing, h.verified, h.unsynced, take_prefix _ _⟩
    | batch page maxId =>
      obtain ⟨hevent, hunsynced, hmissing, hverified, hmark, hpage⟩ := h
      cases page with
      | nil =>
        by_cases hlt : lastSynced < maxId
        · simp only [pollNext, pollCall, if_pos hlt]
          exact ⟨hevent, hmark, hmissing, hverified, trivial⟩
        · simp only [pollNext, pollCall, if_neg hlt]
          exact hforget
      | cons x =>
        have hx : x ∈ origin.events := (mem_filter.mp (hpage.subset mem_cons_self)).1
        obtain ⟨d, hd, hpeer, hdx⟩ := @accept_polled env origin peer x hx
        simp only [pollNext, pollCall, hd]
        exact ⟨hevent, hunsynced, hmissing, hverified, hmark, ⟨hpeer, by rw [hdx]; exact hpage⟩,
          fun _ => trivial⟩
    | ingesting d pc =>
      cases pc with
      | done result =>
        obtain ⟨hevent, hunsynced, hmissing, hverified, hmark, hh, hrefused⟩ := h
        cases result with
        | error =>
          exact ⟨hevent, hunsynced, hmissing, hverified, hmark, nil_prefix⟩
        | ok =>
          have hother : d.envelope.event ≠ e := fun heq => hrefused heq
          -- the event that is done with comes before `e`, which comes after the mark
          have hbefore : d.envelope.event.id < e.id := by
            refine Int.not_le.mp fun hle => ?_
            rcases hh.upto hevent hle with hpassed | heq
            · exact absurd hmark (Int.not_lt.mpr hpassed)
            · exact hother heq.symm
          simp only [pollNext, pollCall, hh.max_eq]
          exact ⟨hevent, hunsynced, hmissing, hverified, hbefore, hh.rest⟩
      | _ => exact h.ingestCall

theorem Standing.verified_row (h : Standing origin peer node past) (he : e ∈ past) :
    ∃ row, node.verifiedLink.get? peer.id = some row ∧ row.originContentHash ≠ "" ∧
      e.id ≤ row.remoteEventId := by
  have hrow := h.row
  cases hlast : past.getLast? with
  | none =>
    rw [getLast?_eq_none_iff.mp hlast] at he
    cases he
  | some x =>
    rw [hlast] at hrow
    have hx : x ∈ origin.events := h.verified.subset (mem_of_getLast? hlast)
    refine ⟨verifiedRow peer.id x, hrow, (origin.rowOk hx).contentHash_ne, ?_⟩
    exact (h.mem_iff hlast e (h.verified.subset he)).mp he

/-- **A harmful fault shuts the trap.** -/
theorem PollInv.wedged (h : PollInv origin peer s)
    (hharm : harmless env peer origin.events s act = false) :
    ∃ e, Wedged origin peer e (pollNext env peer origin.events s act) := by
  obtain ⟨past, hst, hphase⟩ := h
  have hforget : caughtUp peer origin.events s = false →
      ∃ e, Wedged origin peer e { s with phase := .idle } := by
    intro hbehind
    have hnot : ¬∀ e ∈ past, s.lastSynced < e.id → ingestExists s.node peer.id e.id = true := by
      rw [← hst.caughtUp_iff, hbehind]
      simp
    simp only [not_forall, Bool.not_eq_true] at hnot
    obtain ⟨e, he, hlt, hmissing⟩ := hnot
    exact ⟨e, hst.verified.subset he, hlt, hmissing, hst.verified_row he, trivial⟩
  obtain ⟨node, lastSynced, phase⟩ := s
  cases act with
  | go => cases hharm
  | stop => exact hforget hharm
  | fail =>
    cases phase with
    | idle => cases hharm
    | batch page =>
      cases page with
      | cons => cases hharm
      | nil =>
        simp only [harmless, Bool.or_eq_false_iff] at hharm
        exact hforget hharm.2
    | ingesting d pc page maxId =>
      obtain ⟨hpc, hh, hmarked⟩ := hphase
      have hhalf : HalfDone origin (ingestExists node peer.id) past maxId d.envelope.event →
          (pc.failed env d).refused d.envelope.event →
          ∃ e, Wedged origin peer e ⟨node, lastSynced, .ingesting d (pc.failed env d) page maxId⟩ :=
        fun hhalf hrefused =>
          ⟨d.envelope.event, hh.event_mem, Int.lt_of_le_of_lt hmarked.le hh.beyond, hhalf.missing,
            hst.verified_row (hhalf.reached _ hh.event_mem (Int.le_refl _)), hh.beyond, hh,
            fun _ => hrefused⟩
      cases pc with
      | append =>
        simp only [harmless, Bool.not_eq_false'] at hharm
        exact hhalf hpc (by simp [Pc.failed, hharm, Pc.refused])
      | recordIngest => exact hhalf hpc.1 trivial
      | _ => cases hharm

/-! ## 4. When a poller recovers -/

/-- **Through with the origin's log**: the cursor has passed every event, and every event that
federates has its ingest row and is in the local log. -/
structure Recovered (origin : OriginLog env) (peer : Peer) (s : Poller) : Prop where
  passed : s.passed origin
  ingested : ∀ e ∈ origin.events, federates env e = true →
    ingestExists s.node peer.id e.id = true ∧ (peer.id, e.id) ∈ ingestedPairs s.node

theorem PollInv.recovered (h : PollInv origin peer s) (hpassed : s.passed origin) :
    Recovered origin peer s where
  passed := hpassed
  ingested := by
    intro e he hfed
    obtain ⟨past, hst, hphase⟩ := h
    have hin := hphase.synced.2 e he (hpassed e he) hfed
    exact ⟨hin, hst.logged e.id hin⟩

theorem lastSynced_le_pollCall (s : Poller) :
    s.lastSynced ≤ (pollCall env peer origin.events s).lastSynced := by
  unfold pollCall
  split
  · exact Int.le_refl _
  · split <;> exact Int.le_refl _
  · exact Int.le_refl _
  · exact Int.le_refl _
  · exact Int.le_refl _
  · split
    · exact Int.le_of_lt ‹_›
    · exact Int.le_refl _

section

variable (hopens : ∀ e ∈ origin.events, ∃ event, env.openedEvent e.payload = .ok event)
include hopens

/-- **Undisturbed, a poller that can go on gets through, and stays through.** -/
theorem PollInv.recovers (h : PollInv origin peer s) : ∃ N, ∀ n, N ≤ n → Recovered origin peer
      (exec (pollNext env peer origin.events) s (List.replicate n .go)) := by
  obtain ⟨N, hinv, hpassed⟩ := @exec_reaches _ _ (pollNext env peer origin.events)
    (PollInv origin peer) (Poller.passed origin) .go (Poller.work origin.events)
    (fun s hs hnot => ⟨pollCall_inv hopens hs, pollCall_work hopens hs hnot⟩) s h
  refine ⟨N, fun n hn => ?_⟩
  obtain ⟨more, rfl⟩ := Nat.exists_eq_add_of_le hn
  rw [replicate_add, exec_append]
  generalize exec (pollNext env peer origin.events) s (List.replicate N .go) = s' at hinv hpassed ⊢
  induction more generalizing s' with
  | zero => exact hinv.recovered hpassed
  | succ more ih =>
    refine ih (Nat.le_add_right _ _) (pollCall env peer origin.events s') (pollCall_inv hopens hinv)
      fun e he => ?_
    exact Int.le_trans (hpassed e he) (lastSynced_le_pollCall s')

theorem pollNext_inv (h : PollInv origin peer s)
    (hharmless : harmless env peer origin.events s act = true) :
    PollInv origin peer (pollNext env peer origin.events s act) := by
  cases act with
  | go => exact pollCall_inv hopens h
  | fail => exact pollFail_inv h hharmless
  | stop => exact h.forget hharmless

/-- **A run with a harmful fault in it ends in the trap.** -/
theorem PollInv.wedged_of_not_meets :
    ∀ (acts : List PollAct) (s : Poller), PollInv origin peer s →
      ¬Meets (pollNext env peer origin.events)
        (fun s act => harmless env peer origin.events s act = true) s acts →
      ∃ e, Wedged origin peer e (exec (pollNext env peer origin.events) s acts)
  | [], _, _, hnot => absurd trivial hnot
  | act :: acts, s, h, hnot => by
    cases hact : harmless env peer origin.events s act with
    | true =>
      exact PollInv.wedged_of_not_meets acts _ (pollNext_inv hopens h hact)
        fun hrest => hnot ⟨hact, hrest⟩
    | false =>
      obtain ⟨e, he⟩ := h.wedged hact
      exact ⟨e, exec_inv (fun _ act hw => hw.next act) acts he⟩

end

/-- **When the faults have stopped, a poller gets through the origin's log exactly if they were all
harmless.**  The run `acts` is any mixture of calls, failures and stops; after it, every call
succeeds. -/
theorem poller_recovers_iff (env : HashEnv) (peer : Peer) (origin : OriginLog env)
    (hopens : ∀ e ∈ origin.events, ∃ event, env.openedEvent e.payload = .ok event) (node : Node)
    (hnew : NewPeer node peer.id) (acts : List PollAct) :
    (∃ N, ∀ n, N ≤ n → Recovered origin peer
      (exec (pollNext env peer origin.events) { node := node } (acts ++ List.replicate n .go))) ↔
    Meets (pollNext env peer origin.events)
      (fun s act => harmless env peer origin.events s act = true) { node := node } acts := by
  have hstart : PollInv origin peer { node := node } := PollInv.start hnew
  simp only [exec_append]
  constructor
  · rintro ⟨N, hrecovered⟩
    by_contra hnot
    obtain ⟨e, he⟩ := PollInv.wedged_of_not_meets hopens acts _ hstart hnot
    have hend := @exec_inv _ _ (pollNext env peer origin.events) _ (fun _ act hw => hw.next act)
      (List.replicate N .go) _ he
    exact absurd hend.unsynced (Int.not_lt.mpr ((hrecovered N (Nat.le_refl N)).passed e hend.event))
  · intro hmeets
    have hend := @exec_inv_of_meets _ _ (pollNext env peer origin.events) _ (PollInv origin peer)
      (fun _ _ h hok => pollNext_inv hopens h hok) acts _ hstart hmeets
    exact hend.recovers hopens

end

/-- The log of an origin with one event. -/
def sampleOrigin : OriginLog sampleEnv where
  events :=
    [{ id := 1, lsn := 1, payload := samplePayload 1, prevHash := genesisHash sampleEnv,
       contentHash := encodeDigest (sampleEnv.sha256 (samplePayload 1)) }]
  positive := by decide
  stamped := by decide
  verifies := by decide +kernel

theorem newPeer_empty (peer : PeerId) : NewPeer {} peer := ⟨rfl, fun _ => rfl⟩

/-- The read of the link fails in the first poll, and the process stops in the second before the
link is recorded. -/
def harmlessActs : List PollAct :=
  [.go, .go, .go, .fail, .go, .go, .go, .go, .go, .go, .go, .stop]

/-- After that the event is ingested and the cursor passes it. -/
theorem poller_recovers_harmless : ∃ N, ∀ n, N ≤ n → Recovered sampleOrigin firstPeer
      (exec (pollNext sampleEnv firstPeer sampleOrigin.events) { node := {} }
        (harmlessActs ++ List.replicate n .go)) :=
  (poller_recovers_iff sampleEnv firstPeer sampleOrigin (fun _ _ => ⟨_, rfl⟩) {}
    (newPeer_empty _) harmlessActs).mpr (by decide +kernel)

/-- The process stops after it has recorded the link of the first event. -/
def stoppedActs : List PollAct := [.go, .go, .go, .go, .go, .go, .stop]

/-- **The link is recorded and the event is not**: no later poll ingests it, and the cursor never
passes it. -/
theorem stop_wedges_poller :
    (∃ e ∈ sampleOrigin.events, e.id = 1 ∧ federates sampleEnv e = true) ∧
    ∀ n, let s := exec (pollNext sampleEnv firstPeer sampleOrigin.events) { node := {} }
          (stoppedActs ++ List.replicate n .go)
      s.lastSynced < 1 ∧ ingestExists s.node firstPeer.id 1 = false := by
  refine ⟨⟨_, mem_singleton_self _, rfl, rfl⟩, fun n => ?_⟩
  obtain ⟨e, hwedged⟩ := @PollInv.wedged_of_not_meets sampleEnv sampleOrigin firstPeer
    (fun _ _ => ⟨_, rfl⟩) stoppedActs _ (PollInv.start (newPeer_empty firstPeer.id))
    (by decide +kernel)
  obtain rfl := mem_singleton.mp hwedged.event
  simp only [exec_append]
  have hn := @exec_inv _ _ (pollNext sampleEnv firstPeer sampleOrigin.events) _
    (fun _ act hw => hw.next act) (List.replicate n .go) _ hwedged
  exact ⟨hn.unsynced, hn.missing⟩

end Maidan
