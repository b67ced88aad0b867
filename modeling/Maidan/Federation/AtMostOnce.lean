/-
# An event of a peer is ingested at most once -- if the reads stand apart

What keeps an event out of the log the second time is NOT the dedup row, which is written after
the append, but the verified link: it never moves backwards, and a run passes only with an event
beyond the link it read.  That is the pattern of `Lib.Watermark`, and §1 shows that every call of
every run is a step of it (`fedNext_simulates`).

The pattern needs one discipline, and no code enforces it: the push route and the poller can both
read the link before either records it.  Then both pass, both append, and the dedup row only makes
the second run SAY that it skipped a duplicate (`two_runs_append_twice`).  §2 has the result for
the schedules that keep the discipline.
-/
import Maidan.Lib.Watermark
import Maidan.Events.Log
import Maidan.Federation.Ingest

namespace Maidan

open Relational Table Run List

/-! ## 1. The verified link is a watermark -/

/-- Where a program counter stands in the pattern. -/
def Pc.phase : Pc → Watermark.Phase Int
  | .existsCheck | .readLink => .idle
  | .verify previous => .seen (previous.map EventLink.id)
  | .recordLink => .passed
  | .append => .marked
  | .recordIngest _ | .done _ => .spent

def IngestRun.abs (r : IngestRun) : Watermark.Run PeerId Int :=
  { source := r.delivery.peer.id, item := r.delivery.envelope.remoteEventId, phase := r.pc.phase }

/-- How far a peer's chain has been verified. -/
def markOf (node : Node) (peer : PeerId) : Option Int :=
  (node.verifiedLink.get? peer).map VerifiedLinkRow.remoteEventId

def Fed.abs (s : Fed) : Watermark.State PeerId Int :=
  { mark := markOf s.node, acted := ingestedPairs s.node, runs := s.runs.map IngestRun.abs }

/-- **Every link is stored with a hash**: the ones recorded, and the one a run is about to record.
`last_verified_link` passes over a row whose hash is empty. -/
structure Hashed (s : Fed) : Prop where
  links : ∀ peer row, s.node.verifiedLink.get? peer = some row → row.originContentHash ≠ ""
  runs : ∀ (i : Nat) (r : IngestRun), s.runs[i]? = some r → r.pc = .recordLink →
    r.delivery.envelope.event.link.contentHash ≠ ""

/-- Between the read of the link and its record. -/
def Pc.between : Pc → Bool
  | .verify _ | .recordLink => true
  | _ => false

variable {pc : Pc} {s : Fed} {i : Nat} {r : IngestRun} {env : HashEnv} {node : Node}

theorem Pc.between_of_phase (h : pc.phase.Between) : pc.between = true := by
  cases pc with
  | verify | recordLink => rfl
  | existsCheck | readLink | append | recordIngest | done => exact h.elim

/-- A run of the same event of the same peer that has read the link and not yet recorded it. -/
def IngestRun.contends (d : Delivery) (r : IngestRun) : Bool :=
  r.delivery.peer.id == d.peer.id &&
    r.delivery.envelope.remoteEventId == d.envelope.remoteEventId && r.pc.between

/-- **The discipline.**  A run about to read the link has no contender. -/
def readsAlone (s : Fed) : FedAct → Bool
  | .call i =>
    match s.runs[i]? with
    | some { delivery := d, pc := .readLink } =>
      (List.range s.runs.length).all fun j => j == i || !(s.runs[j]?.any (·.contends d))
    | _ => true
  | _ => true

theorem readsAlone_spec (hi : s.runs[i]? = some r) (hpc : r.pc = .readLink)
    (h : readsAlone s (.call i) = true) :
    ∀ (j : Nat) (r' : Watermark.Run PeerId Int), s.abs.runs[j]? = some r' → j ≠ i →
      r'.source = r.abs.source → r'.item = r.abs.item → ¬r'.phase.Between := by
  intro j r' hj hji hsource hitem hbetween
  obtain ⟨d, pc⟩ := r
  cases hpc
  unfold readsAlone at h
  simp only [hi, all_eq_true, mem_range] at h
  simp only [Fed.abs, getElem?_map, map_eq_some_iff] at hj
  obtain ⟨r0, hr0, rfl⟩ := hj
  have hcontends : r0.contends d = true := by
    unfold IngestRun.contends
    rw [Pc.between_of_phase hbetween]
    have hpeer : r0.delivery.peer.id = d.peer.id := hsource
    have hevent : r0.delivery.envelope.remoteEventId = d.envelope.remoteEventId := hitem
    simp [hpeer, hevent]
  have hj := h j (List.getElem?_eq_some_iff.mp hr0).1
  simp [hji, hr0, hcontends] at hj

theorem lastVerifiedLink_ge (h : Hashed s) (peer : PeerId) : ∀ low ∈ markOf s.node peer,
      ∃ m ∈ (lastVerifiedLink s.node peer).map EventLink.id, low ≤ m := by
  intro low hlow
  obtain ⟨row, hrow, rfl⟩ := map_eq_some_iff.mp hlow
  unfold lastVerifiedLink
  rw [hrow]
  simp [h.links peer row hrow]

/-- The row `record_verified_link` leaves. -/
theorem recordVerifiedLink_get (node : Node) (peer : PeerId) (link : EventLink) (p : PeerId) :
    (recordVerifiedLink node peer link).verifiedLink.get? p = node.verifiedLink.get? p ∨
      (p = peer ∧ (∀ m ∈ markOf node peer, m < link.id) ∧
        (recordVerifiedLink node peer link).verifiedLink.get? p =
          some { peerId := peer, remoteEventId := link.id, originPrevHash := link.prevHash,
                 originContentHash := link.contentHash }) := by
  unfold recordVerifiedLink markOf
  simp only [get?_upsert]
  by_cases hp : peer = p
  · subst hp
    rw [if_pos rfl]
    cases hold : node.verifiedLink.get? peer with
    | none => exact .inr ⟨rfl, by simp, rfl⟩
    | some old =>
      have hkey : old.peerId = peer := key_of_get? hold
      by_cases hlt : old.remoteEventId < link.id
      · simp [hlt, hkey]
      · exact .inl (by simp [hlt])
  · exact .inl (if_neg hp)

/-- **Recording a link raises the mark to it.** -/
theorem recordVerifiedLink_raises (node : Node) (peer : PeerId) (link : EventLink) :
    (∀ p item, Watermark.Covered (markOf node p) item →
      Watermark.Covered (markOf (recordVerifiedLink node peer link) p) item) ∧
      Watermark.Covered (markOf (recordVerifiedLink node peer link) peer) link.id := by
  constructor
  · rintro p item ⟨m, hm, hle⟩
    rcases recordVerifiedLink_get node peer link p with hsame | ⟨rfl, hlt, hnew⟩
    · exact ⟨m, by simpa only [markOf, hsame] using hm, hle⟩
    · refine ⟨link.id, by simp [markOf, hnew], ?_⟩
      exact le_trans hle (le_of_lt (hlt m hm))
  · -- the row was written, or the one that was there lies no lower
    by_cases hlow : ∀ m ∈ markOf node peer, m < link.id
    · cases hold : node.verifiedLink.get? peer with
      | none =>
        exact ⟨link.id, by simp [markOf, recordVerifiedLink, get?_upsert, hold], le_refl _⟩
      | some old =>
        have hlt : old.remoteEventId < link.id := hlow _ (by simp [markOf, hold])
        exact ⟨link.id, by simp [markOf, recordVerifiedLink, get?_upsert, hold, hlt], le_refl _⟩
    · rcases recordVerifiedLink_get node peer link peer with hsame | ⟨_, hlt, _⟩
      · push Not at hlow
        obtain ⟨m, hm, hle⟩ := hlow
        exact ⟨m, by simpa only [markOf, hsame] using hm, hle⟩
      · exact absurd hlt hlow

/-- **What one call does**: from which counter to which, and to the shared tables. -/
inductive Called (env : HashEnv) (node : Node) (d : Delivery) : Pc → Node → Pc → Prop
  | absent : Called env node d .existsCheck node .readLink
  | read : Called env node d .readLink node (.verify (lastVerifiedLink node d.peer.id))
  | verified (previous : Option EventLink)
      (h : verifyPeerLink env d.envelope.event.link d.envelope.event.payload previous = .ok ()) :
      Called env node d (.verify previous) node .recordLink
  | recorded : Called env node d .recordLink
      (recordVerifiedLink node d.peer.id d.envelope.event.link) .append
  | appended (event : Event) : Called env node d .append
      (appendFederatedEvent node d event) (.recordIngest (nextLogId node))
  | finished (pc : Pc) (node' : Node) (result : Except ApiError IngestOutcome)
      (hlink : node'.verifiedLink = node.verifiedLink) (hlog : node'.log = node.log) :
      Called env node d pc node' (.done result)

theorem ingestCall_called (env : HashEnv) (node : Node) (d : Delivery) (pc : Pc) :
    Called env node d pc (ingestCall env node d pc).1 (ingestCall env node d pc).2 := by
  cases pc with
  | existsCheck =>
    simp only [ingestCall]
    split
    · exact .finished _ _ _ rfl rfl
    · exact .absent
  | readLink => exact .read
  | verify previous =>
    simp only [ingestCall]
    split
    · exact .finished _ _ _ rfl rfl
    · exact .verified previous ‹_›
  | recordLink => exact .recorded
  | append =>
    simp only [ingestCall]
    split
    · exact .finished _ _ _ rfl rfl
    · split
      · exact .appended _
      · exact .finished _ _ _ rfl rfl
  | recordIngest | done => exact .finished _ _ _ rfl rfl

/-- The state in which run `i` has moved. -/
def Fed.moved (s : Fed) (i : Nat) (r : IngestRun) (node : Node) (pc : Pc) : Fed :=
  { node := node, runs := s.runs.set i { r with pc := pc } }

theorem fedNext_call (hi : s.runs[i]? = some r) :
    fedNext env s (.call i) = s.moved i r (ingestCall env s.node r.delivery r.pc).1
      (ingestCall env s.node r.delivery r.pc).2 := by
  simp only [fedNext, hi, Fed.moved]

theorem abs_moved (s : Fed) (i : Nat) (r : IngestRun) (node : Node) (pc : Pc) :
    (s.moved i r node pc).abs =
      { mark := markOf node, acted := ingestedPairs node
        runs := s.abs.runs.set i { r.abs with phase := pc.phase } } := by
  simp only [Fed.abs, Fed.moved, map_set]
  rfl

theorem abs_get (hi : s.runs[i]? = some r) : s.abs.runs[i]? = some r.abs := by
  simp [Fed.abs, hi]

/-- **Every call is a step of the pattern.** -/
theorem call_simulates (hs : Hashed s) (hi : s.runs[i]? = some r)
    (halone : readsAlone s (.call i) = true) (hcall : Called env s.node r.delivery r.pc node pc) :
    Watermark.Step s.abs (s.moved i r node pc).abs := by
  rw [abs_moved]
  have hget := abs_get hi
  generalize hpc : r.pc = before at hcall
  have hphase : r.abs.phase = before.phase := by rw [← hpc]; rfl
  cases hcall with
  | absent =>
    -- the counter moves, the phase does not
    have hset : s.abs.runs.set i { r.abs with phase := Pc.readLink.phase } = s.abs.runs := by
      obtain ⟨hlt, hat⟩ := List.getElem?_eq_some_iff.mp hget
      have hsame : ({ r.abs with phase := Pc.readLink.phase } : Watermark.Run PeerId Int) =
          s.abs.runs[i] := by
        rw [hat, show Pc.readLink.phase = r.abs.phase from hphase.symm]
      rw [hsame]
      exact set_getElem_self hlt
    rw [hset]
    exact .stay
  | read =>
    exact .read i r.abs _ hget (lastVerifiedLink_ge hs r.delivery.peer.id)
      (readsAlone_spec hi hpc halone)
  | verified previous h =>
    refine .pass i r.abs _ hget hphase ?_
    intro m hm
    obtain ⟨prev, hprev, rfl⟩ := map_eq_some_iff.mp hm
    have hlt := (verifyPeerLink_spec h).1 prev hprev
    rw [r.delivery.link_id] at hlt
    exact hlt
  | recorded =>
    obtain ⟨hgrow, hcov⟩ := recordVerifiedLink_raises s.node r.delivery.peer.id
      r.delivery.envelope.event.link
    rw [r.delivery.link_id] at hcov
    exact .raise i r.abs _ hget hphase hgrow hcov
  | appended event =>
    have hlog : ingestedPairs (appendFederatedEvent s.node r.delivery event) =
        s.abs.acted ++ [(r.abs.source, r.abs.item)] := by
      simp [ingestedPairs, appendFederatedEvent, Fed.abs, IngestRun.abs]
    rw [hlog]
    exact .act i r.abs hget hphase
  | finished _ _ result hlink hlog =>
    have hmark : markOf node = s.abs.mark := by
      funext p
      simp only [markOf, hlink, Fed.abs]
    have hacted : ingestedPairs node = s.abs.acted := by
      simp only [ingestedPairs, hlog, Fed.abs]
    rw [hmark, hacted]
    exact .stop i r.abs hget

/-- A run that has moved keeps the links hashed, if what it wrote and where it stands is. -/
theorem Hashed.moved (h : Hashed s)
    (hlinks : ∀ peer row, node.verifiedLink.get? peer = some row → row.originContentHash ≠ "")
    (hrun : pc = .recordLink → r.delivery.envelope.event.link.contentHash ≠ "") :
    Hashed (s.moved i r node pc) := by
  refine ⟨hlinks, ?_⟩
  intro j r' hj hpc
  rcases Watermark.get_set hj with ⟨-, rfl⟩ | ⟨-, hj⟩
  · exact hrun hpc
  · exact h.runs j r' hj hpc

/-- **One call keeps the links hashed.** -/
theorem Hashed.called (h : Hashed s) (hi : s.runs[i]? = some r)
    (hcall : Called env s.node r.delivery r.pc node pc) : Hashed (s.moved i r node pc) := by
  generalize hpc : r.pc = before at hcall
  cases hcall with
  | absent | read => exact h.moved h.links (fun hpc => by cases hpc)
  | verified previous hok => exact h.moved h.links (fun _ => (verifyPeerLink_spec hok).2)
  | recorded =>
    refine h.moved ?_ (fun hpc => by cases hpc)
    intro peer row hrow
    rcases recordVerifiedLink_get s.node r.delivery.peer.id r.delivery.envelope.event.link
      peer with hsame | ⟨_, _, hnew⟩
    · rw [hsame] at hrow
      exact h.links peer row hrow
    · rw [hnew] at hrow
      cases hrow
      exact h.runs i r hi hpc
  | appended => exact h.moved h.links (fun hpc => by cases hpc)
  | finished _ _ result hlink =>
    refine h.moved ?_ (fun hpc => by cases hpc)
    rw [hlink]
    exact h.links

theorem Hashed.joined (h : Hashed s) (d : Delivery) :
    Hashed { s with runs := s.runs ++ [{ delivery := d }] } := by
  refine ⟨h.links, ?_⟩
  intro j r hj hpc
  rcases Nat.lt_or_ge j s.runs.length with hlt | hge
  · rw [getElem?_append_left hlt] at hj
    exact h.runs j r hj hpc
  · rw [getElem?_append_right hge] at hj
    rw [mem_singleton.mp (mem_of_getElem? hj)] at hpc
    cases hpc

/-- **Every act is a step of the pattern**, if a run that reads the link has no contender, and keeps
the links hashed. -/
theorem fedNext_simulates (env : HashEnv) (hs : Hashed s) (halone : readsAlone s act = true) :
    Hashed (fedNext env s act) ∧ Watermark.Step s.abs (fedNext env s act).abs := by
  cases act with
  | deliver =>
    simp only [fedNext]
    split
    · exact ⟨hs, .stay⟩
    · rename_i d _
      have habs : Fed.abs { s with runs := s.runs ++ [{ delivery := d }] } =
          { s.abs with runs := s.abs.runs ++ [IngestRun.abs { delivery := d }] } := by
        simp [Fed.abs]
      rw [habs]
      exact ⟨hs.joined d, .join _ rfl⟩
  | call i =>
    cases hi : s.runs[i]? with
    | none =>
      simp only [fedNext, hi]
      exact ⟨hs, .stay⟩
    | some r =>
      have hcall := ingestCall_called env s.node r.delivery r.pc
      rw [fedNext_call hi]
      exact ⟨hs.called hi hcall, call_simulates hs hi halone hcall⟩
  | fail i =>
    cases hi : s.runs[i]? with
    | none =>
      simp only [fedNext, hi]
      exact ⟨hs, .stay⟩
    | some r =>
      have hmoved : fedNext env s (.fail i) = s.moved i r s.node (.done (.error .store)) := by
        simp only [fedNext, hi, Fed.moved]
      rw [hmoved, abs_moved]
      exact ⟨hs.moved hs.links nofun, .stop i r.abs (abs_get hi)⟩
  | appendLocal workspace event =>
    have habs : (fedNext env s (.appendLocal workspace event)).abs = s.abs := by
      simp only [fedNext, Fed.abs, ingestedPairs, filterMap_append, filterMap_cons,
        filterMap_nil, append_nil]
      rfl
    rw [habs]
    exact ⟨⟨hs.links, hs.runs⟩, .stay⟩

/-! ## 2. At most once -/

/-- What holds along a disciplined schedule. -/
structure FedInv (s : Fed) : Prop where
  hashed : Hashed s
  watermark : Watermark.Inv s.abs

theorem FedInv.start : FedInv {} where
  hashed := by
    refine ⟨?_, ?_⟩
    · intro peer row hrow
      cases hrow
    · intro i r hi
      simp at hi
  watermark := Watermark.Inv.start _

/-- **An event of a peer is appended at most once** by every schedule in which no run reads the
last verified link while another run of the same event stands between its read and its record. -/
theorem ingest_at_most_once (env : HashEnv) (acts : List FedAct)
    (hsafe : Meets (fedNext env) (fun s act => readsAlone s act = true) {} acts) (peer : PeerId)
    (remoteEventId : Int) :
    (ingestedPairs (exec (fedNext env) {} acts).node).count (peer, remoteEventId) ≤ 1 := by
  have hstep : ∀ s act, FedInv s → readsAlone s act = true → FedInv (fedNext env s act) := by
    intro s act hinv halone
    obtain ⟨hhashed, hsim⟩ := fedNext_simulates env hinv.hashed halone
    exact ⟨hhashed, hinv.watermark.step hsim⟩
  have hend := exec_inv_of_meets hstep acts {} FedInv.start hsafe
  exact nodup_iff_count_le_one.mp hend.watermark.once (peer, remoteEventId)

/-! ## 3. Two schedules -/

/-- The first event of a peer's log. -/
def firstEnvelope : FederationEnvelope where
  originPeerId := ⟨1⟩
  remoteEventId := 1
  event :=
    { id := 1, lsn := 1, payload := samplePayload 1, prevHash := genesisHash sampleEnv,
      contentHash := encodeDigest (sampleEnv.sha256 (samplePayload 1)) }

def firstPeer : Peer := { id := ⟨1⟩, workspaceId := ⟨1⟩ }

/-- The push and the poll both deliver the event; the second run starts its read once the first
has recorded the link, and breaks off. -/
def apartActs : List FedAct :=
  [.deliver firstPeer firstEnvelope, .deliver firstPeer firstEnvelope, .call 0, .call 1, .call 0,
   .call 0, .call 0, .call 1, .call 1, .call 0, .call 0]

theorem ingest_at_most_once_apart :
    (ingestedPairs (exec (fedNext sampleEnv) {} apartActs).node).count (⟨1⟩, 1) ≤ 1 :=
  ingest_at_most_once sampleEnv apartActs (by decide +kernel) ⟨1⟩ 1

/-- Both runs read the link before either records it. -/
def togetherActs : List FedAct :=
  [.deliver firstPeer firstEnvelope, .deliver firstPeer firstEnvelope, .call 0, .call 1, .call 0,
   .call 1, .call 0, .call 1, .call 0, .call 1, .call 0, .call 1, .call 0, .call 1]

/-- **One event of the peer, two rows in the log.** -/
theorem two_runs_append_twice :
    (ingestedPairs (exec (fedNext sampleEnv) {} togetherActs).node).count (⟨1⟩, 1) = 2 := by
  decide +kernel

end Maidan
