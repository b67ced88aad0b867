/-
# A federated tombstone -- if the words have not been overtaken

A message that its origin tombstones is shredded here when the tombstone is ingested.  The words of
the message come before the tombstone in the origin's log, and the verified link lets nothing pass
that lies behind it.  So the words should not be able to land after their own tombstone.

They can.  `ingest_envelope` records the verified link BEFORE it appends.  A run that has recorded the
link of the post and not yet appended it can be overtaken by the run of the tombstone: that one finds
no key to shred, and the post, appended after it, makes a live one (`overtaken_words_live`).

The machine is that of `Federation.Ingest`, with the store of `Keys.Store` behind the appends
(`keyedNext`).  §3 has the result for the schedules in which a tombstone that finds no key has no
words standing between their read of the link and their append: behind the link that the tombstone
itself has recorded, nobody who reads later passes (`Called.holds`).
-/
import Maidan.Federation.AtMostOnce
import Maidan.Federation.Poll
import Maidan.Keys.Rotation

namespace Maidan

open Relational Run List

variable {κ β ω σ : Type}

/-! ## 1. Ingest with content keys -/

/-- The node, the runs on it, the content key that came with the envelope of each run, and the store
that the appends go to. -/
structure KeyedFed (κ β ω σ : Type) where
  fed : Fed := {}
  sent : Nat → Option κ := fun _ => none
  store : Store κ β ω σ := {}

/-- What can happen next. -/
inductive KeyedAct (κ ω σ : Type)
  /-- The origin's event number `index` is delivered, once more or for the first time, with its key
  or without. -/
  | deliver (index : Nat) (contentKey : Option κ)
  | call (run : Nat) (occurredAt : Int) (refuses : Refusals)
  | fail (run : Nat)
  /-- The store is used by others; a federated append is made by a run. -/
  | store (op : StoreOp κ ω σ)

/-- What the machine is run with: the hashes and the kinds of the origin's payloads, how content keys
read them, and what the store computes with. -/
structure KeyedEnv (κ β ω σ : Type) where
  env : HashEnv
  reads : String → MessageEvent ω σ
  cipher : Cipher κ β ω σ
  keys : ContentKeyring κ β
  logEnv : HashEnv (MessageEvent ω σ)
  uuid : ContentKeyId → Nat

variable (x : KeyedEnv κ β ω σ) (peer : Peer) (origin : OriginLog x.env)

/-- The append of a run, `publish_federated`. -/
def publishFederated (s : KeyedFed κ β ω σ) (i : Nat) (d : Delivery) (occurredAt : Int)
    (refuses : Refusals) : Except KeyError (Store κ β ω σ) :=
  appendFederated x.cipher x.keys x.logEnv refuses s.store d.peer
    (x.reads d.envelope.event.payload) (s.sent i) occurredAt

/-- Whether the next call of the run is an append to the log. -/
def IngestRun.publishes (env : HashEnv) (r : IngestRun) : Bool :=
  match r.pc with
  | .append => federates env r.delivery.envelope.event
  | _ => false

/-- **One act.**  Where a run appends, the store has to accept it. -/
def keyedNext (s : KeyedFed κ β ω σ) : KeyedAct κ ω σ → KeyedFed κ β ω σ
  | .deliver index contentKey =>
    match origin.events[index]? with
    | none => s
    | some e =>
      { s with
        fed := fedNext x.env s.fed (.deliver peer (polledEnvelope peer e))
        sent := fun i => if i = s.fed.runs.length then contentKey else s.sent i }
  | .call i occurredAt refuses =>
    match s.fed.runs[i]? with
    | none => s
    | some r =>
      if r.publishes x.env then
        match publishFederated x s i r.delivery occurredAt refuses with
        | .ok store => { s with fed := fedNext x.env s.fed (.call i), store := store }
        | .error _ => { s with fed := fedNext x.env s.fed (.fail i) }
      else { s with fed := fedNext x.env s.fed (.call i) }
  | .fail i => { s with fed := fedNext x.env s.fed (.fail i) }
  | .store (.appendFederated _ _ _ _ _) => s
  | .store op => { s with store := storeNext x.cipher x.keys x.logEnv x.uuid s.store op }

/-- The event carries words of the message. -/
def wordsOf (message : MessageId) (e : StoredEvent) : Bool :=
  match x.reads e.payload with
  | .content _ _ m _ _ => m == message
  | _ => false

/-- The event is the message's tombstone. -/
def tombstoneOf (message : MessageId) (e : StoredEvent) : Bool :=
  match x.reads e.payload with
  | .messageTombstoned _ m => m == message
  | _ => false

/-- Run `i` carries words of the message that its key opens. -/
def KeyedFed.openWords (s : KeyedFed κ β ω σ) (message : MessageId) (i : Nat) (r : IngestRun) :
    Bool :=
  match openPayload x.cipher (s.sent i) (x.reads r.delivery.envelope.event.payload) with
  | .ok (.content _ _ m _ none) => m == message
  | _ => false

/-- From the read of the link that lets it pass to its append. -/
def Pc.holds (item : Int) : Pc → Bool
  | .verify previous => previous.all fun link => link.id < item
  | .recordLink | .append => true
  | _ => false

def IngestRun.holds (r : IngestRun) : Bool := r.pc.holds r.delivery.envelope.remoteEventId

/-- **The discipline.**  A run about to append a tombstone finds the message's key row, or no run
stands with words of the message between its read of the link and its append. -/
def tombstoneAlone (s : KeyedFed κ β ω σ) : KeyedAct κ ω σ → Bool
  | .call i _ _ =>
    match s.fed.runs[i]? with
    | some r =>
      match r.publishes x.env, x.reads r.delivery.envelope.event.payload with
      | true, .messageTombstoned _ message =>
        (s.store.tables.status ⟨some r.delivery.peer.id, message⟩).isSome ||
          (List.range s.fed.runs.length).all fun j =>
            !(s.fed.runs[j]?.any fun r' => r'.holds && s.openWords x message j r')
      | _, _ => true
    | none => true
  | _ => true

/-! ## 2. What one act does -/

variable {s : KeyedFed κ β ω σ} {i : Nat} {r : IngestRun} {occurredAt : Int} {refuses : Refusals}

theorem fedNext_publishes {s : Fed} (hi : s.runs[i]? = some r) (hpub : r.publishes env = true) :
    r.pc = .append ∧ ∃ event, fedNext env s (.call i) =
      s.moved i r (appendFederatedEvent s.node r.delivery event) (.recordIngest (nextLogId s.node)) := by
  obtain ⟨d, pc⟩ := r
  cases pc with
  | append =>
    refine ⟨rfl, ?_⟩
    rw [fedNext_call hi]
    simp only [IngestRun.publishes, federates] at hpub
    simp only [ingestCall]
    split at hpub
    · rename_i event hopened
      rw [hopened]
      simp only [hpub, if_true]
      exact ⟨event, rfl⟩
    · cases hpub
  | _ => cases hpub

theorem ingestCall_log (node : Node) (hpub : r.publishes env = false) :
    (ingestCall env node r.delivery r.pc).1.log = node.log := by
  obtain ⟨d, pc⟩ := r
  cases pc with
  | existsCheck =>
    simp only [ingestCall]
    split <;> rfl
  | readLink => rfl
  | verify =>
    simp only [ingestCall]
    split <;> rfl
  | recordLink => rfl
  | append =>
    simp only [IngestRun.publishes, federates] at hpub
    simp only [ingestCall]
    split
    · rfl
    · rename_i event hopened
      simp only [hopened] at hpub
      simp [hpub]
  | recordIngest | done => rfl

/-- **What one act can do.** -/
inductive KeyedStepped (s : KeyedFed κ β ω σ) : KeyedAct κ ω σ → KeyedFed κ β ω σ → Prop
  | stayed {act : KeyedAct κ ω σ} {sent : Nat → Option κ}
      (hsent : ∀ i, i < s.fed.runs.length → sent i = s.sent i) :
      KeyedStepped s act { s with sent := sent }
  | joined {index : Nat} {contentKey : Option κ} {e : StoredEvent} {d : Delivery}
      {sent : Nat → Option κ} (he : e ∈ origin.events)
      (hd : accept peer (polledEnvelope peer e) = .ok d)
      (hsent : ∀ i, i < s.fed.runs.length → sent i = s.sent i) :
      KeyedStepped s (.deliver index contentKey)
        { s with fed := { s.fed with runs := s.fed.runs ++ [{ delivery := d }] }, sent := sent }
  | moved {act : KeyedAct κ ω σ} {i : Nat} {r : IngestRun} {node : Node} {pc : Pc}
      (hi : s.fed.runs[i]? = some r) (hcall : Called x.env s.fed.node r.delivery r.pc node pc)
      (hlog : node.log = s.fed.node.log) :
      KeyedStepped s act { s with fed := s.fed.moved i r node pc }
  | published {i : Nat} {occurredAt : Int} {refuses : Refusals} {r : IngestRun} {event : Event}
      {store : Store κ β ω σ} (hi : s.fed.runs[i]? = some r) (hpub : r.publishes x.env = true)
      (hpc : r.pc = .append)
      (hstore : publishFederated x s i r.delivery occurredAt refuses = .ok store) :
      KeyedStepped s (.call i occurredAt refuses)
        { s with
          fed := s.fed.moved i r (appendFederatedEvent s.fed.node r.delivery event)
            (.recordIngest (nextLogId s.fed.node))
          store := store }
  | stored {op : StoreOp κ ω σ}
      (hlocal : ∀ event origin, op.appends x.cipher = some (event, origin) → origin = none) :
      KeyedStepped s (.store op)
        { s with store := storeNext x.cipher x.keys x.logEnv x.uuid s.store op }

theorem keyedNext_stepped (s : KeyedFed κ β ω σ) (act : KeyedAct κ ω σ) :
    KeyedStepped x peer origin s act (keyedNext x peer origin s act) := by
  have hfail : ∀ {act : KeyedAct κ ω σ} i,
      KeyedStepped x peer origin s act { s with fed := fedNext x.env s.fed (.fail i) } := by
    intro act i
    cases hi : s.fed.runs[i]? with
    | none =>
      simp only [fedNext, hi]
      exact .stayed fun _ _ => rfl
    | some =>
      simp only [fedNext, hi]
      exact .moved hi (.finished _ _ _ rfl rfl) rfl
  cases act with
  | deliver index contentKey =>
    simp only [keyedNext]
    split
    · exact .stayed fun _ _ => rfl
    · rename_i e he
      have hsent : ∀ i, i < s.fed.runs.length →
          (if i = s.fed.runs.length then contentKey else s.sent i) = s.sent i :=
        fun i hi => if_neg (Nat.ne_of_lt hi)
      cases hd : accept peer (polledEnvelope peer e) with
      | error =>
        simp only [fedNext, hd]
        exact .stayed hsent
      | ok =>
        simp only [fedNext, hd]
        exact .joined (mem_of_getElem? he) hd hsent
  | call i =>
    simp only [keyedNext]
    split
    · exact .stayed fun _ _ => rfl
    · rename_i r hi
      split
      · rename_i hpub
        split
        · rename_i store hstore
          obtain ⟨hpc, event, hnext⟩ := fedNext_publishes hi hpub
          rw [hnext]
          exact .published hi hpub hpc hstore
        · exact hfail i
      · rename_i hpub
        rw [fedNext_call hi]
        exact .moved hi (ingestCall_called x.env s.fed.node r.delivery r.pc)
          (ingestCall_log s.fed.node (by simpa using hpub))
  | fail i => exact hfail i
  | store op =>
    cases op with
    | appendFederated => exact .stayed fun _ _ => rfl
    | append =>
      refine .stored ?_
      intro event' origin' h
      cases h
      rfl
    | _ =>
      refine .stored ?_
      intro event' origin' h
      cases h

/-! ## 3. Behind the link -/

section Calls

variable {env : HashEnv} {node node' : Node} {d : Delivery} {pc pc' : Pc}

theorem called_append (env : HashEnv) (node : Node) (event : Event) (hpc : r.pc = .append) :
    Called env node r.delivery r.pc (appendFederatedEvent node r.delivery event)
      (.recordIngest (nextLogId node)) := by
  rw [hpc]
  exact .appended event

theorem Called.mark_grows (h : Called env node d pc node' pc')
    (hcov : Watermark.Covered (markOf node p) item) : Watermark.Covered (markOf node' p) item := by
  cases h with
  | recorded => exact (recordVerifiedLink_raises node d.peer.id d.envelope.event.link).1 p item hcov
  | finished _ _ result hlink =>
    simp only [markOf, hlink]
    exact hcov
  | _ => exact hcov

theorem Called.marked (h : Called env node d pc node' pc') (hpc : pc' = .append) :
    Watermark.Covered (markOf node' d.peer.id) d.envelope.remoteEventId := by
  cases h with
  | recorded =>
    rw [← d.link_id]
    exact (recordVerifiedLink_raises node d.peer.id d.envelope.event.link).2
  | _ => cases hpc

/-- **Whoever reads the link behind it does not pass.** -/
theorem Called.holds {s : Fed} (hs : Hashed s) (h : Called env s.node d pc node' pc')
    (hholds : pc'.holds d.envelope.remoteEventId = true) :
    pc.holds d.envelope.remoteEventId = true ∨
      ¬Watermark.Covered (markOf s.node d.peer.id) d.envelope.remoteEventId := by
  cases h with
  | absent => cases hholds
  | read =>
    refine .inr ?_
    rintro ⟨low, hlow, hle⟩
    obtain ⟨m, hm, hlm⟩ := lastVerifiedLink_ge hs d.peer.id low hlow
    obtain ⟨link, hlink, rfl⟩ := map_eq_some_iff.mp hm
    simp only [Pc.holds, hlink, Option.all_some, decide_eq_true_eq] at hholds
    omega
  | verified previous hok =>
    refine .inl ?_
    simp only [Pc.holds, Option.all_eq_true, decide_eq_true_eq]
    intro link hlink
    have hlt := (verifyPeerLink_spec hok).1 link hlink
    rwa [d.link_id] at hlt
  | recorded => exact .inl rfl
  | appended | finished => cases hholds

end Calls

/-! ## 4. What an append makes of the key -/

section Tombstone

variable {x : KeyedEnv κ β ω σ} {peer : Peer} {origin : OriginLog x.env} {message : MessageId}

theorem KeyedFed.wordsOf_of_openWords (h : s.openWords x message i r = true) :
    wordsOf x message r.delivery.envelope.event = true := by
  unfold KeyedFed.openWords at h
  unfold wordsOf
  cases hreads : x.reads r.delivery.envelope.event.payload with
  | content kind workspace m words sealed =>
    rw [hreads] at h
    cases sealed with
    | none => exact h
    | some block =>
      cases hkey : s.sent i with
      | none => simp [hkey, openPayload] at h
      | some key =>
        cases hopen : x.cipher.openWords key m block with
        | none => simp [hkey, openPayload, hopen, authenticated, bind, Except.bind] at h
        | some => simpa [hkey, openPayload, hopen, authenticated, bind, Except.bind] using h
  | messageTombstoned | other => simp [hreads, openPayload] at h

/-- **The append of a run**: it leaves the state of a message's key, or shreds it, or makes a key for
words that opened. -/
theorem publishFederated_status (hlaw : x.keys.custody.Lawful) (hknown : Known s.store.tables)
    (h : publishFederated x s i r.delivery occurredAt refuses = .ok store) (message : MessageId) :
    Known store.tables ∧ (store.tables.status ⟨some r.delivery.peer.id, message⟩ =
          s.store.tables.status ⟨some r.delivery.peer.id, message⟩ ∨
        store.tables.status ⟨some r.delivery.peer.id, message⟩ = some false ∨
        (s.store.tables.status ⟨some r.delivery.peer.id, message⟩ = none ∧
          s.openWords x message i r = true)) := by
  obtain ⟨event, hopen, h⟩ := bind_ok h
  obtain ⟨s1, payload, contentKeyId, log, row, hprepared, -, rfl⟩ :=
    appendWithKeys_eq_ok hlaw hknown h
  refine ⟨hprepared.moves.1.known hknown, ?_⟩
  refine (hprepared.status ⟨some r.delivery.peer.id, message⟩).imp_right (Or.imp_right ?_)
  rintro ⟨hnone, workspace, hplan⟩
  refine ⟨hnone, ?_⟩
  unfold KeyedFed.openWords
  rw [sealing_eq_ok.mp hopen]
  cases event with
  | content =>
    simp only [remapEventWorkspace, Plan.forEvent, Plan.sealFor.injEq, ContentKeyId.mk.injEq,
      Option.isSome_eq_false_iff, isNone_iff_eq_none] at hplan
    obtain ⟨⟨-, rfl⟩, -, rfl⟩ := hplan
    simp
  | messageTombstoned | other => cases hplan

/-- **The append of a tombstone** shreds the key that is there. -/
theorem publishFederated_tombstone (hlaw : x.keys.custody.Lawful) (hknown : Known s.store.tables)
    (h : publishFederated x s i d occurredAt refuses = .ok store)
    (htomb : tombstoneOf x message d.envelope.event = true) :
    store.tables.status ⟨some d.peer.id, message⟩ =
      (s.store.tables.status ⟨some d.peer.id, message⟩).map fun _ => false := by
  obtain ⟨event, hopen, h⟩ := bind_ok h
  obtain ⟨s1, payload, contentKeyId, log, row, hprepared, -, rfl⟩ :=
    appendWithKeys_eq_ok hlaw hknown h
  unfold tombstoneOf at htomb
  split at htomb
  · rename_i workspace m hreads
    obtain rfl : m = message := beq_iff_eq.mp htomb
    rw [hreads] at hopen
    cases sealing_eq_ok.mp hopen
    cases hprepared
    exact status_shred_self s.store.tables _
  · cases htomb

/-! ## 5. The invariant -/

/-- **The tombstone number `id` has been appended**: the message's key is shredded; or there is none,
nobody stands with words of the message past the link, and the link has passed the tombstone. -/
def Buried (x : KeyedEnv κ β ω σ) (peer : Peer) (message : MessageId) (s : KeyedFed κ β ω σ)
    (id : Int) : Prop :=
  s.store.tables.status ⟨some peer.id, message⟩ = some false ∨
    (s.store.tables.status ⟨some peer.id, message⟩ = none ∧
      Watermark.Covered (markOf s.fed.node peer.id) id ∧
      ∀ (i : Nat) (r : IngestRun), s.fed.runs[i]? = some r → r.holds = true →
        s.openWords x message i r = false)

structure TombInv (x : KeyedEnv κ β ω σ) (peer : Peer) (origin : OriginLog x.env)
    (message : MessageId) (s : KeyedFed κ β ω σ) : Prop where
  hashed : Hashed s.fed
  known : Known s.store.tables
  delivered : ∀ (i : Nat) (r : IngestRun), s.fed.runs[i]? = some r →
    r.delivery.peer = peer ∧ r.delivery.envelope.event ∈ origin.events
  marked : ∀ (i : Nat) (r : IngestRun), s.fed.runs[i]? = some r → r.pc = .append →
    Watermark.Covered (markOf s.fed.node peer.id) r.delivery.envelope.remoteEventId
  buried : ∀ e ∈ origin.events, tombstoneOf x message e = true →
    (peer.id, e.id) ∈ ingestedPairs s.fed.node → Buried x peer message s e.id

theorem TombInv.start : TombInv x peer origin message {} where
  hashed := FedInv.start.hashed
  known := by
    intro id hid
    cases hid
  delivered := by
    intro i r hi
    simp at hi
  marked := by
    intro i r hi
    simp at hi
  buried := by
    intro e _ _ hin
    cases hin

theorem accept_eq_ok (h : accept peer envelope = .ok d) :
    d.peer = peer ∧ d.envelope = envelope := by
  unfold accept at h
  split at h
  · cases h
  split at h
  · cases h
    exact ⟨rfl, rfl⟩
  · cases h

/-- **The words of the message come before its tombstone** in the origin's log. -/
def WordsFirst (x : KeyedEnv κ β ω σ) (origin : OriginLog x.env) (message : MessageId) : Prop :=
  ∀ e ∈ origin.events, ∀ e' ∈ origin.events, wordsOf x message e = true →
    tombstoneOf x message e' = true → e.id < e'.id

/-- **A run that has moved** holds no words that would not have passed before. -/
theorem Buried.moved (hfirst : WordsFirst x origin message) (h : TombInv x peer origin message s)
    (he : e ∈ origin.events) (htomb : tombstoneOf x message e = true) (hi : s.fed.runs[i]? = some r)
    (hcall : Called x.env s.fed.node r.delivery r.pc node pc)
    (hburied : Buried x peer message s e.id) :
    Buried x peer message { s with fed := s.fed.moved i r node pc } e.id := by
  refine hburied.imp_right ?_
  rintro ⟨hnone, hcov, hfree⟩
  refine ⟨hnone, hcall.mark_grows hcov, ?_⟩
  intro j r' hj hholds
  rcases Watermark.get_set hj with ⟨rfl, rfl⟩ | ⟨-, hj⟩
  · by_contra hwords
    have hwords : s.openWords x message j r = true := Bool.eq_true_of_not_eq_false hwords
    obtain ⟨hpeer, hevent⟩ := h.delivered j r hi
    have hlt := hfirst _ hevent e he (KeyedFed.wordsOf_of_openWords hwords) htomb
    rw [← r.delivery.remote_eq] at hlt
    rcases hcall.holds h.hashed hholds with hbefore | hpassed
    · rw [hfree j r hi hbefore] at hwords
      cases hwords
    · -- the run would have read a link that the tombstone has passed
      obtain ⟨m, hm, hle⟩ := hcov
      refine hpassed ⟨m, ?_, hlt.le.trans hle⟩
      rw [hpeer]
      exact hm
  · exact hfree j r' hj hholds

theorem TombInv.moved (h : TombInv x peer origin message s) (hi : s.fed.runs[i]? = some r)
    (hcall : Called x.env s.fed.node r.delivery r.pc node pc) : Hashed (s.fed.moved i r node pc) ∧
      (∀ (j : Nat) (r' : IngestRun), (s.fed.moved i r node pc).runs[j]? = some r' →
        r'.delivery.peer = peer ∧ r'.delivery.envelope.event ∈ origin.events) ∧
      ∀ (j : Nat) (r' : IngestRun), (s.fed.moved i r node pc).runs[j]? = some r' → r'.pc = .append →
        Watermark.Covered (markOf node peer.id) r'.delivery.envelope.remoteEventId := by
  refine ⟨h.hashed.called hi hcall, ?_, ?_⟩
  · intro j r' hj
    rcases Watermark.get_set hj with ⟨-, rfl⟩ | ⟨-, hj⟩
    · exact h.delivered i r hi
    · exact h.delivered j r' hj
  · intro j r' hj hpc
    rcases Watermark.get_set hj with ⟨-, rfl⟩ | ⟨-, hj⟩
    · have hmarked := hcall.marked hpc
      rwa [(h.delivered i r hi).1] at hmarked
    · exact hcall.mark_grows (h.marked j r' hj hpc)

theorem tombstoneAlone_spec (hi : s.fed.runs[i]? = some r) (hpub : r.publishes x.env = true)
    (htomb : tombstoneOf x message r.delivery.envelope.event = true)
    (h : tombstoneAlone x s (.call i occurredAt refuses) = true)
    (hnone : s.store.tables.status ⟨some r.delivery.peer.id, message⟩ = none) :
    ∀ (j : Nat) (r' : IngestRun), s.fed.runs[j]? = some r' → r'.holds = true →
      s.openWords x message j r' = false := by
  intro j r' hj hholds
  unfold tombstoneOf at htomb
  split at htomb
  · rename_i workspace m hreads
    obtain rfl : m = message := beq_iff_eq.mp htomb
    simp only [tombstoneAlone, hi, hpub, hreads, hnone, Option.isSome_none, Bool.false_or,
      List.all_eq_true, List.mem_range] at h
    have hj' := h j (List.getElem?_eq_some_iff.mp hj).1
    simpa [hj, hholds] using hj'
  · cases htomb

theorem Buried.store {id : Int} {store : Store κ β ω σ}
    (hstatus : store.tables.status ⟨some peer.id, message⟩ =
        s.store.tables.status ⟨some peer.id, message⟩ ∨
      store.tables.status ⟨some peer.id, message⟩ = some false)
    (hburied : Buried x peer message s id) :
    Buried x peer message { s with store := store } id := by
  rcases hstatus with hsame | hgone
  · unfold Buried
    rw [hsame]
    exact hburied
  · exact .inl hgone

/-- **An append keeps a tombstone buried**: the one that would make a key anew holds words. -/
theorem TombInv.buried_published (hlaw : x.keys.custody.Lawful)
    (hfirst : WordsFirst x origin message) (h : TombInv x peer origin message s) {event : Event}
    (hi : s.fed.runs[i]? = some r) (hpub : r.publishes x.env = true) (hpc : r.pc = .append)
    (hstore : publishFederated x s i r.delivery occurredAt refuses = .ok store)
    (halone : tombstoneAlone x s (.call i occurredAt refuses) = true) (he : e ∈ origin.events)
    (htomb : tombstoneOf x message e = true) (hpair : (peer.id, e.id) ∈
      ingestedPairs (appendFederatedEvent s.fed.node r.delivery event)) : Buried x peer message
      { s with
        fed := s.fed.moved i r (appendFederatedEvent s.fed.node r.delivery event)
          (.recordIngest (nextLogId s.fed.node))
        store := store } e.id := by
  obtain ⟨hpeer, hevent⟩ := h.delivered i r hi
  have hcall := called_append x.env s.fed.node event hpc
  have hstatus := (publishFederated_status hlaw h.known hstore message).2
  rw [hpeer] at hstatus
  have hpairs : (peer.id, e.id) ∈ ingestedPairs s.fed.node ∨
      (peer.id, e.id) = (r.delivery.peer.id, r.delivery.envelope.remoteEventId) := by
    simpa [ingestedPairs, appendFederatedEvent] using hpair
  rcases hpairs with hold | hnew
  · -- the tombstone was there before
    have hburied := h.buried e he htomb hold
    refine (hburied.moved hfirst h he htomb hi hcall).store ?_
    rcases hstatus with hsame | hgone | ⟨hnone, hwords⟩
    · exact .inl hsame
    · exact .inr hgone
    · rcases hburied with hgone | ⟨-, -, hfree⟩
      · rw [hgone] at hnone
        cases hnone
      · have hholds : r.holds = true := by
          simp only [IngestRun.holds, hpc, Pc.holds]
        rw [hfree i r hi hholds] at hwords
        cases hwords
  · -- this is the tombstone
    have hid : e.id = r.delivery.envelope.event.id := by
      rw [← r.delivery.remote_eq]
      exact (Prod.mk.inj hnew).2
    obtain rfl := origin.increasing.eq_of_key he hevent hid
    have hshred := publishFederated_tombstone hlaw h.known hstore htomb
    rw [hpeer] at hshred
    cases hbefore : s.store.tables.status ⟨some peer.id, message⟩ with
    | some =>
      rw [hbefore] at hshred
      exact .inl hshred
    | none =>
      rw [hbefore] at hshred
      have hcov := h.marked i r hi hpc
      rw [r.delivery.remote_eq] at hcov
      have hfree := tombstoneAlone_spec hi hpub htomb halone (by rw [hpeer]; exact hbefore)
      have hburied : Buried x peer message s r.delivery.envelope.event.id :=
        .inr ⟨hbefore, hcov, hfree⟩
      refine (hburied.moved hfirst h he htomb hi hcall).store ?_
      exact .inl (hshred.trans hbefore.symm)

theorem storeNext_status (hlaw : x.keys.custody.Lawful) {s : Store κ β ω σ}
    (hknown : Known s.tables)
    (hlocal : ∀ event origin, op.appends x.cipher = some (event, origin) → origin = none) :
    let s' := storeNext x.cipher x.keys x.logEnv x.uuid s op
    Known s'.tables ∧ (s'.tables.status ⟨some peer.id, message⟩ =
        s.tables.status ⟨some peer.id, message⟩ ∨
      s'.tables.status ⟨some peer.id, message⟩ = some false) := by
  have hstep : Stepped x.cipher x.keys x.logEnv s op _ := storeNext_stepped hlaw x.uuid hknown op
  refine ⟨hstep.moves.known hknown, ?_⟩
  generalize storeNext x.cipher x.keys x.logEnv x.uuid s op = s' at hstep ⊢
  cases hstep with
  | refused => exact .inl rfl
  | appended hevent hprepared =>
    obtain rfl := hlocal _ _ hevent
    rcases hprepared.status ⟨some peer.id, message⟩ with hsame | hgone | ⟨-, workspace, hplan⟩
    · exact .inl hsame
    · exact .inr hgone
    · -- its words are words of this node
      have hpeer : some peer.id = none := (forEvent_sealFor hplan).1
      cases hpeer
  | shredded subject => exact (status_shred s.tables subject _).imp_right And.right
  | rotated hmoves hstatus => exact .inl (hstatus _)
  | rewrapped hmoves hstatus => exact .inl (hstatus _)
  | queuedWebhook | queuedEgress => exact .inl rfl
  | queuedMail sourceLogId =>
    rw [(queueMail_tables s sourceLogId).1]
    exact .inl rfl

theorem TombInv.joined {s : KeyedFed κ β ω σ} (h : TombInv x peer origin message s)
    {sent : Nat → Option κ} (hsent : ∀ i, i < s.fed.runs.length → sent i = s.sent i)
    {runs : List IngestRun} (hruns : ∀ (i : Nat) (r : IngestRun), runs[i]? = some r →
      s.fed.runs[i]? = some r ∨ (r.pc = .existsCheck ∧ r.delivery.peer = peer ∧
        r.delivery.envelope.event ∈ origin.events))
    (hhashed : Hashed { s.fed with runs := runs }) :
    TombInv x peer origin message { s with fed := { s.fed with runs := runs }, sent := sent } := by
  refine { h with hashed := hhashed, delivered := ?_, marked := ?_, buried := ?_ }
  · intro i r hi
    rcases hruns i r hi with hi | ⟨-, hnew⟩
    · exact h.delivered i r hi
    · exact hnew
  · intro i r hi hpc
    rcases hruns i r hi with hi | ⟨hidle, -⟩
    · exact h.marked i r hi hpc
    · rw [hidle] at hpc
      cases hpc
  · intro e he htomb hpair
    refine (h.buried e he htomb hpair).imp_right ?_
    rintro ⟨hnone, hcov, hfree⟩
    refine ⟨hnone, hcov, ?_⟩
    intro i r hi hholds
    rcases hruns i r hi with hi | ⟨hidle, -⟩
    · have hsame := hfree i r hi hholds
      simp only [KeyedFed.openWords, hsent i (List.getElem?_eq_some_iff.mp hi).1]
      exact hsame
    · simp [IngestRun.holds, hidle, Pc.holds] at hholds

/-- **Every act of the discipline keeps the tombstone buried.** -/
theorem tombInv_next (hlaw : x.keys.custody.Lawful) (hfirst : WordsFirst x origin message)
    {act : KeyedAct κ ω σ} (h : TombInv x peer origin message s)
    (halone : tombstoneAlone x s act = true) :
    TombInv x peer origin message (keyedNext x peer origin s act) := by
  have hstep := keyedNext_stepped x peer origin s act
  generalize keyedNext x peer origin s act = s' at hstep ⊢
  cases hstep with
  | stayed hsent => exact h.joined hsent (fun i r hi => .inl hi) h.hashed
  | @joined index contentKey e d sent he hd hsent =>
    obtain ⟨hpeer, henvelope⟩ := accept_eq_ok hd
    refine h.joined hsent ?_ (h.hashed.joined d)
    intro i r hi
    rcases Nat.lt_or_ge i s.fed.runs.length with hlt | hge
    · rw [getElem?_append_left hlt] at hi
      exact .inl hi
    · rw [getElem?_append_right hge] at hi
      obtain rfl := mem_singleton.mp (mem_of_getElem? hi)
      refine .inr ⟨rfl, hpeer, ?_⟩
      rw [henvelope]
      exact he
  | moved hi hcall hlog =>
    obtain ⟨hhashed, hdelivered, hmarked⟩ := h.moved hi hcall
    refine ⟨hhashed, h.known, hdelivered, hmarked, ?_⟩
    intro e he htomb hpair
    have hold : (peer.id, e.id) ∈ ingestedPairs s.fed.node := by
      simpa only [ingestedPairs, Fed.moved, hlog] using hpair
    exact (h.buried e he htomb hold).moved hfirst h he htomb hi hcall
  | @published i occurredAt refuses r event store hi hpub hpc hstore =>
    have hcall := called_append x.env s.fed.node event hpc
    obtain ⟨hhashed, hdelivered, hmarked⟩ := h.moved hi hcall
    refine ⟨hhashed, (publishFederated_status hlaw h.known hstore message).1, hdelivered, hmarked, ?_⟩
    intro e he htomb hpair
    exact h.buried_published hlaw hfirst hi hpub hpc hstore halone he htomb hpair
  | stored hlocal =>
    obtain ⟨hknown, hstatus⟩ := storeNext_status hlaw h.known hlocal
    refine ⟨h.hashed, hknown, h.delivered, h.marked, ?_⟩
    intro e he htomb hpair
    exact (h.buried e he htomb hpair).store hstatus

/-- **A federated tombstone wins** in every schedule in which a tombstone that finds no key of its
message has no words of it standing between their read of the link and their append: from its append
on, the message has no live key, whatever is delivered again, refused or fails. -/
theorem tombstone_wins (hlaw : x.keys.custody.Lawful) (hfirst : WordsFirst x origin message)
    (acts : List (KeyedAct κ ω σ))
    (hsafe : Meets (keyedNext x peer origin) (fun s act => tombstoneAlone x s act = true) {} acts)
    {e : StoredEvent} (he : e ∈ origin.events) (htomb : tombstoneOf x message e = true)
    (happended : (peer.id, e.id) ∈ ingestedPairs (exec (keyedNext x peer origin) {} acts).fed.node) :
    (exec (keyedNext x peer origin) {} acts).store.tables.status ⟨some peer.id, message⟩ ≠
      some true := by
  have hinv := @exec_inv_of_meets _ _ (keyedNext x peer origin) _ (TombInv x peer origin message)
    (fun _ _ h halone => tombInv_next hlaw hfirst h halone) acts {} TombInv.start hsafe
  intro hlive
  rcases hinv.buried e he htomb happended with hgone | ⟨hnone, -⟩
  · rw [hlive] at hgone
    cases hgone
  · rw [hlive] at hnone
    cases hnone

end Tombstone

/-! ## 6. Two schedules -/

def postText : String :=
  "\x7b\"kind\":\"message_posted\",\"message\":\x7b\"body\":\"\",\"id\":1\x7d," ++
    "\"sealed\":\x7b\"ciphertext\":\"aGVsbG8=\"\x7d\x7d"

def tombstoneText : String := "\x7b\"kind\":\"message_tombstoned\",\"message_id\":1\x7d"

/-- SHA-256 of what a log of the two hashes. -/
def erasedDigests : List (String × String) :=
  let genesis := "a0f050bf6482fa4db7751d76807c4cf9f2b9911d5f872db1c0b3df697e51413e"
  let post := "ca165f321b05aa351698a6be825f5a0d18235831fd04841dfe0fb631081bd178"
  let tombstone := "452fae321ff96b698b1d67c5a9ef61f5470bc7004897bdad60406b086cc6a684"
  let first := "3fcd9951cf891b5616528983efb987b8764272c1ce4e07df81e536243e748063"
  [("maidan.event-log.genesis/1", genesis), (postText, post), (tombstoneText, tombstone),
   (hashStart ++ genesis ++ "\n" ++ hashStart ++ post ++ "\n1", first)]

def erasedEnv : HashEnv where
  sha256 text := (erasedDigests.lookup text).getD (String.ofList (List.replicate 64 '0'))
  canonicalJson := some
  openedEvent payload :=
    .ok { kind := if payload = tombstoneText then .messageTombstoned else .messagePosted
          content := payload }

/-- The words are sealed under the origin's key, number 40. -/
def erasedKeyed : KeyedEnv Nat (Box WrapAad Nat) String (Box MessageId String) where
  env := erasedEnv
  reads text :=
    if text = postText then .content .messagePosted ⟨5⟩ ⟨1⟩ "" (some (40, ⟨1⟩, "hello"))
    else if text = tombstoneText then .messageTombstoned ⟨5⟩ ⟨1⟩
    else .other none text
  cipher := boxCipher
  keys := boxKeyring
  logEnv := boxEnv
  uuid id := id.message.val

/-- A message is posted and tombstoned. -/
def erasedOrigin : OriginLog erasedKeyed.env where
  events :=
    let first : StoredEvent :=
      { id := 1, lsn := 1, payload := postText, prevHash := genesisHash erasedEnv
        contentHash := encodeDigest (erasedEnv.sha256 postText) }
    [first,
     { id := 2, lsn := 2, payload := tombstoneText
       prevHash := chainHash erasedEnv first.prevHash first.contentHash 1
       contentHash := encodeDigest (erasedEnv.sha256 tombstoneText) }]
  positive := by decide
  stamped := by decide
  verifies := by decide +kernel

/-- Calls of one run, all answered. -/
def callsOf (run count : Nat) : List (KeyedAct Nat String (Box MessageId String)) :=
  List.replicate count (.call run 0 fun _ => none)

/-- One after the other, and the post once more. -/
def inOrderActs : List (KeyedAct Nat String (Box MessageId String)) :=
  .deliver 0 (some 40) :: callsOf 0 6 ++ .deliver 1 none :: callsOf 1 6 ++
    .deliver 0 (some 40) :: callsOf 2 6

theorem erasedOrigin_wordsFirst : WordsFirst erasedKeyed erasedOrigin ⟨1⟩ := by
  unfold WordsFirst
  decide +kernel

theorem tombstone_wins_in_order : (firstPeer.id, 2) ∈
        ingestedPairs (exec (keyedNext erasedKeyed firstPeer erasedOrigin) {} inOrderActs).fed.node ∧
      (exec (keyedNext erasedKeyed firstPeer erasedOrigin) {} inOrderActs).store.tables.status
        ⟨some firstPeer.id, ⟨1⟩⟩ ≠ some true := by
  have happended : (firstPeer.id, 2) ∈ ingestedPairs
      (exec (keyedNext erasedKeyed firstPeer erasedOrigin) {} inOrderActs).fed.node := by
    decide +kernel
  refine ⟨happended, ?_⟩
  exact tombstone_wins boxKeyring_lawful erasedOrigin_wordsFirst inOrderActs (by decide +kernel)
    (mem_cons_of_mem _ mem_cons_self) (by decide +kernel) happended

/-- The run of the post has recorded its link when the run of the tombstone starts, and appends when
that one has finished. -/
def overtakenActs : List (KeyedAct Nat String (Box MessageId String)) :=
  .deliver 0 (some 40) :: .deliver 1 none :: callsOf 0 4 ++ callsOf 1 6 ++ callsOf 0 2

/-- **The tombstone is in the log, both runs have finished, and the message's words have a live
key.** -/
theorem overtaken_words_live :
    let s := exec (keyedNext erasedKeyed firstPeer erasedOrigin) {} overtakenActs
    s.fed.runs.map (fun r => r.pc matches .done (.ok .ingested)) = [true, true] ∧
      (firstPeer.id, 2) ∈ ingestedPairs s.fed.node ∧
      s.store.log.idsOf ⟨some firstPeer.id, ⟨1⟩⟩ = [2] ∧
      s.store.tables.status ⟨some firstPeer.id, ⟨1⟩⟩ = some true := by
  decide +kernel

end Maidan
