/-
# What can happen to the key tables

Every operation of the store changes the key tables by a few SMALL MOVES: a number is drawn, a row
is inserted, shredded, retired, rewrapped, moved under another key or destroyed (`KeyMove`).  This
module shows that once for every operation (`storeNext_stepped`), with the facts that hold where a move
is made; an invariant is then checked move by move.

The rewrap pass reads its rows in pages and deals with each as it was read.  That a row still stands
as it was read when its turn comes (`StillStranded`, `StillDoomed`) is what the pages ask for.
-/
import Maidan.Keys.Store

namespace Maidan

open Relational Table Run Ordered Relation List

variable {κ β ω σ : Type}

/-! ## 1. Moves -/

variable (c : Cipher κ β ω σ)

/-- **The workspace key `id` is on file and opens**, to `key`. -/
def OpensKey (keys : ContentKeyring κ β) (t : KeyTables κ β) (id : WorkspaceKeyId) (key : κ) :
    Prop :=
  ∃ row wrapped, t.workspaceKeys.get? id = some row ∧ row.wrapped = some wrapped ∧
    id ∉ t.destroyed ∧ keys.stored c id wrapped = .ok key

/-- **The row unwraps to the data key `key`**: through the workspace key joined beside it, or through
an instance KEK. -/
def UnwrapsTo (keys : ContentKeyring κ β) (t : KeyTables κ β) (r : ContentKeyRow β) (key : κ) :
    Prop :=
  ∃ wrapped, r.wrapped = some wrapped ∧
    match parseWorkspaceKekId wrapped.kekId with
    | some id => ∃ joined workspaceKey, joinedWorkspaceKey t r = some joined ∧
        keys.stored c id joined = .ok workspaceKey ∧
        c.openKey workspaceKey (.dataKey r.id) wrapped.blob = some key
    | none => ∃ kek, keys.localCustody.kek wrapped.kekId = .ok kek ∧
        c.openKey kek.key (.dataKey r.id) wrapped.blob = some key

/-- The row of a content key that is born live under the workspace key `id`. -/
def liveRow (subject : ContentKeyId) (workspace : WorkspaceId) (id : WorkspaceKeyId)
    (workspaceKey key : κ) (nonce : Nat) : ContentKeyRow β :=
  { id := subject, workspaceId := workspace,
    wrapped := some (wrapForWorkspace c id workspaceKey subject key nonce),
    workspaceKeyId := some id }

/-- The row of a content key that is born shredded. -/
def shreddedRow (β : Type) (subject : ContentKeyId) (workspace : WorkspaceId) : ContentKeyRow β :=
  { id := subject, workspaceId := workspace, wrapped := none, workspaceKeyId := none }

/-- The tables after a draw. -/
def KeyTables.draw (t : KeyTables κ β) : KeyTables κ β := { t with drawn := t.drawn + 1 }

/-- **A move of the key tables.** -/
inductive KeyMove (c : Cipher κ β ω σ) (keys : ContentKeyring κ β) (t : KeyTables κ β) :
    KeyTables κ β → Prop
  | draw : KeyMove c keys t t.draw
  | shred (subject : ContentKeyId) : KeyMove c keys t (t.shred subject)
  | retire (workspace : WorkspaceId) : KeyMove c keys t (t.retire workspace)
  | create (workspace : WorkspaceId) {rows : Table (fun r : WorkspaceKeyRow β => r.id)}
      (hnone : activeRow t workspace = none)
      (hrows : t.workspaceKeys.insert? (newWorkspaceKeyRow keys ⟨t.drawn + 1⟩ workspace
        (keys.custody.wrap ⟨t.drawn + 1⟩ (c.generate t.drawn) t.drawn)) = some rows) :
      KeyMove c keys t { t with workspaceKeys := rows, drawn := t.drawn + 1 }
  | insertShredded (subject : ContentKeyId) (workspace : WorkspaceId)
      {rows : Table (fun r : ContentKeyRow β => r.id)}
      (hrows : t.contentKeys.insert? (shreddedRow β subject workspace) = some rows) :
      KeyMove c keys t { t with contentKeys := rows, drawn := t.drawn + 1 }
  | insertLive (subject : ContentKeyId) (workspace : WorkspaceId) {id : WorkspaceKeyId}
      {workspaceKey : κ} {rows : Table (fun r : ContentKeyRow β => r.id)}
      (hopen : OpensKey c keys t id workspaceKey)
      (hrows : t.contentKeys.insert?
        (liveRow c subject workspace id workspaceKey (c.generate t.drawn) t.drawn) = some rows) :
      KeyMove c keys t
        { t with contentKeys := rows, created := t.created ++ [(subject, c.generate t.drawn)],
                 drawn := t.drawn + 1 }
  | rewrapWorkspace {id : WorkspaceKeyId} {workspaceKey : κ}
      (hopen : OpensKey c keys t id workspaceKey) :
      KeyMove c keys t
        { t with
          workspaceKeys := t.workspaceKeys.update id
            (WorkspaceKeyRow.rewrap keys.custody.name (keys.custody.wrap id workspaceKey t.drawn))
            (WorkspaceKeyRow.rewrap_id _ _)
          drawn := t.drawn + 1 }
  | rewrapContent {r : ContentKeyRow β} {dataKey : κ} {id : WorkspaceKeyId} {workspaceKey : κ}
      (hrow : t.contentKeys.get? r.id = some r) (hdata : UnwrapsTo c keys t r dataKey)
      (hopen : OpensKey c keys t id workspaceKey) :
      KeyMove c keys t
        { t with
          contentKeys := t.contentKeys.update r.id
            (ContentKeyRow.rewrap (wrapForWorkspace c id workspaceKey r.id dataKey t.drawn) id)
            (ContentKeyRow.rewrap_id _ _)
          drawn := t.drawn + 1 }
  | destroy {row : WorkspaceKeyRow β} (hrow : t.workspaceKeys.get? row.id = some row)
      (hfree : ∀ k ∈ t.contentKeys.rows, k.workspaceKeyId = some row.id → k.wrapped = none) :
      KeyMove c keys t (t.destroy row.id)

/-- Whether the message has a key row, and whether that is live. -/
def KeyTables.status (t : KeyTables κ β) (subject : ContentKeyId) : Option Bool :=
  (t.contentKeys.get? subject).map fun r => r.wrapped.isSome

/-- Any number of moves. -/
abbrev KeyMoves (c : Cipher κ β ω σ) (keys : ContentKeyring κ β) :
    KeyTables κ β → KeyTables κ β → Prop := ReflTransGen (KeyMove c keys)

/-! ## 2. Opening keys -/

variable {α ρ : Type} {a : α} {t t' : KeyTables κ β} {workspace : WorkspaceId} {key : κ}
  {s s' : Store κ β ω σ} {payload payload' : MessageEvent ω σ} {plan : Plan}
  {contentKeyId : Option ContentKeyId} {row : ContentKeyRow β × Option (WrappedKey β)}
  {env : HashEnv (MessageEvent ω σ)} {limit : Int} {p : Rewrapping κ β} {c : Cipher κ β ω σ}
  {keys : ContentKeyring κ β} {refuses : Refusals}

theorem sealing_eq_ok : sealing x = .ok a ↔ x = .ok a := by
  cases x with
  | error | ok => simp [sealing, Except.mapError]

theorem storing_eq_ok : storing x = .ok a ↔ x = .ok a := by
  cases x with
  | error | ok => simp [storing, Except.mapError]

theorem authenticated_eq_ok : authenticated x = .ok a ↔ x = some a := by
  cases x with
  | none | some => simp [authenticated]

/-- What is read of the key tables beside the new rows: the content keys, the data keys they were
created with, and every workspace key that was on file. -/
structure SameKeys (t t' : KeyTables κ β) : Prop where
  contentKeys : t'.contentKeys = t.contentKeys
  created : t'.created = t.created
  onFile : ∀ id row, t.workspaceKeys.get? id = some row → t'.workspaceKeys.get? id = some row

/-- **`active_workspace_key`** returns a key that is on file and opens, and changes nothing but to
create it. -/
theorem activeWorkspaceKey_spec (hlaw : keys.custody.Lawful)
    (hknown : ∀ id ∈ t.destroyed, t.workspaceKeys.get? id ≠ none) {id : WorkspaceKeyId}
    (h : activeWorkspaceKey c keys refuses subject t workspace = .ok (t', id, key)) :
    KeyMoves c keys t t' ∧ OpensKey c keys t' id key ∧ SameKeys t t' := by
  unfold activeWorkspaceKey at h
  cases hrow : activeRow t workspace with
  | some row =>
    have hget : t.workspaceKeys.get? row.id = some row :=
      get?_of_mem (mem_of_find?_eq_some hrow)
    simp only [hrow] at h
    cases hw : row.wrapped with
    | none =>
      simp only [hw] at h
      cases h
    | some wrapped =>
      simp only [hw] at h
      obtain ⟨key', hkey, h⟩ := bind_ok h
      obtain ⟨hnot, hstored⟩ := ContentKeyring.openWorkspaceKey_eq_ok (sealing_eq_ok.mp hkey)
      cases h
      exact ⟨.refl, ⟨row, wrapped, hget, hw, hnot, hstored⟩, rfl, rfl, fun _ _ h => h⟩
  | none =>
    simp only [hrow] at h
    obtain ⟨wrapped, hwrapped, h⟩ := bind_ok h
    obtain rfl := ContentKeyring.journalledWrap_eq_ok (sealing_eq_ok.mp hwrapped)
    split at h
    · cases h
    rename_i rows hrows
    cases h
    obtain ⟨hfree, hget⟩ := get?_of_insert? hrows
    refine ⟨.single (.create workspace hrow hrows), ?_, rfl, rfl, fun id row hold => ?_⟩
    · refine ⟨_, _, (hget _).trans (if_pos rfl), rfl, fun hin => hknown _ hin hfree, ?_⟩
      exact ContentKeyring.stored_wrap hlaw _ _ _
    · refine (hget id).trans ((if_neg fun heq => ?_).trans hold)
      rw [heq, hold] at hfree
      cases hfree

theorem activeWorkspaceKey_contentKeys {id : WorkspaceKeyId}
    (h : activeWorkspaceKey c keys refuses subject t workspace = .ok (t', id, key)) :
    t'.contentKeys = t.contentKeys := by
  unfold activeWorkspaceKey at h
  split at h
  · split at h
    · cases h
    obtain ⟨key', -, h⟩ := bind_ok h
    cases h
    rfl
  · obtain ⟨wrapped, -, h⟩ := bind_ok h
    split at h
    · cases h
    cases h
    rfl

/-- **A data key that was opened** is what its row unwraps to. -/
theorem unwrapsTo_of_opened (hw : r.wrapped = some wrapped)
    (hjoined : ∀ w, joined = some w → joinedWorkspaceKey t r = some w)
    (hopened : openJoined c keys refuses destroyed r.id wrapped.kekId joined = .ok opened)
    (hkey : keys.unwrap c opened r.id wrapped = .ok key) : UnwrapsTo c keys t r key := by
  refine ⟨wrapped, hw, ?_⟩
  unfold openJoined at hopened
  unfold ContentKeyring.unwrap at hkey
  cases hparse : parseWorkspaceKekId wrapped.kekId with
  | none =>
    simp only [hparse] at hkey ⊢
    obtain ⟨kek, hkek, hkey⟩ := bind_ok hkey
    exact ⟨kek, hkek, authenticated_eq_ok.mp hkey⟩
  | some =>
    simp only [hparse] at hopened hkey ⊢
    cases joined with
    | none => cases hopened
    | some w =>
      obtain ⟨workspaceKey, hopen, hopened⟩ := bind_ok hopened
      cases hopened
      simp only [if_true] at hkey
      exact ⟨w, workspaceKey, hjoined w rfl, (ContentKeyring.openWorkspaceKey_eq_ok hopen).2,
        authenticated_eq_ok.mp hkey⟩

/-! ## 3. Appends -/

/-- What the custody has destroyed is on file. -/
def Known (t : KeyTables κ β) : Prop := ∀ id ∈ t.destroyed, t.workspaceKeys.get? id ≠ none

theorem forEvent_sealFor
    (h : Plan.forEvent origin event = .sealFor subject workspace arrivedShredded) :
    subject.origin = origin ∧ ∃ kind words sealed,
      event = .content kind workspace subject.message words sealed ∧
        sealed.isSome = arrivedShredded := by
  cases event with
  | content kind ws message words sealed =>
    cases h
    exact ⟨rfl, kind, words, sealed, rfl, rfl⟩
  | messageTombstoned | other => cases h

/-- **What `prepare_in_tx` can do**: which keys it makes, and what it seals with. -/
inductive Prepared (c : Cipher κ β ω σ) (keys : ContentKeyring κ β) (s : Store κ β ω σ)
    (payload : MessageEvent ω σ) :
    Plan → Store κ β ω σ → MessageEvent ω σ → Option ContentKeyId → Prop
  | nothing : Prepared c keys s payload .nothing s payload none
  | shred (subject : ContentKeyId) :
      Prepared c keys s payload (.shred subject) (shredInTx s subject) payload none
  /-- The first of the message to arrive came shredded. -/
  | bornShredded {subject : ContentKeyId} {workspace : WorkspaceId}
      {rows : Table (fun r : ContentKeyRow β => r.id)}
      (hrows : s.tables.contentKeys.insert? (shreddedRow β subject workspace) = some rows) :
      Prepared c keys s payload (.sealFor subject workspace true)
        { s with tables := { s.tables with contentKeys := rows, drawn := s.tables.drawn + 1 } }
        payload (some subject)
  /-- The key is live here, and its origin has shredded it. -/
  | shredHere {subject : ContentKeyId} {workspace : WorkspaceId} {r : ContentKeyRow β}
      (hrow : s.tables.contentKeys.get? subject = some r) :
      Prepared c keys s payload (.sealFor subject workspace true)
        (shredInTx { s with tables := s.tables.draw } subject) payload (some subject)
  | stillShredded {subject : ContentKeyId} {workspace : WorkspaceId} {r : ContentKeyRow β}
      (hrow : s.tables.contentKeys.get? subject = some r) (hgone : r.wrapped = none) :
      Prepared c keys s payload (.sealFor subject workspace true)
        { s with tables := s.tables.draw } payload (some subject)
  /-- The first of the message makes its key. -/
  | first {subject : ContentKeyId} {workspace : WorkspaceId} {t : KeyTables κ β}
      {id : WorkspaceKeyId} {workspaceKey : κ} {rows : Table (fun r : ContentKeyRow β => r.id)}
      (hmoves : KeyMoves c keys s.tables t) (hsame : SameKeys s.tables t)
      (hopen : OpensKey c keys t id workspaceKey)
      (hrows : t.contentKeys.insert?
        (liveRow c subject workspace id workspaceKey (c.generate t.drawn) t.drawn) = some rows) :
      Prepared c keys s payload (.sealFor subject workspace false)
        { s with
          tables := { t with
            contentKeys := rows, created := t.created ++ [(subject, c.generate t.drawn)],
            drawn := t.drawn + 1 } }
        (sealPayload c (c.generate t.drawn) t.drawn payload) (some subject)
  | live {subject : ContentKeyId} {workspace : WorkspaceId} {r : ContentKeyRow β} {key : κ}
      (hrow : s.tables.contentKeys.get? subject = some r)
      (hkey : UnwrapsTo c keys s.tables r key) :
      Prepared c keys s payload (.sealFor subject workspace false)
        { s with tables := s.tables.draw }
        (sealPayload c key s.tables.drawn payload) (some subject)
  /-- The message is shredded: a throwaway key. -/
  | throwaway {subject : ContentKeyId} {workspace : WorkspaceId} {r : ContentKeyRow β}
      (hrow : s.tables.contentKeys.get? subject = some r) (hgone : r.wrapped = none) :
      Prepared c keys s payload (.sealFor subject workspace false)
        { s with tables := s.tables.draw }
        (sealPayload c (c.generate s.tables.drawn) s.tables.drawn payload) (some subject)

theorem prepareInTx_prepared (hlaw : keys.custody.Lawful) (hknown : Known s.tables)
    (h : prepareInTx c keys refuses s payload plan = .ok (s', payload', contentKeyId)) :
    Prepared c keys s payload plan s' payload' contentKeyId := by
  cases plan with
  | nothing =>
    cases h
    exact .nothing
  | shred subject =>
    cases h
    exact .shred subject
  | sealFor subject workspace arrivedShredded =>
    obtain ⟨⟨t, opened, active⟩, hopened, h⟩ := bind_ok h
    obtain ⟨decision, hdecision, h⟩ := bind_ok h
    obtain ⟨s'', hwrite, h⟩ := bind_ok h
    cases h
    simp only [openForAppend] at hopened
    cases hrow : s.tables.contentKeys.get? subject with
    | none =>
      simp only [hrow, KeyState.ofRow] at hopened hdecision
      cases arrivedShredded with
      | true =>
        cases hopened
        cases hdecision
        obtain ⟨t', hinsert, hwrite⟩ := bind_ok hwrite
        cases hwrite
        unfold insertInTx at hinsert
        split at hinsert
        · cases hinsert
        rename_i rows hrows
        cases hinsert
        simp only [Option.toList_none, map_nil, append_nil, applyDecision]
        exact .bornShredded hrows
      | false =>
        obtain ⟨⟨t1, id, workspaceKey⟩, hactive, hopened⟩ := bind_ok hopened
        cases hopened
        obtain ⟨hmoves, hopen, hsame⟩ := activeWorkspaceKey_spec hlaw hknown hactive
        cases hdecision
        obtain ⟨t', hinsert, hwrite⟩ := bind_ok hwrite
        cases hwrite
        unfold insertInTx at hinsert
        split at hinsert
        · cases hinsert
        rename_i rows hrows
        cases hinsert
        exact .first hmoves hsame hopen hrows
    | some r =>
      cases hw : r.wrapped with
      | some =>
        simp only [hrow, KeyState.ofRow, hw, bind_some] at hopened hdecision
        obtain ⟨opened', hjoined, hopened⟩ := bind_ok hopened
        cases hopened
        cases arrivedShredded with
        | true =>
          cases hdecision
          cases hwrite
          exact .shredHere hrow
        | false =>
          obtain ⟨key, hkey, hdecision⟩ := bind_ok hdecision
          cases hdecision
          cases hwrite
          have hid : r.id = subject := key_of_get? hrow
          subst hid
          exact .live hrow (unwrapsTo_of_opened hw (fun w h => h) (sealing_eq_ok.mp hjoined)
            (sealing_eq_ok.mp hkey))
      | none =>
        simp only [hrow, KeyState.ofRow, hw] at hopened hdecision
        cases hopened
        cases arrivedShredded with
        | true =>
          cases hdecision
          cases hwrite
          exact .stillShredded hrow hw
        | false =>
          cases hdecision
          cases hwrite
          exact .throwaway hrow hw

theorem status_shred (t : KeyTables κ β) (other subject : ContentKeyId) :
    (t.shred other).status subject = t.status subject ∨
      (subject = other ∧ (t.shred other).status subject = some false) := by
  simp only [KeyTables.status, KeyTables.shred, get?_update]
  split
  · cases t.contentKeys.get? subject with
    | none => exact .inl rfl
    | some => exact .inr ⟨‹_›, rfl⟩
  · exact .inl rfl

theorem status_shred_self (t : KeyTables κ β) (subject : ContentKeyId) :
    (t.shred subject).status subject = (t.status subject).map fun _ => false := by
  simp only [KeyTables.status, KeyTables.shred, get?_update, if_true, Option.map_map]
  rfl

theorem status_insert (t t' : KeyTables κ β) {row : ContentKeyRow β}
    (hrows : t.contentKeys.insert? row = some t'.contentKeys) (subject : ContentKeyId) :
    (row.id = subject ∧ t.status subject = none ∧
      t'.status subject = some row.wrapped.isSome) ∨ t'.status subject = t.status subject := by
  obtain ⟨hfree, hget⟩ := get?_of_insert? hrows
  simp only [KeyTables.status, hget]
  split
  · rename_i hid
    subst hid
    exact .inl ⟨rfl, by rw [hfree]; rfl, rfl⟩
  · exact .inr rfl

theorem Prepared.moves (h : Prepared c keys s payload plan s' payload' contentKeyId) :
    KeyMoves c keys s.tables s'.tables ∧ s'.log = s.log := by
  cases h with
  | nothing => exact ⟨.refl, rfl⟩
  | shred subject => exact ⟨.single (.shred subject), rfl⟩
  | bornShredded hrows => exact ⟨.single (.insertShredded _ _ hrows), rfl⟩
  | shredHere => exact ⟨.tail (.single .draw) (.shred _), rfl⟩
  | stillShredded => exact ⟨.single .draw, rfl⟩
  | first hmoves hsame hopen hrows => exact ⟨.tail hmoves (.insertLive _ _ hopen hrows), rfl⟩
  | live | throwaway => exact ⟨.single .draw, rfl⟩

/-- **What an append makes of a key**: it leaves its state, or shreds it, or makes one that was not
there, with words that came open. -/
theorem Prepared.status (h : Prepared c keys s payload plan s' payload' contentKeyId)
    (subject : ContentKeyId) : s'.tables.status subject = s.tables.status subject ∨
      s'.tables.status subject = some false ∨
      (s.tables.status subject = none ∧ ∃ workspace, plan = .sealFor subject workspace false) := by
  cases h with
  | nothing => exact .inl rfl
  | shred other => exact (status_shred s.tables other subject).imp_right fun h => .inl h.2
  | @bornShredded _ _ rows hrows =>
    rcases status_insert s.tables { s.tables with contentKeys := rows } hrows subject with
      ⟨rfl, -, hnew⟩ | hsame
    · exact .inr (.inl hnew)
    · exact .inl hsame
  | shredHere => exact (status_shred s.tables.draw _ subject).imp_right fun h => .inl h.2
  | stillShredded => exact .inl rfl
  | @first _ _ _ _ _ rows hmoves hsame hopen hrows =>
    rw [hsame.contentKeys] at hrows
    rcases status_insert s.tables { s.tables with contentKeys := rows } hrows subject with
      ⟨rfl, hold, -⟩ | hsame
    · exact .inr (.inr ⟨hold, _, rfl⟩)
    · exact .inl hsame
  | live | throwaway => exact .inl rfl

/-- **An append that was committed**: what was prepared, and the row that was written. -/
theorem appendWithKeys_eq_ok (hlaw : keys.custody.Lawful) (hknown : Known s.tables)
    (h : appendWithKeys c keys env refuses s event origin occurredAt = .ok s') :
    ∃ s1 payload contentKeyId log row,
      Prepared c keys s event (Plan.forEvent origin event) s1 payload contentKeyId ∧
      appendRow env s1.log event.workspaceId occurredAt payload contentKeyId = .ok (log, row) ∧
      s' = { s1 with log := log } := by
  obtain ⟨⟨s1, payload, contentKeyId⟩, hprepare, h⟩ := bind_ok h
  obtain ⟨⟨log, row⟩, happend, h⟩ := bind_ok h
  exact ⟨s1, payload, contentKeyId, log, row, prepareInTx_prepared hlaw hknown hprepare,
    storing_eq_ok.mp happend, (Except.ok.inj h).symm⟩

/-! ## 4. Rotation and the rewrap pass -/

theorem KeyMove.known (hmove : KeyMove c keys t t') (h : Known t) : Known t' := by
  cases hmove with
  | draw | shred | insertShredded | insertLive | rewrapContent => exact h
  | retire =>
    intro id hid
    simpa [KeyTables.retire, get?_updateWhere] using h id hid
  | create workspace hnone hrows =>
    intro id hid
    simp only [(get?_of_insert? hrows).2]
    split
    · simp
    · exact h id hid
  | rewrapWorkspace =>
    intro id hid
    simp only [get?_update]
    split
    · simpa using h id hid
    · exact h id hid
  | destroy hrow =>
    intro id hid
    simp only [KeyTables.destroy, get?_update]
    rcases mem_cons.mp hid with rfl | hid
    · simp [hrow]
    · split
      · simpa using h id hid
      · exact h id hid

theorem KeyMoves.known (hmoves : KeyMoves c keys t t') (h : Known t) : Known t' := by
  induction hmoves with
  | refl => exact h
  | tail _ hmove ih => exact hmove.known ih

theorem rotateWorkspaceKey_moves (hlaw : keys.custody.Lawful) (hknown : Known t)
    (h : rotateWorkspaceKey c keys refuses t workspace = .ok t') :
    KeyMoves c keys t t' ∧ t'.contentKeys = t.contentKeys := by
  obtain ⟨⟨t1, id, key⟩, hactive, h⟩ := bind_ok h
  cases h
  have hretire : KeyMove c keys t (t.retire workspace) := .retire workspace
  obtain ⟨hmoves, -, hsame⟩ := activeWorkspaceKey_spec hlaw (hretire.known hknown) hactive
  exact ⟨.head hretire hmoves, hsame.contentKeys⟩

theorem mem_pageOf {key : ρ → Nat} {rows : List ρ} (h : r ∈ pageOf key limit rows cursor) :
    r ∈ rows ∧ cursor < key r := by
  have hlimit : (sqlLimit limit ((rows.filter fun r => cursor < key r).insertionSort
      fun a b => key a ≤ key b)).Sublist _ := sqlLimit_sublist limit _
  have hin := (perm_insertionSort _ _).mem_iff.mp (hlimit.subset h)
  exact ⟨(mem_filter.mp hin).1, of_decide_eq_true (mem_filter.mp hin).2⟩

theorem pageOf_spec {ι : Type} (key : ρ → Nat) (ident : ρ → ι) (limit : Int) {rows : List ρ}
    (hnodup : (rows.map ident).Nodup) (cursor : Nat) :
    ((pageOf key limit rows cursor).map ident).Nodup ∧
      ∀ r ∈ pageOf key limit rows cursor, r ∈ rows := by
  have hperm := perm_insertionSort (fun a b : ρ => key a ≤ key b)
    (rows.filter fun r => cursor < key r)
  refine ⟨?_, fun r hr => ?_⟩
  · have hsorted : (((rows.filter fun r => cursor < key r).insertionSort
        fun a b => key a ≤ key b).map ident).Nodup :=
      (hperm.map ident).nodup_iff.mpr (hnodup.sublist (filter_sublist.map ident))
    exact hsorted.sublist ((sqlLimit_sublist limit _).map ident)
  · exact (mem_pageOf hr).1

/-- **The tables of a pass under way.**  It shreds no key and makes none. -/
structure Passed (c : Cipher κ β ω σ) (keys : ContentKeyring κ β) (t : KeyTables κ β)
    (p : Rewrapping κ β) : Prop where
  moves : KeyMoves c keys t p.tables
  known : Known p.tables
  status : ∀ subject, p.tables.status subject = t.status subject

theorem Passed.congr (h : Passed c keys t p) (htables : p'.tables = p.tables) :
    Passed c keys t p' := by
  obtain ⟨hmoves, hknown, hstatus⟩ := h
  rw [← htables] at hmoves hknown hstatus
  exact ⟨hmoves, hknown, hstatus⟩

theorem Passed.move (h : Passed c keys t p) (hmove : KeyMove c keys p.tables t')
    (hsame : t'.contentKeys = p.tables.contentKeys) : Passed c keys t (p.commit t') where
  moves := h.moves.tail hmove
  known := hmove.known h.known
  status := by
    intro subject
    rw [← h.status subject]
    simp only [KeyTables.status, Rewrapping.commit, hsame]

theorem rewrapWorkspaceStep_cases (p : Rewrapping κ β) {row : WorkspaceKeyRow β}
    (hrow : p.tables.workspaceKeys.get? row.id = some row) :
    (rewrapWorkspaceStep c keys refuses p row).tables = p.tables ∨
      ∃ t', rewrapWorkspaceStep c keys refuses p row = p.commit t' ∧
        KeyMove c keys p.tables t' ∧ t'.contentKeys = p.tables.contentKeys ∧
        ∀ id, id ≠ row.id → t'.workspaceKeys.get? id = p.tables.workspaceKeys.get? id := by
  unfold rewrapWorkspaceStep
  cases hstep : rewrapWorkspaceRow c keys refuses p.tables row with
  | error => exact .inl rfl
  | ok t' =>
    refine .inr ⟨t', rfl, ?_⟩
    unfold rewrapWorkspaceRow at hstep
    cases hw : row.wrapped with
    | none =>
      rw [hw] at hstep
      cases hstep
    | some wrapped =>
      simp only [hw] at hstep
      obtain ⟨key, hkey, hstep⟩ := bind_ok hstep
      obtain ⟨rewrapped, hrewrapped, hstep⟩ := bind_ok hstep
      obtain ⟨hnot, hstored⟩ := ContentKeyring.openWorkspaceKey_eq_ok (sealing_eq_ok.mp hkey)
      obtain rfl := ContentKeyring.journalledWrap_eq_ok (sealing_eq_ok.mp hrewrapped)
      cases hstep
      refine ⟨.rewrapWorkspace ⟨row, wrapped, hrow, hw, hnot, hstored⟩, rfl, fun id hne => ?_⟩
      simp only [get?_update, if_neg hne]

theorem passed_workspaces (fuel : Nat) (h : Passed c keys t p) :
    Passed c keys t (rewrapWorkspaceKeys c keys refuses limit fuel p) := by
  refine @forPages_inv _ _ _ (Passed c keys t)
    (fun p row => p.tables.workspaceKeys.get? row.id = some row) WorkspaceKeyRow.id _ _ _ _
    ?_ ?_ ?_ fuel 0 p h
  · intro p cursor _
    have hnodup : ((staleWorkspaceKeys keys p.tables).map WorkspaceKeyRow.id).Nodup :=
      p.tables.workspaceKeys.nodup.sublist (filter_sublist.map _)
    obtain ⟨hpage, hmem⟩ := pageOf_spec (·.id.val) WorkspaceKeyRow.id limit hnodup cursor
    exact ⟨hpage, fun r hr => get?_of_mem (mem_filter.mp (hmem r hr)).1⟩
  · intro p row hp hrow
    rcases @rewrapWorkspaceStep_cases _ _ _ _ c keys refuses p row hrow with
      hsame | ⟨t', heq, hmove, hcontents, -⟩
    · exact hp.congr hsame
    · rw [heq]
      exact hp.move hmove hcontents
  · intro p row row' hp hrow hne hrow'
    rcases @rewrapWorkspaceStep_cases _ _ _ _ c keys refuses p row hrow with
      hsame | ⟨t', heq, -, -, hother⟩
    · rw [hsame]
      exact hrow'
    · rw [heq]
      exact (hother row'.id hne).trans hrow'

/-- What the second loop reads of a row: the row, and a workspace key joined beside it. -/
def StillStranded (p : Rewrapping κ β) (row : ContentKeyRow β × Option (WrappedKey β)) : Prop :=
  p.tables.contentKeys.get? row.1.id = some row.1 ∧
    ∀ w, row.2 = some w → joinedWorkspaceKey p.tables row.1 = some w

theorem SameKeys.joined {t t' : KeyTables κ β} (h : SameKeys t t') {r : ContentKeyRow β}
    {w : WrappedKey β} (hjoined : joinedWorkspaceKey t r = some w) :
    joinedWorkspaceKey t' r = some w := by
  unfold joinedWorkspaceKey at hjoined ⊢
  obtain ⟨id, hid, hrow⟩ := bind_eq_some_iff.mp hjoined
  obtain ⟨row, hget, hw⟩ := bind_eq_some_iff.mp hrow
  rw [hid, bind_some, h.onFile id row hget, bind_some, hw]

/-- The second loop moves a row that stands as it was read under the active key, or nothing. -/
theorem rewrapContentRow_spec (hlaw : keys.custody.Lawful) (hknown : Known p.tables)
    (hrow : StillStranded p row) (h : rewrapContentRow c keys refuses p.tables row.1 row.2 = .ok t') :
    KeyMoves c keys p.tables t' ∧ (∀ subject, t'.status subject = p.tables.status subject) ∧
      (∀ id, id ≠ row.1.id → t'.contentKeys.get? id = p.tables.contentKeys.get? id) ∧
      ∀ r w, joinedWorkspaceKey p.tables r = some w → joinedWorkspaceKey t' r = some w := by
  obtain ⟨r, joined⟩ := row
  obtain ⟨hget, hjoined⟩ := hrow
  unfold rewrapContentRow at h
  cases hw : r.wrapped with
  | none =>
    simp only [hw] at h
    cases h
  | some =>
    simp only [hw] at h
    obtain ⟨opened, hopened, h⟩ := bind_ok h
    obtain ⟨dataKey, hkey, h⟩ := bind_ok h
    obtain ⟨⟨t1, id, workspaceKey⟩, hactive, h⟩ := bind_ok h
    cases h
    obtain ⟨hmoves, hopen, hsame⟩ := activeWorkspaceKey_spec hlaw hknown hactive
    -- the row was opened before the active key was looked up, which leaves it as it was
    have hdata : UnwrapsTo c keys t1 r dataKey :=
      unwrapsTo_of_opened hw (fun w h => hsame.joined (hjoined w h)) (sealing_eq_ok.mp hopened)
        (sealing_eq_ok.mp hkey)
    have hget1 : t1.contentKeys.get? r.id = some r := by
      rw [hsame.contentKeys]
      exact hget
    refine ⟨hmoves.tail (.rewrapContent hget1 hdata hopen), fun subject => ?_, fun id' hne => ?_,
      fun r' w h => ?_⟩
    · simp only [KeyTables.status, get?_update, hsame.contentKeys]
      split
      · rename_i hid
        rw [hid, hget]
        simp [ContentKeyRow.rewrap, hw]
      · rfl
    · simp only [get?_update, if_neg hne, hsame.contentKeys]
    · exact hsame.joined h

theorem rewrapContentStep_cases (hlaw : keys.custody.Lawful) (hknown : Known p.tables)
    (hrow : StillStranded p row) : let t' := (rewrapContentStep c keys refuses p row).tables
    KeyMoves c keys p.tables t' ∧ (∀ subject, t'.status subject = p.tables.status subject) ∧
      (∀ id, id ≠ row.1.id → t'.contentKeys.get? id = p.tables.contentKeys.get? id) ∧
      ∀ r w, joinedWorkspaceKey p.tables r = some w → joinedWorkspaceKey t' r = some w := by
  unfold rewrapContentStep
  split
  · exact ⟨.refl, fun _ => rfl, fun _ _ => rfl, fun _ _ h => h⟩
  · cases hstep : rewrapContentRow c keys refuses p.tables row.1 row.2 with
    | error => exact ⟨.refl, fun _ => rfl, fun _ _ => rfl, fun _ _ h => h⟩
    | ok => exact rewrapContentRow_spec hlaw hknown hrow hstep

theorem passed_contents (hlaw : keys.custody.Lawful) (uuid : ContentKeyId → Nat) (fuel : Nat)
    (h : Passed c keys t p) :
    Passed c keys t (rewrapContentKeys c keys uuid refuses limit fuel p) := by
  refine @forPages_inv _ _ _ (Passed c keys t) StillStranded (·.1.id) _ _ _ _ ?_ ?_ ?_ fuel 0 p h
  · intro p cursor _
    have hnodup : ((strandedContentKeys p.tables).map (·.1.id)).Nodup := by
      unfold strandedContentKeys
      rw [List.map_map]
      exact p.tables.contentKeys.nodup.sublist (List.filter_sublist.map _)
    obtain ⟨hpage, hmem⟩ := pageOf_spec
      (fun row : ContentKeyRow β × Option (WrappedKey β) => uuid row.1.id) _ limit hnodup cursor
    refine ⟨hpage, fun row hrow => ?_⟩
    obtain ⟨r, hr, rfl⟩ := mem_map.mp (hmem row hrow)
    exact ⟨get?_of_mem (mem_filter.mp hr).1, fun w hw => hw⟩
  · intro p row hp hrow
    obtain ⟨hmoves, hstatus, -, -⟩ := rewrapContentStep_cases hlaw hp.known hrow
    exact ⟨hp.moves.trans hmoves, hmoves.known hp.known,
      fun subject => (hstatus subject).trans (hp.status subject)⟩
  · intro p row row' hp hrow hne hrow'
    obtain ⟨-, -, hother, hjoined⟩ := rewrapContentStep_cases hlaw hp.known hrow
    exact ⟨(hother _ hne).trans hrow'.1, fun w hw => hjoined _ w (hrow'.2 w hw)⟩

/-- What the third loop reads of a row: it is there, and no live content key needs it. -/
def StillDoomed (p : Rewrapping κ β) (row : WorkspaceKeyRow β) : Prop :=
  p.tables.workspaceKeys.get? row.id = some row ∧
    ∀ k ∈ p.tables.contentKeys.rows, k.workspaceKeyId = some row.id → k.wrapped = none

theorem destroyStep_cases (p : Rewrapping κ β) (row : WorkspaceKeyRow β) :
    (destroyStep c keys refuses p row).tables = p.tables ∨
      destroyStep c keys refuses p row = p.commit (p.tables.destroy row.id) := by
  unfold destroyStep
  split
  · exact .inl rfl
  · split
    · exact .inr rfl
    · exact .inl rfl

theorem passed_destroyed (fuel : Nat) (h : Passed c keys t p) :
    Passed c keys t (destroyRetiredKeys c keys refuses limit fuel p) := by
  refine @forPages_inv _ _ _ (Passed c keys t) StillDoomed WorkspaceKeyRow.id _ _ _ _
    ?_ ?_ ?_ fuel 0 p h
  · intro p cursor _
    have hnodup : ((doomedWorkspaceKeys p.tables).map WorkspaceKeyRow.id).Nodup :=
      p.tables.workspaceKeys.nodup.sublist (filter_sublist.map _)
    obtain ⟨hpage, hmem⟩ := pageOf_spec (·.id.val) WorkspaceKeyRow.id limit hnodup cursor
    refine ⟨hpage, fun row hrow => ?_⟩
    obtain ⟨hin, hdoomed⟩ := mem_filter.mp (hmem row hrow)
    refine ⟨get?_of_mem hin, fun k hk hid => ?_⟩
    simp only [Bool.and_eq_true, Bool.not_eq_true', any_eq_false] at hdoomed
    have hunused := hdoomed.2 k hk
    cases hw : k.wrapped with
    | none => rfl
    | some => simp [hid, hw] at hunused
  · intro p row hp hrow
    rcases @destroyStep_cases _ _ _ _ c keys refuses p row with hsame | heq
    · exact hp.congr hsame
    · rw [heq]
      exact hp.move (.destroy hrow.1 hrow.2) rfl
  · intro p row row' hp hrow hne hrow'
    rcases @destroyStep_cases _ _ _ _ c keys refuses p row with hsame | heq
    · unfold StillDoomed
      rw [hsame]
      exact hrow'
    · rw [heq]
      refine ⟨?_, hrow'.2⟩
      simp only [Rewrapping.commit, KeyTables.destroy, get?_update, if_neg hne]
      exact hrow'.1

/-- **A rewrap pass is a sequence of moves**, whatever the custody refuses and however long a page
is. -/
theorem rewrap_passed (hlaw : keys.custody.Lawful) (uuid : ContentKeyId → Nat) (limit : Int)
    {t : KeyTables κ β} (hknown : Known t) :
    Passed c keys t (rewrap c keys uuid refuses limit t) := by
  have hstart : Passed c keys t { tables := t } := ⟨.refl, hknown, fun _ => rfl⟩
  exact passed_destroyed _ (passed_contents hlaw uuid _ (passed_workspaces _ hstart))

/-! No row of a pass changes which rows there are. -/

theorem rewrapWorkspaceStep_ids (p : Rewrapping κ β) (row : WorkspaceKeyRow β) :
    (rewrapWorkspaceStep c keys refuses p row).tables.workspaceKeys.rows.map WorkspaceKeyRow.id =
      p.tables.workspaceKeys.rows.map WorkspaceKeyRow.id := by
  unfold rewrapWorkspaceStep
  cases hstep : rewrapWorkspaceRow c keys refuses p.tables row with
  | error => rfl
  | ok =>
    unfold rewrapWorkspaceRow at hstep
    split at hstep
    · cases hstep
    obtain ⟨key, -, hstep⟩ := bind_ok hstep
    obtain ⟨rewrapped, -, hstep⟩ := bind_ok hstep
    cases hstep
    exact map_key_updateWhere _ _ _ (WorkspaceKeyRow.rewrap_id _ _)

theorem rewrapContentStep_ids (p : Rewrapping κ β) (row : ContentKeyRow β × Option (WrappedKey β)) :
    (rewrapContentStep c keys refuses p row).tables.contentKeys.rows.map ContentKeyRow.id =
      p.tables.contentKeys.rows.map ContentKeyRow.id := by
  unfold rewrapContentStep
  split
  · rfl
  · cases hstep : rewrapContentRow c keys refuses p.tables row.1 row.2 with
    | error => rfl
    | ok =>
      unfold rewrapContentRow at hstep
      split at hstep
      · cases hstep
      obtain ⟨opened, -, hstep⟩ := bind_ok hstep
      obtain ⟨dataKey, -, hstep⟩ := bind_ok hstep
      obtain ⟨⟨t1, id, workspaceKey⟩, hactive, hstep⟩ := bind_ok hstep
      cases hstep
      refine (map_key_updateWhere _ _ _ (ContentKeyRow.rewrap_id _ _)).trans ?_
      rw [activeWorkspaceKey_contentKeys hactive]

theorem destroyStep_ids (p : Rewrapping κ β) (row : WorkspaceKeyRow β) :
    (destroyStep c keys refuses p row).tables.workspaceKeys.rows.map WorkspaceKeyRow.id =
      p.tables.workspaceKeys.rows.map WorkspaceKeyRow.id := by
  rcases @destroyStep_cases _ _ _ _ c keys refuses p row with hsame | heq
  · rw [hsame]
  · rw [heq]
    exact map_key_updateWhere _ _ _ WorkspaceKeyRow.destroy_id

/-- What lies beyond the cursor shrinks with every page, as long as the rows keep their ids. -/
theorem pages_fuel {rowsOf : Rewrapping κ β → List ρ} {key : ρ → Nat}
    (ids : Rewrapping κ β → List Nat) (limit : Int) (hrows : ∀ p, ∀ r ∈ rowsOf p, key r ∈ ids p)
    (heach : ∀ p r, ids (each p r) = ids p) (more : Nat) (p : Rewrapping κ β)
    (hn : (ids p).length = n) :
    forPages (fun p cursor => pageOf key limit (rowsOf p) cursor) key limit each (n + 1 + more) 0 p =
      forPages (fun p cursor => pageOf key limit (rowsOf p) cursor) key limit each (n + 1) 0 p := by
  subst hn
  have hsame : ∀ (rows : List ρ) (p : Rewrapping κ β), ids (rows.foldl each p) = ids p := by
    intro rows
    induction rows with
    | nil => exact fun p => rfl
    | cons r rows ih => exact fun p => (ih (each p r)).trans (heach p r)
  refine forPages_fuel (m := fun p cursor => ((ids p).filter (cursor < ·)).length) ?_ more _ 0 p
    (Nat.lt_succ_of_le (length_filter_le _ _))
  intro p cursor last hlast
  obtain ⟨hin, hlt⟩ := mem_pageOf (mem_of_getLast? hlast)
  rw [hsame]
  have hfilter : (ids p).filter (key last < ·) =
      ((ids p).filter (cursor < ·)).filter (key last < ·) := by
    rw [filter_filter]
    refine filter_congr fun n _ => ?_
    by_cases hn : key last < n
    · simp [hn, hlt.trans hn]
    · simp [hn]
  rw [hfilter]
  refine length_filter_lt_length_iff_exists.mpr ⟨key last, ?_, by simp⟩
  exact mem_filter.mpr ⟨hrows p last hin, decide_eq_true hlt⟩

/-- **Each loop of the pass ends on its own**: more pages than there are rows change nothing. -/
theorem rewrap_pages (keys : ContentKeyring κ β) (uuid : ContentKeyId → Nat) (refuses : Refusals)
    (limit : Int) (more : Nat) (p : Rewrapping κ β) :
    rewrapWorkspaceKeys c keys refuses limit (p.tables.workspaceKeys.rows.length + 1 + more) p =
        rewrapWorkspaceKeys c keys refuses limit (p.tables.workspaceKeys.rows.length + 1) p ∧
      rewrapContentKeys c keys uuid refuses limit (p.tables.contentKeys.rows.length + 1 + more) p =
        rewrapContentKeys c keys uuid refuses limit (p.tables.contentKeys.rows.length + 1) p ∧
      destroyRetiredKeys c keys refuses limit (p.tables.workspaceKeys.rows.length + 1 + more) p =
        destroyRetiredKeys c keys refuses limit (p.tables.workspaceKeys.rows.length + 1) p := by
  refine ⟨?_, ?_, ?_⟩
  · refine pages_fuel (fun p => p.tables.workspaceKeys.rows.map (·.id.val)) limit ?_ ?_ more p
      (length_map _)
    · intro p r hr
      exact mem_map_of_mem (mem_filter.mp hr).1
    · intro p r
      simpa [Function.comp_def] using
        congrArg (List.map WorkspaceKeyId.val) (rewrapWorkspaceStep_ids p r)
  · refine pages_fuel (fun p => p.tables.contentKeys.rows.map (uuid ·.id)) limit ?_ ?_ more p
      (length_map _)
    · intro p r hr
      obtain ⟨row, hrow, rfl⟩ := mem_map.mp hr
      exact mem_map_of_mem (mem_filter.mp hrow).1
    · intro p r
      simpa [Function.comp_def] using congrArg (List.map uuid) (rewrapContentStep_ids p r)
  · refine pages_fuel (fun p => p.tables.workspaceKeys.rows.map (·.id.val)) limit ?_ ?_ more p
      (length_map _)
    · intro p r hr
      exact mem_map_of_mem (mem_filter.mp hr).1
    · intro p r
      simpa [Function.comp_def] using congrArg (List.map WorkspaceKeyId.val) (destroyStep_ids p r)

/-! ## 5. Steps -/

/-- **What one operation can do to the store.** -/
inductive Stepped (c : Cipher κ β ω σ) (keys : ContentKeyring κ β)
    (env : HashEnv (MessageEvent ω σ)) (s : Store κ β ω σ) :
    StoreOp κ ω σ → Store κ β ω σ → Prop
  /-- It was refused, and rolled back. -/
  | refused {op : StoreOp κ ω σ} : Stepped c keys env s op s
  | appended {op : StoreOp κ ω σ} {event payload : MessageEvent ω σ} {origin : Option PeerId}
      {occurredAt : Int} {s₁ : Store κ β ω σ} {contentKeyId : Option ContentKeyId}
      {log : EventLog (MessageEvent ω σ)} {row : EventRow (MessageEvent ω σ)}
      (hevent : op.appends c = some (event, origin))
      (hprepared : Prepared c keys s event (Plan.forEvent origin event) s₁ payload contentKeyId)
      (happend : appendRow env s₁.log event.workspaceId occurredAt payload contentKeyId =
        .ok (log, row)) :
      Stepped c keys env s op { s₁ with log := log }
  | shredded (subject : ContentKeyId) : Stepped c keys env s (.shred subject) (shredInTx s subject)
  | rotated {workspace : WorkspaceId} {refuses : Refusals} {t : KeyTables κ β}
      (hmoves : KeyMoves c keys s.tables t) (hstatus : ∀ subject, t.status subject =
        s.tables.status subject) :
      Stepped c keys env s (.rotate workspace refuses) { s with tables := t }
  | rewrapped {limit : Int} {refuses : Refusals} {t : KeyTables κ β}
      (hmoves : KeyMoves c keys s.tables t) (hstatus : ∀ subject, t.status subject =
        s.tables.status subject) :
      Stepped c keys env s (.rewrap limit refuses) { s with tables := t }
  | queuedWebhook (logId : Int) :
      Stepped c keys env s (.queueWebhook logId)
        { s with outboxes := { s.outboxes with
            webhookDeliveries := s.outboxes.webhookDeliveries ++ [logId] } }
  | queuedEgress (sourceLogId : Int) :
      Stepped c keys env s (.queueEgress sourceLogId)
        { s with outboxes := { s.outboxes with
            egressOutbox := s.outboxes.egressOutbox ++ [sourceLogId] } }
  | queuedMail (sourceLogId : Int) :
      Stepped c keys env s (.queueMail sourceLogId) (queueMail s sourceLogId)

theorem storeNext_stepped {env : HashEnv (MessageEvent ω σ)} (hlaw : keys.custody.Lawful)
    (uuid : ContentKeyId → Nat) {s : Store κ β ω σ} (hknown : Known s.tables) (op : StoreOp κ ω σ) :
    Stepped c keys env s op (storeNext c keys env uuid s op) := by
  cases op with
  | append event occurredAt refuses =>
    simp only [storeNext, storeStep]
    cases hstep : appendWithKeys c keys env refuses s event none occurredAt with
    | error => exact .refused
    | ok =>
      obtain ⟨s1, payload, contentKeyId, log, row, hprepared, happend, rfl⟩ :=
        appendWithKeys_eq_ok hlaw hknown hstep
      exact .appended rfl hprepared happend
  | appendFederated peer payload contentKey occurredAt refuses =>
    simp only [storeNext, storeStep]
    cases hstep : appendFederated c keys env refuses s peer payload contentKey occurredAt with
    | error => exact .refused
    | ok =>
      obtain ⟨event, hopen, hstep⟩ := bind_ok hstep
      obtain ⟨s1, payload', contentKeyId, log, row, hprepared, happend, rfl⟩ :=
        appendWithKeys_eq_ok hlaw hknown hstep
      refine .appended ?_ hprepared happend
      simp only [StoreOp.appends, sealing_eq_ok.mp hopen]
  | shred subject => exact .shredded subject
  | rotate workspace refuses =>
    simp only [storeNext, storeStep]
    cases hstep : rotateWorkspaceKey c keys refuses s.tables workspace with
    | error => exact .refused
    | ok =>
      obtain ⟨hmoves, hcontents⟩ := rotateWorkspaceKey_moves hlaw hknown hstep
      refine .rotated hmoves fun subject => ?_
      simp only [KeyTables.status, hcontents]
  | rewrap limit refuses =>
    have hpassed := @rewrap_passed _ _ _ _ c keys refuses hlaw uuid limit s.tables hknown
    exact .rewrapped hpassed.moves hpassed.status
  | queueWebhook logId => exact .queuedWebhook logId
  | queueEgress sourceLogId => exact .queuedEgress sourceLogId
  | queueMail sourceLogId => exact .queuedMail sourceLogId

theorem queueMail_tables (s : Store κ β ω σ) (sourceLogId : Int) :
    (queueMail s sourceLogId).tables = s.tables ∧ (queueMail s sourceLogId).log = s.log := by
  unfold queueMail
  dsimp only
  split <;> exact ⟨rfl, rfl⟩

/-- **Every operation changes the key tables by moves.** -/
theorem Stepped.moves (h : Stepped c keys env s op s') : KeyMoves c keys s.tables s'.tables := by
  cases h with
  | refused => exact .refl
  | appended hevent hprepared => exact hprepared.moves.1
  | shredded subject => exact .single (.shred subject)
  | rotated hmoves => exact hmoves
  | rewrapped hmoves => exact hmoves
  | queuedWebhook | queuedEgress => exact .refl
  | queuedMail sourceLogId =>
    rw [(queueMail_tables s sourceLogId).1]

theorem Stepped.log_grows (h : Stepped c keys env s op s') : s.log.rows <+: s'.log.rows := by
  cases h with
  | appended hevent hprepared happend =>
    obtain ⟨content, -, -, hrows, -⟩ := appendRow_eq_ok happend
    rw [hprepared.moves.2] at hrows
    exact ⟨_, hrows.symm⟩
  | queuedMail sourceLogId => rw [(queueMail_tables s sourceLogId).2]
  | _ => exact prefix_rfl

end Maidan
