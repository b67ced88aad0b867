/-
# The event log

`maidan_events` is one table for all workspaces.  An append (`append_with_keys_in_tx`) chains the
new row to the newest row of its workspace; two retention sweeps (`retention.rs`) delete rows by
age; `verify_chain` walks what is left of a workspace, a page at a time; `ensure_cursor_fresh` asks
whether a reader's cursor still finds everything after it.

The ids are drawn by `AUTOINCREMENT`: each is larger than every id drawn before, deleted rows
included.  `EventLog` carries that as fields, and keeps its rows in the order of their ids, so that
`ORDER BY id` is the order of the list.

SHA-256 gives sixty-four hexadecimal digits (`HexDigits`); nothing else is assumed of it here.
`is_well_formed_hash` also accepts fewer of them, padded with white space (§6).
-/
import Maidan.Lib.Ordered
import Maidan.Events.Chain

namespace Maidan

open Ordered Run List

variable {π : Type}

/-! ## 1. Rows -/

/-- A row of `maidan_events`.  The payload stands for its JSON value. -/
structure EventRow (π : Type) where
  id : Int
  workspaceId : Option WorkspaceId
  occurredAt : Int
  payload : π
  prevHash : String
  contentHash : String
  contentKeyId : Option ContentKeyId := none

/-- `row_to_link`, and `StoredEvent::link` of the row as it is read. -/
def EventRow.link (r : EventRow π) : EventLink :=
  { id := r.id, lsn := r.id, prevHash := r.prevHash, contentHash := r.contentHash }

/-- What `verify_chain` reads of a row. -/
def EventRow.chained (r : EventRow π) : EventLink × π := (r.link, r.payload)

/-- **The table**, in the order of its ids, with the last id drawn. -/
structure EventLog (π : Type) where
  rows : List (EventRow π)
  lastId : Int
  increasing : Increasing EventRow.id rows
  ids : ∀ r ∈ rows, 0 < r.id ∧ r.id ≤ lastId
  drawn : 0 ≤ lastId ∧ lastId ≤ i64Max

/-- The table before the first event. -/
def EventLog.empty : EventLog π where
  rows := []
  lastId := 0
  increasing := .nil
  ids := fun r hr => by cases hr
  drawn := by decide

/-- The rows of a workspace, in order; `none` are the rows of no workspace. -/
def EventLog.scoped (log : EventLog π) (workspace : Option WorkspaceId) : List (EventRow π) :=
  log.rows.filter fun r => r.workspaceId == workspace

/-- `chain_head_in_tx`. -/
def chainHeadInTx (log : EventLog π) (workspace : Option WorkspaceId) : Option EventLink :=
  (log.scoped workspace).getLast?.map EventRow.link

/-- `min_event_id`. -/
def minEventId (log : EventLog π) (workspace : WorkspaceId) : Option Int :=
  (log.scoped (some workspace)).head?.map EventRow.id

variable {log : EventLog π} {env : HashEnv π}

theorem EventLog.mem_scoped :
    r ∈ log.scoped workspace ↔ r ∈ log.rows ∧ r.workspaceId = workspace := by
  simp [EventLog.scoped]

theorem EventLog.increasing_scoped (log : EventLog π) (workspace : Option WorkspaceId) :
    Increasing EventRow.id (log.scoped workspace) :=
  log.increasing.filter _

/-! ## 2. Append -/

/-- The row an append writes. -/
def nextRow (env : HashEnv π) (log : EventLog π) (workspace : Option WorkspaceId)
    (occurredAt : Int) (payload : π) (content : String) (contentKeyId : Option ContentKeyId) :
    EventRow π :=
  { id := log.lastId + 1, workspaceId := workspace, occurredAt := occurredAt, payload := payload,
    prevHash := nextPrevHash env (chainHeadInTx log workspace), contentHash := content,
    contentKeyId := contentKeyId }

/-- A row with the next id. -/
def EventLog.push (log : EventLog π) (row : EventRow π) (hid : row.id = log.lastId + 1)
    (hroom : log.lastId < i64Max) : EventLog π where
  rows := log.rows ++ [row]
  lastId := row.id
  increasing := by
    refine pairwise_append.mpr ⟨log.increasing, pairwise_singleton _ _, ?_⟩
    intro a ha b hb
    rw [mem_singleton.mp hb, hid]
    exact Int.lt_add_one_of_le (log.ids a ha).2
  ids := by
    intro r hr
    have hdrawn := log.drawn
    rcases mem_append.mp hr with hr | hr
    · have hr := log.ids r hr
      omega
    · rw [mem_singleton.mp hr]
      omega
  drawn := by
    have hdrawn := log.drawn
    omega

/-- `append_with_keys_in_tx` from the payload it has prepared: hash it, chain it to the newest row
of its workspace, insert it. -/
def appendRow (env : HashEnv π) (log : EventLog π) (workspace : Option WorkspaceId)
    (occurredAt : Int) (payload : π) (contentKeyId : Option ContentKeyId) :
    Except StoreError (EventLog π × EventRow π) :=
  match contentHash env payload with
  | none => .error (.invalidInput "event chain JSON is not canonicalizable")
  | some content =>
    if h : log.lastId < i64Max then
      let row := nextRow env log workspace occurredAt payload content contentKeyId
      .ok (log.push row rfl h, row)
    else .error (.database "database or disk is full")

/-- **What a committed append wrote.** -/
theorem appendRow_eq_ok
    (h : appendRow env log workspace occurredAt payload contentKeyId = .ok (log', row)) :
    ∃ content, contentHash env payload = some content ∧
      row = nextRow env log workspace occurredAt payload content contentKeyId ∧
      log'.rows = log.rows ++ [row] ∧ log'.lastId = row.id := by
  unfold appendRow at h
  cases hc : contentHash env payload with
  | none =>
    rw [hc] at h
    cases h
  | some content =>
    simp only [hc] at h
    split at h
    · cases h
      exact ⟨content, rfl, rfl, rfl, rfl⟩
    · cases h

/-! ## 3. Retention -/

/-- A row of `maidan_delivery_cursor`. -/
structure DeliveryCursorRow where
  workspaceId : WorkspaceId
  lastDeliveredLogId : Int
  updatedAt : Int

/-- The tables a sweep reads beside the log. -/
structure RetentionTables where
  legalHolds : List WorkspaceId := []
  deliveryCursors : List DeliveryCursorRow := []

/-- The workspace is under a legal hold; an event of no workspace never is. -/
def RetentionTables.holds (tables : RetentionTables) (workspace : Option WorkspaceId) : Bool :=
  workspace.any fun ws => tables.legalHolds.contains ws

/-- `COALESCE((SELECT MIN(last_delivered_log_id) …), i64::MAX)`: what the active consumers of the
workspace have all read. -/
def RetentionTables.deliveredFloor (tables : RetentionTables) (workspace : WorkspaceId)
    (cutoff : Int) : Int :=
  let active := tables.deliveryCursors.filter fun c =>
    c.workspaceId == workspace && decide (julianday cutoff ≤ julianday c.updatedAt)
  (active.map DeliveryCursorRow.lastDeliveredLogId).min?.getD i64Max

/-- `DELETE FROM maidan_events WHERE id IN (…)`. -/
def EventLog.delete (log : EventLog π) (ids : List Int) : EventLog π where
  rows := log.rows.filter fun r => !ids.contains r.id
  lastId := log.lastId
  increasing := log.increasing.filter _
  ids := fun r hr => log.ids r (mem_filter.mp hr).1
  drawn := log.drawn

/-- The ids `prune_events` selects. -/
def pruneEventsIds (log : EventLog π) (tables : RetentionTables) (cutoff maxId limit : Int) :
    List Int :=
  (sqlLimit limit (log.rows.filter fun r =>
    decide (r.id ≤ maxId) && decide (r.occurredAt < cutoff) && !tables.holds r.workspaceId)).map
      EventRow.id

/-- `prune_events`. -/
def pruneEvents (log : EventLog π) (tables : RetentionTables) (cutoff maxId limit : Int) :
    EventLog π :=
  log.delete (pruneEventsIds log tables cutoff maxId limit)

/-- The ids `prune_workspace_events` selects. -/
def pruneWorkspaceEventsIds (log : EventLog π) (tables : RetentionTables) (workspace : WorkspaceId)
    (cutoff limit : Int) : List Int :=
  (sqlLimit limit (log.rows.filter fun r =>
    r.workspaceId == some workspace && decide (r.occurredAt < cutoff) &&
      decide (r.id ≤ tables.deliveredFloor workspace cutoff) &&
      !tables.holds (some workspace))).map EventRow.id

/-- `prune_workspace_events`. -/
def pruneWorkspaceEvents (log : EventLog π) (tables : RetentionTables) (workspace : WorkspaceId)
    (cutoff limit : Int) : EventLog π :=
  log.delete (pruneWorkspaceEventsIds log tables workspace cutoff limit)

/-! ## 4. Reading the log -/

/-- `verify_chain` of the store: a fold over the pages of a workspace's rows. -/
def EventLog.verifyChain (env : HashEnv π) (log : EventLog π) (workspace : WorkspaceId) :
    ChainVerifyReport :=
  ChainVerifier.report env (foldPages EventRow.id (log.scoped (some workspace)) 256
    (fun v r => v.push env r.chained) log.rows.length 0 {})

/-- **The pages together are the workspace's rows.** -/
theorem EventLog.verifyChain_ok_iff (env : HashEnv π) (log : EventLog π) (workspace : WorkspaceId) :
    (log.verifyChain env workspace).ok = true ↔
      ChainOk env ((log.scoped (some workspace)).map EventRow.chained) := by
  have hall : after EventRow.id 0 (log.scoped (some workspace)) = log.scoped (some workspace) :=
    after_eq_self fun r hr => (log.ids r (EventLog.mem_scoped.mp hr).1).1
  have hfuel : (after EventRow.id 0 (log.scoped (some workspace))).length ≤ log.rows.length := by
    rw [hall]
    exact length_filter_le _ _
  unfold EventLog.verifyChain
  rw [foldPages_eq (log.increasing_scoped _) (by decide) _ _ _ _ hfuel, hall,
    ← ChainVerifier.report_walk_iff, foldlM_map]

/-- `cursor_is_too_old`. -/
def cursorIsTooOld (afterId : Int) : Option Int → Bool
  | some oldest => decide (0 < afterId) && decide (afterId < i64Max) && decide (afterId + 1 < oldest)
  | none => false

/-- `ensure_cursor_fresh`; the error is the pair `CursorTooOld` carries. -/
def ensureCursorFresh (log : EventLog π) (workspace : WorkspaceId) (afterId : Int) :
    Except (Int × Int) Unit :=
  if afterId ≤ 0 then .ok ()
  else
    match minEventId log workspace with
    | none => .ok ()
    | some oldest =>
      if cursorIsTooOld afterId (some oldest) then .error (afterId, oldest) else .ok ()

/-- A cursor is fresh when the oldest row is at most the next id, and at the end of the id
space. -/
theorem ensureCursorFresh_eq_ok (hpos : 0 < afterId) (hmin : minEventId log workspace = some oldest) :
    ensureCursorFresh log workspace afterId = .ok () ↔
      (afterId < i64Max → oldest ≤ afterId + 1) := by
  simp only [ensureCursorFresh, hmin, cursorIsTooOld, if_neg (Int.not_le.mpr hpos),
    decide_eq_true hpos, Bool.true_and]
  by_cases hmax : afterId < i64Max
  · by_cases hold : afterId + 1 < oldest
    · simp [hmax, hold]
    · simp only [hmax, hold, decide_true, decide_false, Bool.and_false, Bool.false_eq_true, if_false,
        forall_const, true_iff]
      omega
  · simp [hmax]

/-! ## 5. Runs -/

/-- **What happens to the log.**  A sweep is given the tables it reads as they stand when it
runs. -/
inductive LogOp (π : Type)
  | append (workspace : Option WorkspaceId) (occurredAt : Int) (payload : π)
  | prune (tables : RetentionTables) (cutoff maxId limit : Int)
  | pruneWorkspace (tables : RetentionTables) (workspace : WorkspaceId) (cutoff limit : Int)

/-- One transaction. -/
def logStep (env : HashEnv π) (log : EventLog π) : LogOp π → Except StoreError (EventLog π)
  | .append workspace occurredAt payload =>
    (appendRow env log workspace occurredAt payload none).map Prod.fst
  | .prune tables cutoff maxId limit => .ok (pruneEvents log tables cutoff maxId limit)
  | .pruneWorkspace tables workspace cutoff limit =>
    .ok (pruneWorkspaceEvents log tables workspace cutoff limit)

/-- The step with its rollback. -/
def logNext (env : HashEnv π) (log : EventLog π) (op : LogOp π) : EventLog π :=
  settle log (logStep env log op)

/-- The ids a step selects for deletion. -/
def LogOp.selects (log : EventLog π) : LogOp π → List Int
  | .append _ _ _ => []
  | .prune tables cutoff maxId limit => pruneEventsIds log tables cutoff maxId limit
  | .pruneWorkspace tables workspace cutoff limit =>
    pruneWorkspaceEventsIds log tables workspace cutoff limit

/-- **What a step can do**: nothing, one row at the end, or the deletion of what it selects. -/
inductive Logged (env : HashEnv π) (log : EventLog π) : LogOp π → EventLog π → Prop
  | refused {op : LogOp π} : Logged env log op log
  | appended {workspace : Option WorkspaceId} {occurredAt : Int} {payload : π} {content : String}
      {log' : EventLog π} (hcontent : contentHash env payload = some content)
      (hrows : log'.rows = log.rows ++ [nextRow env log workspace occurredAt payload content none])
      (hlast : log'.lastId = log.lastId + 1) :
      Logged env log (.append workspace occurredAt payload) log'
  | deleted {op : LogOp π} : Logged env log op (log.delete (op.selects log))

theorem logNext_logged (env : HashEnv π) (log : EventLog π) (op : LogOp π) :
    Logged env log op (logNext env log op) := by
  cases op with
  | append workspace occurredAt payload =>
    simp only [logNext, logStep]
    cases happ : appendRow env log workspace occurredAt payload none with
    | error => exact .refused
    | ok =>
      obtain ⟨content, hcontent, hrow, hrows, hlast⟩ := appendRow_eq_ok happ
      rw [hrow] at hrows hlast
      exact .appended hcontent hrows hlast
  | prune | pruneWorkspace => exact .deleted

theorem scoped_appended {log' : EventLog π} (workspace : Option WorkspaceId)
    (hrows : log'.rows = log.rows ++ [row]) : log'.scoped workspace =
      if row.workspaceId = workspace then log.scoped workspace ++ [row]
      else log.scoped workspace := by
  unfold EventLog.scoped
  rw [hrows, filter_append]
  by_cases h : row.workspaceId = workspace
  · simp [h]
  · simp [h]

theorem scoped_delete (log : EventLog π) (ids : List Int) (workspace : Option WorkspaceId) :
    (log.delete ids).scoped workspace =
      (log.scoped workspace).filter fun r => !ids.contains r.id := by
  unfold EventLog.scoped EventLog.delete
  rw [filter_filter, filter_filter]
  exact filter_congr fun r _ => Bool.and_comm _ _

/-! ## 6. Hashes as SHA-256 writes them -/

/-- **A digest is sixty-four hexadecimal digits.** -/
def HexDigits (env : HashEnv π) : Prop :=
  ∀ text, (env.sha256 text).toList.length = 64 ∧
    ∀ c ∈ (env.sha256 text).toList, Text.isAsciiHexDigit c = true

theorem not_isWhitespace_of_isAsciiHexDigit (h : Text.isAsciiHexDigit c = true) :
    Text.isWhitespace c = false ∧ c.utf8Size = 1 := by
  have hrange : 48 ≤ c.toNat ∧ c.toNat ≤ 102 := by
    simp only [Text.isAsciiHexDigit, Bool.or_eq_true, Bool.and_eq_true, decide_eq_true_eq,
      Char.isDigit, Char.le_def, ge_iff_le, UInt32.le_iff_toNat_le] at h
    have hnat : c.toNat = c.val.toNat := rfl
    rcases h with (h | h) | h
    · exact ⟨hnat ▸ h.1, hnat ▸ Nat.le_trans h.2 (by decide)⟩
    · exact ⟨hnat ▸ Nat.le_trans (by decide) h.1, hnat ▸ h.2⟩
    · exact ⟨hnat ▸ Nat.le_trans (by decide) h.1, hnat ▸ Nat.le_trans h.2 (by decide)⟩
  constructor
  · simp only [Text.isWhitespace]
    grind
  · rw [Char.utf8Size_eq_one_iff, UInt32.le_iff_toNat_le]
    exact Nat.le_trans hrange.2 (by decide)

theorem utf8Len_hexDigits (h : ∀ c ∈ hex, Text.isAsciiHexDigit c = true) :
    Text.utf8Len hex = hex.length := by
  have hones : hex.map Char.utf8Size = replicate hex.length 1 := by
    refine eq_replicate_iff.mpr ⟨length_map _, ?_⟩
    intro n hn
    obtain ⟨c, hc, rfl⟩ := mem_map.mp hn
    exact (not_isWhitespace_of_isAsciiHexDigit (h c hc)).2
  rw [Text.utf8Len, hones, sum_replicate, smul_eq_mul, mul_one]

/-- **The digits of a hash between white space**, an even number of them and sixty-four bytes in
all. -/
structure HashText (s : String) (u digits w : List Char) : Prop where
  text : s.toList = hashStart.toList ++ (u ++ digits ++ w)
  size : Text.utf8Len (u ++ digits ++ w) = 64
  even : digits.length % 2 = 0
  nonempty : digits ≠ []
  hex : ∀ c ∈ digits, Text.isAsciiHexDigit c = true
  white : ∀ c ∈ u ++ w, Text.isWhitespace c = true

/-- **What `is_well_formed_hash` accepts.** -/
theorem isWellFormedHash_iff : isWellFormedHash s = true ↔ ∃ u digits w, HashText s u digits w := by
  have hstrip : ∀ hex, Text.stripStart hashStart s.toList = some hex ↔
      s.toList = hashStart.toList ++ hex := by
    intro hex
    rw [Text.stripStart, isPrefixOf?_eq_some_iff_append_eq, eq_comm]
  constructor
  · intro h
    unfold isWellFormedHash at h
    cases hcut : Text.stripStart hashStart s.toList with
    | none => simp [hcut] at h
    | some hex =>
      obtain ⟨u, w, hparts, hu, hw⟩ := Text.exists_cut Text.isWhitespace hex
      simp only [hcut, hexDecodes, Bool.and_eq_true, beq_iff_eq, all_eq_true, Bool.not_eq_true',
        isEmpty_eq_false_iff] at h
      obtain ⟨hsize, ⟨heven, hne⟩, hhex⟩ := h
      refine ⟨u, Text.trim hex, w, ?_, ?_, utf8Len_hexDigits hhex ▸ heven, hne, hhex, ?_⟩
      · rw [(hstrip hex).mp hcut]
        exact congrArg _ hparts
      · exact hparts ▸ hsize
      · simpa [or_imp, forall_and] using ⟨hu, hw⟩
  · rintro ⟨u, digits, w, h⟩
    have htrim : Text.trim (u ++ digits ++ w) = digits :=
      Text.cut_append (fun c hc => h.white c (mem_append_left _ hc))
        (fun c hc => (not_isWhitespace_of_isAsciiHexDigit (h.hex c hc)).1)
        fun c hc => h.white c (mem_append_right _ hc)
    have hall : digits.all Text.isAsciiHexDigit = true := all_eq_true.mpr h.hex
    simp [isWellFormedHash, (hstrip _).mpr h.text, hexDecodes, htrim, h.size, h.even, h.nonempty,
      hall, utf8Len_hexDigits h.hex, -append_assoc]

/-- **What a hash is meant to be.** -/
def IsDigest (s : String) : Prop :=
  ∃ digits, s.toList = hashStart.toList ++ digits ∧ digits.length = 64 ∧
    ∀ c ∈ digits, Text.isAsciiHexDigit c = true

theorem isDigest_iff : IsDigest s ↔ ∃ digits, HashText s [] digits [] := by
  constructor
  · rintro ⟨digits, htext, hlen, hhex⟩
    refine ⟨digits, by simpa using htext, ?_, by omega, (by simp [·] at hlen), hhex, by simp⟩
    rw [nil_append, append_nil, utf8Len_hexDigits hhex, hlen]
  · rintro ⟨digits, h⟩
    refine ⟨digits, by simpa using h.text, ?_, h.hex⟩
    simpa [utf8Len_hexDigits h.hex] using h.size

/-- **What `encode_digest` writes, `is_well_formed_hash` accepts.** -/
theorem HexDigits.formed (h : HexDigits env) (text : String) :
    isWellFormedHash (encodeDigest (env.sha256 text)) = true := by
  have hdigest : IsDigest (encodeDigest (env.sha256 text)) := ⟨_, String.toList_append, h text⟩
  obtain ⟨digits, hdigits⟩ := isDigest_iff.mp hdigest
  exact isWellFormedHash_iff.mpr ⟨_, digits, _, hdigits⟩

theorem HexDigits.contentHash_formed (h : HexDigits env)
    (hc : contentHash env payload = some content) : isWellFormedHash content = true := by
  obtain ⟨bytes, -, rfl⟩ := Option.map_eq_some_iff.mp hc
  exact h.formed bytes

theorem HexDigits.nextPrevHash_formed (h : HexDigits env) (head : Option EventLink) :
    isWellFormedHash (nextPrevHash env head) = true := by
  cases head with
  | none | some => exact h.formed _

/-- **Only real digests count, unless they are padded.** -/
theorem well_formed_hash_iff (s : String) :
    ((isWellFormedHash s = true ↔ IsDigest s) ∧
      ∀ {π : Type} (env : HashEnv π) (link : EventLink) (payload : π) (previous : Option EventLink)
        (fromGenesis : Bool), verifyLink env link payload previous fromGenesis = .ok () →
          contentHash env payload = some link.contentHash) ↔
      ¬ ∃ u digits w, HashText s u digits w ∧ u ++ w ≠ [] := by
  simp only [isWellFormedHash_iff, isDigest_iff]
  constructor
  · rintro ⟨hiff, -⟩ ⟨u, digits, w, hpadded, hne⟩
    obtain ⟨other, hother⟩ := hiff.mp ⟨u, digits, w, hpadded⟩
    have htext : other = u ++ digits ++ w := by
      simpa using hother.text.symm.trans hpadded.text
    obtain ⟨c, hc⟩ := exists_mem_of_ne_nil _ hne
    have hhex := hother.hex c (by grind)
    have hwhite := hpadded.white c hc
    rw [(not_isWhitespace_of_isAsciiHexDigit hhex).1] at hwhite
    cases hwhite
  · intro hplain
    refine ⟨⟨?_, fun ⟨digits, h⟩ => ⟨[], digits, [], h⟩⟩,
      fun _ _ _ _ _ h => (verifyLink_iff.mp h).1.content⟩
    rintro ⟨u, digits, w, h⟩
    have hnil : u ++ w = [] := of_not_not fun hne => hplain ⟨u, digits, w, h, hne⟩
    obtain ⟨rfl, rfl⟩ := append_eq_nil_iff.mp hnil
    exact ⟨digits, h⟩

/-- Sixty-two digits and two spaces. -/
def spacedHash : String := String.ofList (hashStart.toList ++ replicate 62 '0' ++ [' ', ' '])

theorem spaced_hash_accepted : isWellFormedHash spacedHash = true ∧ ¬ IsDigest spacedHash := by
  refine ⟨by decide, ?_⟩
  rintro ⟨digits, htext, -, hhex⟩
  have hdigits : digits = replicate 62 '0' ++ [' ', ' '] := by
    simpa [spacedHash] using htext.symm
  exact absurd (hhex ' ' (by simp [hdigits])) (by decide)

/-! ## 7. Three events of a log, with their digests -/

/-- The `n`-th of three payloads. -/
def samplePayload (n : Nat) : String := "\x7b\"n\":" ++ toString n ++ "\x7d"

/-- SHA-256 of the texts that a log of the three payloads hashes: the genesis text, the payloads,
what the rows after the first, the second and the third commit to, and what they commit to where
the first row has the third payload, and where the second row is taken for the first. -/
def sampleDigests : List (String × String) :=
  let genesis := "a0f050bf6482fa4db7751d76807c4cf9f2b9911d5f872db1c0b3df697e51413e"
  let one := "2bfd14f43d17fc7cea24e0917a8879b4b2f880b8baeec1b9d90fbaad655e71bd"
  let two := "363379742f80b51bdb9206579af7754911543079b9399cb3fc315fb199f476e8"
  let three := "215ddd5567ca2590efd4ea109b4e56cbe591e2676fbf54a9262692c539166da6"
  let first := "b199addc181f4b77aa0c9569c12f0e45a4a0e4a0f444c4eef20c482d1a4ae47e"
  let second := "1fc10ae60bac058880cc5130dbe4fed36daa3f411df781a434bb604862ab35b4"
  let third := "b69bc21091215749d1d4916d52a970cf9385e4a99d6a039c24610ee39d521bfe"
  let changed := "197155f4eab5ef3c16536687a4e8b0108ce043d8d31887d12efe01a4d425d32d"
  let floor := "eb1f4e0f95e20113f12a54292a3776a45a3e97ee49c102de55a137b7ed8d83c3"
  [("maidan.event-log.genesis/1", genesis),
   (samplePayload 1, one), (samplePayload 2, two), (samplePayload 3, three),
   (hashStart ++ genesis ++ "\n" ++ hashStart ++ one ++ "\n1", first),
   (hashStart ++ first ++ "\n" ++ hashStart ++ two ++ "\n2", second),
   (hashStart ++ second ++ "\n" ++ hashStart ++ three ++ "\n3", third),
   (hashStart ++ genesis ++ "\n" ++ hashStart ++ three ++ "\n1", changed),
   (hashStart ++ genesis ++ "\n" ++ hashStart ++ two ++ "\n2", floor)]

/-- The environment of that log.  Its payloads are canonical as they stand. -/
def sampleEnv : HashEnv where
  sha256 text := (sampleDigests.lookup text).getD (String.ofList (List.replicate 64 '0'))
  canonicalJson := some
  openedEvent payload := .ok { kind := .messagePosted, content := payload }

theorem sampleEnv_hexDigits : HexDigits sampleEnv := by
  have htable : ∀ entry ∈ sampleDigests, entry.2.toList.length = 64 ∧
      entry.2.toList.all Text.isAsciiHexDigit = true := by decide +kernel
  intro text
  simp only [sampleEnv]
  cases h : sampleDigests.lookup text with
  | none =>
    simp only [Option.getD_none, String.toList_ofList, length_replicate, true_and]
    intro c hc
    rw [eq_of_mem_replicate hc]
    rfl
  | some digest =>
    obtain ⟨before, rest, hentry, -⟩ := lookup_eq_some_iff.mp h
    obtain ⟨hlength, hdigits⟩ := htable (text, digest) (by simp [hentry])
    exact ⟨hlength, all_eq_true.mp hdigits⟩

end Maidan
