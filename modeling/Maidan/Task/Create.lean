/-
# What creating a task writes

Every path that makes a thread writes the same four things beside the thread row: its footprint
(`footprints::insert_items_on`), its attributes (`thread_attributes::insert_on`, which refuses a
ticket another open change holds), the workspace's default engine, and its fingerprint
(`task_fingerprints::record_on`), linked to the oldest open task with the same brief.

SHA-256 is a parameter: the digest of a brief is `hash` of its fields, each present or absent, and
`taskFingerprint_eq_iff` is about the bytes the fields are laid out in.

Each function comes with its frame: the one table it writes.
-/
import Maidan.Task.Attributes
import Maidan.Review.Transition

namespace Maidan

open Relational Run Text

/-! ## 1. Attributes -/

/-- `UniqueAttributeKey::value_of`. -/
def UniqueAttributeKey.valueOf (attributes : TaskAttributes) : UniqueAttributeKey → Option String
  | .linearIssue => attributes.linearIssue
  | .repo => attributes.repo

/-- The column of a stored row that holds the key. -/
def UniqueAttributeKey.column (a : ThreadAttributesRow) : UniqueAttributeKey → Option String
  | .linearIssue => a.linearIssue
  | .repo => a.repo

/-- The oldest other open change of the workspace that gives `held` the same values. -/
def attributeHolder (db : Db) (ws : WorkspaceId) (thread : ThreadId)
    (held : List (UniqueAttributeKey × String)) : Option ThreadRow :=
  firstBy (fun t => [t.createdAt, (t.id.val : Int)]) (db.threads.rows.filter fun t =>
    t.id != thread && !t.state.isTerminal && t.tombstonedAt.isNone && db.workspaceOf t == some ws &&
      match db.threadAttributes.get? t.id with
      | none => false
      | some a => a.kind == .change && held.all fun (key, value) => key.column a == some value)

/-- The loop of `refuse_held_on` over the workspace's key sets. -/
def refuseHeldSets (db : Db) (ws : WorkspaceId) (thread : ThreadId) (attributes : TaskAttributes) :
    List (List UniqueAttributeKey) → Except StoreError Unit
  | [] => .ok ()
  | set :: sets =>
    match set.mapM (·.valueOf attributes) with
    | none => refuseHeldSets db ws thread attributes sets
    | some values =>
      match attributeHolder db ws thread (set.zip values) with
      | some holder => .error (.attributeHeld (set.zip values) holder.id)
      | none => refuseHeldSets db ws thread attributes sets

/-- `refuse_held_on`. -/
def refuseHeldOn (db : Db) (thread : ThreadId) (attributes : TaskAttributes) :
    Except StoreError Unit :=
  if attributes.kind ≠ .change ∨ (attributes.linearIssue.isNone ∧ attributes.repo.isNone) then
    .ok ()
  else
    match db.threads.get? thread with
    | none => .ok ()
    | some t =>
      if t.state.isTerminal || t.tombstonedAt.isSome then .ok ()
      else
        match db.workspaceRowOf t with
        | none => .ok ()
        | some ws => refuseHeldSets db ws.id thread attributes ws.uniqueThreadAttributes

/-- `thread_attributes::insert_on`.  It stores no `review_family`: the server sets that one. -/
def insertOn (db : Db) (thread : ThreadId) (attributes : TaskAttributes) :
    Except StoreError Db := do
  refuseHeldOn db thread attributes
  db.insertAttributes
    { threadId := thread, kind := attributes.kind, engine := attributes.engine,
      lane := attributes.lane, linearIssue := attributes.linearIssue,
      authorFamily := attributes.authorFamily, repo := attributes.repo }

variable {db db' : Db} {thread : ThreadId} {attributes : TaskAttributes}
  {hash : List (Option String) → String} {channel : ChannelId} {title description : Option String}
  {now : Int} {row : ThreadRow}

theorem insertOn_frame (h : insertOn db thread attributes = .ok db') :
    db' = { db with threadAttributes := db'.threadAttributes } := by
  obtain ⟨_, _, h⟩ := bind_ok h
  exact (insertAttributes_spec h).1

/-! ## 2. Footprints -/

/-- `footprints::insert_items_on`. -/
def insertItemsOn (db : Db) (thread : ThreadId) (ws : WorkspaceId) (footprint : Footprint) :
    List FootprintItem → Except StoreError Db
  | [] => .ok db
  | item :: items =>
    match db.threadFootprints.insert?
        { threadId := thread, workspaceId := ws, repo := footprint.repo, mode := footprint.mode,
          kind := item.kind, value := item.value, matchNamespace := item.kind.matchNamespace,
          matchKey := item.key } with
    | none => .error (.database "UNIQUE constraint failed: maidan_thread_footprints")
    | some footprints =>
      insertItemsOn { db with threadFootprints := footprints } thread ws footprint items

theorem insertItemsOn_spec : ∀ {items : List FootprintItem} {db db' : Db},
      insertItemsOn db thread ws footprint items = .ok db' →
      db' = { db with threadFootprints := db'.threadFootprints } ∧
        ∃ new, db'.threadFootprints.rows = db.threadFootprints.rows ++ new ∧
          ∀ f ∈ new, f.threadId = thread ∧ f.workspaceId = ws
  | [], db, db', h => by
    cases h
    exact ⟨rfl, [], by simp⟩
  | item :: items, db, db', h => by
    unfold insertItemsOn at h
    split at h
    · cases h
    rename_i footprints hins
    obtain ⟨hframe, new, hrows, hnew⟩ := insertItemsOn_spec h
    rw [Table.rows_of_insert? hins, List.append_assoc] at hrows
    exact ⟨by rw [hframe], _, hrows, by simpa using hnew⟩

/-! ## 3. Fingerprints -/

/-- `TaskKind::as_str`. -/
def TaskKind.asStr : TaskKind → String
  | .change => "change"
  | .plan => "plan"
  | .review => "review"

/-- `TASK_FINGERPRINT_VERSION`. -/
def taskFingerprintVersion : String := "maidan-task-fingerprint-v1"

/-- The fields `task_fingerprint` hashes. -/
def briefFields (title description : Option String) (attributes : TaskAttributes) :
    List (Option String) :=
  [some taskFingerprintVersion, trimmedOption title, trimmedOption description,
   some attributes.kind.asStr, attributes.engine.map TaskEngine.asStr,
   some (if attributes.threatModel then "1" else "0"), attributes.acceptance.map trimStr,
   attributes.linearIssue.map trimStr]

/-- `task_fingerprint`.  `hash` is the SHA-256 over the fields, each present or absent. -/
def taskFingerprint (hash : List (Option String) → String) (title description : Option String)
    (attributes : TaskAttributes) : Option String :=
  if (trimmedOption title).isNone ∧ (trimmedOption description).isNone then none
  else some (hash (briefFields title description attributes))

/-- A digest that tells briefs apart. -/
def plainHash (fields : List (Option String)) : String :=
  "|".intercalate (fields.map fun field => field.getD "")

/-- The oldest open task of the workspace with this fingerprint. -/
def sameBrief (db : Db) (ws : WorkspaceId) (fingerprint : String) (thread : ThreadId) :
    Option ThreadId :=
  (firstBy (fun f => [f.createdAt, (f.threadId.val : Int)])
    (db.taskFingerprints.rows.filter fun f =>
      f.workspaceId == ws && f.fingerprint == fingerprint && f.threadId != thread &&
        (db.threads.get? f.threadId).any liveOriginal)).map FingerprintRow.threadId

/-- The oldest open change of the workspace for this Linear issue. -/
def sameIssue (db : Db) (ws : WorkspaceId) (issue : String) (thread : ThreadId) : Option ThreadId :=
  (firstBy (fun t => [t.createdAt, (t.id.val : Int)])
    (db.threads.rows.filter fun t =>
      t.id != thread && liveOriginal t && db.workspaceOf t == some ws &&
        match db.threadAttributes.get? t.id with
        | none => false
        | some a => a.linearIssue == some issue && a.kind == .change)).map ThreadRow.id

theorem sameIssue_eq (db : Db) (ws : WorkspaceId) (issue : String) (thread : ThreadId) :
    sameIssue db ws issue thread = (firstBy (fun t => [t.createdAt, (t.id.val : Int)])
      (db.threads.rows.filter fun t =>
        t.id != thread && liveOriginal t && db.workspaceOf t == some ws &&
          (db.threadAttributes.get? t.id).any fun a =>
            a.linearIssue == some issue && a.kind == .change)).map ThreadRow.id := by
  unfold sameIssue
  congr 3
  funext t
  cases db.threadAttributes.get? t.id <;> rfl

/-- `task_fingerprints::insert_on`. -/
def insertFingerprint (db : Db) (thread : ThreadId) (ws : WorkspaceId) (fingerprint : String)
    (issue : Option String) (now : Int) : Except StoreError Db :=
  let duplicateOf := (sameBrief db ws fingerprint thread).or
    (issue.bind fun issue => sameIssue db ws issue thread)
  match db.taskFingerprints.insert?
      { threadId := thread, workspaceId := ws, fingerprint := fingerprint,
        duplicateOf := duplicateOf, createdAt := now } with
  | none => .error (.database "UNIQUE constraint failed: maidan_task_fingerprints.thread_id")
  | some fingerprints => .ok { db with taskFingerprints := fingerprints }

/-- `task_fingerprints::record_on`. -/
def recordOn (hash : List (Option String) → String) (db : Db) (thread : ThreadId)
    (channel : ChannelId) (title description : Option String) (attributes : TaskAttributes)
    (now : Int) : Except StoreError Db :=
  match taskFingerprint hash title description attributes with
  | none => .ok db
  | some fingerprint =>
    match db.channels.get? channel with
    | none => .error (.database
        "no rows returned by a query that expected to return at least one row")
    | some ch =>
      insertFingerprint db thread ch.workspaceId fingerprint
        (attributes.linearIssue.filter fun _ => attributes.kind = .change) now

section

variable (h : recordOn hash db thread channel title description attributes now = .ok db')
include h

/-- **`record_on`, both ways**: no brief and nothing written, or one row, linked as it was chosen. -/
theorem recordOn_cases : (taskFingerprint hash title description attributes = none ∧ db' = db) ∨
    ∃ fingerprint ch fingerprints,
      taskFingerprint hash title description attributes = some fingerprint ∧
      db.channels.get? channel = some ch ∧
      db.taskFingerprints.insert?
        { threadId := thread, workspaceId := ch.workspaceId, fingerprint := fingerprint,
          duplicateOf := (sameBrief db ch.workspaceId fingerprint thread).or
            ((attributes.linearIssue.filter fun _ => attributes.kind = .change).bind
              fun issue => sameIssue db ch.workspaceId issue thread),
          createdAt := now } = some fingerprints ∧
      db' = { db with taskFingerprints := fingerprints } := by
  unfold recordOn at h
  split at h
  · rename_i hnone
    cases h
    exact .inl ⟨hnone, rfl⟩
  · rename_i fingerprint hbrief
    split at h
    · cases h
    rename_i ch hch
    unfold insertFingerprint at h
    dsimp only at h
    split at h
    · cases h
    rename_i fingerprints hins
    cases h
    exact .inr ⟨fingerprint, ch, fingerprints, hbrief, hch, hins, rfl⟩

theorem recordOn_frame : db' = { db with taskFingerprints := db'.taskFingerprints } := by
  rcases recordOn_cases h with ⟨_, rfl⟩ | ⟨_, _, _, _, _, _, rfl⟩
  · rfl
  · rfl

end

/-! ## 4. A new thread -/

/-- **A thread was created**: `row` under an id that was free, with what is written beside it. -/
structure Created (db db' : Db) (row : ThreadRow) : Prop where
  frame : db' = { db with
    threads := db'.threads, threadAttributes := db'.threadAttributes,
    threadFootprints := db'.threadFootprints, taskFingerprints := db'.taskFingerprints }
  free : db.threads.get? row.id = none
  reads : ∀ id, db'.threads.get? id = if row.id = id then some row else db.threads.get? id

theorem Created.of_insertThread (h : db.insertThread row = .ok db1) (hframe : db' = { db1 with
      threadAttributes := db'.threadAttributes, threadFootprints := db'.threadFootprints,
      taskFingerprints := db'.taskFingerprints }) : Created db db' row := by
  obtain ⟨hf, hfree, hreads⟩ := insertThread_spec h
  have hthreads : db'.threads = db1.threads := by
    rw [hframe]
  refine ⟨?_, hfree, fun id => ?_⟩
  · rw [hframe, hf]
  · rw [hthreads]
    exact hreads id

/-- **It was recorded**: its fingerprint came last. -/
structure Recorded (hash : List (Option String) → String) (db db' : Db) (row : ThreadRow) : Prop
    extends Created db db' row where
  record : ∃ db₁ channel title description attributes now, Created db db₁ row ∧
    db₁.taskFingerprints = db.taskFingerprints ∧
    recordOn hash db₁ row.id channel title description attributes now = .ok db'

theorem Recorded.of_insertThread (h : db.insertThread row = .ok db1) (hframe : db2 = { db1 with
      threadAttributes := db2.threadAttributes, threadFootprints := db2.threadFootprints })
    (hrecord : recordOn hash db2 row.id channel title description attributes now = .ok db') :
    Recorded hash db db' row := by
  refine ⟨.of_insertThread h ?_, db2, _, _, _, _, _, .of_insertThread h ?_, ?_, hrecord⟩
  · rw [recordOn_frame hrecord, hframe]
  · rw [hframe]
  · rw [hframe, (insertThread_spec h).1]

theorem Created.kept {r : ThreadRow} {id : ThreadId} (h : Created db db' row)
    (hg : db.threads.get? id = some r) : db'.threads.get? id = some r := by
  rw [h.reads, if_neg]
  · exact hg
  · rintro rfl
    rw [h.free] at hg
    cases hg

theorem Created.self (h : Created db db' row) : db'.threads.get? row.id = some row := by
  rw [h.reads, if_pos rfl]

/-! ## 5. What a fingerprint says -/

section Fingerprint

open List

/-- `u64::to_be_bytes`. -/
def toBeBytes (n : Nat) : List UInt8 :=
  [56, 48, 40, 32, 24, 16, 8, 0].map fun s => UInt8.ofNat (n >>> s)

/-- `field`: what one field adds to the hashed bytes. -/
def fieldBytes : Option String → List UInt8
  | none => [0]
  | some value => 1 :: (toBeBytes value.utf8ByteSize ++ value.toByteArray.data.toList)

/-- The bytes it hashes. -/
def hashedBytes (fields : List (Option String)) : List UInt8 := fields.flatMap fieldBytes

/-- A text in memory: its length fits the eight bytes written for it. -/
def Fits (fields : List (Option String)) : Prop :=
  ∀ field ∈ fields, ∀ value ∈ field, value.utf8ByteSize < 2 ^ 64

theorem toBeBytes_inj (hn : n < 2 ^ 64) (hm : m < 2 ^ 64) (h : toBeBytes n = toBeBytes m) :
    n = m := by
  simp only [toBeBytes, map_cons, map_nil, cons.injEq, ← UInt8.toNat_inj, UInt8.toNat_ofNat',
    Nat.shiftRight_eq_div_pow, and_true] at h
  omega

/-- **A field can be read off the front of the bytes.** -/
theorem fieldBytes_append_inj (ha : ∀ value ∈ a, value.utf8ByteSize < 2 ^ 64)
    (hb : ∀ value ∈ b, value.utf8ByteSize < 2 ^ 64)
    (h : fieldBytes a ++ x = fieldBytes b ++ y) : a = b ∧ x = y := by
  cases a with
  | none =>
    cases b with
    | none => exact ⟨rfl, tail_eq_of_cons_eq h⟩
    | some => exact absurd (head_eq_of_cons_eq h) (by decide)
  | some v =>
    cases b with
    | none => exact absurd (head_eq_of_cons_eq h) (by decide)
    | some w =>
      simp only [fieldBytes, cons_append, append_assoc, cons.injEq, true_and] at h
      obtain ⟨hsize, hrest⟩ := append_inj h rfl
      obtain ⟨hbytes, hxy⟩ := append_inj hrest (toBeBytes_inj (ha v rfl) (hb w rfl) hsize)
      rw [Array.toList_inj, ← ByteArray.ext_iff, String.toByteArray_inj] at hbytes
      exact ⟨congrArg some hbytes, hxy⟩

theorem hashedBytes_inj (hlen : l.length = l'.length) (hl : Fits l) (hl' : Fits l')
    (h : hashedBytes l = hashedBytes l') : l = l' := by
  induction l generalizing l' with
  | nil => exact (length_eq_zero_iff.mp hlen.symm).symm
  | cons a l ih =>
    cases l' with
    | nil => cases hlen
    | cons b l' =>
      obtain ⟨ha, hl⟩ := forall_mem_cons.mp hl
      obtain ⟨hb, hrest'⟩ := forall_mem_cons.mp hl'
      obtain ⟨rfl, hrest⟩ := fieldBytes_append_inj ha hb h
      rw [ih (Nat.succ.inj hlen) hl hrest' hrest]

/-- **Equal fingerprints mean equal briefs**, for two tasks with a title or a description whose
bytes SHA-256 does not map to one digest. -/
theorem taskFingerprint_eq_iff (sha256 : List UInt8 → String) {t d t' d' : Option String}
    {a a' : TaskAttributes} (hbrief : trimmedOption t ≠ none ∨ trimmedOption d ≠ none)
    (hbrief' : trimmedOption t' ≠ none ∨ trimmedOption d' ≠ none)
    (hfits : Fits (briefFields t d a)) (hfits' : Fits (briefFields t' d' a'))
    (hsha : sha256 (hashedBytes (briefFields t d a)) = sha256 (hashedBytes (briefFields t' d' a')) →
      hashedBytes (briefFields t d a) = hashedBytes (briefFields t' d' a')) :
    taskFingerprint (sha256 ∘ hashedBytes) t d a = taskFingerprint (sha256 ∘ hashedBytes) t' d' a' ↔
      trimmedOption t = trimmedOption t' ∧ trimmedOption d = trimmedOption d' ∧ a.kind = a'.kind ∧
        a.engine = a'.engine ∧ a.threatModel = a'.threatModel ∧
        a.acceptance.map trimStr = a'.acceptance.map trimStr ∧
        a.linearIssue.map trimStr = a'.linearIssue.map trimStr := by
  have hkind : Function.Injective TaskKind.asStr := fun x y => by cases x <;> cases y <;> decide
  have hengine : Function.Injective TaskEngine.asStr := fun x y => by cases x <;> cases y <;> decide
  have hflag : Function.Injective fun b : Bool => if b then "1" else "0" :=
    fun x y => by cases x <;> cases y <;> decide
  have hsome : ∀ {t d a}, trimmedOption t ≠ none ∨ trimmedOption d ≠ none →
      taskFingerprint (sha256 ∘ hashedBytes) t d a =
        some (sha256 (hashedBytes (briefFields t d a))) := by
    intro t d a h
    refine if_neg fun hnone => ?_
    simp only [Option.isNone_iff_eq_none] at hnone
    exact h.elim (· hnone.1) (· hnone.2)
  rw [hsome hbrief, hsome hbrief', Option.some_inj]
  constructor
  · intro h
    have hfields := hashedBytes_inj (by simp [briefFields]) hfits hfits' (hsha h)
    simpa [briefFields, hkind.eq_iff, (Option.map_injective hengine).eq_iff, hflag.eq_iff]
      using hfields
  · rintro ⟨ht, hd, hk, he, hf, hacc, hlin⟩
    simp only [briefFields, ht, hd, hk, he, hf, hacc, hlin]

/-- The digest is the one of the bytes of both tasks. -/
theorem taskFingerprint_eq_iff_padded :
    let sha256 : List UInt8 → String := fun _ =>
      "b703310778537f00a4220cdeb894a6854ce795afdcdfbadf317e8e21e6291274"
    taskFingerprint (sha256 ∘ hashedBytes) (some " Fix it\n") (some " ") {} =
      taskFingerprint (sha256 ∘ hashedBytes) (some "Fix it") none {} :=
  (taskFingerprint_eq_iff _ (.inl (by decide +kernel)) (.inl (by decide +kernel))
    (by unfold Fits; decide +kernel) (by unfold Fits; decide +kernel)
    fun _ => by decide +kernel).mpr (by decide +kernel)

end Fingerprint

end Maidan
