/-
# Filling blank links

`backfill_chain` gives rows without a `content_hash` the hashes they would have been appended with,
from the payloads they have NOW and the links before them.  It runs at every start, so a log that
was tampered with passes through it: someone with the database in hand can change payloads and
blank hashes, and the back-fill must not make the result verify.

The loop fills the blank rows in the order of their ids, a batch at a time.  Each row it fills is
then the first blank one, so what stands before it is final; `fillFrom` says in one pass what the
batches do together (`backfillChain_spec`).

A row that was left alone still commits to the row before it as it was.  With the rows before it
rebuilt from other payloads the two no longer meet (`backfill_never_launders`).  A log whose
payloads are untouched is rebuilt as it was, with one exception: the OLDEST row of a pruned log,
once blanked, is rebuilt as if it were the first of all.
-/
import Maidan.Events.Tamper

namespace Maidan

open Ordered Run HashChain Json List

variable {π : Type}

/-! ## 1. The loop -/

/-- `CHAIN_BACKFILL_BATCH`. -/
def chainBackfillBatch : Nat := 256

/-- A row without a content hash. -/
def EventRow.blank (r : EventRow π) : Bool := r.contentHash == ""

variable (log : EventLog π)

/-- An update that leaves the ids alone. -/
def EventLog.update (f : EventRow π → EventRow π) (hf : ∀ r, (f r).id = r.id) : EventLog π where
  rows := log.rows.map f
  lastId := log.lastId
  increasing := by
    refine pairwise_map.mpr (log.increasing.imp fun {a b} h => ?_)
    rw [hf, hf]
    exact h
  ids := by
    intro r hr
    obtain ⟨r', hr', rfl⟩ := mem_map.mp hr
    rw [hf]
    exact log.ids r' hr'
  drawn := log.drawn

/-- The rows still to be filled. -/
def EventLog.blanks : List (EventRow π) := log.rows.filter EventRow.blank

/-- `previous_link`. -/
def previousLink (workspace : Option WorkspaceId) (id : Int) : Option EventLink :=
  ((log.scoped workspace).filter fun r => decide (r.id < id)).getLast?.map EventRow.link

/-- The row with the hashes of a link. -/
def EventRow.withLink (r : EventRow π) (link : EventLink) : EventRow π :=
  { r with prevHash := link.prevHash, contentHash := link.contentHash }

/-- `UPDATE maidan_events SET prev_hash = ?, content_hash = ? WHERE id = ? AND content_hash = ''`. -/
def setLink (id : Int) (link : EventLink) : EventLog π :=
  log.update (fun r => if r.id = id ∧ r.blank then r.withLink link else r) (by
    intro r
    split <;> rfl)

/-- One row of a batch, as it was read. -/
def fillRow (env : HashEnv π) (log : EventLog π) (row : EventRow π) :
    Except StoreError (EventLog π) :=
  match linkFor env row.id row.payload (previousLink log row.workspaceId row.id) with
  | none => .error (.invalidInput "event chain JSON is not canonicalizable")
  | some link => .ok (setLink log row.id link)

/-- The batches.  A short one is the last. -/
def backfillLoop (env : HashEnv π) : Nat → EventLog π → Except StoreError (EventLog π)
  | 0, log => .ok log
  | fuel + 1, log =>
    let rows := log.blanks.take chainBackfillBatch
    if rows.isEmpty then .ok log
    else do
      let log ← rows.foldlM (fillRow env) log
      if rows.length < chainBackfillBatch then .ok log else backfillLoop env fuel log

/-- `backfill_chain`. -/
def backfillChain (env : HashEnv π) (log : EventLog π) : Except StoreError (EventLog π) :=
  backfillLoop env (log.rows.length + 1) log

/-! ## 2. What the loop does -/

/-- The row, filled if it is blank, where `previous` is the link before it. -/
def EventRow.filled (env : HashEnv π) (previous : Option EventLink) (r : EventRow π) : EventRow π :=
  if r.blank then
    match linkFor env r.id r.payload previous with
    | none => r
    | some link => r.withLink link
  else r

/-- **The rows of a workspace, filled in one pass.** -/
def fillFrom (env : HashEnv π) : Option EventLink → List (EventRow π) → List (EventRow π)
  | _, [] => []
  | previous, r :: rows =>
    r.filled env previous :: fillFrom env (some (r.filled env previous).link) rows

variable {env : HashEnv π} {log : EventLog π} {front rest : List (EventRow π)} {b : EventRow π}

theorem EventRow.filled_of_full {r : EventRow π} (h : r.blank = false) :
    r.filled env previous = r := by
  simp [EventRow.filled, h]

theorem fillFrom_of_full : ∀ {rows : List (EventRow π)}
    {previous : Option EventLink}, (∀ r ∈ rows, r.blank = false) → fillFrom env previous rows = rows
  | [], _, _ => rfl
  | r :: rows, previous, h => by
    obtain ⟨hr, hrows⟩ := forall_mem_cons.mp h
    rw [fillFrom, EventRow.filled_of_full hr, fillFrom_of_full hrows]

/-- The last link of a stretch of rows, or the one before it. -/
def lastLink (previous : Option EventLink) (rows : List (EventRow π)) : Option EventLink :=
  (rows.getLast?.map EventRow.link).or previous

theorem lastLink_cons (previous : Option EventLink) (r : EventRow π) (rows : List (EventRow π)) :
    lastLink previous (r :: rows) = lastLink (some r.link) rows := by
  unfold lastLink
  rw [getLast?_cons]
  cases rows.getLast? <;> rfl

theorem fillFrom_append : ∀ {front rest : List (EventRow π)}
    {previous : Option EventLink}, (∀ r ∈ front, r.blank = false) →
      fillFrom env previous (front ++ rest) = front ++ fillFrom env (lastLink previous front) rest
  | [], _, _, _ => rfl
  | r :: front, rest, previous, h => by
    obtain ⟨hr, hfront⟩ := forall_mem_cons.mp h
    rw [cons_append, fillFrom, EventRow.filled_of_full hr, fillFrom_append hfront,
      lastLink_cons, cons_append]

theorem linkFor_contentHash {id : Int} (h : linkFor env id payload previous = some link) :
    link.contentHash ≠ "" := by
  obtain ⟨content, hcontent, rfl⟩ := Option.map_eq_some_iff.mp h
  obtain ⟨bytes, -, rfl⟩ := Option.map_eq_some_iff.mp hcontent
  intro hempty
  have hlength := congrArg String.length hempty
  simp [encodeDigest, hashStart] at hlength

/-- A hash for every payload. -/
def HashesAll (env : HashEnv π) : Prop := ∀ payload, ∃ content, contentHash env payload = some content

theorem setLink_rows (hrows : log.rows = front ++ b :: rest) (hb : b.blank = true)
    (link : EventLink) : (setLink log b.id link).rows = front ++ b.withLink link :: rest := by
  have hinc := log.increasing
  rw [hrows] at hinc
  obtain ⟨-, hrest, hfront⟩ := pairwise_append.mp hinc
  have hother : ∀ {l : List (EventRow π)}, (∀ r ∈ l, r.id ≠ b.id) →
      l.map (fun r => if r.id = b.id ∧ r.blank then r.withLink link else r) = l := by
    intro l hl
    have hid : ∀ r ∈ l, (if r.id = b.id ∧ r.blank then r.withLink link else r) = id r :=
      fun r hr => if_neg fun h => hl r hr h.1
    rw [map_congr_left hid, map_id]
  simp only [setLink, EventLog.update, hrows, map_append, map_cons, hb, and_self, if_true]
  rw [hother fun r hr => Int.ne_of_lt (hfront r hr b mem_cons_self),
    hother fun r hr => (Int.ne_of_lt (rel_of_pairwise_cons hrest hr)).symm]

theorem previousLink_eq (hrows : log.rows = front ++ b :: rest) :
    previousLink log b.workspaceId b.id =
      lastLink none (front.filter fun r => r.workspaceId == b.workspaceId) := by
  have hinc := log.increasing
  rw [hrows] at hinc
  obtain ⟨-, hrest, hfront⟩ := pairwise_append.mp hinc
  have hbefore : ((log.scoped b.workspaceId).filter fun r => decide (r.id < b.id)) =
      front.filter fun r => r.workspaceId == b.workspaceId := by
    unfold EventLog.scoped
    rw [filter_filter, hrows, filter_append]
    have hin : (front.filter fun r => decide (r.id < b.id) && r.workspaceId == b.workspaceId) =
        front.filter fun r => r.workspaceId == b.workspaceId := by
      refine filter_congr fun r hr => ?_
      simp [hfront r hr b mem_cons_self]
    have hout : ((b :: rest).filter fun r =>
        decide (r.id < b.id) && r.workspaceId == b.workspaceId) = [] := by
      refine filter_eq_nil_iff.mpr fun r hr => ?_
      rcases mem_cons.mp hr with rfl | hr
      · simp
      · have hlt := rel_of_pairwise_cons hrest hr
        simp [Int.not_lt.mpr (Int.le_of_lt hlt)]
    rw [hin, hout, append_nil]
  unfold previousLink lastLink
  rw [hbefore, Option.or_none]

/-- **Filling the first blank row changes nothing of what the pass will make of the log.** -/
theorem fillRow_spec (hall : HashesAll env) {bs : List (EventRow π)}
    (hblanks : log.blanks = b :: bs) : ∃ log', fillRow env log b = .ok log' ∧ log'.blanks = bs ∧
      ∀ workspace, fillFrom env none (log'.scoped workspace) =
        fillFrom env none (log.scoped workspace) := by
  obtain ⟨front, rest, hrows, hfull, hb, hbs⟩ := filter_eq_cons_iff.mp hblanks
  have hfull : ∀ r ∈ front, r.blank = false := fun r hr => by simpa using hfull r hr
  obtain ⟨content, hcontent⟩ := hall b.payload
  obtain ⟨link, hlink⟩ : ∃ link, linkFor env b.id b.payload
      (previousLink log b.workspaceId b.id) = some link := by
    unfold linkFor
    rw [hcontent]
    exact ⟨_, rfl⟩
  have hrows' := setLink_rows hrows hb link
  have hnew : (b.withLink link).blank = false := by
    simpa [EventRow.blank, EventRow.withLink] using linkFor_contentHash hlink
  refine ⟨setLink log b.id link, by simp [fillRow, hlink], ?_, ?_⟩
  · unfold EventLog.blanks
    rw [hrows', filter_append, filter_cons_of_neg (by simp [hnew]), hbs,
      filter_eq_nil_iff.mpr (fun r hr => by simp [hfull r hr]), nil_append]
  · intro workspace
    have hws : (b.withLink link).workspaceId = b.workspaceId := rfl
    have hfull' : ∀ r ∈ front.filter fun r => r.workspaceId == workspace, r.blank = false :=
      fun r hr => hfull r (mem_filter.mp hr).1
    unfold EventLog.scoped
    rw [hrows', hrows, filter_append, filter_append]
    by_cases h : b.workspaceId = workspace
    · subst h
      rw [filter_cons_of_pos (by simp [hws]), filter_cons_of_pos (by simp),
        fillFrom_append hfull', fillFrom_append hfull']
      -- the pass fills this row with the same link
      have hsame : b.filled env (lastLink none
          (front.filter fun r => r.workspaceId == b.workspaceId)) = b.withLink link := by
        rw [previousLink_eq hrows] at hlink
        simp [EventRow.filled, hb, hlink]
      rw [fillFrom, fillFrom, hsame, EventRow.filled_of_full hnew]
    · rw [filter_cons_of_neg (by simp [hws, h]), filter_cons_of_neg (by simp [h])]

theorem fillBatch_spec (hall : HashesAll env) :
    ∀ {batch rest : List (EventRow π)} {log : EventLog π}, log.blanks = batch ++ rest →
      ∃ log', batch.foldlM (fillRow env) log = .ok log' ∧ log'.blanks = rest ∧
        ∀ workspace, fillFrom env none (log'.scoped workspace) =
          fillFrom env none (log.scoped workspace)
  | [], _, log, h => ⟨log, rfl, h, fun _ => rfl⟩
  | b :: batch, rest, log, h => by
    obtain ⟨log1, hfill, hblanks, hpass⟩ := fillRow_spec hall h
    obtain ⟨log', hbatch, hrest, hpass'⟩ := fillBatch_spec hall hblanks
    refine ⟨log', ?_, hrest, fun ws => (hpass' ws).trans (hpass ws)⟩
    rw [foldlM_cons, hfill]
    exact hbatch

theorem backfillLoop_spec (hall : HashesAll env) :
    ∀ {fuel : Nat} {log : EventLog π}, log.blanks.length < fuel →
      ∃ log', backfillLoop env fuel log = .ok log' ∧
        ∀ workspace, log'.scoped workspace = fillFrom env none (log.scoped workspace)
  | 0, _, h => absurd h (Nat.not_lt_zero _)
  | fuel + 1, log, h => by
    have hdone : ∀ {l : EventLog π}, l.blanks = [] → ∀ workspace,
        l.scoped workspace = fillFrom env none (l.scoped workspace) := by
      intro l hl workspace
      refine (fillFrom_of_full fun r hr => ?_).symm
      have hnot := filter_eq_nil_iff.mp hl r (EventLog.mem_scoped.mp hr).1
      simpa using hnot
    rw [backfillLoop]
    cases hbatch : log.blanks.take chainBackfillBatch with
    | nil =>
      have hnil : log.blanks = [] := by
        rcases take_eq_nil_iff.mp hbatch with h | h
        · cases h
        · exact h
      exact ⟨log, rfl, hdone hnil⟩
    | cons b batch =>
      obtain ⟨log1, hfold, hrest, hpass⟩ :=
        fillBatch_spec hall (take_append_drop chainBackfillBatch log.blanks).symm
      rw [hbatch] at hfold
      simp only [isEmpty_cons, Bool.false_eq_true, if_false, hfold]
      by_cases hshort : (b :: batch).length < chainBackfillBatch
      · -- a short batch held every blank row
        have hnil : log1.blanks = [] := by
          rw [hrest, drop_eq_nil_iff]
          rw [← hbatch, length_take] at hshort
          omega
        refine ⟨log1, if_pos hshort, fun workspace => ?_⟩
        rw [hdone hnil workspace, hpass workspace]
      · have hfuel : log1.blanks.length < fuel := by
          rw [hrest, length_drop]
          have hpos : 0 < (log.blanks.take chainBackfillBatch).length := by simp [hbatch]
          rw [length_take] at hpos
          omega
        obtain ⟨log', hloop, hlog'⟩ := backfillLoop_spec hall hfuel
        refine ⟨log', (if_neg hshort).trans hloop, fun workspace => ?_⟩
        rw [hlog' workspace, hpass workspace]

/-- **The back-fill ends, and has filled every workspace in one pass.** -/
theorem backfillChain_spec {env : HashEnv π} (hall : HashesAll env) (log : EventLog π) :
    ∃ log', backfillChain env log = .ok log' ∧
      ∀ workspace, log'.scoped workspace = fillFrom env none (log.scoped workspace) :=
  backfillLoop_spec hall (Nat.lt_succ_of_le (length_filter_le _ _))

/-! ## 3. Tampering -/

/-- The row under another payload, its hashes blanked or left alone. -/
def EventRow.edit (payloadOf : EventRow π → π) (blanked : EventRow π → Bool) (r : EventRow π) :
    EventRow π :=
  { r with
    payload := payloadOf r
    prevHash := if blanked r then "" else r.prevHash
    contentHash := if blanked r then "" else r.contentHash }

/-- **A log that was tampered with.** -/
def EventLog.tamper (payloadOf : EventRow π → π) (blanked : EventRow π → Bool) : EventLog π :=
  log.update (EventRow.edit payloadOf blanked) fun _ => rfl

theorem scoped_tamper (payloadOf : EventRow π → π) (blanked : EventRow π → Bool)
    (workspace : Option WorkspaceId) : (log.tamper payloadOf blanked).scoped workspace =
      (log.scoped workspace).map (EventRow.edit payloadOf blanked) := by
  unfold EventLog.tamper EventLog.update EventLog.scoped
  rw [filter_map]
  rfl

theorem RowOk.not_blank {r : EventRow π} (h : RowOk env r.chained) : r.blank = false := by
  have hne : r.contentHash ≠ "" := by
    intro hempty
    have hformed := h.contentFormed
    simp only [EventRow.chained, EventRow.link, hempty] at hformed
    revert hformed
    decide
  simpa [EventRow.blank] using hne

/-- **An untouched log is rebuilt as it was**, if its first row, once blanked, is given the link it
had. -/
theorem fillFrom_untouched : ∀ {rows : List (EventRow π)} {previous : Option EventLink},
      ChainOk env (rows.map EventRow.chained) →
      (∀ r ∈ rows.head?, blanked r = true → r.prevHash = nextPrevHash env previous) →
      fillFrom env previous (rows.map (EventRow.edit EventRow.payload blanked)) = rows
  | [], _, _, _ => rfl
  | r :: rows, previous, hchain, hfirst => by
    have hrow : RowOk env r.chained := hchain.rowOk r.chained (by simp)
    have hfilled : (r.edit EventRow.payload blanked).filled env previous = r := by
      cases hb : blanked r with
      | false =>
        have hsame : r.edit EventRow.payload blanked = r := by simp [EventRow.edit, hb]
        rw [hsame, EventRow.filled_of_full hrow.not_blank]
      | true =>
        have hlink : linkFor env r.id r.payload previous = some r.link := by
          have hcontent : contentHash env r.payload = some r.contentHash := hrow.content
          unfold linkFor
          rw [hcontent, Option.map_some, ← hfirst r rfl hb]
          rfl
        have hblank : (r.edit EventRow.payload blanked).blank = true := by
          simp [EventRow.blank, EventRow.edit, hb]
        simp only [EventRow.filled, hblank, if_true]
        have hread : linkFor env (r.edit EventRow.payload blanked).id
            (r.edit EventRow.payload blanked).payload previous = some r.link := hlink
        rw [hread]
        rfl
    have hrest : ChainOk env (rows.map EventRow.chained) :=
      hchain.contiguous (suffix_cons _ _).isInfix
    have hnext : ∀ r' ∈ rows.head?, blanked r' = true →
        r'.prevHash = nextPrevHash env (some r.link) := by
      intro r' hr' _
      obtain ⟨rest, rfl⟩ := head?_eq_some_iff.mp hr'
      exact (isChain_cons_cons.mp hchain.continues).1.commits
    rw [map_cons, fillFrom, hfilled, fillFrom_untouched hrest hnext]

/-- **A log that is blank throughout is chained anew.** -/
theorem fillFrom_blank {env : HashEnv π} (hsha : HexDigits env) (hall : HashesAll env) :
    ∀ {rows : List (EventRow π)} {previous : Option EventLink},
      (∀ r ∈ rows, r.blank = true) → Increasing EventRow.id rows →
      (∀ link ∈ previous, ∀ r ∈ rows.head?, link.id < r.id) →
      (∀ r ∈ fillFrom env previous rows, RowOk env r.chained) ∧
        (previous.toList ++ (fillFrom env previous rows).map EventRow.link).IsChain (Continues env)
  | [], previous, _, _, _ => by
    refine ⟨fun r hr => absurd hr not_mem_nil, ?_⟩
    cases previous with
    | none => exact .nil
    | some link => exact .singleton link
  | r :: rows, previous, hblank, hinc, hfirst => by
    obtain ⟨hr, hrows⟩ := forall_mem_cons.mp hblank
    obtain ⟨content, hcontent⟩ := hall r.payload
    have hfilled : r.filled env previous =
        { r with prevHash := nextPrevHash env previous, contentHash := content } := by
      simp [EventRow.filled, hr, linkFor, hcontent, EventRow.withLink]
    have hafter : ∀ link ∈ some (r.filled env previous).link, ∀ r' ∈ rows.head?,
        link.id < r'.id := by
      rintro link ⟨⟩ r' hr'
      rw [hfilled]
      exact rel_of_pairwise_cons hinc (mem_of_head? hr')
    obtain ⟨hok, hchain⟩ := fillFrom_blank hsha hall hrows (List.Pairwise.of_cons hinc) hafter
    refine ⟨?_, ?_⟩
    · rw [fillFrom]
      refine forall_mem_cons.mpr ⟨?_, hok⟩
      rw [hfilled]
      exact ⟨hsha.nextPrevHash_formed previous, hsha.contentHash_formed hcontent, hcontent⟩
    · rw [fillFrom, map_cons]
      cases previous with
      | none => exact hchain
      | some link =>
        refine isChain_cons_cons.mpr ⟨?_, hchain⟩
        rw [hfilled]
        exact ⟨hfirst link rfl r rfl, rfl⟩

/-! ## 4. What the back-fill cannot hide -/

theorem EventRow.filled_payload (env : HashEnv π) (previous : Option EventLink) (r : EventRow π) :
    (r.filled env previous).payload = r.payload := by
  unfold EventRow.filled
  split
  · split <;> rfl
  · rfl

theorem fillFrom_split {env : HashEnv π} {r : EventRow π} (hr : r.blank = false)
    {rest : List (EventRow π)} : ∀ {front : List (EventRow π)} {previous : Option EventLink},
    ∃ front' rest', fillFrom env previous (front ++ r :: rest) = front' ++ r :: rest' ∧
      front'.map EventRow.payload = front.map EventRow.payload
  | [], previous => by
    refine ⟨[], fillFrom env (some r.link) rest, ?_, rfl⟩
    rw [nil_append, fillFrom, EventRow.filled_of_full hr]
    rfl
  | x :: front, previous => by
    obtain ⟨front', rest', hfilled, hpayload⟩ :=
      @fillFrom_split env r hr rest front (some (x.filled env previous).link)
    refine ⟨x.filled env previous :: front', rest', ?_, ?_⟩
    · rw [cons_append, fillFrom, hfilled, cons_append]
    · rw [map_cons, map_cons, EventRow.filled_payload, hpayload]

/-- **A row left alone keeps the payloads before it**: if the filled log verifies, none of them was
changed. -/
theorem fillFrom_detects (hsha : HexDigits env) (hcanon : Function.Injective env.canonicalJson)
    (hchain : ChainOk env ((front ++ r' :: rest).map EventRow.chained)) (hkept : blanked r' = false)
    (hfilled : fillFrom env none
      ((front ++ r' :: rest).map (EventRow.edit payloadOf blanked)) = filled)
    (hcol : NoCollision env.sha256 (hashedTexts env ((front ++ r' :: rest).map EventRow.chained) ++
      hashedTexts env (filled.map EventRow.chained)))
    (hok : ChainOk env (filled.map EventRow.chained)) : ∀ r ∈ front, payloadOf r = r.payload := by
  have hfull : (r'.edit payloadOf blanked).blank = false := by
    have hnot := (hchain.rowOk r'.chained (by simp)).not_blank
    simpa [EventRow.blank, EventRow.edit, hkept] using hnot
  rw [map_append, map_cons] at hfilled
  obtain ⟨front', rest', hsplit, hpayload⟩ := fillFrom_split hfull
  rw [hfilled] at hsplit
  subst hsplit
  have hlength : front'.length = front.length := by
    simpa using congrArg List.length hpayload
  -- both logs commit to the row before the one left alone, in the same words
  have hlinked := hchain.linked
  have hlinked' := hok.linked
  simp only [map_append, map_cons, map_map] at hlinked hlinked'
  have hinj := entry_of_digest hcol hcanon hsha hchain.rowOk hok.rowOk
  simp only [map_append, map_cons, map_map] at hinj
  have hcut := isChain_append.mp hlinked
  have hcut' := isChain_append.mp hlinked'
  have hmem : ∀ {l : List (EventRow π)} {z : EventRow π} {zs : List (EventRow π)}
      {a : Entry π}, a ∈ l.map (Entry.of ∘ EventRow.chained) →
      a ∈ l.map (Entry.of ∘ EventRow.chained) ++
        (Entry.of z.chained :: zs.map (Entry.of ∘ EventRow.chained)) :=
    fun ha => mem_append_left _ ha
  have hlast : (front.map (Entry.of ∘ EventRow.chained)).getLast? =
      (front'.map (Entry.of ∘ EventRow.chained)).getLast? := by
    cases hl : (front.map (Entry.of ∘ EventRow.chained)).getLast? with
    | none =>
      have hnil : front' = [] := by
        have hfront : front = [] := map_eq_nil_iff.mp (getLast?_eq_none_iff.mp hl)
        rw [hfront] at hlength
        exact eq_nil_of_length_eq_zero hlength
      rw [hnil]
      rfl
    | some a =>
      cases hl' : (front'.map (Entry.of ∘ EventRow.chained)).getLast? with
      | none =>
        have hfront' : front' = [] := map_eq_nil_iff.mp (getLast?_eq_none_iff.mp hl')
        rw [hfront'] at hlength
        rw [eq_nil_of_length_eq_zero hlength.symm] at hl
        cases hl
      | some a' =>
        have hd := hcut.2.2 a hl _ rfl
        have hd' := hcut'.2.2 a' hl' _ rfl
        have hprev : (Entry.of r'.chained).prevHash =
            (Entry.of (r'.edit payloadOf blanked).chained).prevHash := by
          simp [Entry.of, EventRow.chained, EventRow.link, EventRow.edit, hkept]
        exact congrArg some (hinj a (hmem (mem_of_getLast? hl)) a'
          (hmem (mem_of_getLast? hl')) (hd.symm.trans (hprev.trans hd')))
  have hentries : front.map (Entry.of ∘ EventRow.chained) =
      front'.map (Entry.of ∘ EventRow.chained) := by
    rcases Linked.comparable hcut.1 hcut'.1 (fun a ha b hb => hinj a (hmem ha) b (hmem hb)) hlast with
      h | h
    · exact h.eq_of_length (by simp [hlength])
    · exact (h.eq_of_length (by simp [hlength])).symm
  have hcolumn : front.map EventRow.payload = front.map payloadOf := by
    have h := congrArg (List.map Entry.payload) hentries
    rw [map_map, map_map] at h
    calc front.map EventRow.payload = front'.map EventRow.payload := h
      _ = (front.map (EventRow.edit payloadOf blanked)).map EventRow.payload := hpayload
      _ = front.map payloadOf := by rw [map_map]; rfl
  intro r hr
  exact (map_inj_left.mp hcolumn r hr).symm

/-- **Back-filling never launders a tampered log.**  Of a workspace that verified, let payloads be
changed and hashes be blanked; the back-fill then ends, and:

1. if a row after a changed one was left alone, the workspace no longer verifies;
2. if no payload was changed, it verifies -- unless its oldest row was blanked, did not follow
   genesis, and some other row was left alone. -/
theorem backfill_never_launders {φ : Type} (ft : FloatText φ) (sha256 : String → String)
    (openedEvent : JsonValue φ → Except String Event)
    (hsha : HexDigits (jsonEnv ft sha256 openedEvent)) (log : EventLog (JsonValue φ))
    (workspace : WorkspaceId)
    (hok : (log.verifyChain (jsonEnv ft sha256 openedEvent) workspace).ok = true)
    (payloadOf : EventRow (JsonValue φ) → JsonValue φ)
    (blanked : EventRow (JsonValue φ) → Bool) :
    ∃ filled, backfillChain (jsonEnv ft sha256 openedEvent) (log.tamper payloadOf blanked) =
        .ok filled ∧
      (NoCollision sha256 (hashedTexts (jsonEnv ft sha256 openedEvent)
            ((log.scoped (some workspace)).map EventRow.chained) ++
          hashedTexts (jsonEnv ft sha256 openedEvent)
            ((filled.scoped (some workspace)).map EventRow.chained)) →
        (∃ r ∈ log.scoped (some workspace), payloadOf r ≠ r.payload ∧
          ∃ r' ∈ log.scoped (some workspace), r.id < r'.id ∧ blanked r' = false) →
        (filled.verifyChain (jsonEnv ft sha256 openedEvent) workspace).ok = false) ∧
      ((∀ r ∈ log.scoped (some workspace), payloadOf r = r.payload) →
        (∀ floor ∈ (log.scoped (some workspace)).head?, blanked floor = true →
            floor.prevHash = genesisHash (jsonEnv ft sha256 openedEvent)) ∨
          (∀ r ∈ log.scoped (some workspace), blanked r = true) →
        (filled.verifyChain (jsonEnv ft sha256 openedEvent) workspace).ok = true) := by
  have hcanon : Function.Injective (jsonEnv ft sha256 openedEvent).canonicalJson :=
    fun v w h => canonicalJson_injective ft (Option.some.inj h)
  have hall : HashesAll (jsonEnv ft sha256 openedEvent) := fun payload => ⟨_, rfl⟩
  obtain ⟨filled, hfill, hscoped⟩ := backfillChain_spec hall (log.tamper payloadOf blanked)
  have hrows := hscoped (some workspace)
  rw [scoped_tamper] at hrows
  have hchain := (EventLog.verifyChain_ok_iff _ log workspace).mp hok
  have hinc := log.increasing_scoped (some workspace)
  refine ⟨filled, hfill, ?_, ?_⟩
  · rintro hcol ⟨r, hr, hchanged, r', hr', hlt, hkept⟩
    rw [← Bool.not_eq_true, EventLog.verifyChain_ok_iff]
    intro hverifies
    obtain ⟨front, rest, hsplit⟩ := append_of_mem hr'
    rw [hsplit] at hchain hrows hinc hr hcol
    -- the changed row stands before the one left alone
    have hfront : r ∈ front := by
      obtain ⟨-, hrest, -⟩ := pairwise_append.mp hinc
      rcases mem_append.mp hr with h | h
      · exact h
      · rcases mem_cons.mp h with rfl | h
        · exact absurd hlt (Int.lt_irrefl _)
        · have hbefore := rel_of_pairwise_cons hrest h
          omega
    exact hchanged (fillFrom_detects hsha hcanon hchain hkept hrows.symm hcol hverifies r hfront)
  · intro hkept hfloor
    rw [EventLog.verifyChain_ok_iff, hrows]
    have hedit : (log.scoped (some workspace)).map (EventRow.edit payloadOf blanked) =
        (log.scoped (some workspace)).map (EventRow.edit EventRow.payload blanked) :=
      map_congr_left fun r hr => by simp [EventRow.edit, hkept r hr]
    rw [hedit]
    rcases hfloor with hfloor | hblank
    · rw [fillFrom_untouched hchain hfloor]
      exact hchain
    · have hblanks : ∀ r ∈ (log.scoped (some workspace)).map
          (EventRow.edit EventRow.payload blanked), r.blank = true := by
        intro r hr
        obtain ⟨r₀, hr₀, rfl⟩ := mem_map.mp hr
        simp [EventRow.blank, EventRow.edit, hblank r₀ hr₀]
      have hinc' : Increasing EventRow.id ((log.scoped (some workspace)).map
          (EventRow.edit EventRow.payload blanked)) := pairwise_map.mpr hinc
      obtain ⟨hrowOk, hcont⟩ := @fillFrom_blank _ _ hsha hall _ none hblanks hinc'
        fun _ h => absurd h (Option.not_mem_none _)
      refine ⟨?_, ?_⟩
      · intro row hrow
        obtain ⟨r, hr, rfl⟩ := mem_map.mp hrow
        exact hrowOk r hr
      · rw [map_map]
        exact hcont

/-- The first two rows of the sample log, in a workspace. -/
def sampleLog : EventLog (JsonValue Nat) where
  rows := (sampleRows 1).map fun row =>
    { id := row.1.id, workspaceId := some ⟨1⟩, occurredAt := 0, payload := row.2,
      prevHash := row.1.prevHash, contentHash := row.1.contentHash }
  lastId := 2
  increasing := by
    refine pairwise_pair.mpr ?_
    show (1 : Int) < 2
    decide
  ids := by
    intro r hr
    obtain ⟨row, hrow, rfl⟩ := mem_map.mp hr
    simp only [sampleRows, mem_cons, not_mem_nil, or_false] at hrow
    rcases hrow with rfl | rfl
    · exact (by decide : (0 : Int) < 1 ∧ (1 : Int) ≤ 2)
    · exact (by decide : (0 : Int) < 2 ∧ (2 : Int) ≤ 2)
  drawn := by decide

/-- The first payload replaced by the third, and its row blanked. -/
def sampleTampered : EventLog (JsonValue Nat) :=
  sampleLog.tamper (fun r => if r.id = 1 then sampleValue 3 else r.payload) (fun r => r.id == 1)

/-- The second row, left alone, tells. -/
theorem backfill_never_launders_first :
    ∃ filled, backfillChain sampleJsonEnv sampleTampered = .ok filled ∧
      (filled.verifyChain sampleJsonEnv ⟨1⟩).ok = false := by
  have hok : (sampleLog.verifyChain sampleJsonEnv ⟨1⟩).ok = true :=
    (EventLog.verifyChain_ok_iff _ _ _).mpr (sampleRows_chainOk 1)
  obtain ⟨filled, hfill, hdetects, -⟩ := backfill_never_launders halves sampleEnv.sha256 _
    sampleEnv_hexDigits sampleLog ⟨1⟩ hok (fun r => if r.id = 1 then sampleValue 3 else r.payload)
    (fun r => r.id == 1)
  refine ⟨filled, hfill, hdetects ?_ ?_⟩
  · -- the texts of the two logs are all in the table
    obtain ⟨filled', hfill', hscoped⟩ :=
      @backfillChain_spec _ sampleJsonEnv (fun payload => ⟨_, rfl⟩) sampleTampered
    obtain rfl : filled = filled' := Except.ok.inj (hfill.symm.trans hfill')
    have htexts : hashedTexts sampleJsonEnv ((sampleLog.scoped (some ⟨1⟩)).map EventRow.chained) ++
        hashedTexts sampleJsonEnv ((fillFrom sampleJsonEnv none
          (sampleTampered.scoped (some ⟨1⟩))).map EventRow.chained) ⊆ sampleDigests.map Prod.fst := by
      decide +kernel
    rw [← hscoped] at htexts
    exact fun a ha b hb => sampleEnv_noCollision a (htexts ha) b (htexts hb)
  · have hmem : ∀ {row}, row ∈ sampleLog.rows → row ∈ sampleLog.scoped (some ⟨1⟩) := by
      intro row hrow
      refine EventLog.mem_scoped.mpr ⟨hrow, ?_⟩
      obtain ⟨link, -, rfl⟩ := mem_map.mp hrow
      rfl
    refine ⟨_, hmem mem_cons_self, ?_, _, hmem (mem_cons_of_mem _ mem_cons_self),
      (by decide : (1 : Int) < 2), rfl⟩
    intro h
    have hvalue := congrArg Subtype.val h
    simp [sampleValue] at hvalue

/-- **The floor of a pruned log, once blanked, is rebuilt as a first row**, and the row after it no
longer verifies, though no payload was changed. -/
theorem blanked_floor_breaks :
    let log := exec (logNext sampleJsonEnv) .empty
      [.append (some ⟨1⟩) (seconds 1) (sampleValue 1), .append (some ⟨1⟩) (seconds 2) (sampleValue 2),
       .append (some ⟨1⟩) (seconds 3) (sampleValue 3), .prune {} (seconds 2) 1000 100]
    (log.verifyChain sampleJsonEnv ⟨1⟩).ok = true ∧
    ((backfillChain sampleJsonEnv (log.tamper EventRow.payload fun r => r.id == 2)).map fun filled =>
      (filled.verifyChain sampleJsonEnv ⟨1⟩).ok) = .ok false := by
  decide +kernel

end Maidan
