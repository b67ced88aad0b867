/-
# A log cannot be rewritten before a known head

If SHA-256 has no collisions among the texts that two logs hash, a row's commitment fixes the row
before it: its id, its two hashes, and by the content hash its payload.  So the last link of a log
that verifies from genesis fixes the whole log (`chain_tamper_evident`): there is no second one
with other payloads, with a row more or fewer, or in another order.

The assumption is about the texts at hand (`NoCollision`): a hash into sixty-four hexadecimal
digits has collisions somewhere.
-/
import Maidan.Lib.HashChain
import Maidan.Events.Canonical

namespace Maidan

open HashChain Json List

/-! ## 1. What is assumed of SHA-256 -/

/-- **No two of the texts have the same digest.** -/
def NoCollision (sha256 : String → String) (texts : List String) : Prop :=
  ∀ a ∈ texts, ∀ b ∈ texts, sha256 a = sha256 b → a = b

section Entries

variable {π : Type}

/-- The texts that verifying the rows hashes: the genesis text, the payloads and the links. -/
def hashedTexts (env : HashEnv π) (rows : List (EventLink × π)) : List String :=
  "maidan.event-log.genesis/1" :: rows.flatMap fun row =>
    (env.canonicalJson row.2).toList ++ [chainInput row.1.prevHash row.1.contentHash row.1.id]

/-- **What a row is known by**: everything but its `lsn`, which the chain does not cover. -/
structure Entry (π : Type) where
  id : Int
  prevHash : String
  contentHash : String
  payload : π

def Entry.of (row : EventLink × π) : Entry π :=
  { id := row.1.id, prevHash := row.1.prevHash, contentHash := row.1.contentHash,
    payload := row.2 }

/-- What the next row commits to. -/
def Entry.digest (env : HashEnv π) (e : Entry π) : String :=
  chainHash env e.prevHash e.contentHash e.id

theorem ChainOk.linked (h : ChainOk env rows) :
    Linked (Entry.digest env) Entry.prevHash (rows.map Entry.of) := by
  have hcontinues := (isChain_map _).mp h.continues
  exact (isChain_map _).mpr (hcontinues.imp fun _ _ hc => hc.commits)

theorem encodeDigest_injective (h : encodeDigest a = encodeDigest b) : a = b := by
  have hchars := congrArg String.toList h
  simp only [encodeDigest, String.toList_append, append_cancel_left_eq] at hchars
  exact String.toList_injective hchars

theorem HexDigits.newline_notMem (hsha : HexDigits env) (h : contentHash env payload = some content) :
    '\n' ∉ content.toList := by
  obtain ⟨bytes, -, rfl⟩ := Option.map_eq_some_iff.mp h
  intro hmem
  simp only [encodeDigest, String.toList_append, mem_append] at hmem
  rcases hmem with hmem | hmem
  · revert hmem
    decide
  · have hhex := (hsha bytes).2 _ hmem
    revert hhex
    decide

theorem mem_hashedTexts {env : HashEnv π} {rows : List (EventLink × π)} {row : EventLink × π}
    {text : String} (hrow : row ∈ rows)
    (htext : env.canonicalJson row.2 = some text ∨
      text = chainInput row.1.prevHash row.1.contentHash row.1.id) :
    text ∈ hashedTexts env rows := by
  refine mem_cons_of_mem _ (mem_flatMap.mpr ⟨row, hrow, mem_append.mpr ?_⟩)
  rcases htext with h | h
  · exact .inl (by simp [h])
  · exact .inr (by simp [h])

section NoCollision

variable {env : HashEnv π} {rows rows' : List (EventLink × π)}
  (hcol : NoCollision env.sha256 (hashedTexts env rows ++ hashedTexts env rows'))
  (hcanon : Function.Injective env.canonicalJson)

include hcol hcanon

/-- **A content hash fixes the payload.** -/
theorem payload_of_content (hrow : row ∈ rows) (hrow' : row' ∈ rows') (hok : RowOk env row)
    (hok' : RowOk env row') (h : row.1.contentHash = row'.1.contentHash) : row.2 = row'.2 := by
  obtain ⟨text, htext, hd⟩ := Option.map_eq_some_iff.mp hok.content
  obtain ⟨text', htext', hd'⟩ := Option.map_eq_some_iff.mp hok'.content
  have heq : text = text' :=
    hcol text (mem_append_left _ (mem_hashedTexts hrow (.inl htext)))
      text' (mem_append_right _ (mem_hashedTexts hrow' (.inl htext')))
      (encodeDigest_injective (by rw [hd, hd', h]))
  exact hcanon (by rw [htext, htext', heq])

/-- **A commitment fixes the row it is made to.** -/
theorem entry_of_digest (hsha : HexDigits env) (hok : ∀ row ∈ rows, RowOk env row)
    (hok' : ∀ row ∈ rows', RowOk env row) :
    ∀ a ∈ rows.map Entry.of, ∀ b ∈ rows'.map Entry.of, a.digest env = b.digest env → a = b := by
  intro a ha b hb hdigest
  obtain ⟨row, hrow, rfl⟩ := mem_map.mp ha
  obtain ⟨row', hrow', rfl⟩ := mem_map.mp hb
  -- the two links are one text, so they agree
  have hlink : chainInput row.1.prevHash row.1.contentHash row.1.id =
      chainInput row'.1.prevHash row'.1.contentHash row'.1.id :=
    hcol _ (mem_append_left _ (mem_hashedTexts hrow (.inr rfl)))
      _ (mem_append_right _ (mem_hashedTexts hrow' (.inr rfl)))
      (encodeDigest_injective hdigest)
  obtain ⟨hprev, hcontent, hid⟩ :=
    chainInput_injective (hsha.newline_notMem (hok row hrow).content)
      (hsha.newline_notMem (hok' row' hrow').content) hlink
  have hpayload :=
    payload_of_content hcol hcanon hrow hrow' (hok row hrow) (hok' row' hrow') hcontent
  simp only [Entry.of, hprev, hcontent, hid, hpayload]

omit hcanon in
theorem digest_ne_genesis : ∀ a ∈ rows.map Entry.of ++ rows'.map Entry.of,
    a.digest env ≠ genesisHash env := by
  intro a ha h
  rw [← map_append] at ha
  obtain ⟨row, hrow, rfl⟩ := mem_map.mp ha
  have hin : chainInput row.1.prevHash row.1.contentHash row.1.id ∈
      hashedTexts env rows ++ hashedTexts env rows' := by
    rcases mem_append.mp hrow with hrow | hrow
    · exact mem_append_left _ (mem_hashedTexts hrow (.inr rfl))
    · exact mem_append_right _ (mem_hashedTexts hrow (.inr rfl))
  have htext := hcol _ hin _ (mem_append_left _ mem_cons_self) (encodeDigest_injective h)
  -- a link is three lines, the genesis text is one
  have hnewline : '\n' ∈ "maidan.event-log.genesis/1".toList := by
    rw [← htext]
    simp [chainInput]
  revert hnewline
  decide

end NoCollision

end Entries

/-! ## 2. The last link fixes the log -/

/-- **The event chain is tamper evident.**  Two logs that verify from genesis and end in the same
link have the same rows: as many, with the same ids, the same hashes and the same payloads. -/
theorem chain_tamper_evident {φ : Type} (ft : FloatText φ) (sha256 : String → String)
    (openedEvent : JsonValue φ → Except String Event)
    (hsha : HexDigits (jsonEnv ft sha256 openedEvent)) (rows rows' : List (EventLink × JsonValue φ))
    (hcol : NoCollision sha256 (hashedTexts (jsonEnv ft sha256 openedEvent) rows ++
      hashedTexts (jsonEnv ft sha256 openedEvent) rows'))
    (hok : (verifyChain (jsonEnv ft sha256 openedEvent) (rows.map Prod.fst)
      (rows.map Prod.snd)).ok = true)
    (hgen : (verifyChain (jsonEnv ft sha256 openedEvent) (rows.map Prod.fst)
      (rows.map Prod.snd)).fromGenesis = true)
    (hok' : (verifyChain (jsonEnv ft sha256 openedEvent) (rows'.map Prod.fst)
      (rows'.map Prod.snd)).ok = true)
    (hgen' : (verifyChain (jsonEnv ft sha256 openedEvent) (rows'.map Prod.fst)
      (rows'.map Prod.snd)).fromGenesis = true)
    (hlast : (rows.map Prod.fst).getLast? = (rows'.map Prod.fst).getLast?) :
    rows.length = rows'.length ∧
    rows.map (fun row => row.1.id) = rows'.map (fun row => row.1.id) ∧
    rows.map (fun row => (row.1.prevHash, row.1.contentHash)) =
      rows'.map (fun row => (row.1.prevHash, row.1.contentHash)) ∧
    rows.map Prod.snd = rows'.map Prod.snd := by
  generalize henv : jsonEnv ft sha256 openedEvent = env at *
  have hcanon : Function.Injective env.canonicalJson := by
    rw [← henv]
    exact fun v w h => canonicalJson_injective ft (Option.some.inj h)
  have hcol' : NoCollision env.sha256 (hashedTexts env rows ++ hashedTexts env rows') := by
    rw [← henv] at hcol ⊢
    exact hcol
  have hchain := (verifyChain_ok_iff env rows).mp hok
  have hchain' := (verifyChain_ok_iff env rows').mp hok'
  -- the last rows agree, payload included
  have hentry : (rows.map Entry.of).getLast? = (rows'.map Entry.of).getLast? := by
    rw [getLast?_map, getLast?_map] at hlast ⊢
    cases hl : rows.getLast? with
    | none =>
      cases hl' : rows'.getLast? with
      | none => rfl
      | some => simp [hl, hl'] at hlast
    | some row =>
      cases hl' : rows'.getLast? with
      | none => simp [hl, hl'] at hlast
      | some row' =>
        have hrow := mem_of_getLast? hl
        have hrow' := mem_of_getLast? hl'
        have hlink : row.1 = row'.1 := by simpa [hl, hl'] using hlast
        have hpayload := payload_of_content hcol' hcanon hrow hrow' (hchain.rowOk row hrow)
          (hchain'.rowOk row' hrow') (by rw [hlink])
        simp only [Option.map_some, Entry.of, hlink, hpayload]
  have hstart : ∀ {rows : List (EventLink × JsonValue φ)},
      (verifyChain env (rows.map Prod.fst) (rows.map Prod.snd)).ok = true →
      (verifyChain env (rows.map Prod.fst) (rows.map Prod.snd)).fromGenesis = true →
      ∀ a ∈ (rows.map Entry.of).head?, a.prevHash = genesisHash env := by
    intro rows hok hgen a ha
    cases rows with
    | nil => cases ha
    | cons =>
      obtain rfl := Option.some.inj ha
      exact (verifyChain_fromGenesis hok).mp hgen
  have hrows : rows.map Entry.of = rows'.map Entry.of :=
    hchain.linked.eq_of_last hchain'.linked
      (entry_of_digest hcol' hcanon hsha hchain.rowOk hchain'.rowOk) hentry (hstart hok hgen)
      (hstart hok' hgen') (digest_ne_genesis hcol')
  have hcolumn : ∀ {β : Type} (f : Entry (JsonValue φ) → β),
      rows.map (fun row => f (Entry.of row)) = rows'.map (fun row => f (Entry.of row)) := by
    intro β f
    have h := congrArg (List.map f) hrows
    rwa [map_map, map_map] at h
  exact ⟨by simpa using congrArg List.length hrows, hcolumn Entry.id,
    hcolumn fun e => (e.prevHash, e.contentHash), hcolumn Entry.payload⟩

/-- Numbers halfway between two integers, as a float is printed. -/
def halves : FloatText Nat where
  text n := (toString n).toList ++ ['.', '5']
  injective := by
    intro n m h
    exact Nat.repr_injective (String.toList_injective (append_cancel_right h))
  chars := by
    intro n c hc
    have hhalf : ∀ c ∈ ['.', '5'], isNumberChar c = true := by simp [isNumberChar, Char.isDigit]
    rcases mem_append.mp hc with hc | hc
    · exact int_numberChars n c hc
    · exact hhalf c hc
  marked n := .inl (by simp)

theorem sampleEnv_noCollision : NoCollision sampleEnv.sha256 (sampleDigests.map Prod.fst) := by
  have hkeys : (sampleDigests.map Prod.fst).Nodup := by decide +kernel
  have hdigests : (sampleDigests.map Prod.snd).Nodup := by decide +kernel
  have hsha : ∀ entry ∈ sampleDigests, sampleEnv.sha256 entry.1 = entry.2 := by
    rintro ⟨text, digest⟩ hentry
    obtain ⟨front, rest, hsplit⟩ := append_of_mem hentry
    have hlookup : sampleDigests.lookup text = some digest := by
      refine lookup_eq_some_iff.mpr ⟨front, rest, hsplit, fun other hother => ?_⟩
      rw [hsplit, map_append, nodup_append] at hkeys
      simpa using fun heq : text = other.1 =>
        hkeys.2.2 other.1 (mem_map_of_mem hother) text (by simp) heq.symm
    simp only [sampleEnv, hlookup, Option.getD_some]
  intro a ha b hb h
  obtain ⟨entry, hentry, rfl⟩ := mem_map.mp ha
  obtain ⟨entry', hentry', rfl⟩ := mem_map.mp hb
  rw [hsha entry hentry, hsha entry' hentry'] at h
  rw [inj_on_of_nodup_map hdigests hentry hentry' h]

/-- The `n`-th sample payload as a value. -/
def sampleValue (n : Nat) : JsonValue Nat :=
  ⟨.obj [("n", .int n)], .obj (by simp) (by
    intro f hf
    rw [mem_singleton.mp hf]
    exact .int n)⟩

/-- The sample log's environment with its payloads as values. -/
def sampleJsonEnv : HashEnv (JsonValue Nat) :=
  jsonEnv halves sampleEnv.sha256 fun _ => .ok { kind := .messagePosted, content := "" }

/-- The first two rows of the sample log, the first under a given `lsn`. -/
def sampleRows (lsn : Int) : List (EventLink × JsonValue Nat) :=
  let first : EventLink :=
    { id := 1, lsn := lsn, prevHash := genesisHash sampleEnv
      contentHash := encodeDigest (sampleEnv.sha256 (samplePayload 1)) }
  [(first, sampleValue 1),
   ({ id := 2, lsn := 2, prevHash := chainHash sampleEnv first.prevHash first.contentHash 1
      contentHash := encodeDigest (sampleEnv.sha256 (samplePayload 2)) }, sampleValue 2)]

theorem sampleRows_chainOk (lsn : Int) : ChainOk sampleJsonEnv (sampleRows lsn) := by
  have hformed := sampleEnv_hexDigits.formed
  have hcommit : ∀ p c i, chainHash sampleEnv p c i = chainHash sampleJsonEnv p c i :=
    fun _ _ _ => rfl
  have hone : contentHash sampleJsonEnv (sampleValue 1) =
      some (encodeDigest (sampleEnv.sha256 (samplePayload 1))) := rfl
  have htwo : contentHash sampleJsonEnv (sampleValue 2) =
      some (encodeDigest (sampleEnv.sha256 (samplePayload 2))) := rfl
  refine ⟨?_, ?_⟩
  · intro row hrow
    simp only [sampleRows, mem_cons, not_mem_nil, or_false] at hrow
    rcases hrow with rfl | rfl
    · exact ⟨hformed _, hformed _, hone⟩
    · exact ⟨hformed _, hformed _, htwo⟩
  · exact isChain_pair.mpr ⟨(by decide : (1 : Int) < 2), hcommit _ _ _⟩

/-- Two sequences that differ in an `lsn` before the last link, and so in nothing else. -/
theorem chain_tamper_evident_sample :
    (sampleRows 1).map (fun row => row.1.lsn) ≠ (sampleRows 7).map (fun row => row.1.lsn) ∧
    (sampleRows 1).map Prod.snd = (sampleRows 7).map Prod.snd := by
  have htexts : hashedTexts sampleJsonEnv (sampleRows 1) ++ hashedTexts sampleJsonEnv (sampleRows 7) ⊆
      sampleDigests.map Prod.fst := by decide +kernel
  have hcol : NoCollision sampleEnv.sha256 (hashedTexts sampleJsonEnv (sampleRows 1) ++
      hashedTexts sampleJsonEnv (sampleRows 7)) :=
    fun a ha b hb => sampleEnv_noCollision a (htexts ha) b (htexts hb)
  have hok : ∀ lsn, (verifyChain sampleJsonEnv ((sampleRows lsn).map Prod.fst)
      ((sampleRows lsn).map Prod.snd)).ok = true :=
    fun lsn => (verifyChain_ok_iff _ _).mpr (sampleRows_chainOk lsn)
  have hgen : ∀ lsn, (verifyChain sampleJsonEnv ((sampleRows lsn).map Prod.fst)
      ((sampleRows lsn).map Prod.snd)).fromGenesis = true :=
    fun lsn => (verifyChain_fromGenesis (hok lsn)).mpr rfl
  exact ⟨by decide, (chain_tamper_evident halves sampleEnv.sha256 _ sampleEnv_hexDigits (sampleRows 1)
    (sampleRows 7) hcol (hok 1) (hgen 1) (hok 7) (hgen 7) rfl).2.2.2⟩

end Maidan
