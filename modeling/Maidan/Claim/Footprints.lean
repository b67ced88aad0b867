/-
# Claim footprints

`footprints.rs`: when does a thread's footprint overlap a live claim, and when is one of its
slots full.  `claim_next` asks both of a candidate and defers it when either holds
(`deferred`).

The second half is the mathematics of that rule.  Write `Live db id now` for "thread `id` holds a
live claim", and `Clear db now` for "no live claim is itself deferred by the other live ones".
Two facts say how `Clear` moves, and neither mentions an operation of the store:

* `clear_of_live_subset` -- if the live claims only shrink, `Clear` stays;
* `clear_of_one_more` -- if ONE thread becomes live, `Clear` stays provided that thread was not
  deferred when it did.  Overlap is symmetric, so the newcomer clashes with nobody; and the
  newcomer found its slots with room for one more, so nobody's slot overflows.
-/
import Maidan.Db

namespace Maidan

open Relational List

/-! ## 1. The deferral rule -/

/-- `live_claim`: an assignee, the thread open and live, and a lease that has not lapsed. -/
def liveClaim (held : ThreadRow) (now : Int) : Bool :=
  held.assigneeId.isSome && held.state == .open && held.tombstonedAt.isNone &&
    (match held.assignmentExpiresAt with
     | none => true
     | some expires => decide (now ≤ expires))

variable (db : Db)

/-- `live_claim` of the row a foreign key names. -/
def liveThread (id : ThreadId) (now : Int) : Bool :=
  match db.threads.get? id with
  | some held => liveClaim held now
  | none => false

/-- The key test of `overlapping`: one path is a prefix of the other, any other key is equal. -/
def keysMeet (mine theirs : FootprintRow) : Bool :=
  if mine.matchNamespace = .path then
    theirs.matchKey.toList.isPrefixOf mine.matchKey.toList ||
      mine.matchKey.toList.isPrefixOf theirs.matchKey.toList
  else mine.matchKey == theirs.matchKey

/-- The item test of `overlapping`: the join's conditions on `mine` and `theirs`. -/
def itemsOverlap (mine theirs : FootprintRow) : Bool :=
  theirs.workspaceId == mine.workspaceId && theirs.repo == mine.repo &&
    theirs.matchNamespace == mine.matchNamespace && theirs.threadId != mine.threadId &&
    mine.matchNamespace != .slot &&
    (mine.mode == .exclusive || theirs.mode == .exclusive || mine.matchNamespace == .branch) &&
    keysMeet mine theirs

variable (thread : ThreadId)

/-- `conflicts_with_live_claims`. -/
def conflictsWithLiveClaims (now : Int) : Bool :=
  db.threadFootprints.rows.any fun mine => mine.threadId == thread &&
    db.threadFootprints.rows.any fun theirs =>
      itemsOverlap mine theirs && liveThread db theirs.threadId now

/-- The threads other than `thread` that hold slot `key` of workspace `ws` under a live claim. -/
def slotHolders (ws : WorkspaceId) (key : String) (thread : ThreadId) (now : Int) : List ThreadId :=
  ((db.threadFootprints.rows.filter fun sf =>
    sf.workspaceId == ws && sf.matchNamespace == .slot && sf.matchKey == key &&
      sf.threadId != thread && liveThread db sf.threadId now).map FootprintRow.threadId).dedup

/-- `slot_in_use`. -/
def slotInUse (ws : WorkspaceId) (key : String) (thread : ThreadId) (now : Int) : Int :=
  (slotHolders db ws key thread now).length

/-- `slot_full`. -/
def slotFull (now : Int) : Bool :=
  db.threadFootprints.rows.any fun slots =>
    slots.threadId == thread && slots.matchNamespace == .slot &&
      match db.slotCapacities.get? (slots.workspaceId, slots.matchKey) with
      | some cap =>
        decide (cap.capacity ≤ slotInUse db slots.workspaceId slots.matchKey slots.threadId now)
      | none => false

/-- `repo_paused`. -/
def repoPaused : Bool :=
  db.threadFootprints.rows.any fun pf => pf.threadId == thread &&
    (db.repoPauses.get? (pf.workspaceId, pf.repo)).isSome

/-- `deferred`. -/
def deferred (now : Int) : Bool :=
  conflictsWithLiveClaims db thread now || repoPaused db thread || slotFull db thread now

/-! ## 2. Live claims -/

variable {now : Int}

theorem liveClaim_iff : liveClaim held now = true ↔
      held.assigneeId.isSome ∧ held.state = .open ∧ held.tombstonedAt = none ∧
        ∀ expires, held.assignmentExpiresAt = some expires → now ≤ expires := by
  unfold liveClaim
  cases h : held.assignmentExpiresAt <;> simp [and_assoc]

/-- A claim live at `now'` was live at every earlier `now`. -/
theorem liveClaim_anti (h : now ≤ now') (hl : liveClaim held now' = true) :
    liveClaim held now = true := by
  rw [liveClaim_iff] at hl ⊢
  obtain ⟨ha, hs, ht, hd⟩ := hl
  refine ⟨ha, hs, ht, fun e he => ?_⟩
  have := hd e he
  omega

variable {id thread : ThreadId} {mine theirs : FootprintRow} {ws : WorkspaceId} {key : String}

theorem liveThread_iff {db : Db} : liveThread db id now = true ↔
      ∃ held, db.threads.get? id = some held ∧ liveClaim held now = true := by
  unfold liveThread
  cases h : db.threads.get? id <;> simp

theorem liveThread_anti {db : Db} (h : now ≤ now') (hl : liveThread db id now' = true) :
    liveThread db id now = true := by
  obtain ⟨held, hg, hc⟩ := liveThread_iff.mp hl
  exact liveThread_iff.mpr ⟨held, hg, liveClaim_anti h hc⟩

/-! ## 3. Overlap -/

theorem keysMeet_comm (h : theirs.matchNamespace = mine.matchNamespace) :
    keysMeet mine theirs = keysMeet theirs mine := by
  unfold keysMeet
  rw [h]
  split
  · exact Bool.or_comm _ _
  · exact Bool.beq_comm

/-- **Overlap is symmetric.** -/
theorem itemsOverlap_symm (h : itemsOverlap mine theirs = true) :
    itemsOverlap theirs mine = true := by
  simp only [itemsOverlap, Bool.and_eq_true, beq_iff_eq, bne_iff_ne, Bool.or_eq_true] at h ⊢
  obtain ⟨⟨⟨⟨⟨⟨hw, hr⟩, hn⟩, ht⟩, hs⟩, hm⟩, hk⟩ := h
  refine ⟨⟨⟨⟨⟨⟨hw.symm, hr.symm⟩, hn.symm⟩, Ne.symm ht⟩, ?_⟩, ?_⟩, ?_⟩
  · rw [hn]
    exact hs
  · rcases hm with (hm | hm) | hm
    · exact .inl (.inr hm)
    · exact .inl (.inl hm)
    · exact .inr (hn.trans hm)
  · rw [keysMeet_comm hn.symm]
    exact hk

theorem itemsOverlap_ne (h : itemsOverlap mine theirs = true) :
    theirs.threadId ≠ mine.threadId := by
  simp only [itemsOverlap, Bool.and_eq_true, bne_iff_ne] at h
  exact h.1.1.1.2

theorem conflictsWithLiveClaims_iff {db : Db} : conflictsWithLiveClaims db thread now = true ↔
      ∃ mine ∈ db.threadFootprints.rows, mine.threadId = thread ∧
        ∃ theirs ∈ db.threadFootprints.rows,
          itemsOverlap mine theirs = true ∧ liveThread db theirs.threadId now = true := by
  simp [conflictsWithLiveClaims]

/-! ## 4. Slots -/

/-- Thread `id` has slot `key` of workspace `ws` in its footprint. -/
def NamesSlot (id : ThreadId) (ws : WorkspaceId) (key : String) : Prop :=
  ∃ sf ∈ db.threadFootprints.rows,
    sf.threadId = id ∧ sf.workspaceId = ws ∧ sf.matchNamespace = .slot ∧ sf.matchKey = key

theorem mem_slotHolders {db : Db} : id ∈ slotHolders db ws key thread now ↔
      id ≠ thread ∧ NamesSlot db id ws key ∧ liveThread db id now = true := by
  simp only [slotHolders, mem_dedup, mem_map, mem_filter, Bool.and_eq_true, beq_iff_eq, bne_iff_ne]
  constructor
  · rintro ⟨sf, ⟨hm, ⟨⟨⟨hw, hn⟩, hk⟩, ht⟩, hl⟩, rfl⟩
    exact ⟨ht, ⟨sf, hm, rfl, hw, hn, hk⟩, hl⟩
  · rintro ⟨ht, ⟨sf, hm, rfl, hw, hn, hk⟩, hl⟩
    exact ⟨sf, ⟨hm, ⟨⟨⟨hw, hn⟩, hk⟩, ht⟩, hl⟩, rfl⟩

theorem slotHolders_nodup (ws : WorkspaceId) (key : String) (thread : ThreadId) (now : Int) :
    (slotHolders db ws key thread now).Nodup :=
  nodup_dedup _

theorem slotFull_iff {db : Db} : slotFull db thread now = true ↔
      ∃ ws key cap, NamesSlot db thread ws key ∧ db.slotCapacities.get? (ws, key) = some cap ∧
        cap.capacity ≤ slotInUse db ws key thread now := by
  simp only [slotFull, any_eq_true, Bool.and_eq_true, beq_iff_eq]
  constructor
  · rintro ⟨sf, hm, ⟨rfl, hn⟩, hc⟩
    cases hg : db.slotCapacities.get? (sf.workspaceId, sf.matchKey) with
    | none => simp [hg] at hc
    | some cap =>
      simp only [hg, decide_eq_true_eq] at hc
      exact ⟨sf.workspaceId, sf.matchKey, cap, ⟨sf, hm, rfl, rfl, hn, rfl⟩, hg, hc⟩
  · rintro ⟨ws, key, cap, ⟨sf, hm, rfl, rfl, hn, rfl⟩, hg, hc⟩
    refine ⟨sf, hm, ⟨rfl, hn⟩, ?_⟩
    simp only [hg, decide_eq_true_eq]
    exact hc

/-! ## 5. How the deferral rule moves with the live claims -/

/-- **No live claim is deferred by the other live claims**: none overlaps another, and none sits
in a slot that the others already fill. -/
def Clear (now : Int) : Prop :=
  ∀ id, liveThread db id now = true →
    conflictsWithLiveClaims db id now = false ∧ slotFull db id now = false

section Moves

variable {db db' : Db} {now now' : Int}

/-- Fewer live claims around `thread`, no new overlap. -/
theorem conflicts_of_fewer (hf : db'.threadFootprints = db.threadFootprints)
    (hsub : ∀ id, id ≠ thread → liveThread db' id now' = true → liveThread db id now = true)
    (h : conflictsWithLiveClaims db thread now = false) :
    conflictsWithLiveClaims db' thread now' = false := by
  rw [← Bool.not_eq_true] at h ⊢
  intro hc
  obtain ⟨mine, hm, rfl, theirs, ht, ho, hl⟩ := conflictsWithLiveClaims_iff.mp hc
  rw [hf] at hm ht
  refine h (conflictsWithLiveClaims_iff.mpr ⟨mine, hm, rfl, theirs, ht, ho, ?_⟩)
  exact hsub _ (itemsOverlap_ne ho) hl

theorem namesSlot_congr (hf : db'.threadFootprints = db.threadFootprints) :
    NamesSlot db' id ws key ↔ NamesSlot db id ws key := by
  unfold NamesSlot
  rw [hf]

/-- Distinct holders that are all among `l` are at most `l.length` many. -/
theorem slotInUse_le {l : List ThreadId} (h : ∀ id ∈ slotHolders db ws key thread now, id ∈ l) :
    slotInUse db ws key thread now ≤ l.length := by
  have hsub := subperm_of_subset (slotHolders_nodup db ws key thread now) h
  unfold slotInUse
  exact_mod_cast hsub.length_le

/-- Fewer live claims around `thread`, no slot of it fills up. -/
theorem slotFull_of_fewer (hf : db'.threadFootprints = db.threadFootprints)
    (hc : db'.slotCapacities = db.slotCapacities)
    (hsub : ∀ id, id ≠ thread → liveThread db' id now' = true → liveThread db id now = true)
    (h : slotFull db thread now = false) : slotFull db' thread now' = false := by
  rw [← Bool.not_eq_true] at h ⊢
  intro hfull
  obtain ⟨ws, key, cap, hn, hg, hle⟩ := slotFull_iff.mp hfull
  rw [hc] at hg
  refine h (slotFull_iff.mpr ⟨ws, key, cap, (namesSlot_congr hf).mp hn, hg, hle.trans ?_⟩)
  refine slotInUse_le fun id hid => ?_
  obtain ⟨hne, hns, hl⟩ := mem_slotHolders.mp hid
  exact mem_slotHolders.mpr ⟨hne, (namesSlot_congr hf).mp hns, hsub id hne hl⟩

/-- **More footprints and live claims defer no less.** -/
theorem deferred_mono (hf : ∀ f ∈ db.threadFootprints.rows, f ∈ db'.threadFootprints.rows)
    (hc : db'.slotCapacities = db.slotCapacities) (hp : db'.repoPauses = db.repoPauses)
    (hlive : ∀ id, liveThread db id now = true → liveThread db' id now' = true)
    (h : deferred db thread now = true) : deferred db' thread now' = true := by
  have hnames : ∀ {id ws key}, NamesSlot db id ws key → NamesSlot db' id ws key := by
    rintro id ws key ⟨sf, hsf, hnames⟩
    exact ⟨sf, hf sf hsf, hnames⟩
  unfold deferred at h ⊢
  rw [Bool.or_eq_true, Bool.or_eq_true] at h ⊢
  rcases h with (h | h) | h
  · obtain ⟨mine, hm, rfl, theirs, ht, ho, hl⟩ := conflictsWithLiveClaims_iff.mp h
    exact .inl (.inl (conflictsWithLiveClaims_iff.mpr
      ⟨mine, hf _ hm, rfl, theirs, hf _ ht, ho, hlive _ hl⟩))
  · obtain ⟨pf, hpf, hpaused⟩ := any_eq_true.mp h
    refine .inl (.inr (any_eq_true.mpr ⟨pf, hf pf hpf, ?_⟩))
    rw [hp]
    exact hpaused
  · obtain ⟨ws, key, cap, hn, hg, hle⟩ := slotFull_iff.mp h
    refine .inr (slotFull_iff.mpr ⟨ws, key, cap, hnames hn, by rw [hc]; exact hg, hle.trans ?_⟩)
    refine slotInUse_le fun id hid => ?_
    obtain ⟨hne, hns, hl⟩ := mem_slotHolders.mp hid
    exact mem_slotHolders.mpr ⟨hne, hnames hns, hlive id hl⟩

section

variable (hf : db'.threadFootprints = db.threadFootprints)
include hf

/-- **Fewer live claims keep `Clear`.** -/
theorem clear_of_live_subset (hc : db'.slotCapacities = db.slotCapacities)
    (hsub : ∀ id, liveThread db' id now' = true → liveThread db id now = true) (h : Clear db now) :
    Clear db' now' := by
  intro id hl
  obtain ⟨hov, hsl⟩ := h id (hsub id hl)
  exact ⟨conflicts_of_fewer hf (fun id _ => hsub id) hov,
    slotFull_of_fewer hf hc (fun id _ => hsub id) hsl⟩

/-- A live neighbour `id` of the newcomer `c` finds room: `c` counted `id` among the holders of
their slot, and `id` counts `c` in its place. -/
theorem slot_room_of_newcomer {c : ThreadId} (ht : t0 ≤ now')
    (hsub : ∀ id, id ≠ c → liveThread db' id now' = true → liveThread db id now' = true)
    (hne : id ≠ c) (hlive : liveThread db' id now' = true) (hid : NamesSlot db id ws key) :
    slotInUse db' ws key id now' ≤ slotInUse db ws key c t0 := by
  have hmem : id ∈ slotHolders db ws key c t0 :=
    mem_slotHolders.mpr ⟨hne, hid, liveThread_anti ht (hsub id hne hlive)⟩
  have hlen := length_erase_of_mem hmem
  have hpos := length_pos_of_mem hmem
  have hle : slotInUse db' ws key id now' ≤
      (c :: (slotHolders db ws key c t0).erase id).length := by
    refine slotInUse_le fun x hx => ?_
    obtain ⟨hxid, hxs, hxl⟩ := mem_slotHolders.mp hx
    by_cases hxc : x = c
    · rw [hxc]
      exact mem_cons_self
    · refine mem_cons_of_mem _ ((mem_erase_of_ne hxid).mpr ?_)
      exact mem_slotHolders.mpr
        ⟨hxc, (namesSlot_congr hf).mp hxs, liveThread_anti ht (hsub x hxc hxl)⟩
  unfold slotInUse at hle ⊢
  rw [length_cons, hlen] at hle
  omega

/-- **One more live claim keeps `Clear`**, when the newcomer `c` was not deferred at `t0`, a
moment from which every claim live now was live. -/
theorem clear_of_one_more {c : ThreadId} (hc : db'.slotCapacities = db.slotCapacities)
    (ht : t0 ≤ now')
    (hsub : ∀ id, id ≠ c → liveThread db' id now' = true → liveThread db id now' = true)
    (hov : conflictsWithLiveClaims db c t0 = false) (hsl : slotFull db c t0 = false)
    (h : Clear db now') : Clear db' now' := by
  have hsub0 : ∀ id, id ≠ c → liveThread db' id now' = true → liveThread db id t0 = true :=
    fun id hne hl => liveThread_anti ht (hsub id hne hl)
  intro id hl
  by_cases hid : id = c
  · subst hid
    exact ⟨conflicts_of_fewer hf hsub0 hov, slotFull_of_fewer hf hc hsub0 hsl⟩
  · obtain ⟨hov', hsl'⟩ := h id (hsub id hid hl)
    rw [← Bool.not_eq_true] at hov hsl hov' hsl' ⊢
    rw [← Bool.not_eq_true]
    constructor
    · -- the overlap found from `id`'s side is one the newcomer would have found from its own
      intro hconf
      obtain ⟨mine, hm, rfl, theirs, hth, ho, hlt⟩ := conflictsWithLiveClaims_iff.mp hconf
      rw [hf] at hm hth
      by_cases htc : theirs.threadId = c
      · exact hov (conflictsWithLiveClaims_iff.mpr
          ⟨theirs, hth, htc, mine, hm, itemsOverlap_symm ho, hsub0 _ hid hl⟩)
      · exact hov' (conflictsWithLiveClaims_iff.mpr
          ⟨mine, hm, rfl, theirs, hth, ho, hsub _ htc hlt⟩)
    · intro hfull
      obtain ⟨ws, key, cap, hn, hg, hle⟩ := slotFull_iff.mp hfull
      rw [hc] at hg
      have hn' := (namesSlot_congr hf).mp hn
      by_cases hcs : NamesSlot db c ws key
      · refine hsl (slotFull_iff.mpr ⟨ws, key, cap, hcs, hg, hle.trans ?_⟩)
        exact slot_room_of_newcomer hf ht hsub hid hl hn'
      · refine hsl' (slotFull_iff.mpr ⟨ws, key, cap, hn', hg, hle.trans ?_⟩)
        refine slotInUse_le fun x hx => ?_
        obtain ⟨hxid, hxs, hxl⟩ := mem_slotHolders.mp hx
        have hxs' := (namesSlot_congr hf).mp hxs
        have hxc : x ≠ c := by
          rintro rfl
          exact hcs hxs'
        exact mem_slotHolders.mpr ⟨hxid, hxs', hsub x hxc hxl⟩

end

end Moves

end Maidan
