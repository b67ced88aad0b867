/-
# Shredding is final

A shredded content key is gone for good: no append brings it back, whatever comes after the tombstone
is sealed under a key that nobody keeps, and a read of the message's events gets no key.  That no key
WHICH THE STORE HOLDS opens them is a statement about all keys at once, and rests on the draws: every
key comes from a draw of its own, so that the key an event was sealed under is held, if at all, by the
row of its own message (`SealedHere`).

One thing is not sealed here.  An event that arrives with its origin's `sealed` block and without its
key is stored AS IT CAME, and shreds the message here.  Nothing says under which key the peer sealed
that block: where it is a copy of a block of this store, the key of that other message opens it
(`copied_block_opens`).  Nor does anything take out words that stand beside the block, so
`shredding_is_final` is about events that arrive without (`BareBlocks`).
-/
import Maidan.Keys.Rotation

namespace Maidan

open Relational Table Run Relation List

variable {κ β ω σ : Type}

/-! ## 1. Keys, held and drawn -/

/-- **Sealed words open under their own key alone.** -/
def Cipher.Authentic (c : Cipher κ β ω σ) : Prop :=
  ∀ key key' message words nonce,
    c.openWords key' message (c.sealWords key message words nonce) ≠ none → key' = key

/-- **Every key drawn is a new one.** -/
structure Cipher.Fresh (c : Cipher κ β ω σ) (keys : ContentKeyring κ β) : Prop where
  injective : Function.Injective c.generate
  notKek : ∀ n, ∀ kek ∈ keys.localCustody.primary :: keys.localCustody.previous,
    c.generate n ≠ kek.key

/-- `shredded_at` is set. -/
def KeyTables.shredded (t : KeyTables κ β) (subject : ContentKeyId) : Bool :=
  t.status subject == some false

/-- **The keys the store holds**: the data keys its rows unwrap to, its workspace keys, and the
instance KEKs. -/
inductive HoldsKey (c : Cipher κ β ω σ) (keys : ContentKeyring κ β) (t : KeyTables κ β) : κ → Prop
  | data {subject : ContentKeyId} {refuses : Refusals} {key : κ}
      (h : unwrapJoined c keys refuses t (some subject) = .ok (some key)) : HoldsKey c keys t key
  | workspace {id : WorkspaceKeyId} {key : κ} (h : OpensKey c keys t id key) : HoldsKey c keys t key
  | kek {kek : Kek κ} (h : kek ∈ keys.localCustody.primary :: keys.localCustody.previous) :
      HoldsKey c keys t kek.key

variable {c : Cipher κ β ω σ} {keys : ContentKeyring κ β} {t t' : KeyTables κ β}
  {refuses : Refusals} {subject : ContentKeyId} {key : κ} {s s' s1 : Store κ β ω σ}
  {came : MessageEvent ω σ → Option PeerId → Prop} {event payload : MessageEvent ω σ}
  {env : HashEnv (MessageEvent ω σ)} {op : StoreOp κ ω σ} {block : σ}

theorem shredded_iff :
    t.shredded subject = true ↔ ∃ r, t.contentKeys.get? subject = some r ∧ r.wrapped = none := by
  simp [KeyTables.shredded, KeyTables.status]

theorem shredded_congr (h : t'.status subject = t.status subject) :
    t'.shredded subject = t.shredded subject := by
  simp only [KeyTables.shredded, h]

theorem unwrapJoined_shredded (h : t.shredded subject = true) :
    unwrapJoined c keys refuses t (some subject) = .ok none := by
  obtain ⟨r, hrow, hgone⟩ := shredded_iff.mp h
  simp only [unwrapJoined, bind_some, hrow, hgone]

/-- **The data key a read gets is the one its row was created with**, and the row is live. -/
theorem KeysSound.created_of_read (hs : KeysSound c keys t)
    (h : unwrapJoined c keys refuses t (some subject) = .ok (some key)) :
    t.created.lookup subject = some key ∧ t.shredded subject = false := by
  cases hrow : t.contentKeys.get? subject with
  | none =>
    simp only [unwrapJoined, bind_some, hrow] at h
    cases h
  | some r =>
    cases hw : r.wrapped with
    | none =>
      simp only [unwrapJoined, bind_some, hrow, hw] at h
      cases h
    | some =>
      simp only [unwrapJoined, bind_some, hrow, hw] at h
      obtain ⟨opened, hopened, h⟩ := bind_ok h
      obtain ⟨key', hkey, h⟩ := bind_ok h
      cases h
      have hid : r.id = subject := key_of_get? hrow
      have hunwraps := unwrapsTo_of_opened hw (fun _ h => h) hopened hkey
      obtain ⟨created, hcreated, hheld⟩ := hs.held r (mem_of_get? hrow) (by simp [hw])
      rw [hid, ← hunwraps.unique hheld.unwraps] at hcreated
      exact ⟨hcreated, by simp [KeyTables.shredded, KeyTables.status, hrow, hw]⟩

/-! ## 2. Tables that grow older -/

/-- `key` was drawn between the two. -/
def DrawnSince (c : Cipher κ β ω σ) (t t' : KeyTables κ β) (key : κ) : Prop :=
  ∃ i, t.drawn ≤ i ∧ i < t'.drawn ∧ key = c.generate i

/-- **What any number of moves leave**: a row stays, and stays shredded; and a key that was not there
before was drawn since. -/
structure Later (c : Cipher κ β ω σ) (keys : ContentKeyring κ β) (t t' : KeyTables κ β) : Prop where
  drawn : t.drawn ≤ t'.drawn
  row : ∀ subject r, t.contentKeys.get? subject = some r →
    ∃ r', t'.contentKeys.get? subject = some r' ∧ (r.wrapped = none → r'.wrapped = none)
  created : ∀ subject key, t'.created.lookup subject = some key →
    t.created.lookup subject = some key ∨ DrawnSince c t t' key
  opens : ∀ id key, OpensKey c keys t' id key → OpensKey c keys t id key ∨ DrawnSince c t t' key

theorem Later.refl (t : KeyTables κ β) : Later c keys t t where
  drawn := le_rfl
  row := fun _ r h => ⟨r, h, id⟩
  created := fun _ _ h => .inl h
  opens := fun _ _ h => .inl h

theorem Later.trans (h : Later c keys t t') (h' : Later c keys t' t'') : Later c keys t t'' := by
  have hsince : ∀ {key}, DrawnSince c t t' key → DrawnSince c t t'' key := by
    rintro key ⟨i, hfrom, hto, hkey⟩
    exact ⟨i, hfrom, hto.trans_le h'.drawn, hkey⟩
  have hsince' : ∀ {key}, DrawnSince c t' t'' key → DrawnSince c t t'' key := by
    rintro key ⟨i, hfrom, hto, hkey⟩
    exact ⟨i, h.drawn.trans hfrom, hto, hkey⟩
  refine ⟨h.drawn.trans h'.drawn, ?_, ?_, ?_⟩
  · intro subject r hrow
    obtain ⟨r', hrow', hgone⟩ := h.row subject r hrow
    obtain ⟨r'', hrow'', hgone'⟩ := h'.row subject r' hrow'
    exact ⟨r'', hrow'', fun hnone => hgone' (hgone hnone)⟩
  · intro subject key hkey
    rcases h'.created subject key hkey with hkey | hnew
    · exact (h.created subject key hkey).imp_right hsince
    · exact .inr (hsince' hnew)
  · intro id key hkey
    rcases h'.opens id key hkey with hkey | hnew
    · exact (h.opens id key hkey).imp_right hsince
    · exact .inr (hsince' hnew)

theorem Later.kept (h : Later c keys t t') (hrow : t.contentKeys.get? subject ≠ none) :
    t'.contentKeys.get? subject ≠ none := by
  obtain ⟨r, hr⟩ := Option.ne_none_iff_exists'.mp hrow
  obtain ⟨r', hr', -⟩ := h.row subject r hr
  simp [hr']

theorem Later.shredded (h : Later c keys t t') (hgone : t.shredded subject = true) :
    t'.shredded subject = true := by
  obtain ⟨r, hr, hnone⟩ := shredded_iff.mp hgone
  obtain ⟨r', hr', hgone'⟩ := h.row subject r hr
  exact shredded_iff.mpr ⟨r', hr', hgone' hnone⟩

/-- A row stays where it is, and stays shredded: it is live rows alone that are rewrapped, and an
insert finds the name taken. -/
theorem KeyMove.row (hmove : KeyMove c keys t t') (hrow : t.contentKeys.get? subject = some r) :
    ∃ r', t'.contentKeys.get? subject = some r' ∧ (r.wrapped = none → r'.wrapped = none) := by
  have hinsert : ∀ {new : ContentKeyRow β} {rows : Table (fun r : ContentKeyRow β => r.id)},
      t.contentKeys.insert? new = some rows → rows.get? subject = some r := by
    intro new rows hrows
    obtain ⟨hfree, hget⟩ := get?_of_insert? hrows
    refine (hget subject).trans ((if_neg fun heq => ?_).trans hrow)
    rw [heq, hrow] at hfree
    cases hfree
  cases hmove with
  | shred =>
    simp only [KeyTables.shred, get?_update]
    split
    · exact ⟨r.shred, by simp [hrow], fun _ => rfl⟩
    · exact ⟨r, hrow, id⟩
  | insertShredded s workspace hrows => exact ⟨r, hinsert hrows, id⟩
  | insertLive s workspace hopen hrows => exact ⟨r, hinsert hrows, id⟩
  | @rewrapContent live dataKey id workspaceKey hlive hdata hopen =>
    simp only [get?_update]
    split
    · rename_i hid
      have hsame : r = live := by
        rw [hid, hlive] at hrow
        exact (Option.some.inj hrow).symm
      obtain ⟨w, hw, -⟩ := hdata
      refine ⟨_, by rw [hrow]; rfl, fun hnone => ?_⟩
      rw [hsame, hw] at hnone
      cases hnone
    · exact ⟨r, hrow, fun hnone => hnone⟩
  | _ => exact ⟨r, hrow, id⟩

theorem KeyMove.opens (hlaw : keys.custody.Lawful) (hmove : KeyMove c keys t t')
    {id : WorkspaceKeyId} (h : OpensKey c keys t' id key) :
    OpensKey c keys t id key ∨ DrawnSince c t t' key := by
  obtain ⟨row, wrapped, hget, hw, hnot, hstored⟩ := h
  cases hmove with
  | retire =>
    simp only [KeyTables.retire, get?_updateWhere] at hget
    obtain ⟨old, hold, heq⟩ := map_eq_some_iff.mp hget
    refine .inl ⟨old, wrapped, hold, ?_, hnot, hstored⟩
    rw [← hw, ← heq]
    split <;> rfl
  | create workspace hnone hrows =>
    simp only [(get?_of_insert? hrows).2] at hget
    split at hget
    · -- the one key that is new
      rename_i hid
      cases hget
      cases hw
      cases hid
      refine .inr ⟨t.drawn, le_rfl, Nat.lt_succ_self _, ?_⟩
      exact Except.ok.inj (hstored.symm.trans (ContentKeyring.stored_wrap hlaw _ _ _))
    · exact .inl ⟨row, wrapped, hget, hw, hnot, hstored⟩
  | @rewrapWorkspace id' workspaceKey hopen =>
    simp only [get?_update] at hget
    split at hget
    · rename_i hid
      subst hid
      obtain ⟨old, hold, heq⟩ := map_eq_some_iff.mp hget
      subst heq
      cases hw
      have hkey : key = workspaceKey :=
        Except.ok.inj (hstored.symm.trans (ContentKeyring.stored_wrap hlaw _ _ _))
      exact .inl (hkey ▸ hopen)
    · exact .inl ⟨row, wrapped, hget, hw, hnot, hstored⟩
  | destroy =>
    simp only [KeyTables.destroy, mem_cons, not_or] at hnot
    simp only [KeyTables.destroy, get?_update, if_neg hnot.1] at hget
    exact .inl ⟨row, wrapped, hget, hw, hnot.2, hstored⟩
  | _ => exact .inl ⟨row, wrapped, hget, hw, hnot, hstored⟩

theorem KeyMove.later (hlaw : keys.custody.Lawful) (hmove : KeyMove c keys t t') :
    Later c keys t t' where
  drawn := by
    cases hmove with
    | shred | retire | destroy => exact le_rfl
    | _ => exact Nat.le_succ _
  row := fun _ _ hrow => hmove.row hrow
  created := by
    intro subject key hkey
    cases hmove with
    | insertLive =>
      rw [lookup_append, Option.or_eq_some_iff] at hkey
      rcases hkey with hkey | ⟨-, hkey⟩
      · exact .inl hkey
      · refine .inr ⟨t.drawn, le_rfl, Nat.lt_succ_self _, ?_⟩
        simp only [List.lookup] at hkey
        split at hkey
        · exact (Option.some.inj hkey).symm
        · cases hkey
    | _ => exact .inl hkey
  opens := fun _ _ hopens => hmove.opens hlaw hopens

theorem KeyMoves.later (hlaw : keys.custody.Lawful) (hmoves : KeyMoves c keys t t') :
    Later c keys t t' := by
  induction hmoves with
  | refl => exact .refl t
  | tail _ hmove ih => exact ih.trans (hmove.later hlaw)

/-! ## 3. Every key has a draw of its own -/

/-- **No two keys of the tables are one.** -/
structure KeysFresh (c : Cipher κ β ω σ) (keys : ContentKeyring κ β) (t : KeyTables κ β) : Prop where
  created : ∀ subject key, t.created.lookup subject = some key →
    ∃ i, i < t.drawn ∧ key = c.generate i
  opens : ∀ id key, OpensKey c keys t id key → ∃ i, i < t.drawn ∧ key = c.generate i
  distinct : ∀ subject subject' key, t.created.lookup subject = some key →
    t.created.lookup subject' = some key → subject = subject'
  apart : ∀ subject id key, t.created.lookup subject = some key → ¬OpensKey c keys t id key

theorem KeysFresh.empty (c : Cipher κ β ω σ) (keys : ContentKeyring κ β) :
    KeysFresh c keys ({} : KeyTables κ β) where
  created := by
    intro subject key h
    cases h
  opens := by
    rintro id key ⟨row, wrapped, hget, -⟩
    cases hget
  distinct := by
    intro subject subject' key h
    cases h
  apart := by
    intro subject id key h
    cases h

theorem drawn_apart (hinj : Function.Injective c.generate) (hi : i < t.drawn)
    (hkey : key = c.generate i) : ¬DrawnSince c t t' key := by
  rintro ⟨j, hfrom, -, hj⟩
  have hij : i = j := hinj (hkey.symm.trans hj)
  omega

theorem KeyMove.fresh (hlaw : keys.custody.Lawful) (hinj : Function.Injective c.generate)
    (hmove : KeyMove c keys t t') (hs : KeysSound c keys t) (h : KeysFresh c keys t) :
    KeysFresh c keys t' := by
  have hlater := hmove.later hlaw
  have hold : ∀ {key}, (∃ i, i < t.drawn ∧ key = c.generate i) ∨ DrawnSince c t t' key →
      ∃ i, i < t'.drawn ∧ key = c.generate i := by
    rintro key (⟨i, hi, hkey⟩ | ⟨i, -, hi, hkey⟩)
    · exact ⟨i, hi.trans_le hlater.drawn, hkey⟩
    · exact ⟨i, hi, hkey⟩
  refine ⟨?_, ?_, ?_, ?_⟩
  · intro subject key hkey
    exact hold ((hlater.created subject key hkey).imp_left (h.created subject key))
  · intro id key hkey
    exact hold ((hlater.opens id key hkey).imp_left (h.opens id key))
  · intro subject subject' key hkey hkey'
    cases hmove with
    | @insertLive s workspace id workspaceKey rows hopen hrows =>
      have hlookup := @KeysSound.lookup_append _ _ _ _ c keys t hs s (c.generate t.drawn)
        (get?_of_insert? hrows).1
      -- the new key is none of the old ones
      have hnew : ∀ x, t.created.lookup x ≠ some (c.generate t.drawn) := by
        intro x hx
        obtain ⟨i, hi, heq⟩ := h.created x _ hx
        have : t.drawn = i := hinj heq
        omega
      simp only [hlookup] at hkey hkey'
      split at hkey <;> split at hkey'
      · simp_all
      · cases hkey
        exact absurd hkey' (hnew _)
      · cases hkey'
        exact absurd hkey (hnew _)
      · exact h.distinct subject subject' key hkey hkey'
    | _ => exact h.distinct subject subject' key hkey hkey'
  · intro subject id key hkey hopens
    -- one move draws one key, for a message or for a workspace
    cases hmove with
    | insertLive =>
      rcases hlater.created subject key hkey with hkey | hnew
      · exact h.apart subject id key hkey hopens
      · obtain ⟨i, hi, heq⟩ := h.opens id key hopens
        exact drawn_apart hinj hi heq hnew
    | _ =>
      rcases hlater.opens id key hopens with hopens | hnew
      · exact h.apart subject id key hkey hopens
      · obtain ⟨i, hi, heq⟩ := h.created subject key hkey
        exact drawn_apart hinj hi heq hnew

theorem KeyMoves.fresh (hc : c.Unwraps) (hlaw : keys.custody.Lawful)
    (hinj : Function.Injective c.generate) (hmoves : KeyMoves c keys t t')
    (hs : KeysSound c keys t) (h : KeysFresh c keys t) : KeysFresh c keys t' := by
  have hboth : KeysSound c keys t' ∧ KeysFresh c keys t' := by
    induction hmoves with
    | refl => exact ⟨hs, h⟩
    | tail _ hmove ih => exact ⟨hmove.sound hc hlaw ih.1, hmove.fresh hlaw hinj ih.1 ih.2⟩
  exact hboth.2

/-! ## 4. What is sealed here -/

/-- **The block was sealed here, for the message**: under a key of a draw that no other message and no
workspace has. -/
def SealedHere (c : Cipher κ β ω σ) (keys : ContentKeyring κ β) (t : KeyTables κ β)
    (subject : ContentKeyId) (block : σ) : Prop :=
  ∃ i words nonce, i < t.drawn ∧ block = c.sealWords (c.generate i) subject.message words nonce ∧
    (∀ other, t.created.lookup other = some (c.generate i) → other = subject) ∧
    ∀ id, ¬OpensKey c keys t id (c.generate i)

theorem SealedHere.later (hinj : Function.Injective c.generate) (hlater : Later c keys t t')
    (h : SealedHere c keys t subject block) : SealedHere c keys t' subject block := by
  obtain ⟨i, words, nonce, hi, hblock, hown, hapart⟩ := h
  have hold : ¬DrawnSince c t t' (c.generate i) := drawn_apart hinj hi rfl
  refine ⟨i, words, nonce, hi.trans_le hlater.drawn, hblock, ?_, ?_⟩
  · intro other hother
    exact hown other ((hlater.created other _ hother).resolve_right hold)
  · intro id hid
    exact hapart id ((hlater.opens id _ hid).resolve_right hold)

theorem SealedHere.of_created (h : KeysFresh c keys t) (hkey : t.created.lookup subject = some key)
    (words : ω) (nonce : Nat) :
    SealedHere c keys t subject (c.sealWords key subject.message words nonce) := by
  obtain ⟨i, hi, rfl⟩ := h.created subject key hkey
  refine ⟨i, words, nonce, hi, rfl, ?_, ?_⟩
  · intro other hother
    exact h.distinct other subject _ hother hkey
  · intro id hid
    exact h.apart subject id _ hkey hid

theorem SealedHere.throwaway (hinj : Function.Injective c.generate) (h : KeysFresh c keys t)
    (subject : ContentKeyId) (words : ω) (nonce : Nat) :
    SealedHere c keys t.draw subject
      (c.sealWords (c.generate t.drawn) subject.message words nonce) := by
  refine ⟨t.drawn, words, nonce, Nat.lt_succ_self _, rfl, ?_, ?_⟩
  · intro other hother
    obtain ⟨i, hi, heq⟩ := h.created other _ hother
    have : t.drawn = i := hinj heq
    omega
  · intro id hid
    obtain ⟨i, hi, heq⟩ := h.opens id _ hid
    have : t.drawn = i := hinj heq
    omega

/-- **No key that is held opens what was sealed here for a message since shredded.** -/
theorem SealedHere.unreadable (hauth : c.Authentic) (hfresh : c.Fresh keys)
    (hs : KeysSound c keys t) (h : SealedHere c keys t subject block)
    (hgone : t.shredded subject = true) (hkey : HoldsKey c keys t key) :
    c.openWords key subject.message block = none := by
  obtain ⟨i, words, nonce, hi, rfl, hown, hapart⟩ := h
  by_contra hopens
  have hsame : key = c.generate i := hauth _ _ _ _ _ hopens
  cases hkey with
  | @data other refuses key hread =>
    obtain ⟨hcreated, hlive⟩ := hs.created_of_read hread
    rw [hsame] at hcreated
    rw [hown other hcreated, hgone] at hlive
    cases hlive
  | workspace hopen => exact hapart _ (hsame ▸ hopen)
  | kek hmem => exact hfresh.notKek i _ hmem hsame.symm

/-! ## 5. The events of a message -/

/-- **A stored event with words**: it is sealed, here or before it came.  `came` holds of the events
that were appended, with the peer each came from. -/
structure EventKept (c : Cipher κ β ω σ) (keys : ContentKeyring κ β)
    (came : MessageEvent ω σ → Option PeerId → Prop) (t : KeyTables κ β) (subject : ContentKeyId)
    (payload : MessageEvent ω σ) : Prop where
  row : t.contentKeys.get? subject ≠ none
  sealed : ∃ kind workspace words block,
    payload = .content kind workspace subject.message words (some block) ∧
      (came payload subject.origin ∨ (words = c.noWords ∧ SealedHere c keys t subject block))

theorem EventKept.later (hinj : Function.Injective c.generate) (hlater : Later c keys t t')
    (h : EventKept c keys came t subject payload) : EventKept c keys came t' subject payload := by
  obtain ⟨hrow, kind, workspace, words, block, hpayload, hsealed⟩ := h
  refine ⟨hlater.kept hrow, kind, workspace, words, block, hpayload, ?_⟩
  exact hsealed.imp_right fun ⟨hwords, hhere⟩ => ⟨hwords, hhere.later hinj hlater⟩

/-- **What an append stores under a content key.** -/
theorem Prepared.eventKept (hc : c.Unwraps) (hlaw : keys.custody.Lawful)
    (hinj : Function.Injective c.generate) (hs : KeysSound c keys s.tables)
    (hf : KeysFresh c keys s.tables)
    (h : Prepared c keys s event (Plan.forEvent origin event) s1 payload (some subject))
    (hcame : came event origin) : EventKept c keys came s1.tables subject payload := by
  have hlater := h.moves.1.later hlaw
  have hfresh := h.moves.1.fresh hc hlaw hinj hs hf
  generalize hplan : Plan.forEvent origin event = plan at h
  cases h with
  | bornShredded hrows =>
    obtain ⟨rfl, kind, words, sealed, rfl, hsome⟩ := forEvent_sealFor hplan
    obtain ⟨block, rfl⟩ := isSome_iff_exists.mp hsome
    refine ⟨?_, kind, _, words, block, rfl, .inl hcame⟩
    simp only [(get?_of_insert? hrows).2, shreddedRow, if_true]
    simp
  | shredHere hrow =>
    obtain ⟨rfl, kind, words, sealed, rfl, hsome⟩ := forEvent_sealFor hplan
    obtain ⟨block, rfl⟩ := isSome_iff_exists.mp hsome
    exact ⟨hlater.kept (by simp [hrow]), kind, _, words, block, rfl, .inl hcame⟩
  | stillShredded hrow =>
    obtain ⟨rfl, kind, words, sealed, rfl, hsome⟩ := forEvent_sealFor hplan
    obtain ⟨block, rfl⟩ := isSome_iff_exists.mp hsome
    exact ⟨hlater.kept (by simp [hrow]), kind, _, words, block, rfl, .inl hcame⟩
  | @first _ workspace t id workspaceKey rows hmoves hsame hopen hrows =>
    obtain ⟨-, kind, words, sealed, rfl, -⟩ := forEvent_sealFor hplan
    have hcreated := @KeysSound.lookup_append _ _ _ _ c keys t (hmoves.sound hc hlaw hs) subject
      (c.generate t.drawn) (get?_of_insert? hrows).1 subject
    refine ⟨?_, kind, _, _, _, rfl, .inr ⟨rfl, ?_⟩⟩
    · rw [((get?_of_insert? hrows).2 subject).trans (if_pos rfl)]
      simp
    · exact SealedHere.of_created hfresh (hcreated.trans (if_pos rfl)) words t.drawn
  | @live _ workspace r key hrow hkey =>
    obtain ⟨-, kind, words, sealed, rfl, -⟩ := forEvent_sealFor hplan
    obtain ⟨wrapped, hw, -⟩ := id hkey
    obtain ⟨created, hcreated, hheld⟩ := hs.held r (mem_of_get? hrow) (by simp [hw])
    obtain rfl : key = created := hkey.unique hheld.unwraps
    rw [key_of_get? hrow] at hcreated
    refine ⟨hlater.kept (by simp [hrow]), kind, _, _, _, rfl, .inr ⟨rfl, ?_⟩⟩
    exact (SealedHere.of_created hf hcreated words _).later hinj hlater
  | throwaway hrow =>
    obtain ⟨-, kind, words, sealed, rfl, -⟩ := forEvent_sealFor hplan
    refine ⟨hlater.kept (by simp [hrow]), kind, _, _, _, rfl, .inr ⟨rfl, ?_⟩⟩
    exact SealedHere.throwaway hinj hf subject words _

/-! ## 6. The invariant of a run -/

/-- **What the store keeps**: sound keys, each of a draw of its own; sealed events; and no mail of a
message without a key row. -/
structure ShredInv (c : Cipher κ β ω σ) (keys : ContentKeyring κ β)
    (came : MessageEvent ω σ → Option PeerId → Prop) (s : Store κ β ω σ) : Prop where
  sound : KeysSound c keys s.tables
  fresh : KeysFresh c keys s.tables
  events : ∀ e ∈ s.log.rows, ∀ subject, e.contentKeyId = some subject →
    EventKept c keys came s.tables subject e.payload
  mail : ∀ subject, some subject ∈ s.outboxes.mailOutbox →
    s.tables.contentKeys.get? subject ≠ none

theorem ShredInv.empty (c : Cipher κ β ω σ) (keys : ContentKeyring κ β)
    (came : MessageEvent ω σ → Option PeerId → Prop) :
    ShredInv c keys came ({} : Store κ β ω σ) where
  sound := .empty c keys
  fresh := .empty c keys
  events := by
    intro e he
    cases he
  mail := by
    intro subject h
    cases h

theorem Prepared.outboxes (h : Prepared c keys s event plan s1 payload contentKeyId) :
    s1.outboxes = s.outboxes ∨ ∃ subject, s1.outboxes = s.outboxes.drop s.log subject := by
  cases h with
  | shred subject => exact .inr ⟨subject, rfl⟩
  | @shredHere subject workspace r hrow => exact .inr ⟨subject, rfl⟩
  | _ => exact .inl rfl

theorem mem_queueMail (h : some subject ∈ (queueMail s sourceLogId).outboxes.mailOutbox) :
    some subject ∈ s.outboxes.mailOutbox ∨ ∃ e ∈ s.log.rows, e.contentKeyId = some subject := by
  unfold queueMail at h
  dsimp only at h
  split at h
  · exact .inl h
  · rcases mem_append.mp h with h | h
    · exact .inl h
    · obtain ⟨e, he, hkey⟩ := bind_eq_some_iff.mp (mem_singleton.mp h).symm
      exact .inr ⟨e, mem_of_find?_eq_some he, hkey⟩

theorem mem_drop {o : Outboxes} {key : Option ContentKeyId}
    (h : key ∈ (o.drop log subject).mailOutbox) : key ∈ o.mailOutbox :=
  (mem_filter.mp h).1

/-- **Every step keeps it.** -/
theorem Stepped.shredInv (hc : c.Unwraps) (hlaw : keys.custody.Lawful)
    (hinj : Function.Injective c.generate) (hstep : Stepped c keys env s op s')
    (hcame : ∀ event origin, op.appends c = some (event, origin) → came event origin)
    (h : ShredInv c keys came s) : ShredInv c keys came s' := by
  have hlater := hstep.moves.later hlaw
  refine ⟨hstep.moves.sound hc hlaw h.sound, hstep.moves.fresh hc hlaw hinj h.sound h.fresh, ?_, ?_⟩
  · intro e he subject hkey
    have hold : e ∈ s.log.rows → EventKept c keys came s'.tables subject e.payload :=
      fun hin => (h.events e hin subject hkey).later hinj hlater
    cases hstep with
    | appended hevent hprepared happend =>
      obtain ⟨content, -, hrow, hrows, -⟩ := appendRow_eq_ok happend
      rw [hrows, hprepared.moves.2, mem_append, mem_singleton] at he
      rcases he with he | rfl
      · exact hold he
      · subst hrow
        cases hkey
        have hkept := hprepared.eventKept hc hlaw hinj h.sound h.fresh (hcame _ _ hevent)
        exact hkept
    | queuedMail sourceLogId =>
      rw [(queueMail_tables s sourceLogId).2] at he
      exact hold he
    | _ => exact hold he
  · intro subject hmail
    have hold : some subject ∈ s.outboxes.mailOutbox → s'.tables.contentKeys.get? subject ≠ none :=
      fun hin => hlater.kept (h.mail subject hin)
    cases hstep with
    | appended hevent hprepared =>
      rcases hprepared.outboxes with heq | ⟨shredded, heq⟩
      · exact hold (heq ▸ hmail)
      · exact hold (mem_drop (heq ▸ hmail))
    | shredded => exact hold (mem_drop hmail)
    | queuedMail =>
      rcases mem_queueMail hmail with hmail | ⟨e, he, hkey⟩
      · exact hold hmail
      · exact hlater.kept (h.events e he subject hkey).row
    | _ => exact hold hmail

/-! ## 7. What a shred leaves queued -/

/-- **Nothing is queued of the message's events in the log**, and no mail about the message. -/
structure Outboxes.Clear (o : Outboxes) (log : EventLog (MessageEvent ω σ)) (subject : ContentKeyId) :
    Prop where
  webhooks : ∀ id ∈ o.webhookDeliveries, id ∉ log.idsOf subject
  egress : ∀ id ∈ o.egressOutbox, id ∉ log.idsOf subject
  mail : some subject ∉ o.mailOutbox

theorem Outboxes.drop_clear (o : Outboxes) (log : EventLog (MessageEvent ω σ))
    (subject : ContentKeyId) : (o.drop log subject).Clear log subject where
  webhooks := by
    intro id hid
    exact of_decide_eq_true (mem_filter.mp hid).2
  egress := by
    intro id hid
    exact of_decide_eq_true (mem_filter.mp hid).2
  mail := by
    intro hin
    exact of_decide_eq_true (mem_filter.mp hin).2 rfl

theorem ShredInv.clear (h : ShredInv c keys came s)
    (hfree : s.tables.contentKeys.get? subject = none) : s.outboxes.Clear s.log subject := by
  have hnone : s.log.idsOf subject = [] := by
    simp only [EventLog.idsOf, map_eq_nil_iff, filter_eq_nil_iff, decide_eq_true_eq]
    intro e he hkey
    exact (h.events e he subject hkey).row hfree
  refine ⟨?_, ?_, fun hmail => h.mail subject hmail hfree⟩
  · simp [hnone]
  · simp [hnone]

theorem shredded_of_shred (h : (t.shred other).shredded subject = true) :
    subject = other ∨ t.shredded subject = true := by
  rcases status_shred t other subject with hsame | ⟨hid, -⟩
  · exact .inr ((shredded_congr hsame).symm.trans h)
  · exact .inl hid

theorem shredded_of_insert (hrows : t.contentKeys.insert? row = some t'.contentKeys)
    (h : t'.shredded subject = true) :
    (subject = row.id ∧ row.wrapped = none) ∨ t.shredded subject = true := by
  rcases status_insert t t' hrows subject with ⟨hid, -, hnew⟩ | hsame
  · simp only [KeyTables.shredded, hnew] at h
    exact .inl ⟨hid.symm, by simpa using h⟩
  · exact .inr ((shredded_congr hsame).symm.trans h)

/-- **The operation that shreds a message leaves nothing queued** of what was written before it. -/
theorem Stepped.clear (hstep : Stepped c keys env s op s') (h : ShredInv c keys came s)
    (hlive : s.tables.shredded subject = false) (hgone : s'.tables.shredded subject = true) :
    s'.outboxes.Clear s.log subject := by
  have hnot : s.tables.shredded subject ≠ true := by simp [hlive]
  cases hstep with
  | refused => exact absurd hgone hnot
  | shredded =>
    obtain rfl := (shredded_of_shred hgone).resolve_right hnot
    exact s.outboxes.drop_clear s.log subject
  | appended hevent hprepared happend =>
    revert hprepared
    generalize Plan.forEvent _ _ = plan
    intro hprepared
    cases hprepared with
    | shred =>
      obtain rfl := (shredded_of_shred hgone).resolve_right hnot
      exact s.outboxes.drop_clear s.log subject
    | @bornShredded other workspace rows hrows =>
      obtain ⟨rfl, -⟩ := (shredded_of_insert hrows hgone).resolve_right hnot
      exact h.clear (get?_of_insert? hrows).1
    | @shredHere other workspace r hrow =>
      obtain rfl := (shredded_of_shred hgone).resolve_right hnot
      exact s.outboxes.drop_clear s.log subject
    | @first other workspace t id workspaceKey rows hmoves hsame hopen hrows =>
      rw [hsame.contentKeys] at hrows
      obtain ⟨-, hwrapped⟩ := (shredded_of_insert hrows hgone).resolve_right hnot
      cases hwrapped
    | nothing | stillShredded | live | throwaway => exact absurd hgone hnot
  | rotated hmoves hstatus =>
    rw [shredded_congr (hstatus subject)] at hgone
    exact absurd hgone hnot
  | rewrapped hmoves hstatus =>
    rw [shredded_congr (hstatus subject)] at hgone
    exact absurd hgone hnot
  | queuedWebhook | queuedEgress => exact absurd hgone hnot
  | queuedMail sourceLogId =>
    rw [(queueMail_tables s sourceLogId).1] at hgone
    exact absurd hgone hnot

/-! ## 8. Runs -/

/-- The store after a run from the empty one keeps the invariant, the events that came being those of
its operations. -/
theorem shredInv_run (hc : c.Unwraps) (hlaw : keys.custody.Lawful)
    (hinj : Function.Injective c.generate) (env : HashEnv (MessageEvent ω σ))
    (uuid : ContentKeyId → Nat) (ops : List (StoreOp κ ω σ)) :
    ShredInv c keys (fun event origin => ∃ op ∈ ops, op.appends c = some (event, origin))
      (exec (storeNext c keys env uuid) {} ops) := by
  refine exec_inv_of_mem ops ?_ (.empty c keys _)
  intro s op hop h
  refine (storeNext_stepped hlaw uuid h.sound.known op).shredInv hc hlaw hinj ?_ h
  intro event origin hevent
  exact ⟨op, hop, hevent⟩

theorem shredded_run (hc : c.Unwraps) (hlaw : keys.custody.Lawful)
    (env : HashEnv (MessageEvent ω σ)) (uuid : ContentKeyId → Nat) (hs : KeysSound c keys s.tables)
    (hgone : s.tables.shredded subject = true) (ops : List (StoreOp κ ω σ)) :
    (exec (storeNext c keys env uuid) s ops).tables.shredded subject = true :=
  (storeRun_keeps (P := fun t => t.shredded subject = true) hc hlaw env uuid
    (fun _ _ hmoves hgone => (hmoves.later hlaw).shredded hgone) hs hgone ops).2

/-- No event arrives with words beside its sealed block. -/
def BareBlocks (c : Cipher κ β ω σ) (ops : List (StoreOp κ ω σ)) : Prop :=
  ∀ op ∈ ops, ∀ kind workspace message words block origin,
    op.appends c = some (.content kind workspace message words (some block), origin) →
      words = c.noWords

/-- **Shredding is final.**  In the store that any run of appends, shreds, rotations and rewrap passes
leads to: a shredded message stays shredded through any further run; a read of its events gets no
key; where no block arrives with words, each of its events in the log is sealed and without words,
and no key that the store holds opens it, or else it came sealed as it stands; the operation that
shreds leaves nothing queued of what was written before it; and no operation changes a row of the
log. -/
theorem shredding_is_final {c : Cipher κ β ω σ} (hc : c.Unwraps) (hauth : c.Authentic)
    {keys : ContentKeyring κ β} (hlaw : keys.custody.Lawful) (hfresh : c.Fresh keys)
    (env : HashEnv (MessageEvent ω σ)) (uuid : ContentKeyId → Nat) (ops : List (StoreOp κ ω σ)) :
    let s := exec (storeNext c keys env uuid) {} ops
    (∀ subject, s.tables.shredded subject = true →
      (∀ more, (exec (storeNext c keys env uuid) s more).tables.shredded subject = true) ∧
      (∀ refuses, unwrapJoined c keys refuses s.tables (some subject) = .ok none) ∧
      (BareBlocks c ops → ∀ e ∈ s.log.rows, e.contentKeyId = some subject → ∃ kind workspace block,
          e.payload = .content kind workspace subject.message c.noWords (some block) ∧
          ((∃ op ∈ ops, op.appends c = some (e.payload, subject.origin)) ∨
            ∀ key, HoldsKey c keys s.tables key →
              openPayload c (some key) e.payload = .error .authentication))) ∧
    (∀ op subject, s.tables.shredded subject = false →
      (storeNext c keys env uuid s op).tables.shredded subject = true →
      (storeNext c keys env uuid s op).outboxes.Clear s.log subject) ∧
    ∀ op, s.log.rows <+: (storeNext c keys env uuid s op).log.rows := by
  have hinv := shredInv_run hc hlaw hfresh.injective env uuid ops
  refine ⟨?_, ?_, ?_⟩
  · intro subject hgone
    refine ⟨fun more => shredded_run hc hlaw env uuid hinv.sound hgone more,
      fun refuses => unwrapJoined_shredded hgone, ?_⟩
    intro hbare e he hkey
    obtain ⟨-, kind, workspace, words, block, hpayload, hsealed⟩ := hinv.events e he subject hkey
    rcases hsealed with ⟨op, hop, hcame⟩ | ⟨rfl, hhere⟩
    · rw [hpayload] at hcame
      obtain rfl := hbare op hop _ _ _ _ _ _ hcame
      exact ⟨kind, workspace, block, hpayload, .inl ⟨op, hop, hpayload ▸ hcame⟩⟩
    · refine ⟨kind, workspace, block, hpayload, .inr fun key hholds => ?_⟩
      simp only [hpayload, openPayload, hhere.unreadable hauth hfresh hinv.sound hgone hholds]
      rfl
  · intro op subject hlive hgone
    exact (storeNext_stepped hlaw uuid hinv.sound.known op).clear hinv hlive hgone
  · intro op
    exact (storeNext_stepped hlaw uuid hinv.sound.known op).log_grows

/-! A message is posted, tombstoned and edited once more, and a copy of its mail is on the way. -/

def erasingOps : List (StoreOp Nat String (Box MessageId String)) :=
  [.append (.content .messagePosted ⟨1⟩ ⟨1⟩ "hello" none) 0 fun _ => none,
   .queueWebhook 1,
   .queueMail 1,
   .append (.messageTombstoned ⟨1⟩ ⟨1⟩) 1 fun _ => none,
   .append (.content .messageEdited ⟨1⟩ ⟨1⟩ "hello again" none) 2 fun _ => none]

/-- The store after operations of boxes. -/
def boxRun (ops : List (StoreOp Nat String (Box MessageId String))) :
    Store Nat (Box WrapAad Nat) String (Box MessageId String) :=
  exec (storeNext boxCipher boxKeyring boxEnv fun id => id.message.val) {} ops

theorem boxCipher_authentic : boxCipher.Authentic := by
  intro key key' message words nonce hopens
  simp only [boxCipher, Box.unlock, and_true, ne_eq, ite_eq_right_iff, reduceCtorEq, imp_false,
    not_not] at hopens
  exact hopens.symm

theorem boxCipher_fresh : boxCipher.Fresh boxKeyring where
  injective := by
    intro m n h
    exact Nat.add_right_cancel h
  notKek := by
    intro n kek hkek
    simp only [boxKeyring, mem_cons, not_mem_nil, or_false] at hkek
    rcases hkek with rfl | rfl <;> simp [boxCipher]

theorem shredding_is_final_erased :
    ((boxRun erasingOps).tables.shredded ⟨none, ⟨1⟩⟩ = true ∧
      (boxRun erasingOps).log.idsOf ⟨none, ⟨1⟩⟩ = [1, 3] ∧
      (boxRun erasingOps).outboxes = {}) ∧
    ∀ e ∈ (boxRun erasingOps).log.rows, e.contentKeyId = some ⟨none, ⟨1⟩⟩ →
      (∃ kind workspace block, e.payload = .content kind workspace ⟨1⟩ "" (some block)) ∧
      ∀ key, HoldsKey boxCipher boxKeyring (boxRun erasingOps).tables key →
        openPayload boxCipher (some key) e.payload = .error .authentication := by
  have hgone : (boxRun erasingOps).tables.shredded ⟨none, ⟨1⟩⟩ = true := by decide +kernel
  refine ⟨⟨hgone, by decide +kernel, by decide +kernel⟩, ?_⟩
  have hnone : ∀ op ∈ erasingOps, ∀ kind workspace message words block origin,
      op.appends boxCipher ≠ some (.content kind workspace message words (some block), origin) := by
    intro op hop kind workspace message words block origin happends
    simp only [erasingOps, mem_cons, not_mem_nil, or_false] at hop
    rcases hop with rfl | rfl | rfl | rfl | rfl <;> cases happends
  intro e he hkey
  obtain ⟨kind, workspace, block, hpayload, ⟨op, hop, hcame⟩ | hsealed⟩ :=
    ((shredding_is_final boxCipher_unwraps boxCipher_authentic boxKeyring_lawful boxCipher_fresh boxEnv
      (fun id => id.message.val) erasingOps).1 _ hgone).2.2
      (fun op hop _ _ _ _ _ _ h => (hnone op hop _ _ _ _ _ _ h).elim) e he hkey
  · exact (hnone op hop _ _ _ _ _ _ (hpayload ▸ hcame)).elim
  · exact ⟨⟨kind, workspace, block, hpayload⟩, hsealed⟩

/-- A peer sends a copy of the block under which this store keeps a message of its own, as the words
of a message of that id, and sends no key. -/
def copyingOps : List (StoreOp Nat String (Box MessageId String)) :=
  [.append (.content .messagePosted ⟨1⟩ ⟨1⟩ "hello" none) 0 (fun _ => none),
   .appendFederated { id := ⟨7⟩, workspaceId := ⟨2⟩ }
     (.content .messagePosted ⟨5⟩ ⟨1⟩ "" (some (3, ⟨1⟩, "hello"))) none 0 (fun _ => none)]

/-- **A shredded message whose event opens** with a key the store holds: the peer's message is born
shredded, and the key of the store's own message opens its event. -/
theorem copied_block_opens :
    (boxRun copyingOps).tables.shredded ⟨some ⟨7⟩, ⟨1⟩⟩ = true ∧
    ∃ e ∈ (boxRun copyingOps).log.rows, e.contentKeyId = some ⟨some ⟨7⟩, ⟨1⟩⟩ ∧
      ∃ key, HoldsKey boxCipher boxKeyring (boxRun copyingOps).tables key ∧
        openPayload boxCipher (some key) e.payload =
          .ok (.content .messagePosted ⟨2⟩ ⟨1⟩ "hello" none) := by
  have hread : unwrapJoined boxCipher boxKeyring (fun _ => none) (boxRun copyingOps).tables
      (some ⟨none, ⟨1⟩⟩) = .ok (some 3) := by
    decide +kernel
  have hevent : ∃ e ∈ (boxRun copyingOps).log.rows, e.contentKeyId = some ⟨some ⟨7⟩, ⟨1⟩⟩ ∧
      openPayload boxCipher (some 3) e.payload =
        .ok (.content .messagePosted ⟨2⟩ ⟨1⟩ "hello" none) := by
    decide +kernel
  obtain ⟨e, he, hkey, hopen⟩ := hevent
  exact ⟨by decide +kernel, e, he, hkey, 3, .data hread, hopen⟩

end Maidan
