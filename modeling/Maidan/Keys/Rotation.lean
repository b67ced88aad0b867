/-
# Rotation loses no words

A workspace key may be destroyed only when nothing live needs it any more, and three loops with a
savepoint for every row, a custody that may refuse any call and a last step outside any transaction
have to keep that.  They do: whatever is refused, every content key that is not shredded STILL
UNWRAPS TO THE DATA KEY IT WAS CREATED WITH, through a workspace key that is on file and not
destroyed, or through an instance KEK (`KeysSound`).

The invariant is checked against the moves of `Keys.Moves`.  What carries the destruction is the
order of the loops: a key is destroyed for rows read after the moves, and a retired key gets no new
rows, because an append wraps under the active key only.
-/
import Maidan.Keys.Moves

namespace Maidan

open Relational Table Run Relation

variable {κ β ω σ : Type}

/-! ## 1. The invariant -/

/-- **A live row and its data key**: the row unwraps to it, and names the workspace key that wraps it,
which the custody has not destroyed. -/
structure Held (c : Cipher κ β ω σ) (keys : ContentKeyring κ β) (t : KeyTables κ β)
    (r : ContentKeyRow β) (key : κ) : Prop where
  unwraps : UnwrapsTo c keys t r key
  named : ∀ w, r.wrapped = some w → r.workspaceKeyId = parseWorkspaceKekId w.kekId
  kept : ∀ id, r.workspaceKeyId = some id → id ∉ t.destroyed

/-- **What the key tables keep.** -/
structure KeysSound (c : Cipher κ β ω σ) (keys : ContentKeyring κ β) (t : KeyTables κ β) : Prop where
  known : Known t
  held : ∀ r ∈ t.contentKeys.rows, r.wrapped ≠ none →
    ∃ key, t.created.lookup r.id = some key ∧ Held c keys t r key
  recorded : ∀ subject key, t.created.lookup subject = some key →
    t.contentKeys.get? subject ≠ none
  oneActive : ∀ a ∈ t.workspaceKeys.rows, ∀ b ∈ t.workspaceKeys.rows,
    a.workspaceId = b.workspaceId → a.retired = false → b.retired = false → a = b

theorem KeysSound.empty (c : Cipher κ β ω σ) (keys : ContentKeyring κ β) :
    KeysSound c keys ({} : KeyTables κ β) where
  known := by
    intro id hid
    cases hid
  held := by
    intro r hr
    cases hr
  recorded := by
    intro subject key h
    cases h
  oneActive := by
    intro a ha
    cases ha

variable {r : ContentKeyRow β} {key : κ} {t' : KeyTables κ β} {subject : ContentKeyId}
  {c : Cipher κ β ω σ} {keys : ContentKeyring κ β} {t : KeyTables κ β}

theorem UnwrapsTo.unique (h : UnwrapsTo c keys t r key) (h' : UnwrapsTo c keys t r key') :
    key = key' := by
  obtain ⟨w, hw, h⟩ := h
  obtain ⟨w', hw', h'⟩ := h'
  cases hw.symm.trans hw'
  cases hparse : parseWorkspaceKekId w.kekId with
  | none =>
    simp only [hparse] at h h'
    obtain ⟨kek, hkek, hkey⟩ := h
    obtain ⟨kek', hkek', hkey'⟩ := h'
    cases hkek.symm.trans hkek'
    exact mem_unique hkey hkey'
  | some =>
    simp only [hparse] at h h'
    obtain ⟨j, wk, hj, hwk, hkey⟩ := h
    obtain ⟨j', wk', hj', hwk', hkey'⟩ := h'
    cases hj.symm.trans hj'
    cases hwk.symm.trans hwk'
    exact mem_unique hkey hkey'

theorem UnwrapsTo.congr (h : UnwrapsTo c keys t r key)
    (hjoined : ∀ w, joinedWorkspaceKey t r = some w → joinedWorkspaceKey t' r = some w) :
    UnwrapsTo c keys t' r key := by
  obtain ⟨w, hw, h⟩ := h
  refine ⟨w, hw, ?_⟩
  cases hparse : parseWorkspaceKekId w.kekId with
  | none =>
    simp only [hparse] at h ⊢
    exact h
  | some =>
    simp only [hparse] at h ⊢
    obtain ⟨j, wk, hj, hwk, hkey⟩ := h
    exact ⟨j, wk, hjoined j hj, hwk, hkey⟩

theorem Held.of_wrapped (hc : c.Unwraps) {id : WorkspaceKeyId} {workspaceKey : κ}
    (hopen : OpensKey c keys t id workspaceKey) {r : ContentKeyRow β} {key : κ} {nonce : Nat}
    (hw : r.wrapped = some (wrapForWorkspace c id workspaceKey r.id key nonce))
    (hid : r.workspaceKeyId = some id) : Held c keys t r key := by
  obtain ⟨row, wrapped, hget, hwrapped, hnot, hstored⟩ := hopen
  refine ⟨⟨_, hw, wrapped, workspaceKey, ?_, hstored, hc _ _ _ _⟩, ?_, ?_⟩
  · simp [joinedWorkspaceKey, hid, hget, hwrapped]
  · intro w hw'
    cases hw.symm.trans hw'
    exact hid
  · intro id' hid'
    cases hid.symm.trans hid'
    exact hnot

/-! ## 2. Every move keeps it -/

theorem joined_of_kept
    (hkeep : ∀ id row, r.workspaceKeyId = some id → t.workspaceKeys.get? id = some row →
      ∃ row', t'.workspaceKeys.get? id = some row' ∧ row'.wrapped = row.wrapped)
    (h : joinedWorkspaceKey t r = some w) : joinedWorkspaceKey t' r = some w := by
  unfold joinedWorkspaceKey at h ⊢
  obtain ⟨id, hid, hrow⟩ := bind_eq_some_iff.mp h
  obtain ⟨row, hrow, hw⟩ := bind_eq_some_iff.mp hrow
  obtain ⟨row', hrow', hwrapped⟩ := hkeep id row hid hrow
  rw [hid, bind_some, hrow', bind_some, hwrapped, hw]

section

variable (h : KeysSound c keys t)
include h

theorem KeysSound.draw : KeysSound c keys t.draw where
  known := h.known
  held := fun r hr hlive =>
    let ⟨key, hkey, hheld⟩ := h.held r hr hlive
    ⟨key, hkey, hheld.unwraps, hheld.named, hheld.kept⟩
  recorded := h.recorded
  oneActive := h.oneActive

theorem KeysSound.shred (subject : ContentKeyId) : KeysSound c keys (t.shred subject) := by
  refine { h with held := ?_, recorded := ?_ }
  · intro r hr hlive
    simp only [KeyTables.shred, Table.update, mem_updateWhere] at hr
    obtain ⟨r', hr', heq⟩ := hr
    split at heq
    · subst heq
      exact absurd rfl hlive
    · subst heq
      obtain ⟨key, hkey, hheld⟩ := h.held r' hr' hlive
      exact ⟨key, hkey, hheld.unwraps, hheld.named, hheld.kept⟩
  · intro s key hkey
    have hold := h.recorded s key hkey
    simp only [KeyTables.shred, get?_update]
    split
    · simpa using hold
    · exact hold

theorem oneActive_of_subset
    (hold : ∀ a ∈ t'.workspaceKeys.rows, a.retired = false → a ∈ t.workspaceKeys.rows) :
    ∀ a ∈ t'.workspaceKeys.rows, ∀ b ∈ t'.workspaceKeys.rows,
      a.workspaceId = b.workspaceId → a.retired = false → b.retired = false → a = b :=
  fun a ha b hb hws hactive hactive' =>
    h.oneActive a (hold a ha hactive) b (hold b hb hactive') hws hactive hactive'

theorem KeysSound.retire (workspace : WorkspaceId) : KeysSound c keys (t.retire workspace) := by
  refine { h with known := ?_, held := ?_, oneActive := ?_ }
  · have hmove : KeyMove c keys t (t.retire workspace) := .retire workspace
    exact hmove.known h.known
  · intro r hr hlive
    obtain ⟨key, hkey, hheld⟩ := h.held r hr hlive
    refine ⟨key, hkey, hheld.unwraps.congr fun w hw => ?_, hheld.named, hheld.kept⟩
    refine joined_of_kept (fun id row _ hrow => ?_) hw
    simp only [KeyTables.retire, get?_updateWhere, hrow, map_some]
    refine ⟨_, rfl, ?_⟩
    split <;> rfl
  · refine oneActive_of_subset h fun a ha hactive => ?_
    simp only [KeyTables.retire, mem_updateWhere] at ha
    obtain ⟨a', ha', heq⟩ := ha
    split at heq
    · subst heq
      cases hactive
    · exact heq ▸ ha'

theorem KeysSound.destroy (hrow : t.workspaceKeys.get? row.id = some row)
    (hfree : ∀ k ∈ t.contentKeys.rows, k.workspaceKeyId = some row.id → k.wrapped = none) :
    KeysSound c keys (t.destroy row.id) := by
  refine { h with known := ?_, held := ?_, oneActive := ?_ }
  · have hmove : KeyMove c keys t (t.destroy row.id) := .destroy hrow hfree
    exact hmove.known h.known
  · intro r hr hlive
    obtain ⟨key, hkey, hheld⟩ := h.held r hr hlive
    have hother : ∀ id, r.workspaceKeyId = some id → id ≠ row.id := by
      rintro id hid rfl
      exact hlive (hfree r hr hid)
    refine ⟨key, hkey, hheld.unwraps.congr fun w hw => ?_, hheld.named, fun id hid hgone => ?_⟩
    · refine joined_of_kept (fun id row' hid hrow' => ⟨row', ?_, rfl⟩) hw
      simp only [KeyTables.destroy, get?_update, if_neg (hother id hid), hrow']
    · rcases List.mem_cons.mp hgone with rfl | hgone
      · exact hother _ hid rfl
      · exact hheld.kept id hid hgone
  · refine oneActive_of_subset h fun a ha hactive => ?_
    simp only [KeyTables.destroy, Table.update, mem_updateWhere] at ha
    obtain ⟨a', ha', heq⟩ := ha
    split at heq
    · unfold WorkspaceKeyRow.destroy at heq
      split at heq
      · rename_i hretired
        subst heq
        exact absurd hretired (by simpa using hactive)
      · exact heq ▸ ha'
    · exact heq ▸ ha'

variable {workspace : WorkspaceId}

theorem KeysSound.create {rows : Table (fun r : WorkspaceKeyRow β => r.id)}
    (hnone : activeRow t workspace = none)
    (hrows : t.workspaceKeys.insert? (newWorkspaceKeyRow keys ⟨t.drawn + 1⟩ workspace
      (keys.custody.wrap ⟨t.drawn + 1⟩ (c.generate t.drawn) t.drawn)) = some rows) :
    KeysSound c keys { t with workspaceKeys := rows, drawn := t.drawn + 1 } := by
  refine { h with known := ?_, held := ?_, oneActive := ?_ }
  · have hmove : KeyMove c keys t _ := .create workspace hnone hrows
    exact hmove.known h.known
  · intro r hr hlive
    obtain ⟨key, hkey, hheld⟩ := h.held r hr hlive
    obtain ⟨hfree, hget⟩ := get?_of_insert? hrows
    refine ⟨key, hkey, hheld.unwraps.congr fun w hw => ?_, hheld.named, hheld.kept⟩
    refine joined_of_kept (fun id row _ hrow => ⟨row, ?_, rfl⟩) hw
    refine (hget id).trans ((if_neg fun heq => ?_).trans hrow)
    rw [heq, hrow] at hfree
    cases hfree
  · intro a ha b hb hws hactive hactive'
    have hthere : rows.rows = t.workspaceKeys.rows ++ [_] := Table.rows_of_insert? hrows
    -- the workspace had no active key, so the new one is alone in it
    have hold : ∀ x ∈ t.workspaceKeys.rows, x.retired = false → x.workspaceId ≠ workspace := by
      intro x hx hretired hin
      have hnot := List.find?_eq_none.mp hnone x hx
      simp [hin, hretired] at hnot
    simp only [hthere, List.mem_append, List.mem_singleton] at ha hb
    rcases ha with ha | rfl <;> rcases hb with hb | rfl
    · exact h.oneActive a ha b hb hws hactive hactive'
    · exact absurd hws (hold a ha hactive)
    · exact absurd hws.symm (hold b hb hactive')
    · rfl

theorem KeysSound.insertShredded {rows : Table (fun r : ContentKeyRow β => r.id)}
    (hrows : t.contentKeys.insert? (shreddedRow β subject workspace) = some rows) :
    KeysSound c keys { t with contentKeys := rows, drawn := t.drawn + 1 } := by
  refine { h with held := ?_, recorded := ?_ }
  · intro r hr hlive
    rw [Table.rows_of_insert? hrows, List.mem_append, List.mem_singleton] at hr
    rcases hr with hr | rfl
    · obtain ⟨key, hkey, hheld⟩ := h.held r hr hlive
      exact ⟨key, hkey, hheld.unwraps, hheld.named, hheld.kept⟩
    · exact absurd rfl hlive
  · intro s key hkey
    simp only [(get?_of_insert? hrows).2]
    split
    · simp
    · exact h.recorded s key hkey

theorem KeysSound.lookup_append {subject : ContentKeyId} {key : κ}
    (hfree : t.contentKeys.get? subject = none) (s : ContentKeyId) :
    (t.created ++ [(subject, key)]).lookup s =
      if s = subject then some key else t.created.lookup s := by
  rw [List.lookup_append]
  by_cases hs : s = subject
  · subst hs
    have hnone : t.created.lookup s = none := by
      cases hlookup : t.created.lookup s with
      | none => rfl
      | some k => exact absurd hfree (h.recorded s k hlookup)
    simp [hnone, List.lookup]
  · have hne : (s == subject) = false := by simpa using hs
    simp [hs, List.lookup, hne]

end

theorem KeysSound.insertLive (hc : c.Unwraps) (h : KeysSound c keys t) {subject : ContentKeyId}
    {id : WorkspaceKeyId} {workspaceKey : κ} {rows : Table (fun r : ContentKeyRow β => r.id)}
    (hopen : OpensKey c keys t id workspaceKey)
    (hrows : t.contentKeys.insert?
      (liveRow c subject workspace id workspaceKey (c.generate t.drawn) t.drawn) = some rows) :
    KeysSound c keys
      { t with contentKeys := rows, created := t.created ++ [(subject, c.generate t.drawn)],
               drawn := t.drawn + 1 } := by
  obtain ⟨hfree, hget⟩ := get?_of_insert? hrows
  have hlookup := @KeysSound.lookup_append _ _ _ _ c keys t h subject (c.generate t.drawn) hfree
  refine ⟨h.known, ?_, ?_, h.oneActive⟩
  · intro r hr hlive
    simp only [Table.rows_of_insert? hrows, List.mem_append, List.mem_singleton] at hr
    rcases hr with hr | rfl
    · obtain ⟨key, hkey, hheld⟩ := h.held r hr hlive
      have hother : r.id ≠ subject := by
        intro heq
        have hgone : t.contentKeys.get? r.id = none := heq ▸ hfree
        rw [get?_of_mem hr] at hgone
        cases hgone
      refine ⟨key, ?_, hheld.unwraps, hheld.named, hheld.kept⟩
      rw [hlookup, if_neg hother, hkey]
    · refine ⟨c.generate t.drawn, (hlookup _).trans (if_pos rfl), ?_⟩
      have hheld := @Held.of_wrapped _ _ _ _ c keys t hc id workspaceKey hopen
        (liveRow c subject workspace id workspaceKey (c.generate t.drawn) t.drawn) _ _ rfl rfl
      exact ⟨hheld.unwraps, hheld.named, hheld.kept⟩
  · intro s key hkey
    simp only [hlookup] at hkey
    by_cases hs : s = subject
    · rw [(hget s).trans (if_pos hs.symm)]
      simp
    · rw [(hget s).trans (if_neg (Ne.symm hs))]
      exact h.recorded s key ((if_neg hs).symm.trans hkey)

theorem KeysSound.rewrapWorkspace (hlaw : keys.custody.Lawful) (h : KeysSound c keys t)
    {id : WorkspaceKeyId} {workspaceKey : κ} (hopen : OpensKey c keys t id workspaceKey) :
    KeysSound c keys
      { t with
        workspaceKeys := t.workspaceKeys.update id
          (WorkspaceKeyRow.rewrap keys.custody.name (keys.custody.wrap id workspaceKey t.drawn))
          (WorkspaceKeyRow.rewrap_id _ _)
        drawn := t.drawn + 1 } := by
  refine { h with known := ?_, held := ?_, oneActive := ?_ }
  · have hmove : KeyMove c keys t _ := .rewrapWorkspace hopen
    exact hmove.known h.known
  · intro r hr hlive
    obtain ⟨key, hkey, ⟨w, hw, hunwraps⟩, hnamed, hkept⟩ := h.held r hr hlive
    refine ⟨key, hkey, ⟨w, hw, ?_⟩, hnamed, hkept⟩
    cases hparse : parseWorkspaceKekId w.kekId with
    | none =>
      simp only [hparse] at hunwraps ⊢
      exact hunwraps
    | some id' =>
      have hname : r.workspaceKeyId = some id' := (hnamed w hw).trans hparse
      simp only [hparse, joinedWorkspaceKey, hname, bind_some, get?_update] at hunwraps ⊢
      obtain ⟨joined, workspaceKey', hjoined, hstored, hopenKey⟩ := hunwraps
      by_cases hid : id' = id
      · -- the same workspace key, wrapped anew
        subst hid
        obtain ⟨row, wrapped, hrow, hwrapped, -, hstored'⟩ := hopen
        rw [hrow, bind_some, hwrapped] at hjoined
        cases hjoined
        cases hstored.symm.trans hstored'
        refine ⟨_, workspaceKey, ?_, ContentKeyring.stored_wrap hlaw _ _ t.drawn, hopenKey⟩
        rw [if_pos rfl, hrow]
        rfl
      · exact ⟨joined, workspaceKey', by rw [if_neg hid, hjoined], hstored, hopenKey⟩
  · have hold : ∀ a ∈ (t.workspaceKeys.update id
        (WorkspaceKeyRow.rewrap keys.custody.name (keys.custody.wrap id workspaceKey t.drawn))
        (WorkspaceKeyRow.rewrap_id _ _)).rows, ∃ a' ∈ t.workspaceKeys.rows,
        a'.id = a.id ∧ a'.workspaceId = a.workspaceId ∧ a'.retired = a.retired := by
      intro a ha
      simp only [Table.update, mem_updateWhere] at ha
      obtain ⟨a', ha', rfl⟩ := ha
      refine ⟨a', ha', ?_⟩
      split <;> exact ⟨rfl, rfl, rfl⟩
    intro a ha b hb hws hactive hactive'
    obtain ⟨a', ha', hida, hwsa, hra⟩ := hold a ha
    obtain ⟨b', hb', hidb, hwsb, hrb⟩ := hold b hb
    have heq := h.oneActive a' ha' b' hb' (by rw [hwsa, hwsb, hws]) (hra.trans hactive)
      (hrb.trans hactive')
    exact eq_of_key_eq ha hb (hida.symm.trans ((congrArg _ heq).trans hidb))

theorem KeysSound.rewrapContent (hc : c.Unwraps) (h : KeysSound c keys t) {r : ContentKeyRow β}
    {dataKey : κ} {id : WorkspaceKeyId} {workspaceKey : κ}
    (hrow : t.contentKeys.get? r.id = some r) (hdata : UnwrapsTo c keys t r dataKey)
    (hopen : OpensKey c keys t id workspaceKey) :
    KeysSound c keys
      { t with
        contentKeys := t.contentKeys.update r.id
          (ContentKeyRow.rewrap (wrapForWorkspace c id workspaceKey r.id dataKey t.drawn) id)
          (ContentKeyRow.rewrap_id _ _)
        drawn := t.drawn + 1 } := by
  refine { h with held := ?_, recorded := ?_ }
  · intro x hx hlive
    simp only [Table.update, mem_updateWhere] at hx
    obtain ⟨x', hx', heq⟩ := hx
    split at heq
    · rename_i hid
      have hsame : x' = r :=
        eq_of_key_eq hx' (mem_of_get? hrow) (of_decide_eq_true hid)
      subst hsame
      subst heq
      have hold : x'.wrapped ≠ none := by
        obtain ⟨w, hw, -⟩ := hdata
        simp [hw]
      obtain ⟨key, hkey, hheld⟩ := h.held x' hx' hold
      -- the row opened to its data key, and that key is what goes under the active one
      obtain rfl : dataKey = key := hdata.unique hheld.unwraps
      have hnew := @Held.of_wrapped _ _ _ _ c keys t hc id workspaceKey hopen
        (x'.rewrap (wrapForWorkspace c id workspaceKey x'.id dataKey t.drawn) id) _ _ rfl rfl
      exact ⟨dataKey, hkey, hnew.unwraps, hnew.named, hnew.kept⟩
    · subst heq
      obtain ⟨key, hkey, hheld⟩ := h.held x' hx' hlive
      exact ⟨key, hkey, hheld.unwraps, hheld.named, hheld.kept⟩
  · intro s key hkey
    have hold := h.recorded s key hkey
    simp only [get?_update]
    split
    · simpa using hold
    · exact hold

/-- **Every move keeps the keys sound.** -/
theorem KeyMove.sound (hc : c.Unwraps) (hlaw : keys.custody.Lawful) (hmove : KeyMove c keys t t')
    (h : KeysSound c keys t) : KeysSound c keys t' := by
  cases hmove with
  | draw => exact h.draw
  | shred subject => exact h.shred subject
  | retire workspace => exact h.retire workspace
  | create workspace hnone hrows => exact h.create hnone hrows
  | insertShredded subject workspace hrows => exact h.insertShredded hrows
  | insertLive subject workspace hopen hrows => exact h.insertLive hc hopen hrows
  | rewrapWorkspace hopen => exact h.rewrapWorkspace hlaw hopen
  | rewrapContent hrow hdata hopen => exact h.rewrapContent hc hrow hdata hopen
  | destroy hrow hfree => exact h.destroy hrow hfree

theorem KeyMove.created (hmove : KeyMove c keys t t') (h : t.created.lookup subject = some key) :
    t'.created.lookup subject = some key := by
  cases hmove with
  | insertLive => simp only [List.lookup_append, h, Option.some_or]
  | _ => exact h

theorem KeyMoves.sound (hc : c.Unwraps) (hlaw : keys.custody.Lawful) (hmoves : KeyMoves c keys t t')
    (h : KeysSound c keys t) : KeysSound c keys t' := by
  induction hmoves with
  | refl => exact h
  | tail _ hmove ih => exact hmove.sound hc hlaw ih

theorem KeyMoves.created (hmoves : KeyMoves c keys t t') (h : t.created.lookup subject = some key) :
    t'.created.lookup subject = some key := by
  induction hmoves with
  | refl => exact h
  | tail _ hmove ih => exact hmove.created ih

/-! ## 3. Runs -/

/-- **A run of the store keeps the keys sound**, whatever the custody refuses, and what every move
keeps. -/
theorem storeRun_keeps (hc : c.Unwraps) (hlaw : keys.custody.Lawful)
    (env : HashEnv (MessageEvent ω σ)) (uuid : ContentKeyId → Nat) {P : KeyTables κ β → Prop}
    (hP : ∀ t t', KeyMoves c keys t t' → P t → P t') (hs : KeysSound c keys s.tables)
    (hp : P s.tables) (ops : List (StoreOp κ ω σ)) :
    KeysSound c keys (exec (storeNext c keys env uuid) s ops).tables ∧
      P (exec (storeNext c keys env uuid) s ops).tables := by
  refine @exec_inv _ _ (storeNext c keys env uuid)
    (fun s => KeysSound c keys s.tables ∧ P s.tables) ?_ ops _ ⟨hs, hp⟩
  rintro s op ⟨hs, hp⟩
  have hmoves := (@storeNext_stepped _ _ _ _ c keys env hlaw uuid s hs.known op).moves
  exact ⟨hmoves.sound hc hlaw hs, hP _ _ hmoves hp⟩

/-- **What a sound row reads as**, when the custody answers. -/
theorem Held.read (hr : r ∈ t.contentKeys.rows) (h : Held c keys t r key) :
    unwrapJoined c keys (fun _ => none) t (some r.id) = .ok (some key) := by
  obtain ⟨⟨w, hw, hunwraps⟩, hnamed, hkept⟩ := h
  simp only [unwrapJoined, bind_some, get?_of_mem hr, hw, openJoined, ContentKeyring.unwrap]
  cases hparse : parseWorkspaceKekId w.kekId with
  | none =>
    simp only [hparse] at hunwraps
    obtain ⟨kek, hkek, hkey⟩ := hunwraps
    simp [bind, Except.bind, hkek, hkey, authenticated]
  | some id =>
    simp only [hparse] at hunwraps
    obtain ⟨joined, workspaceKey, hjoined, hstored, hkey⟩ := hunwraps
    have hid : id ∉ t.destroyed := hkept id ((hnamed w hw).trans hparse)
    simp [bind, Except.bind, hjoined, ContentKeyring.openWorkspaceKey, ask, hid, hstored, hkey,
      authenticated]

theorem Held.workspaceKey (h : Held c keys t r key) {id : WorkspaceKeyId}
    (hid : r.wrapped.map WrappedKey.kekId = some (.workspace id)) :
    ∃ row, t.workspaceKeys.get? id = some row ∧ row.wrapped ≠ none ∧ id ∉ t.destroyed := by
  obtain ⟨⟨w, hw, hunwraps⟩, hnamed, hkept⟩ := h
  have hkek : w.kekId = .workspace id := by
    rw [hw] at hid
    exact Option.some.inj hid
  have hname : r.workspaceKeyId = some id := by
    rw [hnamed w hw, hkek]
    rfl
  simp only [hkek, parseWorkspaceKekId, joinedWorkspaceKey, hname, bind_some] at hunwraps
  obtain ⟨joined, workspaceKey, hjoined, -, -⟩ := hunwraps
  obtain ⟨row, hrow, hwrapped⟩ := bind_eq_some_iff.mp hjoined
  exact ⟨row, hrow, by simp [hwrapped], hkept id hname⟩

/-- **Key rotation loses no words.**  From any store whose keys are sound -- the empty one is, and so
is one whose first keys the instance KEKs wrapped -- after any run of appends, shreds, rotations and
rewrap passes, with any batch limits and any calls of the custody refused: a content key row that is
not shredded reads as the data key it was created with, through an instance KEK or through a
workspace key that is on file and not destroyed; and a workspace has one active key at most. -/
theorem rotation_loses_no_words {c : Cipher κ β ω σ} (hc : c.Unwraps) {keys : ContentKeyring κ β}
    (hlaw : keys.custody.Lawful) (env : HashEnv (MessageEvent ω σ)) (uuid : ContentKeyId → Nat)
    {s : Store κ β ω σ} (hs : KeysSound c keys s.tables) (ops : List (StoreOp κ ω σ)) :
    let t := (exec (storeNext c keys env uuid) s ops).tables
    (∀ r ∈ t.contentKeys.rows, r.wrapped ≠ none → ∃ key, t.created.lookup r.id = some key ∧
        unwrapJoined c keys (fun _ => none) t (some r.id) = .ok (some key) ∧
        ∀ id, r.wrapped.map WrappedKey.kekId = some (.workspace id) →
          ∃ row, t.workspaceKeys.get? id = some row ∧ row.wrapped ≠ none ∧ id ∉ t.destroyed) ∧
    (∀ subject key, s.tables.created.lookup subject = some key →
      t.created.lookup subject = some key) ∧
    ∀ a ∈ t.workspaceKeys.rows, ∀ b ∈ t.workspaceKeys.rows,
      a.workspaceId = b.workspaceId → a.retired = false → b.retired = false → a = b := by
  have hrun := storeRun_keeps hc hlaw env uuid
    (P := fun t => ∀ subject key, s.tables.created.lookup subject = some key →
      t.created.lookup subject = some key)
    (fun _ _ hmoves hold subject key hkey => hmoves.created (hold subject key hkey)) hs
    (fun _ _ hkey => hkey) ops
  refine ⟨?_, hrun.2, hrun.1.oneActive⟩
  intro r hr hlive
  obtain ⟨key, hkey, hheld⟩ := hrun.1.held r hr hlive
  exact ⟨key, hkey, hheld.read hr, fun id hid => hheld.workspaceKey hid⟩

/-! A store of the time before workspace keys, in which an instance KEK since replaced wraps the one
data key, goes through two rotations and two passes, the first of them refused. -/

def legacyRow : ContentKeyRow (Box WrapAad Nat) :=
  { id := { origin := none, message := ⟨1⟩ }, workspaceId := ⟨1⟩
    wrapped := some { kekId := .named "k1", blob := (0, .dataKey ⟨none, ⟨1⟩⟩, 7) }
    workspaceKeyId := none }

def legacyStore : Store Nat (Box WrapAad Nat) String (Box MessageId String) :=
  { tables :=
      { contentKeys := ⟨[legacyRow], by decide⟩, drawn := 8, created := [(legacyRow.id, 7)] } }

def boxEnv : HashEnv (MessageEvent String (Box MessageId String)) where
  sha256 _ := String.ofList (List.replicate 64 '0')
  canonicalJson _ := some ""
  openedEvent _ := .error "not an event of the log"

def rotatingOps : List (StoreOp Nat String (Box MessageId String)) :=
  [.append (.content .messagePosted ⟨1⟩ ⟨2⟩ "hello" none) 0 fun _ => none,
   .rotate ⟨1⟩ fun _ => none,
   .rewrap 1 fun call => if call matches .unwrap _ (some _) then some .refused else none,
   .append (.content .messageEdited ⟨1⟩ ⟨2⟩ "hello there" none) 0 fun _ => none,
   .rotate ⟨1⟩ fun _ => none,
   .rewrap 1 fun _ => none]

/-- The tables after them. -/
def rotatedTables : KeyTables Nat (Box WrapAad Nat) :=
  (exec (storeNext boxCipher boxKeyring boxEnv fun id => id.message.val) legacyStore
    rotatingOps).tables

theorem legacyStore_sound : KeysSound boxCipher boxKeyring legacyStore.tables where
  known := by
    intro id hid
    cases hid
  held := by
    intro r hr _
    obtain rfl : r = legacyRow := List.mem_singleton.mp hr
    refine ⟨7, rfl, ⟨_, rfl, ⟨{ id := "k1", key := 0 }, rfl, rfl⟩⟩, ?_, ?_⟩
    · intro w hw
      cases hw
      rfl
    · intro id hid
      cases hid
  recorded := by
    intro subject key hkey
    by_cases hs : subject = legacyRow.id
    · subst hs
      decide
    · have hne : (subject == legacyRow.id) = false := by simpa using hs
      simp [legacyStore, List.lookup, hne] at hkey
  oneActive := by
    intro a ha
    cases ha

/-- Both retired keys are destroyed in the end, and both messages can be read. -/
theorem rotation_loses_no_words_rotated :
    (rotatedTables.destroyed.length = 2 ∧
      rotatedTables.contentKeys.rows.map (fun r => r.wrapped.isSome) = [true, true]) ∧
    ∀ r ∈ rotatedTables.contentKeys.rows, r.wrapped ≠ none →
      ∃ key, rotatedTables.created.lookup r.id = some key ∧
        unwrapJoined boxCipher boxKeyring (fun _ => none) rotatedTables (some r.id) =
          .ok (some key) := by
  refine ⟨by decide +kernel, ?_⟩
  intro r hr hlive
  obtain ⟨key, hkey, hread, -⟩ := (rotation_loses_no_words boxCipher_unwraps boxKeyring_lawful boxEnv
    (fun id => id.message.val) legacyStore_sound rotatingOps).1 r hr hlive
  exact ⟨key, hkey, hread⟩

end Maidan
