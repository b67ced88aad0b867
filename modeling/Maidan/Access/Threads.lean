/-
# Who may read a thread: one rule, in two places

`authorize_thread` (`access.rs`) decides for one thread, by lookups one after the other.
`readable_thread` (`thread_access.rs`) is the same rule as a SQL condition, for listings that filter
in the query.  The two must agree: where the condition says more, a listing leaks; where it says
less, a thread is lost from it.

* §1 is the lookups, under their names, with the errors they answer;
* §2 compares: `readable_iff_authorized`;
* §3 is the set of channels a search leaves out beforehand: `deny_set_exact`.

They do differ in one way.  The lookups stop at a DM conversation and look for a group conversation
only where there is none; the condition takes either.  So the agreement needs what the rooms are
made with: a thread backs ONE conversation (`OneConversation`).
-/
import Maidan.Access.Context
import Maidan.Claim.ClaimNext

namespace Maidan

open Relational Run List

/-! ## 1. The lookups -/

variable (db : Db)

/-- `group_dm_conversation_for_thread`, with the members it loads. -/
def groupDmConversationForThread (thread : ThreadId) :
    Option (GroupDmConversationRow × List MemberId) :=
  (db.groupDmConversations.rows.find? fun g => g.threadId == thread).map fun g =>
    (g, (db.groupDmMembers.rows.filter fun m => m.groupDmId == g.id).map GroupDmMemberRow.memberId)

def notParticipant : AuthError :=
  .forbidden "caller is not a participant of this DM conversation"

variable (auth : AuthContext)

/-- `ensure_dm_participant`. -/
def ensureDmParticipant (thread : ThreadId) : Except AuthError Unit :=
  match db.dmConversations.get? thread with
  | some dm =>
    if dm.memberLowId = auth.memberId ∨ dm.memberHighId = auth.memberId then .ok ()
    else .error notParticipant
  | none =>
    match groupDmConversationForThread db thread with
    | some (_, members) => if auth.memberId ∈ members then .ok () else .error notParticipant
    | none => .error notParticipant

/-- `ThreadScope`. -/
structure ThreadScope where
  workspaceId : WorkspaceId
  channelId : ChannelId
  threadId : ThreadId
deriving DecidableEq, Repr

/-- `channel_is_member`. -/
def channelIsMember (channel : ChannelId) (member : MemberId) : Bool :=
  (db.channelMembers.get? (channel, member)).isSome

/-- What `authorize_thread` asks beyond the workspace. -/
def ensureInside (channel : ChannelRow) (thread : ThreadId) : Except AuthError Unit :=
  if channel.name = dmChannelName then ensureDmParticipant db auth thread
  else if channel.isPrivate ∧ channelIsMember db channel.id auth.memberId = false then
    .error (.forbidden "caller is not a member of this private channel")
  else .ok ()

/-- `authorize_thread`. -/
def authorizeThread (thread : ThreadId) : Except AuthError ThreadScope :=
  match db.threads.get? thread with
  | none => .error (.store .notFound)
  | some t =>
    match db.channels.get? t.channelId with
    | none => .error (.store .notFound)
    | some channel =>
      let scope : ThreadScope :=
        { workspaceId := channel.workspaceId, channelId := channel.id, threadId := thread }
      if auth.bypass then .ok scope
      else do
        auth.ensureWorkspace channel.workspaceId
        ensureInside db auth channel thread
        return scope

/-! ## 2. The two rules -/

/-- **A thread backs at most one conversation**, of either kind. -/
structure OneConversation (db : Db) : Prop where
  groups : ∀ g ∈ db.groupDmConversations.rows, ∀ g' ∈ db.groupDmConversations.rows,
    g.threadId = g'.threadId → g = g'
  kinds : ∀ g ∈ db.groupDmConversations.rows, db.dmConversations.get? g.threadId = none

section Rules

variable {db : Db} {auth : AuthContext} {thread : ThreadId}

/-- The condition of `readable_thread` on a `__dm__` thread. -/
def readableDm (db : Db) (thread : ThreadId) (member : MemberId) : Bool :=
  (match db.dmConversations.get? thread with
    | none => false
    | some rtDm => member == rtDm.memberLowId || member == rtDm.memberHighId) ||
  db.groupDmConversations.rows.any fun rtGroup => rtGroup.threadId == thread &&
    (db.groupDmMembers.get? (rtGroup.id, member)).isSome

theorem mem_groupMembers {g : GroupDmConversationRow} :
    member ∈ (db.groupDmMembers.rows.filter fun m => m.groupDmId == g.id).map
        GroupDmMemberRow.memberId ↔
      (db.groupDmMembers.get? (g.id, member)).isSome = true := by
  rw [isSome_iff_exists]
  simp only [mem_map, mem_filter, beq_iff_eq, Table.get?_eq_some_iff, Prod.mk.injEq]
  constructor
  · rintro ⟨m, ⟨hm, hgroup⟩, hmember⟩
    exact ⟨m, hm, hgroup, hmember⟩
  · rintro ⟨m, hm, hgroup, hmember⟩
    exact ⟨m, ⟨hm, hgroup⟩, hmember⟩

/-- **In a conversation**, the condition is the lookups. -/
theorem readableDm_iff (hone : OneConversation db) :
    readableDm db thread auth.memberId = true ↔ ensureDmParticipant db auth thread = .ok () := by
  unfold readableDm ensureDmParticipant
  cases hdm : db.dmConversations.get? thread with
  | some =>
    -- a DM: there is no group of this thread to look for
    have hnone : (db.groupDmConversations.rows.any fun g => g.threadId == thread &&
        (db.groupDmMembers.get? (g.id, auth.memberId)).isSome) = false := by
      rw [any_eq_false]
      intro g hg hthis
      obtain ⟨hthread, _⟩ := Bool.and_eq_true_iff.mp hthis
      have hno := hone.kinds g hg
      rw [beq_iff_eq.mp hthread, hdm] at hno
      cases hno
    dsimp only
    rw [hnone, Bool.or_false, Bool.or_eq_true, beq_iff_eq, beq_iff_eq]
    split
    · rename_i hin
      exact ⟨fun _ => rfl, fun _ => hin.imp Eq.symm Eq.symm⟩
    · rename_i hout
      exact ⟨fun hin => absurd (hin.imp Eq.symm Eq.symm) hout, fun h => nomatch h⟩
  | none =>
    unfold groupDmConversationForThread
    rw [Bool.false_or]
    cases hgroup : db.groupDmConversations.rows.find? fun g => g.threadId == thread with
    | none =>
      have hno := find?_eq_none.mp hgroup
      constructor
      · intro hany
        obtain ⟨g, hg, hthis⟩ := any_eq_true.mp hany
        exact absurd (Bool.and_eq_true_iff.mp hthis).1 (hno g hg)
      · intro h
        cases h
    | some g =>
      have hg := mem_of_find?_eq_some hgroup
      have hthread : g.threadId = thread := by simpa using find?_some hgroup
      have hany : (db.groupDmConversations.rows.any fun g => g.threadId == thread &&
          (db.groupDmMembers.get? (g.id, auth.memberId)).isSome) = true ↔
          (db.groupDmMembers.get? (g.id, auth.memberId)).isSome = true := by
        rw [any_eq_true]
        constructor
        · rintro ⟨g', hg', hthis⟩
          obtain ⟨hthread', hin⟩ := Bool.and_eq_true_iff.mp hthis
          rw [hone.groups g hg g' hg' (hthread.trans (beq_iff_eq.mp hthread').symm)]
          exact hin
        · intro hin
          exact ⟨g, hg, by simp [hthread, hin]⟩
      rw [hany, ← mem_groupMembers]
      dsimp only [map_some]
      split
      · rename_i hin
        exact ⟨fun _ => rfl, fun _ => hin⟩
      · rename_i hout
        exact ⟨fun hin => absurd hin hout, fun h => nomatch h⟩

/-- **Inside the workspace**, the `CASE` of the condition is what `authorize_thread` asks. -/
theorem readableInside_iff (hone : OneConversation db) (channel : ChannelRow) :
    (if channel.name = dmChannelName then readableDm db thread auth.memberId
      else if channel.isPrivate then (db.channelMembers.get? (channel.id, auth.memberId)).isSome
      else true) = true ↔ ensureInside db auth channel thread = .ok () := by
  unfold ensureInside
  split
  · exact readableDm_iff hone
  · unfold channelIsMember
    cases channel.isPrivate with
    | false => simp
    | true => cases (db.channelMembers.get? (channel.id, auth.memberId)).isSome <;> simp

end Rules

/-- **One read rule**: for a member of the workspace the context names, the SQL condition bound to
that workspace and member holds of a thread exactly when `authorize_thread` lets them in. -/
theorem readable_iff_authorized (hone : OneConversation db) (auth : AuthContext)
    (hbypass : auth.bypass = false)
    (hmember : (db.members.get? auth.memberId).map MemberRow.workspaceId = some auth.workspaceId)
    (thread : ThreadId) : readableThread db thread (some auth.workspaceId) auth.memberId = true ↔
      ∃ scope, authorizeThread db auth thread = .ok scope := by
  obtain ⟨reader, hreader, hworkspace⟩ := map_eq_some_iff.mp hmember
  unfold readableThread authorizeThread Db.channelOf
  cases ht : db.threads.get? thread with
  | none => simp
  | some t =>
    obtain rfl : t.id = thread := Table.key_of_get? ht
    simp only [hreader]
    cases hc : db.channels.get? t.channelId with
    | none => simp
    | some channel =>
      have hinside := @readableInside_iff db auth t.id hone channel
      unfold readableDm at hinside
      simp only [hbypass, Bool.false_eq_true, if_false, Bool.and_eq_true, beq_iff_eq,
        Option.some.injEq, AuthContext.ensureWorkspace, false_or, hworkspace]
      refine (and_congr_right' hinside).trans ?_
      constructor
      · rintro ⟨⟨hws, _⟩, hin⟩
        exact ⟨_, by rw [if_pos hws, hin]; rfl⟩
      · rintro ⟨scope, hscope⟩
        obtain ⟨_, hensured, hscope⟩ := bind_ok hscope
        obtain ⟨_, hin, _⟩ := bind_ok hscope
        split at hensured
        · rename_i hws
          exact ⟨⟨hws, hws⟩, hin⟩
        · cases hensured

/-- A group conversation in a `__dm__` channel that is also marked private. -/
def groupRoom : Db where
  members := twoMembers
  channels := { rows := [{ id := ⟨1⟩, workspaceId := ⟨1⟩, name := "__dm__", isPrivate := true }] }
  threads := oneThread
  groupDmConversations := { rows := [{ id := ⟨1⟩, threadId := ⟨1⟩ }] }
  groupDmMembers := { rows := [{ groupDmId := ⟨1⟩, memberId := ⟨1⟩ }] }

/-- One of the workspace's two members. -/
def groupAuth (member : Nat) : AuthContext := { memberId := ⟨member⟩, workspaceId := ⟨1⟩ }

/-- Its member reads it without a row in `channel_members`; the other one does not. -/
theorem readable_iff_authorized_groupRoom :
    readableThread groupRoom ⟨1⟩ (some ⟨1⟩) ⟨1⟩ = true ∧
      ¬ ∃ scope, authorizeThread groupRoom (groupAuth 2) ⟨1⟩ = .ok scope := by
  have hone : OneConversation groupRoom := ⟨by decide, by decide⟩
  constructor
  · exact (readable_iff_authorized groupRoom hone (groupAuth 1) rfl rfl ⟨1⟩).mpr
      ⟨{ workspaceId := ⟨1⟩, channelId := ⟨1⟩, threadId := ⟨1⟩ }, by decide⟩
  · rw [← readable_iff_authorized groupRoom hone (groupAuth 2) rfl rfl ⟨1⟩]
    decide

/-! ## 3. The deny set of a search -/

/-- `private_channel_deny_set`. -/
def privateChannelDenySet (workspace : WorkspaceId) : List ChannelId :=
  if auth.bypass then []
  else
    ((db.channels.rows.filter fun c => c.workspaceId == workspace).filter fun channel =>
      channel.isPrivate && channel.name != dmChannelName &&
        !channelIsMember db channel.id auth.memberId).map ChannelRow.id

theorem mem_denySet {channel : ChannelRow} (hchannel : channel ∈ db.channels.rows) :
    channel.id ∈ privateChannelDenySet db auth workspace ↔ auth.bypass = false ∧
      channel.workspaceId = workspace ∧ channel.isPrivate = true ∧ channel.name ≠ dmChannelName ∧
        channelIsMember db channel.id auth.memberId = false := by
  unfold privateChannelDenySet
  cases auth.bypass with
  | true => simp
  | false =>
    simp only [Bool.false_eq_true, if_false, mem_map, mem_filter, Bool.and_eq_true, beq_iff_eq,
      bne_iff_ne, Bool.not_eq_true', true_and, and_assoc]
    constructor
    · rintro ⟨c, hc, hws, hprivate, hname, hout, hid⟩
      obtain rfl := Table.eq_of_key_eq hc hchannel hid
      exact ⟨hws, hprivate, hname, hout⟩
    · rintro ⟨hws, hprivate, hname, hout⟩
      exact ⟨channel, hchannel, hws, hprivate, hname, hout, rfl⟩

/-- **Outside the conversations the deny set is exact**: over the threads of the caller's workspace
that are not in its `__dm__` channel, it drops those and only those `authorize_thread` refuses. -/
theorem deny_set_exact {t : ThreadRow} {channel : ChannelRow} (ht : t ∈ db.threads.rows)
    (hchannel : channel ∈ db.channels.rows) (hof : t.channelId = channel.id)
    (hws : channel.workspaceId = auth.workspaceId) (hname : channel.name ≠ dmChannelName) :
    channel.id ∈ privateChannelDenySet db auth auth.workspaceId ↔
      ∀ scope, authorizeThread db auth t.id ≠ .ok scope := by
  rw [mem_denySet db auth hchannel]
  unfold authorizeThread ensureInside AuthContext.ensureWorkspace
  simp only [db.threads.get?_of_mem ht, hof, db.channels.get?_of_mem hchannel, hws, hname]
  -- what is left is the private flag and the membership row, on both sides
  cases auth.bypass <;> cases channel.isPrivate <;>
    cases channelIsMember db channel.id auth.memberId <;>
      simp [hname, bind, Except.bind, pure, Except.pure]

/-- A private channel with member 1 in it. -/
def privateRoom : Db where
  members := twoMembers
  channels := { rows := [{ id := ⟨1⟩, workspaceId := ⟨1⟩, name := "ops", isPrivate := true }] }
  channelMembers := { rows := [{ channelId := ⟨1⟩, memberId := ⟨1⟩ }] }
  threads := oneThread

/-- Member 1 is in the channel and reads its thread; member 2 is denied. -/
theorem deny_set_exact_privateRoom :
    ⟨1⟩ ∉ privateChannelDenySet privateRoom (groupAuth 1) ⟨1⟩ ∧
      ∀ scope, authorizeThread privateRoom (groupAuth 2) ⟨1⟩ ≠ .ok scope := by
  constructor
  · exact fun h => (deny_set_exact privateRoom (groupAuth 1) mem_cons_self mem_cons_self rfl rfl
      (by decide)).mp h _ rfl
  · exact (deny_set_exact privateRoom (groupAuth 2) mem_cons_self mem_cons_self rfl rfl
      (by decide)).mp (by decide)

end Maidan
