/-
# A plan in an empty workspace

`submit` links a new child to the oldest open task with the same brief (`task_fingerprints.rs`), and
the children of one plan are recorded one after the other: a child may become the duplicate of an
earlier child of its own plan.  In a workspace that holds nothing but the plan's thread this can be
read off the plan: §1 says, position by position, which child a child is linked to (`Twin`) and which
ones it waits for in all (`WaitsFor`).

§3-4 follow `insert_children_in_tx` through one child and then all of them.  `Sown … i db` is the
workspace once the first `i` children are in: nothing else is there, every child has its row, its
brief and its issue, and its link, where it has one, is to its twin.
-/
import Maidan.Plan.Confined

namespace Maidan

open Relational Table Run Digraph List

/-! ## 1. Which child waits for which -/

section Waits

variable (hash : List (Option String) → String) (children : List PlanChild) (draws : PlanDraws)

/-- The children at `i` and `j` have one brief. -/
def SameBrief (i j : Nat) : Prop :=
  ∃ c d fingerprint, children[i]? = some c ∧ children[j]? = some d ∧
    c.brief hash = some fingerprint ∧ d.brief hash = some fingerprint

/-- The children at `i` and `j` are changes for one issue. -/
def SameIssue (i j : Nat) : Prop :=
  ∃ c d issue, children[i]? = some c ∧ children[j]? = some d ∧
    c.changeIssue = some issue ∧ d.changeIssue = some issue

/-- Of the positions before `i` with `p`, none comes before `j`. -/
def FirstBefore (key : Nat → List Int) (p : Nat → Prop) (i j : Nat) : Prop :=
  j < i ∧ p j ∧ ∀ k < i, p k → ¬key k < key j

/-- **The child the child at `i` is linked to**: the oldest earlier one with its brief; without one,
the oldest earlier change for its issue. -/
def Twin (i j : Nat) : Prop :=
  FirstBefore (fun k => [draws.recordedAt k, ((draws.thread k).val : Int)])
      (SameBrief hash children i) i j ∨
    ((∀ k < i, ¬SameBrief hash children i k) ∧
      FirstBefore (fun k => [draws.now, ((draws.thread k).val : Int)]) (SameIssue children i) i j)

/-- **The child at `i` waits for the child at `j`**: it depends on it, or it is its duplicate. -/
def WaitsFor (i j : Nat) : Prop :=
  (∃ c d, children[i]? = some c ∧ children[j]? = some d ∧ d.key ∈ c.dependsOn) ∨
    Twin hash children draws i j

variable {hash children} {i j : Nat} {child : PlanChild}

theorem SameBrief.brief (h : SameBrief hash children i j) (hchild : children[i]? = some child)
    (hbrief : child.brief hash = some fingerprint) :
    ∃ d, children[j]? = some d ∧ d.brief hash = some fingerprint := by
  obtain ⟨c, d, fingerprint', hc, hd, hcb, hdb⟩ := h
  obtain rfl := mem_unique hchild hc
  obtain rfl := mem_unique hbrief hcb
  exact ⟨d, hd, hdb⟩

theorem SameIssue.issue {issue : String} (h : SameIssue children i j)
    (hchild : children[i]? = some child) (hissue : child.changeIssue = some issue) :
    ∃ d, children[j]? = some d ∧ d.changeIssue = some issue := by
  obtain ⟨c, d, issue', hc, hd, hci, hdi⟩ := h
  obtain rfl := mem_unique hchild hc
  obtain rfl := mem_unique hissue hci
  exact ⟨d, hd, hdi⟩

end Waits

/-! ## 2. The empty workspace -/

/-- No table that a claim is decided by has a row of `id`. -/
structure Unmentioned (db : Db) (id : ThreadId) : Prop where
  attributes : db.threadAttributes.get? id = none
  fingerprint : db.taskFingerprints.get? id = none
  footprint : ∀ f ∈ db.threadFootprints.rows, f.threadId ≠ id
  block : db.threadBlocks.get? id = none
  parked : db.threadUnclaimable.get? id = none
  budget : db.threadBudgets.get? id = none
  result : db.threadResults.get? id = none
  unlanded : db.threadUnlandedCloses.get? id = none
  gates : ∀ g ∈ db.approvalGates.rows, g.threadId ≠ some id
  waits : ∀ v, ¬Depends db id v

/-- **The workspace is empty but for the plan's thread**: no other thread, no footprint, no slot and
no paused repository.  The rows of a thread that is not there are the schema's: there are none. -/
structure EmptyBut (db : Db) (ws : WorkspaceId) (parentId : ThreadId) : Prop where
  home : (db.threads.get? parentId).bind db.workspaceOf = some ws
  unmentioned : ∀ id, ¬db.HasThread id → Unmentioned db id
  threads : ∀ t ∈ db.threads.rows, db.workspaceOf t = some ws → t.id = parentId
  prints : ∀ f ∈ db.taskFingerprints.rows, f.workspaceId = ws → f.threadId = parentId
  footprints : ∀ f ∈ db.threadFootprints.rows, f.workspaceId ≠ ws
  slots : ∀ c ∈ db.slotCapacities.rows, c.workspaceId ≠ ws
  pauses : ∀ p ∈ db.repoPauses.rows, p.workspaceId ≠ ws

/-! ## 3. The oldest of those alike -/

section Tables

variable {db db' : Db} {id : ThreadId} {ws : WorkspaceId}

/-- **The oldest of those with the brief**, by the clock and then by id. -/
theorem sameBrief_least (h : sameBrief db ws fingerprint id = some orig) :
    ∃ f ∈ db.taskFingerprints.rows, f.threadId = orig ∧ f.workspaceId = ws ∧
      f.fingerprint = fingerprint ∧ ∀ g ∈ db.taskFingerprints.rows, g.workspaceId = ws →
        g.fingerprint = fingerprint → g.threadId ≠ id →
        (db.threads.get? g.threadId).any liveOriginal = true →
        ¬([g.createdAt, (g.threadId.val : Int)] < [f.createdAt, (f.threadId.val : Int)]) := by
  obtain ⟨f, hf, rfl⟩ := map_eq_some_iff.mp h
  obtain ⟨hmem, hf'⟩ := mem_filter.mp (mem_of_firstBy hf)
  simp only [Bool.and_eq_true, beq_iff_eq] at hf'
  refine ⟨f, hmem, rfl, hf'.1.1.1, hf'.1.1.2, fun g hg hgw hgf hgid hlive => ?_⟩
  refine firstBy_least hf g (mem_filter.mpr ⟨hg, ?_⟩)
  simp only [Bool.and_eq_true, beq_iff_eq, bne_iff_ne, ne_eq]
  exact ⟨⟨⟨hgw, hgf⟩, hgid⟩, hlive⟩

theorem sameBrief_none (h : sameBrief db ws fingerprint id = none)
    (hg : g ∈ db.taskFingerprints.rows) (hgw : g.workspaceId = ws)
    (hgf : g.fingerprint = fingerprint) (hgid : g.threadId ≠ id) :
    (db.threads.get? g.threadId).any liveOriginal = false := by
  rw [← Bool.not_eq_true]
  intro hlive
  have hnone := firstBy_eq_none_iff.mp (Option.map_eq_none_iff.mp h)
  refine filter_eq_nil_iff.mp hnone g hg ?_
  simp only [Bool.and_eq_true, beq_iff_eq, bne_iff_ne, ne_eq]
  exact ⟨⟨⟨hgw, hgf⟩, hgid⟩, hlive⟩

/-- **The oldest of the changes for the issue.** -/
theorem sameIssue_least (h : sameIssue db ws issue id = some orig) :
    ∃ t ∈ db.threads.rows, t.id = orig ∧ t.id ≠ id ∧ db.workspaceOf t = some ws ∧
      (db.threadAttributes.get? t.id).bind ThreadAttributesRow.changeIssue = some issue ∧
      ∀ u ∈ db.threads.rows, u.id ≠ id → liveOriginal u = true → db.workspaceOf u = some ws →
        (db.threadAttributes.get? u.id).bind ThreadAttributesRow.changeIssue = some issue →
        ¬([u.createdAt, (u.id.val : Int)] < [t.createdAt, (t.id.val : Int)]) := by
  have hmatch : ∀ t : ThreadRow, (db.threadAttributes.get? t.id).any (fun a =>
        a.linearIssue == some issue && a.kind == .change) = true ↔
      (db.threadAttributes.get? t.id).bind ThreadAttributesRow.changeIssue = some issue := by
    intro t
    cases db.threadAttributes.get? t.id with
    | none => simp
    | some => simp [ThreadAttributesRow.changeIssue, Option.filter_eq_some_iff]
  rw [sameIssue_eq] at h
  obtain ⟨t, ht, rfl⟩ := map_eq_some_iff.mp h
  obtain ⟨hmem, ht'⟩ := mem_filter.mp (mem_of_firstBy ht)
  simp only [Bool.and_eq_true, beq_iff_eq, bne_iff_ne, ne_eq] at ht'
  refine ⟨t, hmem, rfl, ht'.1.1.1, ht'.1.2, (hmatch t).mp ht'.2, fun u hu huid hlive huw hui => ?_⟩
  refine firstBy_least ht u (mem_filter.mpr ⟨hu, ?_⟩)
  simp only [Bool.and_eq_true, beq_iff_eq, bne_iff_ne, ne_eq]
  exact ⟨⟨⟨huid, hlive⟩, huw⟩, (hmatch u).mpr hui⟩

end Tables

/-! ## 4. The children, one after the other -/

/-- **The first `i` children are in**, and nothing else is in the workspace but the plan. -/
structure Sown (hash : List (Option String) → String) (parent : PlanParent) (parentId : ThreadId)
    (member : MemberId) (draws : PlanDraws) (children : List PlanChild) (i : Nat) (db : Db) :
    Prop where
  channel : (db.channels.get? parent.channelId).map ChannelRow.workspaceId = some parent.workspaceId
  plan : ∃ a, db.threadAttributes.get? parentId = some a ∧ a.kind = .plan
  there : db.HasThread parentId
  unmentioned : ∀ id, ¬db.HasThread id → db.threadAttributes.get? id = none ∧
    db.taskFingerprints.get? id = none ∧ ∀ f ∈ db.threadFootprints.rows, f.threadId ≠ id
  threads : ∀ t ∈ db.threads.rows, db.workspaceOf t = some parent.workspaceId →
    t.id = parentId ∨ ∃ j < i, t.id = draws.thread j
  row : ∀ j < i, db.threads.get? (draws.thread j) =
    some (planThread parent parentId member draws (draws.thread j))
  footprints : ∀ f ∈ db.threadFootprints.rows,
    f.workspaceId = parent.workspaceId ↔ ∃ j < i, f.threadId = draws.thread j
  issue : ∀ j < i, ∀ c, children[j]? = some c →
    (db.threadAttributes.get? (draws.thread j)).bind ThreadAttributesRow.changeIssue = c.changeIssue
  prints : ∀ f ∈ db.taskFingerprints.rows, f.workspaceId = parent.workspaceId →
    (f.threadId = parentId ∧ ∀ c ∈ children, c.brief hash ≠ some f.fingerprint) ∨
    ∃ j < i, ∃ c, children[j]? = some c ∧ f.threadId = draws.thread j ∧
      c.brief hash = some f.fingerprint ∧ f.createdAt = draws.recordedAt j
  printed : ∀ j < i, ∀ c fingerprint, children[j]? = some c → c.brief hash = some fingerprint →
    ∃ f ∈ db.taskFingerprints.rows, f.threadId = draws.thread j ∧
      f.workspaceId = parent.workspaceId ∧ f.fingerprint = fingerprint ∧
      f.createdAt = draws.recordedAt j
  links : ∀ j < i, ∀ b, Links db (draws.thread j) b →
    ∃ k, b = draws.thread k ∧ Twin hash children draws j k

variable {f : FingerprintRow}

namespace ChildIn

variable {hash : List (Option String) → String} {parent : PlanParent} {parentId : ThreadId}
  {member : MemberId} {draws : PlanDraws} {child : PlanChild} {id : ThreadId} {position : Nat}
  {db db' : Db} (h : ChildIn hash parent parentId member draws child id position db db')
include h

theorem workspaceOf (t : ThreadRow) : db'.workspaceOf t = db.workspaceOf t := by
  unfold Db.workspaceOf Db.channelOf
  rw [h.channels]

theorem not_hasThread (hx : ¬db'.HasThread x) : ¬db.HasThread x ∧ x ≠ id := by
  unfold Db.HasThread at hx ⊢
  rw [h.reads] at hx
  split at hx
  · simp at hx
  rename_i hne
  exact ⟨hx, Ne.symm hne⟩

theorem mem_prints (hf : f ∈ db'.taskFingerprints.rows) :
    f ∈ db.taskFingerprints.rows ∨ (f.threadId = id ∧ child.brief hash = some f.fingerprint ∧
      f.createdAt = draws.recordedAt position) := by
  rcases h.prints with ⟨_, hsame⟩ | ⟨fingerprint, ch, hbrief, _, hrow⟩
  · rw [hsame] at hf
    exact .inl hf
  · rw [Table.rows_of_insert? hrow] at hf
    rcases mem_append.mp hf with hf | hf
    · exact .inl hf
    · rw [mem_singleton.mp hf]
      exact .inr ⟨rfl, hbrief, rfl⟩

theorem mem_prints_of_mem (hf : f ∈ db.taskFingerprints.rows) : f ∈ db'.taskFingerprints.rows := by
  rcases h.prints with ⟨_, hsame⟩ | ⟨_, _, _, _, hrow⟩
  · rw [hsame]
    exact hf
  · rw [Table.rows_of_insert? hrow]
    exact mem_append_left _ hf

end ChildIn

namespace Sown

variable {hash : List (Option String) → String} {parent : PlanParent} {parentId : ThreadId}
  {member : MemberId} {draws : PlanDraws} {children : List PlanChild} {i : Nat} {db db' : Db}

theorem thread_ne (h : Sown hash parent parentId member draws children i db)
    (hfree : db.threads.get? (draws.thread i) = none) (hj : j < i) :
    draws.thread j ≠ draws.thread i := by
  intro heq
  have hrow := h.row j hj
  rw [heq, hfree] at hrow
  cases hrow

theorem workspaceOf_row (h : Sown hash parent parentId member draws children i db) (id : ThreadId) :
    db.workspaceOf (planThread parent parentId member draws id) = some parent.workspaceId :=
  h.channel

/-! The link `record_on` chooses for the next child is its twin.  Below, `db1` is `db` with the
child's row and attributes. -/

section Recorded

variable {db1 : Db} {child : PlanChild} {fingerprint issue : String} {b : ThreadId}
  (h : Sown hash parent parentId member draws children i db) (hchild : children[i]? = some child)
  (hfree : db.threads.get? (draws.thread i) = none)
  (hreads : ∀ id, db1.threads.get? id =
    if draws.thread i = id then some (planThread parent parentId member draws (draws.thread i))
    else db.threads.get? id)

include h hfree hreads

/-- The children that are in have their rows in `db1` too. -/
theorem row_recorded (hj : j < i) : db1.threads.get? (draws.thread j) =
    some (planThread parent parentId member draws (draws.thread j)) := by
  rw [hreads, if_neg (Ne.symm (h.thread_ne hfree hj))]
  exact h.row j hj

include hchild

theorem first_of_sameBrief (hprints : db1.taskFingerprints = db.taskFingerprints)
    (hbrief : child.brief hash = some fingerprint)
    (hsame : sameBrief db1 parent.workspaceId fingerprint (draws.thread i) = some b) :
    ∃ j, b = draws.thread j ∧
      FirstBefore (fun k => [draws.recordedAt k, ((draws.thread k).val : Int)])
        (SameBrief hash children i) i j := by
  obtain ⟨f, hf, rfl, hws, rfl, hleast⟩ := sameBrief_least hsame
  rw [hprints] at hf hleast
  rcases h.prints f hf hws with ⟨_, hother⟩ | ⟨j, hj, c, hc, hid, hcb, hat⟩
  · exact absurd hbrief (hother child (mem_of_getElem? hchild))
  · refine ⟨j, hid, hj, ⟨child, c, _, hchild, hc, hbrief, hcb⟩, fun k hk hk' => ?_⟩
    obtain ⟨d, hd, hdb⟩ := hk'.brief hchild hbrief
    obtain ⟨g, hg, hgid, hgw, hgf, hgat⟩ := h.printed k hk d _ hd hdb
    have hlt := hleast g hg hgw hgf (by rw [hgid]; exact h.thread_ne hfree hk)
      (by rw [hgid, h.row_recorded hfree hreads hk]; rfl)
    rw [hgat, hgid, hat, hid] at hlt
    exact hlt

theorem not_sameBrief (hprints : db1.taskFingerprints = db.taskFingerprints)
    (hbrief : child.brief hash = some fingerprint)
    (hnone : sameBrief db1 parent.workspaceId fingerprint (draws.thread i) = none) (hk : k < i) :
    ¬SameBrief hash children i k := by
  intro hsame
  obtain ⟨d, hd, hdb⟩ := hsame.brief hchild hbrief
  obtain ⟨g, hg, hgid, hgw, hgf, _⟩ := h.printed k hk d _ hd hdb
  have hdead := sameBrief_none hnone (by rw [hprints]; exact hg) hgw hgf
    (by rw [hgid]; exact h.thread_ne hfree hk)
  rw [hgid, h.row_recorded hfree hreads hk] at hdead
  cases hdead

theorem first_of_sameIssue (hchannels : db1.channels = db.channels)
    (hattributes : ∀ id, id ≠ draws.thread i →
      db1.threadAttributes.get? id = db.threadAttributes.get? id)
    (hissue : child.changeIssue = some issue)
    (hsame : sameIssue db1 parent.workspaceId issue (draws.thread i) = some b) :
    ∃ j, b = draws.thread j ∧
      FirstBefore (fun k => [draws.now, ((draws.thread k).val : Int)])
        (SameIssue children i) i j := by
  have hspace : ∀ t, db1.workspaceOf t = db.workspaceOf t := by
    intro t
    unfold Db.workspaceOf Db.channelOf
    rw [hchannels]
  obtain ⟨t, ht, rfl, htne, hws, hta, hleast⟩ := sameIssue_least hsame
  have htget : db.threads.get? t.id = some t := by
    have := get?_of_mem ht
    rwa [hreads, if_neg (Ne.symm htne)] at this
  rw [hattributes _ htne] at hta
  rw [hspace] at hws
  rcases h.threads t (mem_of_get? htget) hws with hparent | ⟨j, hj, hid⟩
  · -- the plan is no change
    obtain ⟨a, ha, hkind⟩ := h.plan
    rw [hparent, ha] at hta
    simp [ThreadAttributesRow.changeIssue, hkind] at hta
  · have hlt : j < children.length := hj.trans (List.getElem?_eq_some_iff.mp hchild).1
    have hc : children[j]? = some children[j] := List.getElem?_eq_getElem hlt
    have hct : children[j].changeIssue = some issue := by
      rw [← h.issue j hj _ hc, ← hid]
      exact hta
    have htrow : t = planThread parent parentId member draws (draws.thread j) := by
      have := h.row j hj
      rw [← hid, htget] at this
      rw [Option.some.inj this, hid]
    refine ⟨j, hid, hj, ⟨child, _, issue, hchild, hc, hissue, hct⟩, fun k hk hk' => ?_⟩
    obtain ⟨d, hd, hdi⟩ := hk'.issue hchild hissue
    have hne := h.thread_ne hfree hk
    have hlt' := hleast _ (mem_of_get? (h.row_recorded hfree hreads hk)) hne rfl
      ((hspace _).trans (h.workspaceOf_row _))
      (by
        change (db1.threadAttributes.get? (draws.thread k)).bind _ = _
        rw [hattributes _ hne, h.issue k hk d hd]
        exact hdi)
    rw [htrow] at hlt'
    exact hlt'

theorem twin_of_recorded (hprints : db1.taskFingerprints = db.taskFingerprints)
    (hchannels : db1.channels = db.channels)
    (hattributes : ∀ id, id ≠ draws.thread i →
      db1.threadAttributes.get? id = db.threadAttributes.get? id)
    (hbrief : child.brief hash = some fingerprint)
    (hlink : (sameBrief db1 parent.workspaceId fingerprint (draws.thread i)).or
      (child.changeIssue.bind fun issue =>
        sameIssue db1 parent.workspaceId issue (draws.thread i)) = some b) :
    ∃ k, b = draws.thread k ∧ Twin hash children draws i k := by
  rcases Option.or_eq_some_iff.mp hlink with hsame | ⟨hnone, hsame⟩
  · obtain ⟨j, hid, hfirst⟩ := h.first_of_sameBrief hchild hfree hreads hprints hbrief hsame
    exact ⟨j, hid, .inl hfirst⟩
  · obtain ⟨issue, hissue, hsame⟩ := bind_eq_some_iff.mp hsame
    obtain ⟨j, hid, hfirst⟩ :=
      h.first_of_sameIssue hchild hfree hreads hchannels hattributes hissue hsame
    exact ⟨j, hid, .inr
      ⟨fun k hk => h.not_sameBrief hchild hfree hreads hprints hbrief hnone hk, hfirst⟩⟩

end Recorded

section Next

variable (h : Sown hash parent parentId member draws children i db) {child : PlanChild}
  (hchild : children[i]? = some child)
  (hin : ChildIn hash parent parentId member draws child (draws.thread i) i db db')
include h hin

theorem footprints_next {f : FootprintRow} (hf : f ∈ db'.threadFootprints.rows) :
    f.workspaceId = parent.workspaceId ↔ ∃ j < i + 1, f.threadId = draws.thread j := by
  rcases hin.new f hf with hold | ⟨hfid, hfw⟩
  · rw [h.footprints f hold]
    constructor
    · rintro ⟨j, hj, hid⟩
      exact ⟨j, hj.trans i.lt_succ_self, hid⟩
    · rintro ⟨j, hj, hid⟩
      rcases Nat.lt_succ_iff_lt_or_eq.mp hj with hj | rfl
      · exact ⟨j, hj, hid⟩
      · exact absurd hid ((h.unmentioned _ hin.not_hasThread_new).2.2 f hold)
  · exact ⟨fun _ => ⟨i, i.lt_succ_self, hfid⟩, fun _ => hfw⟩

include hchild

theorem prints_next (hf : f ∈ db'.taskFingerprints.rows) (hws : f.workspaceId = parent.workspaceId) :
    (f.threadId = parentId ∧ ∀ c ∈ children, c.brief hash ≠ some f.fingerprint) ∨
      ∃ j < i + 1, ∃ c, children[j]? = some c ∧ f.threadId = draws.thread j ∧
        c.brief hash = some f.fingerprint ∧ f.createdAt = draws.recordedAt j := by
  rcases hin.mem_prints hf with hold | hnew
  · rcases h.prints f hold hws with hp | ⟨j, hj, hrest⟩
    · exact .inl hp
    · exact .inr ⟨j, hj.trans i.lt_succ_self, hrest⟩
  · exact .inr ⟨i, i.lt_succ_self, child, hchild, hnew⟩

theorem printed_next (hj : j < i + 1) (hc : children[j]? = some c)
    (hcb : c.brief hash = some fingerprint) :
    ∃ f ∈ db'.taskFingerprints.rows, f.threadId = draws.thread j ∧
      f.workspaceId = parent.workspaceId ∧ f.fingerprint = fingerprint ∧
      f.createdAt = draws.recordedAt j := by
  rcases Nat.lt_succ_iff_lt_or_eq.mp hj with hj | rfl
  · obtain ⟨f, hf, hrest⟩ := h.printed j hj c fingerprint hc hcb
    exact ⟨f, hin.mem_prints_of_mem hf, hrest⟩
  · obtain rfl := mem_unique hchild hc
    rcases hin.prints with ⟨hnone, _⟩ | ⟨fingerprint', ch, hbrief, hch, hrow⟩
    · rw [hnone] at hcb
      cases hcb
    · obtain rfl := mem_unique hbrief hcb
      have hgot := (get?_of_insert? hrow).2 (draws.thread j)
      rw [if_pos rfl] at hgot
      refine ⟨_, mem_of_get? hgot, rfl, ?_, rfl, rfl⟩
      have hws := h.channel
      rw [hch] at hws
      exact Option.some.inj hws

theorem links_next (hj : j < i + 1) (hl : Links db' (draws.thread j) b) :
    ∃ k, b = draws.thread k ∧ Twin hash children draws j k := by
  obtain ⟨f, hf, hdup⟩ := hl
  rcases Nat.lt_succ_iff_lt_or_eq.mp hj with hj | rfl
  · rw [hin.print_others (h.thread_ne hin.free hj)] at hf
    exact h.links j hj b ⟨f, hf, hdup⟩
  · rcases hin.prints with ⟨_, hsame⟩ | ⟨fingerprint, ch, hbrief, hch, hrow⟩
    · rw [hsame, (h.unmentioned _ hin.not_hasThread_new).2.1] at hf
      cases hf
    · rw [(get?_of_insert? hrow).2, if_pos rfl] at hf
      cases hf
      have hws := h.channel
      rw [hch] at hws
      obtain hws : ch.workspaceId = parent.workspaceId := Option.some.inj hws
      rw [hws] at hdup
      refine h.twin_of_recorded hchild hin.free ?_ ?_ ?_ ?_ hbrief hdup
      · exact hin.reads
      · rfl
      · exact hin.channels
      · exact hin.attributes

end Next

/-- **One child more.** -/
theorem insertChildInTx (h : Sown hash parent parentId member draws children i db)
    {child : PlanChild} (hchild : children[i]? = some child)
    (hinsert : Maidan.insertChildInTx hash parent parentId member draws db child (draws.thread i) i =
      .ok db') :
    Sown hash parent parentId member draws children (i + 1) db' := by
  obtain ⟨hin, -⟩ := insertChildInTx_in hinsert
  have hne : ∀ {j}, j < i → draws.thread j ≠ draws.thread i := h.thread_ne hin.free
  have hnew : ¬db.HasThread (draws.thread i) := hin.not_hasThread_new
  have hparent : parentId ≠ draws.thread i := fun heq => hnew (heq ▸ h.there)
  refine
    { channel := by rw [hin.channels]; exact h.channel
      plan := by rw [hin.attributes _ hparent]; exact h.plan
      there := ?_
      unmentioned := ?_
      threads := ?_
      row := ?_
      footprints := fun f hf => h.footprints_next hin hf
      issue := ?_
      prints := fun f hf hws => h.prints_next hchild hin hf hws
      printed := fun j hj c fingerprint hc hcb => h.printed_next hchild hin hj hc hcb
      links := fun j hj b hl => h.links_next hchild hin hj hl }
  · unfold Db.HasThread
    rw [hin.reads, if_neg (Ne.symm hparent)]
    exact h.there
  · intro id hid
    obtain ⟨hid, hidne⟩ := hin.not_hasThread hid
    refine ⟨(hin.attributes id hidne).trans (h.unmentioned id hid).1,
      (hin.print_others hidne).trans (h.unmentioned id hid).2.1, fun f hf => ?_⟩
    rcases hin.new f hf with hold | ⟨hfid, _⟩
    · exact (h.unmentioned id hid).2.2 f hold
    · rw [hfid]
      exact Ne.symm hidne
  · intro t ht hws
    have hg := get?_of_mem ht
    rw [hin.reads] at hg
    split at hg
    · rename_i hid
      exact .inr ⟨i, i.lt_succ_self, hid.symm⟩
    · rw [hin.workspaceOf] at hws
      rcases h.threads t (mem_of_get? hg) hws with hp | ⟨j, hj, hid⟩
      · exact .inl hp
      · exact .inr ⟨j, hj.trans i.lt_succ_self, hid⟩
  · intro j hj
    rw [hin.reads]
    rcases Nat.lt_succ_iff_lt_or_eq.mp hj with hj | rfl
    · rw [if_neg (Ne.symm (hne hj))]
      exact h.row j hj
    · rw [if_pos rfl]
  · intro j hj c hc
    rcases Nat.lt_succ_iff_lt_or_eq.mp hj with hj | rfl
    · rw [hin.attributes _ (hne hj)]
      exact h.issue j hj c hc
    · obtain rfl := mem_unique hchild hc
      exact hin.issue (h.unmentioned _ hnew).1

/-- **All the children**, from the `i`-th on. -/
theorem insertChildrenInTx (h : Sown hash parent parentId member draws children i db)
    (hrest : children.drop i = rest)
    (hinsert : Maidan.insertChildrenInTx hash parent parentId member draws 0 i db rest =
      .ok (db', made)) : Sown hash parent parentId member draws children (i + rest.length) db' ∧
      made = rest.mapIdx fun k c => { key := c.key, threadId := draws.thread (i + k) } := by
  induction rest generalizing i db made with
  | nil =>
    cases hinsert
    exact ⟨h, rfl⟩
  | cons child rest ih =>
    obtain ⟨db1, hfirst, hinsert⟩ := bind_ok hinsert
    obtain ⟨⟨db2, made2⟩, hmore, hinsert⟩ := bind_ok hinsert
    cases hinsert
    have hchild : children[i]? = some child := by
      have := congrArg List.head? hrest
      rwa [head?_drop] at this
    have hdrop : children.drop (i + 1) = rest := by
      rw [← tail_drop, hrest, tail_cons]
    rw [Nat.zero_add] at hfirst
    obtain ⟨hlast, hmade⟩ := ih (h.insertChildInTx hchild hfirst) hdrop hmore
    constructor
    · rw [length_cons, Nat.add_comm rest.length 1, ← Nat.add_assoc]
      exact hlast
    · rw [hmade, mapIdx_cons]
      simp only [Nat.add_zero, Nat.add_assoc, Nat.add_comm 1]

end Sown

end Maidan
