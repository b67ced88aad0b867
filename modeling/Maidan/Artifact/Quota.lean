/-
# The media quota

`check_media_quota` refuses a media upload that would take the workspace's media over its quota, and
takes content the workspace already references for free.  The upload that follows then sets the
reference's kind to its own (`record_ref_in_tx`).  So content that came in as a transcript, which no
quota counts, can be uploaded again as an attachment: nothing is asked, and it is counted from then
on (`media_over_quota`).  Where no upload does that, the quota holds over every run
(`media_quota_holds`).

A sha names its content, so `size` is a function of it: the server counts the bytes it hashes.
-/
import Maidan.Lib.Run
import Maidan.Types

namespace Maidan

open Run

inductive ArtifactKind
  | screenshot
  | recording
  | transcript
  | codeDump
  | attachment
  | contextSnapshot
  | digest

/-- `ArtifactKind::is_media`, and `MEDIA_KINDS_SQL`. -/
def ArtifactKind.isMedia : ArtifactKind → Bool
  | .attachment | .screenshot | .recording => true
  | _ => false

/-- `MediaQuotaExceeded`. -/
structure MediaQuotaExceeded where
  usedBytes : Int
  quotaBytes : Int
  uploadBytes : Int

/-- What a workspace references: the shas of its rows in `maidan_artifact_refs`, with their kinds
where they have one; the shas of `maidan_artifacts`; and those other workspaces reference. -/
structure ArtifactRefs where
  refs : Finset String := ∅
  kindOf : String → Option ArtifactKind := fun _ => none
  rows : Finset String := ∅
  elsewhere : Finset String := ∅

namespace ArtifactRefs

variable (size : String → Nat) (quotaBytes : Int) (s : ArtifactRefs)

/-- The references `media_bytes` counts. -/
def media : Finset String :=
  {sha ∈ s.refs | sha ∈ s.rows ∧ (s.kindOf sha).any ArtifactKind.isMedia}

def mediaSum : Int := ∑ sha ∈ s.media, (size sha : Int)

/-- `media_bytes`.  `SUM` fails where it leaves 64 bits. -/
def mediaBytes : Except StoreError Int :=
  if s.mediaSum size ≤ i64Max then .ok (s.mediaSum size)
  else .error (.database "integer overflow")

/-- `i64::saturating_add`, of numbers that are not negative. -/
def saturatingAdd (a b : Int) : Int := min (a + b) i64Max

/-- `check_media_quota`, where the quota is set. -/
def checkMediaQuota (kind : ArtifactKind) (sha256 : String) :
    Except StoreError (Option MediaQuotaExceeded) :=
  if !kind.isMedia then .ok none
  else if sha256 ∈ s.refs then .ok none
  else do
    let usedBytes ← s.mediaBytes size
    if quotaBytes < saturatingAdd usedBytes (size sha256) then
      return some { usedBytes, quotaBytes, uploadBytes := size sha256 }
    else return none

/-- `upsert_with_event`: the row, and the reference with the kind of this upload. -/
def upsert (kind : ArtifactKind) (sha256 : String) : ArtifactRefs :=
  { s with
    rows := insert sha256 s.rows
    refs := insert sha256 s.refs
    kindOf := Function.update s.kindOf sha256 (some kind) }

/-- `erase_ref_in_tx`: the row goes with its last reference. -/
def eraseRef (sha256 : String) : ArtifactRefs :=
  { s with
    refs := s.refs.erase sha256
    rows := if sha256 ∈ s.elsewhere then s.rows else s.rows.erase sha256 }

/-- An upload, or an erase; a legal hold refuses an erase. -/
inductive Op
  | upload (kind : ArtifactKind) (sha256 : String)
  | erase (sha256 : String) (held : Bool)

def next : Op → ArtifactRefs
  | .upload kind sha256 =>
    match s.checkMediaQuota size quotaBytes kind sha256 with
    | .ok none => s.upsert kind sha256
    | _ => s
  | .erase sha256 held => if held ∨ sha256 ∉ s.refs then s else s.eraseRef sha256

/-- **Nothing is moved into the media for free beyond the quota**: a media upload of content the
workspace references, and does not count as media, leaves it within the quota. -/
def Pays : Op → Prop
  | .upload kind sha256 => kind.isMedia = true → sha256 ∈ s.refs → sha256 ∉ s.media →
      saturatingAdd (s.mediaSum size) (size sha256) ≤ quotaBytes
  | .erase _ _ => True

/-- The media is within the quota, as far as 64 bits can tell. -/
def Within : Prop := min (s.mediaSum size) i64Max ≤ quotaBytes

variable {size quotaBytes s}

theorem media_upsert (kind : ArtifactKind) (sha256 : String) : (s.upsert kind sha256).media =
      if kind.isMedia then insert sha256 s.media else s.media.erase sha256 := by
  ext x
  by_cases hx : x = sha256
  · subst hx
    cases hkind : kind.isMedia <;> simp [media, upsert, hkind]
  · cases hkind : kind.isMedia <;> simp [media, upsert, hx]

theorem Within.mono {s' : ArtifactRefs} (h : s.Within size quotaBytes) (hsub : s'.media ⊆ s.media) :
    s'.Within size quotaBytes := by
  have hle : s'.mediaSum size ≤ s.mediaSum size :=
    Finset.sum_le_sum_of_subset_of_nonneg hsub fun _ _ _ => Int.natCast_nonneg _
  exact (min_le_min_right _ hle).trans h

theorem mediaBytes_eq {used : Int} (h : s.mediaBytes size = .ok used) :
    used = s.mediaSum size ∧ used ≤ i64Max := by
  unfold mediaBytes at h
  split at h
  · rename_i hle
    cases h
    exact ⟨rfl, hle⟩
  · cases h

theorem Within.upload {kind : ArtifactKind} {sha256 : String} (h : s.Within size quotaBytes)
    (hpays : s.Pays size quotaBytes (.upload kind sha256))
    (hcheck : s.checkMediaQuota size quotaBytes kind sha256 = .ok none) :
    (s.upsert kind sha256).Within size quotaBytes := by
  cases hkind : kind.isMedia with
  | false => exact h.mono (by simp [media_upsert, hkind, Finset.erase_subset])
  | true =>
    by_cases hmedia : sha256 ∈ s.media
    · exact h.mono (by simp [media_upsert, hkind, hmedia])
    · have hfits : saturatingAdd (s.mediaSum size) (size sha256) ≤ quotaBytes := by
        by_cases href : sha256 ∈ s.refs
        · exact hpays hkind href hmedia
        · simp only [checkMediaQuota, hkind, Bool.not_true, Bool.false_eq_true, if_false, href]
            at hcheck
          obtain ⟨used, hused, hcheck⟩ := bind_ok hcheck
          rw [← (mediaBytes_eq hused).1]
          split at hcheck
          · cases hcheck
          · rename_i hfits
            exact Int.not_lt.mp hfits
      have hsum : (s.upsert kind sha256).mediaSum size = s.mediaSum size + size sha256 := by
        rw [mediaSum, media_upsert, if_pos hkind, Finset.sum_insert hmedia, add_comm, mediaSum]
      unfold Within
      rw [hsum]
      exact hfits

theorem Within.next (h : s.Within size quotaBytes) (op : Op) (hpays : s.Pays size quotaBytes op) :
    (s.next size quotaBytes op).Within size quotaBytes := by
  cases op with
  | upload kind sha256 =>
    simp only [ArtifactRefs.next]
    split
    · rename_i hcheck
      exact h.upload hpays hcheck
    · exact h
  | erase sha256 held =>
    simp only [ArtifactRefs.next]
    split
    · exact h
    · refine h.mono fun x hx => ?_
      simp only [media, eraseRef, Finset.mem_filter] at hx ⊢
      grind

/-- **The media quota holds** for uploads and erases made one after another, from a workspace within
it, where nothing is moved into the media for free beyond it. -/
theorem media_quota_holds (size : String → Nat) (quotaBytes used : Int) (s : ArtifactRefs)
    (hstart : s.mediaBytes size = .ok used) (hused : used ≤ quotaBytes) (ops : List Op)
    (hops : Meets (next size quotaBytes) (Pays size quotaBytes) s ops) :
    ∀ used', (exec (next size quotaBytes) s ops).mediaBytes size = .ok used' →
      used' ≤ quotaBytes := by
  have hwithin : (exec (next size quotaBytes) s ops).Within size quotaBytes := by
    refine exec_inv_of_meets (fun s op (h : s.Within size quotaBytes) => h.next op) ops s ?_ hops
    obtain ⟨rfl, -⟩ := mediaBytes_eq hstart
    exact (min_le_left _ _).trans hused
  intro used' hused'
  obtain ⟨rfl, hle⟩ := mediaBytes_eq hused'
  rw [Within, min_eq_left hle] at hwithin
  exact hwithin

/-- Two contents of six bytes each: the second attachment is refused. -/
def twoAttached : List Op := [.upload .attachment "a", .upload .digest "b", .upload .attachment "c"]

theorem media_quota_holds_refused :
    (exec (next (fun _ => 6) 10) {} twoAttached).mediaBytes (fun _ => 6) = .ok 6 ∧ (6 : Int) ≤ 10 := by
  have hbytes : (exec (next (fun _ => 6) 10) {} twoAttached).mediaBytes (fun _ => 6) = .ok 6 := by
    decide
  refine ⟨hbytes, media_quota_holds (fun _ => 6) 10 0 {} (by decide) (by decide) twoAttached ?_ 6
    hbytes⟩
  exact ⟨fun _ href => absurd href (by decide), nofun, fun _ href => absurd href (by decide), trivial⟩

/-- **A transcript of twenty bytes is uploaded again as an attachment**, where the quota is ten. -/
theorem media_over_quota :
    (ArtifactRefs.mediaBytes (fun _ => 20) {} = .ok 0) ∧
      (exec (next (fun _ => 20) 10) {}
        [.upload .transcript "a", .upload .attachment "a"]).mediaBytes (fun _ => 20) = .ok 20 := by
  decide

end ArtifactRefs

end Maidan
