/-
# The land gate

`land_gate.rs` and `attestation.rs`: a verdict recorded on a thread, and the test a close puts it
to.  The gate is opt-in: a thread without a row closes as before.

"Not the implementer" is three tests, not two: the recorder is not the owner, not the LIVE holder
(`assignee_id`, which a release clears), and never held the thread (`thread_workers`, which
nothing clears).  A delegate that recorded with the recorder's token is put to the same test.
-/
import Maidan.Claim.Threads

namespace Maidan

open Relational

/-! ## 1. A qualifying pass -/

/-- `LAND_GATE_SKILL`. -/
def landGateSkill : String := "land_gate"

/-- `RecordedPass`: a verdict as the close gate reads it. -/
structure RecordedPass where
  status : LandGateStatus
  land : LandColor
  recordedBy : MemberId
  artifactSha : Option String
  ownerId : Option MemberId
  assigneeId : Option MemberId
  worked : Bool
  skilled : Bool

/-- What `is_qualifying_pass` and the amber case of `standing_land` share: skilled, and not the
implementer. -/
def RecordedPass.independent (pass : RecordedPass) : Bool :=
  pass.skilled && pass.ownerId != some pass.recordedBy &&
    pass.assigneeId != some pass.recordedBy && !pass.worked

/-- `is_qualifying_pass`, `qualifies`. -/
def RecordedPass.qualifies (pass : RecordedPass) : Bool :=
  pass.status == .pass && pass.land == .green && pass.independent

/-- `standing_land` of a recorded verdict on an armed gate. -/
def RecordedPass.standingLand (pass : RecordedPass) : LandColor :=
  if pass.qualifies then .green
  else if pass.status == .pass && pass.land == .amber && pass.independent then .amber
  else .red

/-! ## 2. Reading the row -/

/-- `GateReading`. -/
inductive GateReading
  | unarmed
  | pending
  | recorded (pass : RecordedPass)

/-- The delegate that recorded the verdict owns, holds or worked the thread. -/
def actorConflict (db : Db) (t : ThreadRow) (recordedActor : Option MemberId)
    (recordedBy : MemberId) : Bool :=
  match recordedActor.filter (· ≠ recordedBy) with
  | none => false
  | some actor =>
    t.ownerId == some actor || t.assigneeId == some actor || hasWorked db t.id actor

/-- `read_in_tx`. -/
def readLandGate (db : Db) (thread : ThreadId) : GateReading :=
  match db.threadLandGate.get? thread, db.threads.get? thread with
  | some s, some t =>
    match s.verdict with
    | none => .pending
    | some (status, land, recordedBy) =>
      .recorded
        { status := status
          land := land
          recordedBy := recordedBy
          artifactSha := s.artifactSha
          ownerId := t.ownerId
          assigneeId := t.assigneeId
          worked := hasWorked db thread recordedBy ||
            actorConflict db t s.recordedActorId recordedBy
          skilled := (db.memberSkills.get? (recordedBy, landGateSkill)).isSome }
  | _, _ => .unarmed

/-- `land_gate::gate_in_tx`. -/
def landGateInTx (db : Db) (thread : ThreadId) : Except StoreError Unit :=
  match readLandGate db thread with
  | .unarmed => .ok ()
  | .pending => .error (.conflict "land gate required: no pass recorded")
  | .recorded pass =>
    if pass.qualifies then .ok ()
    else .error (.conflict ("land gate is " ++ pass.standingLand.asStr ++
      ": need a green pass from a land-gate-skilled member who is not the implementer"))

end Maidan
