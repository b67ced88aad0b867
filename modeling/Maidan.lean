import Maidan.Claim.Overlap
import Maidan.Claim.WallTime
import Maidan.Review.Hierarchy
import Maidan.Review.Workers
import Maidan.Events.Retention
import Maidan.Events.Relay
import Maidan.Events.Backfill
import Maidan.Recipe.Schedule
import Maidan.Federation.Recovery
import Maidan.Keys.Shredding
import Maidan.Federation.Tombstone
import Maidan.Usage.CountOnce
import Maidan.Plan.Race
import Maidan.Plan.Progress
import Maidan.Plan.Retained
import Maidan.Approval.Decided
import Maidan.Approval.Rounds
import Maidan.Access.Threads
import Maidan.Claim.Deferred
import Maidan.Stream.Reconcile
import Maidan.Stream.Floor
import Maidan.Token.Binding
import Maidan.Token.Ended
import Maidan.Token.Borrowed
import Maidan.Egress.Outbox
import Maidan.Egress.RetryBudget
import Maidan.Idempotency
import Maidan.Artifact.Quota
import Maidan.Artifact.Reap
import Maidan.Import
