/-
# A write under an `Idempotency-Key` runs once

The middleware reserves the key before the handler runs and stores the response after it; a retry
reads the row instead.  `reserve` is four statements, and between any two of them other requests
under the key may run theirs.  The third, an upsert, also takes over a row whose lock has lapsed, so
exclusion is a matter of time as well: it holds as long as every handler is done before the lock its
request wrote (`Prompt`).  Nothing else is assumed, and in particular not that a request gets from
one statement to the next without waiting: the reading of the clock it compares with is then an old
one, which errs on the safe side.

§1 is the middleware and the store, for the requests of one caller under one key, so the table is
the one row under that key.  §2 is the invariant, §3 what follows.
-/
import Maidan.Lib.Run
import Maidan.Types

namespace Maidan

open Run

/-! ## 1. Requests under one key -/

structure StoredResponse where
  status : UInt16
  contentType : Option String
  body : List UInt8
deriving DecidableEq, Repr

/-- What a handler answers; a body that cannot be read to its end is `none`. -/
structure Handled where
  status : UInt16
  contentType : Option String
  body : Option (List UInt8)

def transient (status : UInt16) : Bool :=
  (500 ≤ status ∧ status < 600) ∨ status ∈ [408, 409, 425, 429]

/-- The response the middleware keeps; without one it releases the key. -/
def Handled.kept (handled : Handled) : Option StoredResponse :=
  if transient handled.status ∨
      handled.contentType.any fun ct => "text/event-stream".isPrefixOf ct then none
  else handled.body.bind fun body =>
    if 1024 * 1024 < body.length then none
    else some { status := handled.status, contentType := handled.contentType, body }

/-- Times are stored as text, to the millisecond. -/
def ms (t : Int) : Int := t / 1000000

/-- The request as `NewIdempotencyKey` sees it: its fingerprint, and when the middleware read the
clock for the two deadlines. -/
structure KeyRequest where
  fingerprint : String
  askedAt : Int
deriving DecidableEq, Repr

def KeyRequest.lockedUntil (req : KeyRequest) : Int := ms (req.askedAt + seconds (5 * 60))

def KeyRequest.expiresAt (req : KeyRequest) : Int := ms (req.askedAt + seconds (24 * 3600))

/-- A row of `maidan_idempotency_keys`.  A lease is a fresh uuid; here it is the number of the
request that drew it. -/
structure KeyRow where
  fingerprint : String
  lease : Nat
  response : Option StoredResponse := none
  lockedUntil : Int
  expiresAt : Int
deriving DecidableEq, Repr

inductive KeyAnswer
  | replayed (response : StoredResponse)
  | inFlight
  | reused
  | failed
  | handled
deriving DecidableEq

/-- Where a request stands: which statement of `reserve` it runs next, with the reading of the clock
they share; its handler running; or answered. -/
inductive KeyPhase
  | asked
  | clearing (now : Int)
  | pruning (now : Int)
  | upserting (now : Int)
  | reading
  | running
  | answered (answer : KeyAnswer)
deriving DecidableEq

/-- The row under the key and the requests.  `stored` remembers who stored what. -/
structure KeyDesk where
  clock : Int := 0
  row : Option KeyRow := none
  requests : Nat → Option (KeyRequest × KeyPhase) := fun _ => none
  stored : List (String × StoredResponse) := []

inductive KeyOp
  | arrive (r : Nat) (fingerprint : String)
  | reserve (r : Nat)
  | statement (r : Nat) (pruned : Bool)
  | finish (r : Nat) (handled : Handled)
  | wait (d : Nat)

namespace KeyDesk

variable (s : KeyDesk)

/-- `DELETE … WHERE expires_at <= now`, on the row under the key. -/
def expire (now : Int) : KeyDesk :=
  { s with row := s.row.filter fun row => now < row.expiresAt }

def moved (r : Nat) (req : KeyRequest) (phase : KeyPhase) : KeyDesk :=
  { s with requests := Function.update s.requests r (some (req, phase)) }

/-- Whether the upsert goes through: there is no row, or it takes the row over. -/
def takes (req : KeyRequest) (now : Int) (row : KeyRow) : Bool :=
  row.response = none ∧ row.lockedUntil ≤ now ∧ row.fingerprint = req.fingerprint

/-- What the middleware answers to the row it read. -/
def answerTo (req : KeyRequest) : Option KeyRow → KeyAnswer
  | none => .failed
  | some row =>
    if row.fingerprint = req.fingerprint then row.response.elim .inFlight .replayed else .reused

/-- The next statement of `reserve`.  The bounded prune may or may not reach the row (`pruned`). -/
def statement (r : Nat) (req : KeyRequest) (pruned : Bool) : KeyPhase → KeyDesk
  | .clearing now => (s.expire now).moved r req (.pruning now)
  | .pruning now => (if pruned then s.expire now else s).moved r req (.upserting now)
  | .upserting now =>
    if s.row.all (takes req now) then
      { s with row := some { fingerprint := req.fingerprint, lease := r,
                             lockedUntil := req.lockedUntil, expiresAt := req.expiresAt }
      }.moved r req .running
    else s.moved r req .reading
  | .reading => s.moved r req (.answered (answerTo req s.row))
  | _ => s

/-- `complete`, or `release`. -/
def finish (r : Nat) (req : KeyRequest) (kept : Option StoredResponse) : KeyDesk :=
  if s.row.any fun row => row.response = none ∧ row.lease = r then
    match kept with
    | some response =>
      { s with row := s.row.map fun row => { row with response := some response }
               stored := (req.fingerprint, response) :: s.stored }
    | none => { s with row := none }
  else s

def next : KeyOp → KeyDesk
  | .arrive r fingerprint =>
    if (s.requests r).isNone then s.moved r { fingerprint, askedAt := s.clock } .asked else s
  | .reserve r =>
    match s.requests r with
    | some (req, .asked) => s.moved r req (.clearing (ms s.clock))
    | _ => s
  | .statement r pruned =>
    match s.requests r with
    | some (req, phase) => s.statement r req pruned phase
    | none => s
  | .finish r handled =>
    match s.requests r with
    | some (req, .running) => (s.finish r req handled.kept).moved r req (.answered .handled)
    | _ => s
  | .wait d => { s with clock := s.clock + d }

/-! ## 2. Who holds the key -/

def Running (r : Nat) : Prop := ∃ req, s.requests r = some (req, .running)

/-- No handler is still running at the lock time its request wrote. -/
def Prompt : Prop :=
  ∀ r req, s.requests r = some (req, .running) → ms s.clock < req.lockedUntil

/-- The reading of the clock a request compares with. -/
def reading? : KeyPhase → Option Int
  | .clearing now | .pruning now | .upserting now => some now
  | _ => none

/-- **Whoever runs holds the row**, under its own lease; readings of the clock are past; and what
the row or a replay shows was stored by a run with that fingerprint. -/
structure Exclusive (s : KeyDesk) : Prop where
  held : ∀ r req, s.requests r = some (req, .running) → ∃ row, s.row = some row ∧ row.lease = r ∧
    row.response = none ∧ row.fingerprint = req.fingerprint ∧ row.lockedUntil = req.lockedUntil ∧
    row.expiresAt = req.expiresAt
  past : ∀ r req phase now, s.requests r = some (req, phase) → reading? phase = some now →
    now ≤ ms s.clock
  stored : ∀ row response, s.row = some row → row.response = some response →
    (row.fingerprint, response) ∈ s.stored
  replayed : ∀ r req response, s.requests r = some (req, .answered (.replayed response)) →
    (req.fingerprint, response) ∈ s.stored

variable {s : KeyDesk} {r : Nat} {req : KeyRequest} {phase : KeyPhase} {row : KeyRow} {now : Int}
  {op : KeyOp} {ops : List KeyOp}

theorem lockedUntil_le_expiresAt (req : KeyRequest) : req.lockedUntil ≤ req.expiresAt := by
  unfold KeyRequest.lockedUntil KeyRequest.expiresAt ms seconds
  omega

section

variable (h : s.Exclusive)
include h

/-- A request may move on as it likes, but not start running or make up a replay. -/
theorem Exclusive.moved (hphase : phase ≠ .running)
    (hpast : ∀ now, reading? phase = some now → now ≤ ms s.clock)
    (hreplayed : ∀ response, phase = .answered (.replayed response) →
      (req.fingerprint, response) ∈ s.stored) : (s.moved r req phase).Exclusive := by
  obtain ⟨hheld, hread, hstored, hold⟩ := h
  refine ⟨?_, ?_, hstored, ?_⟩ <;> simp only [KeyDesk.moved, Function.update_apply] <;> grind

/-- A running handler's row outlives its lock, so no deletion of expired rows reaches it. -/
theorem Exclusive.expire (hprompt : s.Prompt) (hnow : now ≤ ms s.clock) :
    (s.expire now).Exclusive := by
  refine ⟨fun r req hrun => ?_, h.past, fun row response hrow => ?_, h.replayed⟩
  · obtain ⟨row, hrow, hfacts⟩ := h.held r req hrun
    have hlock := hprompt r req hrun
    have hle := lockedUntil_le_expiresAt req
    refine ⟨row, ?_, hfacts⟩
    simp only [KeyDesk.expire, hrow, Option.filter_some, decide_eq_true_eq]
    rw [if_pos (by omega)]
  · exact h.stored row response (Option.filter_eq_some_iff.mp hrow).1

/-- **Where the upsert goes through nobody runs**: the lock it found lapsed was some handler's. -/
theorem Exclusive.idle_of_takes (hprompt : s.Prompt) (hnow : now ≤ ms s.clock)
    (htakes : s.row.all (takes req now) = true) (r : Nat) : ¬s.Running r := by
  rintro ⟨req', hrun⟩
  obtain ⟨row, hrow, -, -, -, hlocked, -⟩ := h.held r req' hrun
  have hlock := hprompt r req' hrun
  simp only [hrow, Option.all_some, takes, decide_eq_true_eq] at htakes
  omega

theorem Exclusive.statement (hprompt : s.Prompt) (pruned : Bool)
    (hr : s.requests r = some (req, phase)) : (s.statement r req pruned phase).Exclusive := by
  have hpast := h.past r req phase
  cases phase with
  | asked | running | answered => exact h
  | clearing now =>
    have hnow := hpast now hr rfl
    exact (h.expire hprompt hnow).moved nofun (by rintro _ ⟨⟩; exact hnow) nofun
  | pruning now =>
    have hnow := hpast now hr rfl
    cases pruned with
    | true => exact (h.expire hprompt hnow).moved nofun (by rintro _ ⟨⟩; exact hnow) nofun
    | false => exact h.moved nofun (by rintro _ ⟨⟩; exact hnow) nofun
  | upserting now =>
    simp only [KeyDesk.statement]
    split
    · rename_i htakes
      have hidle := h.idle_of_takes hprompt (hpast now hr rfl) htakes
      refine ⟨fun r' req' hrun => ?_, ?_, by rintro _ _ ⟨⟩ ⟨⟩, ?_⟩
      · by_cases hr' : r' = r
        · subst hr'
          cases (Function.update_self r' _ s.requests).symm.trans hrun
          exact ⟨_, rfl, rfl, rfl, rfl, rfl, rfl⟩
        · exact absurd ⟨req', (Function.update_of_ne hr' _ s.requests).symm.trans hrun⟩ (hidle r')
      · have := h.past
        simp only [KeyDesk.moved, Function.update_apply]
        grind [reading?]
      · have := h.replayed
        simp only [KeyDesk.moved, Function.update_apply]
        grind
    · exact h.moved nofun nofun nofun
  | reading =>
    refine h.moved nofun nofun fun response hresponse => ?_
    have hstored := h.stored
    cases hrow : s.row with
    | none => grind [answerTo]
    | some row => cases hkept : row.response <;> grind [answerTo]

theorem Exclusive.next (hprompt : s.Prompt) : (s.next op).Exclusive := by
  cases op with
  | wait =>
    refine ⟨h.held, fun r req phase now hr hread => ?_, h.stored, h.replayed⟩
    have := h.past r req phase now hr hread
    simp only [KeyDesk.next, ms] at this ⊢
    omega
  | arrive =>
    simp only [KeyDesk.next]
    split
    · exact h.moved nofun nofun nofun
    · exact h
  | reserve =>
    simp only [KeyDesk.next]
    split
    · exact h.moved nofun (by rintro _ ⟨⟩; exact Int.le_refl _) nofun
    · exact h
  | statement r pruned =>
    simp only [KeyDesk.next]
    split
    · rename_i req phase hr
      exact h.statement hprompt pruned hr
    · exact h
  | finish r handled =>
    simp only [KeyDesk.next]
    split
    · rename_i req hr
      obtain ⟨row, hrow, hlease, hresponse, hprint, -⟩ := h.held r req hr
      have howns : s.row.any (fun row => row.response = none ∧ row.lease = r) = true := by
        simp [hrow, hlease, hresponse]
      obtain ⟨hheld, hread, hstored, hold⟩ := h
      cases handled.kept <;> refine ⟨?_, ?_, ?_, ?_⟩ <;>
        simp only [KeyDesk.finish, howns, if_true, KeyDesk.moved, Function.update_apply] <;>
        grind [reading?]
    · exact h

end

/-! ## 3. Once -/

/-- By steps in each of which every running handler is before its lock time. -/
def Reaches (s s' : KeyDesk) : Prop :=
  ∃ ops, Meets next (fun s _ => s.Prompt) s ops ∧ exec next s ops = s'

/-- The row is there, or its time is over. -/
def Kept (row : KeyRow) (s : KeyDesk) : Prop := s.row = some row ∨ row.expiresAt ≤ ms s.clock

theorem Exclusive.reaches (h : s.Exclusive) : s.Reaches s' → s'.Exclusive := by
  rintro ⟨ops, hops, rfl⟩
  exact exec_inv_of_meets (fun _ _ hs hprompt => Exclusive.next hs hprompt) ops s h hops

/-- It is enough that no lock lapses: whoever runs holds the row, and the row has the lock. -/
theorem Exclusive.reaches_of_locked {ops : List KeyOp} (h : s.Exclusive)
    (hops : Meets KeyDesk.next (fun s _ => s.row.all fun row => ms s.clock < row.lockedUntil) s ops) :
    s.Reaches (exec KeyDesk.next s ops) := by
  refine ⟨ops, ?_, rfl⟩
  induction ops generalizing s with
  | nil => trivial
  | cons op ops ih =>
    have hprompt : s.Prompt := by
      intro r req hrun
      obtain ⟨row, hrow, -, -, -, hlocked, -⟩ := h.held r req hrun
      simpa [hrow, hlocked] using hops.1
    exact ⟨hprompt, ih (h.next hprompt) hops.2⟩

theorem Exclusive.empty (clock : Int) : Exclusive { clock } := by
  constructor <;> simp

theorem Kept.expire (h : Kept row s) (hnow : now ≤ ms s.clock) : Kept row (s.expire now) := by
  rcases h with hrow | hgone
  · simp only [Kept, KeyDesk.expire, hrow, Option.filter_some, decide_eq_true_eq]
    split
    · exact .inl rfl
    · exact .inr (by omega)
  · exact .inr hgone

/-- **A stored response stays** until its row expires. -/
theorem Kept.next (h : Kept row s) (hs : s.Exclusive) (hresponse : row.response ≠ none) :
    Kept row (s.next op) := by
  cases op with
  | wait =>
    refine h.imp_right fun hgone => ?_
    simp only [KeyDesk.next, ms] at hgone ⊢
    omega
  | arrive | reserve =>
    simp only [KeyDesk.next]
    split <;> exact h
  | finish =>
    simp only [KeyDesk.next, KeyDesk.finish]
    split
    · rcases h with hrow | hgone
      · exact .inl (by simp [hrow, hresponse, KeyDesk.moved])
      · right
        split <;> [split; skip] <;> exact hgone
    · exact h
  | statement r pruned =>
    simp only [KeyDesk.next]
    split
    · rename_i req phase hr
      have hpast := hs.past r req phase
      cases phase with
      | clearing now => exact h.expire (hpast now hr rfl)
      | pruning now =>
        cases pruned with
        | true => exact h.expire (hpast now hr rfl)
        | false => exact h
      | upserting =>
        refine h.imp (fun hrow => ?_) fun hgone => ?_
        · simp [KeyDesk.statement, KeyDesk.moved, hrow, takes, hresponse]
        · simp only [KeyDesk.statement]
          split <;> exact hgone
      | asked | running | answered | reading => exact h
    · exact h

/-- **Idempotent writes run once.**  Two handlers never overlap; from the moment a response is
stored until its row expires the row stays and no handler runs; and a replay shows what a run with
the request's own fingerprint stored. -/
theorem idempotent_writes_run_once {clock : Int} {s' : KeyDesk} (h : Reaches { clock } s)
    (h' : s.Reaches s') :
    (∀ r r', s'.Running r → s'.Running r' → r = r') ∧
    (∀ row, s.row = some row → row.response ≠ none → ms s'.clock < row.expiresAt →
      s'.row = some row ∧ ∀ r, ¬s'.Running r) ∧
    ∀ r req response, s'.requests r = some (req, .answered (.replayed response)) →
      (req.fingerprint, response) ∈ s'.stored := by
  have hs := (Exclusive.empty clock).reaches h
  have hs' := hs.reaches h'
  refine ⟨?_, fun row hrow hresponse hlive => ?_, hs'.replayed⟩
  · rintro r r' ⟨req, hrun⟩ ⟨req', hrun'⟩
    obtain ⟨row, hrow, hlease, -⟩ := hs'.held r req hrun
    obtain ⟨row', hrow', hlease', -⟩ := hs'.held r' req' hrun'
    cases hrow.symm.trans hrow'
    exact hlease.symm.trans hlease'
  · obtain ⟨ops, hops, rfl⟩ := h'
    have hkept := exec_inv_of_meets
      (fun s op (hinv : s.Exclusive ∧ Kept row s) hprompt =>
        ⟨hinv.1.next hprompt, hinv.2.next hinv.1 hresponse⟩) ops s ⟨hs, .inl hrow⟩ hops
    have hrow' := hkept.2.resolve_right (by omega)
    refine ⟨hrow', ?_⟩
    rintro r ⟨req, hrun⟩
    obtain ⟨row', hheld, -, hnone, -⟩ := hs'.held r req hrun
    cases hrow'.symm.trans hheld
    exact hresponse hnone

/-- The second request asks while the first one's handler runs. -/
def contendedOps : List KeyOp :=
  [.arrive 1 "print", .arrive 2 "print", .reserve 1, .reserve 2, .statement 1 true,
    .statement 2 true, .statement 1 true, .statement 2 false, .statement 1 true, .statement 2 true,
    .statement 2 true]

/-- A second later the first one's response is stored. -/
def storedOps : List KeyOp :=
  contendedOps ++ [.wait 1000000000, .finish 1 ⟨201, none, some [7]⟩]

/-- Then come a retry and a request with another body. -/
def retriedOps : List KeyOp :=
  [.arrive 3 "print", .arrive 4 "other", .reserve 3, .reserve 4] ++
    List.replicate 4 (.statement 3 true) ++ List.replicate 4 (.statement 4 true)

/-- The second request is told that the first is in flight, the third is shown its response, and the
fourth is refused. -/
theorem idempotent_writes_run_once_contended :
    let s := exec next {} contendedOps
    let done := exec next {} storedOps
    let s' := exec next done retriedOps
    (s.requests 2 = some (⟨"print", 0⟩, .answered .inFlight) ∧ s.Running 1 ∧
      ∀ r, s.Running r → r = 1) ∧
    (s'.requests 4 = some (⟨"other", 1000000000⟩, .answered .reused) ∧ s'.row = done.row ∧
      ∀ r, ¬s'.Running r) ∧
    s'.requests 3 = some (⟨"print", 1000000000⟩, .answered (.replayed ⟨201, none, [7]⟩)) ∧
      ("print", ⟨201, none, [7]⟩) ∈ s'.stored := by
  intro s done s'
  have hs : Reaches {} s := (Exclusive.empty 0).reaches_of_locked (by decide +kernel)
  have hdone : Reaches {} done := (Exclusive.empty 0).reaches_of_locked (by decide +kernel)
  have hs' : done.Reaches s' := ((Exclusive.empty 0).reaches hdone).reaches_of_locked
    (by decide +kernel)
  have hrun : s.Running 1 := ⟨⟨"print", 0⟩, by decide +kernel⟩
  have hrow : done.row = some ⟨"print", 1, some ⟨201, none, [7]⟩, 300000, 86400000⟩ := by
    decide +kernel
  have hreplay : s'.requests 3 =
      some (⟨"print", 1000000000⟩, .answered (.replayed ⟨201, none, [7]⟩)) := by decide +kernel
  obtain ⟨-, hstays, hshown⟩ := idempotent_writes_run_once hdone hs'
  obtain ⟨hsame, hidle⟩ := hstays _ hrow nofun (by decide +kernel)
  exact ⟨⟨by decide +kernel, hrun, fun r h =>
      (idempotent_writes_run_once ⟨[], trivial, rfl⟩ hs).1 r 1 h hrun⟩,
    ⟨by decide +kernel, hsame.trans hrow.symm, hidle⟩, hreplay, hshown _ _ _ hreplay⟩

end KeyDesk

end Maidan
