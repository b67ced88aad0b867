/-
# What a usage report says, and what it costs

`usage_ledger.rs`: a worker reports the tokens of a call, the rates they were billed at and the
charge.  Nothing here touches the database; `NewUsageLedgerEntry.validate` is all a report is asked
before the store opens a transaction.

A charge is `⌈Σ tokens · rate / 10⁶⌉`, computed in `i128` and narrowed.  `charge_eq_ok` says that
the narrowing is the only thing that can fail: the sum of the products leaves `i128` only when the
charge has left `i64` long before.

Token counts and rates are `i64`, and stay `Int64` here, since the question about them is what does
not fit.
-/
import Maidan.Lib.Machine
import Maidan.Lib.Run
import Maidan.Lib.Text
import Maidan.Types

namespace Maidan

open Machine Run Text List

/-- `Option::ok_or_else`. -/
def okOr {α : Type} (msg : String) : Option α → Except String α
  | some a => .ok a
  | none => .error msg

theorem okOr_eq_ok : okOr msg x = .ok a ↔ x = some a := by
  cases x <;> simp [okOr]

theorem okOr_ne_error {x : Option α} (h : msg ≠ e) : okOr msg x ≠ .error e := by
  cases x <;> simp [okOr, h]

/-! ## 1. Tokens -/

/-- `TokenUsage`. -/
structure TokenUsage where
  input : Int64 := 0
  output : Int64 := 0
  cacheRead : Int64 := 0
  cacheWrite5m : Int64 := 0
  cacheWrite1h : Int64 := 0
deriving DecidableEq, Repr

variable {t : TokenUsage} {u : Unit} {c : Int64}

namespace TokenUsage

/-- The five counts, in the order the charge takes them. -/
def quantities (t : TokenUsage) : List Int64 :=
  [t.input, t.output, t.cacheRead, t.cacheWrite5m, t.cacheWrite1h]

/-- `TokenUsage::checked`. -/
def checked (t : TokenUsage) : Except String Unit :=
  if t.quantities.any (fun value => decide (value.toInt < 0)) then
    .error "token counts must be non-negative"
  else .ok ()

/-- What counts as fresh: everything but the cache reads. -/
def freshCounts (t : TokenUsage) : List Int64 :=
  [t.input, t.output, t.cacheWrite5m, t.cacheWrite1h]

/-- `TokenUsage::fresh`: a token budget is not spent by reading a warm cache again. -/
def fresh (t : TokenUsage) : Except String Int64 := do
  t.checked
  okOr "token total overflow" (checkedSum t.freshCounts)

/-- The input side: everything but the output. -/
def promptCounts (t : TokenUsage) : List Int64 :=
  [t.input, t.cacheRead, t.cacheWrite5m, t.cacheWrite1h]

/-- `TokenUsage::prompt`. -/
def prompt (t : TokenUsage) : Except String Int64 := do
  t.checked
  okOr "token total overflow" (checkedSum t.promptCounts)

/-- No count is negative. -/
def NonNeg (t : TokenUsage) : Prop := ∀ x ∈ t.quantities, 0 ≤ x.toInt

theorem checked_eq_ok : t.checked = .ok u ↔ t.NonNeg := by
  unfold checked NonNeg
  split <;> simp_all

theorem NonNeg.promptCounts (h : t.NonNeg) : ∀ x ∈ t.promptCounts, 0 ≤ x.toInt := by
  intro x hx
  refine h x ?_
  simp only [TokenUsage.promptCounts, quantities, mem_cons, not_mem_nil, or_false] at hx ⊢
  tauto

theorem NonNeg.freshCounts (h : t.NonNeg) : ∀ x ∈ t.freshCounts, 0 ≤ x.toInt := by
  intro x hx
  refine h x ?_
  simp only [TokenUsage.freshCounts, quantities, mem_cons, not_mem_nil, or_false] at hx ⊢
  tauto

/-- The counts are asked for their signs first, so that only their total can overflow. -/
theorem total_eq_ok (hcounts : t.NonNeg → ∀ x ∈ counts, 0 ≤ x.toInt) :
    (t.checked >>= fun _ => okOr msg (checkedSum counts)) = .ok s ↔
      t.NonNeg ∧ s.toInt = (ints counts).sum := by
  simp only [bind_eq_ok, checked_eq_ok, okOr_eq_ok]
  constructor
  · rintro ⟨_, hpos, h⟩
    exact ⟨hpos, (checkedSum_eq_some (hcounts hpos)).mp h⟩
  · rintro ⟨hpos, h⟩
    exact ⟨(), hpos, (checkedSum_eq_some (hcounts hpos)).mpr h⟩

theorem prompt_eq_ok : t.prompt = .ok p ↔ t.NonNeg ∧ p.toInt = (ints t.promptCounts).sum :=
  total_eq_ok NonNeg.promptCounts

theorem fresh_eq_ok : t.fresh = .ok f ↔ t.NonNeg ∧ f.toInt = (ints t.freshCounts).sum :=
  total_eq_ok NonNeg.freshCounts

end TokenUsage

/-! ## 2. Prices -/

/-- `PriceSnapshot`: micro-USD per million tokens. -/
structure PriceSnapshot where
  inputUsdMicrosPerMillion : Int64 := 0
  outputUsdMicrosPerMillion : Int64 := 0
  cacheReadUsdMicrosPerMillion : Int64 := 0
  cacheWrite5mUsdMicrosPerMillion : Int64 := 0
  cacheWrite1hUsdMicrosPerMillion : Int64 := 0
deriving DecidableEq, Repr

/-- The products of a charge, added up without a bound. -/
def dot : List Int64 → List Int64 → Int
  | q :: qs, r :: rs => q.toInt * r.toInt + dot qs rs
  | _, _ => 0

/-- The charge a sum of products comes to: a fraction of a micro-dollar is charged whole. -/
def roundUp (numerator : Int) : Int := (numerator + 999999) / 1000000

/-- The numerator of a charge, from a total so far. -/
def checkedDot (total : Int) : List Int64 → List Int64 → Option Int
  | q :: qs, r :: rs => do
    let line ← i128? (q.toInt * r.toInt)
    let total ← i128? (total + line)
    checkedDot total qs rs
  | _, _ => some total

/-- `charge`. -/
def charge (quantities rates : List Int64) : Except String Int64 := do
  let numerator ← okOr "price calculation overflow" (checkedDot 0 quantities rates)
  let rounded ← okOr "price calculation overflow" (i128? (numerator + 999999))
  okOr "USD charge overflow" (i64? (rounded.tdiv 1000000))

namespace PriceSnapshot

variable (p : PriceSnapshot)

/-- The five rates, in the order of `TokenUsage.quantities`. -/
def rates : List Int64 :=
  [p.inputUsdMicrosPerMillion, p.outputUsdMicrosPerMillion, p.cacheReadUsdMicrosPerMillion,
    p.cacheWrite5mUsdMicrosPerMillion, p.cacheWrite1hUsdMicrosPerMillion]

/-- No rate is negative. -/
def NonNeg : Prop := ∀ r ∈ p.rates, 0 ≤ r.toInt

/-- `PriceSnapshot::charge_usd_micros`. -/
def chargeUsdMicros (tokens : TokenUsage) : Except String Int64 := do
  if p.rates.any (fun rate => decide (rate.toInt < 0)) then
    .error "price snapshot rates must be non-negative"
  else
    tokens.checked
    charge tokens.quantities p.rates

/-- `PriceSnapshot::uncached_charge_usd_micros`: every input-side token at the input rate. -/
def uncachedChargeUsdMicros (tokens : TokenUsage) : Except String Int64 := do
  let input ← tokens.prompt
  p.chargeUsdMicros { input, output := tokens.output }

end PriceSnapshot

theorem dot_nonneg : ∀ {qs rs : List Int64}, (∀ q ∈ qs, 0 ≤ q.toInt) → (∀ r ∈ rs, 0 ≤ r.toInt) →
    0 ≤ dot qs rs
  | [], _, _, _ => by simp [dot]
  | _ :: _, [], _, _ => by simp [dot]
  | q :: qs, r :: rs, hq, hr => by
    have hhead : 0 ≤ q.toInt * r.toInt :=
      Int.mul_nonneg (hq q mem_cons_self) (hr r mem_cons_self)
    have htail : 0 ≤ dot qs rs :=
      dot_nonneg (fun x hx => hq x (mem_cons_of_mem q hx)) fun x hx => hr x (mem_cons_of_mem r hx)
    simp only [dot]
    omega

/-- The numerator is exact, and computed whenever it fits: the terms are not negative, so no
intermediate total is larger. -/
theorem checkedDot_eq_some : ∀ {qs rs : List Int64} {total n : Int}, 0 ≤ total →
    (∀ q ∈ qs, 0 ≤ q.toInt) → (∀ r ∈ rs, 0 ≤ r.toInt) → total + dot qs rs < 2 ^ 127 →
    (checkedDot total qs rs = some n ↔ n = total + dot qs rs)
  | [], _, _, _, _, _, _, _ => by simp [checkedDot, dot, eq_comm]
  | _ :: _, [], _, _, _, _, _, _ => by simp [checkedDot, dot, eq_comm]
  | q :: qs, r :: rs, total, n, htotal, hq, hr, hlt => by
    have hline : 0 ≤ q.toInt * r.toInt :=
      Int.mul_nonneg (hq q mem_cons_self) (hr r mem_cons_self)
    have hqs : ∀ x ∈ qs, 0 ≤ x.toInt := fun x hx => hq x (mem_cons_of_mem q hx)
    have hrs : ∀ x ∈ rs, 0 ≤ x.toInt := fun x hx => hr x (mem_cons_of_mem r hx)
    have htail : 0 ≤ dot qs rs := dot_nonneg hqs hrs
    simp only [dot, ← Int.add_assoc] at hlt
    have hstep : checkedDot total (q :: qs) (r :: rs) =
        checkedDot (total + q.toInt * r.toInt) qs rs := by
      simp only [checkedDot]
      rw [i128?_eq_some.mpr ⟨rfl, by omega, by omega⟩]
      simp only [Option.bind_eq_bind, Option.bind_some]
      rw [i128?_eq_some.mpr ⟨rfl, by omega, by omega⟩]
      rfl
    rw [hstep, checkedDot_eq_some (by omega) hqs hrs hlt]
    simp only [dot, ← Int.add_assoc]

/-- Whatever the signs, a sum that comes through is the exact one. -/
theorem checkedDot_exact : ∀ {qs rs : List Int64} {total n : Int},
    checkedDot total qs rs = some n → n = total + dot qs rs
  | [], _, _, _, h => by simpa [checkedDot, dot, eq_comm] using h
  | _ :: _, [], _, _, h => by simpa [checkedDot, dot, eq_comm] using h
  | q :: qs, r :: rs, total, n, h => by
    simp only [checkedDot, Option.bind_eq_bind, Option.bind_eq_some_iff, i128?_eq_some] at h
    obtain ⟨_, ⟨rfl, _⟩, _, ⟨rfl, _⟩, h⟩ := h
    rw [checkedDot_exact h]
    simp only [dot]
    omega

/-- **A charge is refused only when it does not fit.** -/
theorem charge_eq_ok (hq : ∀ q ∈ qs, 0 ≤ q.toInt) (hr : ∀ r ∈ rs, 0 ≤ r.toInt) :
    charge qs rs = .ok c ↔ c.toInt = roundUp (dot qs rs) := by
  have hpos : 0 ≤ dot qs rs := dot_nonneg hq hr
  have hdiv : (dot qs rs + 999999).tdiv 1000000 = roundUp (dot qs rs) :=
    Int.tdiv_eq_ediv_of_nonneg (by omega)
  unfold charge
  simp only [bind_eq_ok, okOr_eq_ok, i128?_eq_some, i64?_eq_some]
  constructor
  · rintro ⟨n, hn, _, ⟨rfl, _⟩, hc⟩
    have hn' : n = dot qs rs := by rw [checkedDot_exact hn, Int.zero_add]
    rw [hc, hn', hdiv]
  · intro hc
    -- a charge within `i64` leaves the numerator far inside `i128`
    have hlt : dot qs rs + 999999 < 2 ^ 127 := by
      have hc' := (inI64_toInt c).2
      rw [hc] at hc'
      unfold roundUp at hc'
      omega
    refine ⟨dot qs rs, ?_, dot qs rs + 999999, ⟨rfl, by omega, hlt⟩, ?_⟩
    · rw [checkedDot_eq_some (by omega) hq hr (by omega), Int.zero_add]
    · rw [hc, hdiv]

namespace PriceSnapshot

/-- **A charge is refused only for a negative number or because it does not fit.** -/
theorem chargeUsdMicros_eq_ok {p : PriceSnapshot} : p.chargeUsdMicros t = .ok c ↔
      p.NonNeg ∧ t.NonNeg ∧ c.toInt = roundUp (dot t.quantities p.rates) := by
  unfold chargeUsdMicros
  split
  · rename_i hneg
    simp only [any_eq_true, decide_eq_true_eq] at hneg
    obtain ⟨r, hr, hlt⟩ := hneg
    simp only [reduceCtorEq, false_iff]
    intro h
    have := h.1 r hr
    omega
  · rename_i hpos
    have hp : p.NonNeg := by
      intro r hr
      simp only [any_eq_true, decide_eq_true_eq, not_exists, not_and] at hpos
      have := hpos r hr
      omega
    simp only [bind_eq_ok, TokenUsage.checked_eq_ok]
    constructor
    · rintro ⟨_, ht, hc⟩
      exact ⟨hp, ht, (charge_eq_ok ht hp).mp hc⟩
    · rintro ⟨_, ht, hc⟩
      exact ⟨(), ht, (charge_eq_ok ht hp).mpr hc⟩

/-- … and the uncached one also where the prompt's total does not. -/
theorem uncachedChargeUsdMicros_eq_ok {p : PriceSnapshot} : p.uncachedChargeUsdMicros t = .ok c ↔
      p.NonNeg ∧ t.NonNeg ∧ InI64 (ints t.promptCounts).sum ∧
        c.toInt = roundUp ((ints t.promptCounts).sum * p.inputUsdMicrosPerMillion.toInt +
          t.output.toInt * p.outputUsdMicrosPerMillion.toInt) := by
  unfold uncachedChargeUsdMicros
  simp only [bind_eq_ok, TokenUsage.prompt_eq_ok, chargeUsdMicros_eq_ok]
  constructor
  · rintro ⟨input, ⟨ht, hin⟩, hp, _, hc⟩
    refine ⟨hp, ht, hin ▸ inI64_toInt input, ?_⟩
    simpa [TokenUsage.quantities, rates, dot, hin] using hc
  · rintro ⟨hp, ht, hfits, hc⟩
    obtain ⟨input, hinput⟩ := exists_i64?_iff.mpr hfits
    rw [i64?_eq_some] at hinput
    refine ⟨input, ⟨ht, hinput⟩, hp, ?_, ?_⟩
    · have hin : 0 ≤ input.toInt := hinput ▸ sum_ints_nonneg ht.promptCounts
      have hout : 0 ≤ t.output.toInt := ht t.output (by simp [TokenUsage.quantities])
      simpa [TokenUsage.NonNeg, TokenUsage.quantities] using ⟨hin, hout⟩
    · simpa [TokenUsage.quantities, rates, dot, hinput] using hc

end PriceSnapshot

/-! ## 3. Evidence -/

/-- `UsageEvidence`: who ran the call. -/
structure UsageEvidence where
  provider : Option String := none
  serviceTier : Option String := none
  batch : Bool := false
  harness : Option String := none
  harnessVersion : Option String := none
  effort : Option String := none
  cacheKey : Option String := none
  cacheMissReason : Option String := none
  packSha256 : List String := []
  standardPrice : Option PriceSnapshot := none
deriving DecidableEq, Repr

/-- `check_len`. -/
def checkLen (name : String) (value : Option String) (max : Nat) : Except String Unit :=
  if value.any fun text =>
      decide (utf8Len text.toList > max) || (trim text.toList).isEmpty then
    .error (name ++ " must be 1..=" ++ toString max ++ " bytes when set")
  else .ok ()

namespace UsageEvidence

/-- `UsageEvidence::in_lane`. -/
def inLane (e : UsageEvidence) : Bool :=
  e.batch || e.serviceTier.any fun tier =>
    ["batch".toList, "flex".toList].contains (toAsciiLowercase (trim tier.toList))

/-- `UsageEvidence::validate`. -/
def validate (e : UsageEvidence) : Except String Unit := do
  checkLen "provider" e.provider 64
  checkLen "service_tier" e.serviceTier 64
  checkLen "harness" e.harness 64
  checkLen "harness_version" e.harnessVersion 64
  checkLen "effort" e.effort 32
  checkLen "cache_key" e.cacheKey 256
  checkLen "cache_miss_reason" e.cacheMissReason 512
  if e.packSha256.length > 32 then .error "at most 32 pack sha256 values"
  else if e.packSha256.any fun sha =>
      utf8Len sha.toList != 64 || !sha.toList.all isAsciiHexDigit then
    .error "pack_sha256 entries must be 64 hex characters"
  else
    match e.standardPrice with
    | none => .ok ()
    | some standard =>
      if !e.inLane then
        .error ("standard_price is for a call in a cheaper lane: set batch, or a batch or flex " ++
          "service_tier")
      else (standard.chargeUsdMicros {}).map fun _ => ()

end UsageEvidence

/-! ## 4. Reports -/

/-- `NewUsageLedgerEntry`. -/
structure NewUsageLedgerEntry where
  usageReportId : UsageReportId
  threadId : ThreadId
  reporter : MemberId
  claimLeaseId : ClaimLeaseId
  model : String
  tokens : TokenUsage
  usdMicros : Int64
  priceSnapshot : PriceSnapshot
  turns : Int64 := 0
  evidence : UsageEvidence := {}
deriving DecidableEq, Repr

namespace NewUsageLedgerEntry

variable {new : NewUsageLedgerEntry}

/-- The standard-tier price is checked like the charge, and must not be below it. -/
def checkStandard (new : NewUsageLedgerEntry) (standard : PriceSnapshot) : Except String Unit := do
  let atStandard ← (standard.chargeUsdMicros new.tokens).mapError ("standard_price: " ++ ·)
  if atStandard < new.usdMicros then
    .error ("standard_price charge " ++ toString atStandard ++ " is below usd_micros " ++
      toString new.usdMicros ++ ": a cheaper lane cannot cost more than standard")
  else .ok ()

/-- `NewUsageLedgerEntry::validate`. -/
def validate (new : NewUsageLedgerEntry) : Except String Unit :=
  let model := trim new.model.toList
  if model.isEmpty || utf8Len model > 255 then
    .error "model must contain 1..=255 bytes after trimming"
  else if new.turns < 0 then .error "turns must be non-negative"
  else if new.usdMicros < 0 then .error "usd_micros must be non-negative"
  else do
    new.evidence.validate
    let computed ← new.priceSnapshot.chargeUsdMicros new.tokens
    if computed ≠ new.usdMicros then
      .error ("usd_micros " ++ toString new.usdMicros ++
        " does not match price snapshot calculation " ++ toString computed)
    else
      match new.evidence.standardPrice with
      | none => .ok ()
      | some standard => new.checkStandard standard

/-- **What validation vouches for.** -/
structure Valid (new : NewUsageLedgerEntry) : Prop where
  turns : 0 ≤ new.turns.toInt
  evidence : new.evidence.validate = .ok ()
  charge : new.priceSnapshot.chargeUsdMicros new.tokens = .ok new.usdMicros
  standard : ∀ standard, new.evidence.standardPrice = some standard →
    ∃ c, standard.chargeUsdMicros new.tokens = .ok c ∧ new.usdMicros ≤ c

theorem checkStandard_eq_ok (h : new.checkStandard standard = .ok u) :
    ∃ c, standard.chargeUsdMicros new.tokens = .ok c ∧ new.usdMicros ≤ c := by
  obtain ⟨c, hc, hlt⟩ := bind_ok h
  refine ⟨c, ?_, ?_⟩
  · cases hcharge : standard.chargeUsdMicros new.tokens with
    | error => rw [hcharge] at hc; cases hc
    | ok => rw [hcharge] at hc; cases hc; rfl
  · split at hlt
    · cases hlt
    rename_i hnot
    exact Int64.not_lt.mp hnot

/-- The checks of `validate` in their order, each leaving what `Valid` names. -/
theorem valid_of_validate (h : new.validate = .ok u) : new.Valid := by
  unfold validate at h
  dsimp only at h
  split at h
  · cases h
  split at h
  · cases h
  rename_i hturns
  split at h
  · cases h
  obtain ⟨_, hevidence, h⟩ := bind_ok h
  obtain ⟨computed, hcharge, h⟩ := bind_ok h
  split at h
  · cases h
  rename_i heq
  rw [not_not] at heq
  subst heq
  refine ⟨?_, hevidence, hcharge, ?_⟩
  · have := Int64.not_lt.mp hturns
    simpa [Int64.le_iff_toInt_le] using this
  · intro standard hstandard
    rw [hstandard] at h
    exact checkStandard_eq_ok h

theorem Valid.tokens_nonNeg (h : new.Valid) : new.tokens.NonNeg :=
  (PriceSnapshot.chargeUsdMicros_eq_ok.mp h.charge).2.1

theorem Valid.rates_nonNeg (h : new.Valid) : new.priceSnapshot.NonNeg :=
  (PriceSnapshot.chargeUsdMicros_eq_ok.mp h.charge).1

end NewUsageLedgerEntry

end Maidan
