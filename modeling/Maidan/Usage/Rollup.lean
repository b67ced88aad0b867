/-
# The rollup over one report

`usage_sql.rs` writes the charge of a ledger row as SQL, and `UsageRollup::from_sums` adds up what
the query returns.  A product of tokens and rate may leave 64 bits although the charge fits, so the
SQL never forms one: with `rate = q·10⁶ + r` and `tokens = t·10⁶ + b`,

    tokens · rate = 10⁶ · (tokens · q + t · r) + b · r .

`exact_ceilMicros` is that identity and `fits_ceilMicros` the promise made with it: the expression
fits exactly when its quantities, its rates and the charge do, and the `b · r` add up in 64 bits.
They do for every list of terms SQLite takes: the sum is as deep as it is long, and it refuses an
expression more than a thousand deep (`ceil_micros_exact_iff`).

The promise reaches the standard price, whose charge `validate` checks.  It does not reach the
uncached price, whose charge nothing checks: `input + cache_read + …` is a sum a report may overflow
while its charge is small (`usageReport_rollsUp_iff`, `warmReport_breaks_rollup`).

Whether a report ran in a cheaper lane is decided twice, in Rust and in SQL.  The two trim a tier
differently: section 7 says which tiers they read apart.
-/
import Maidan.Db

namespace Maidan

open Machine Run Text List

/-! ## 1. The row expressions -/

/-- The columns of `maidan_usage_ledger` the row expressions read. -/
inductive UsageColumn
  | inputTokens
  | outputTokens
  | cacheReadTokens
  | cacheWrite5mTokens
  | cacheWrite1hTokens
  | inputPrice
  | outputPrice
  | standardInputPrice
  | standardOutputPrice
  | standardCacheReadPrice
  | standardCacheWrite5mPrice
  | standardCacheWrite1hPrice

section CeilMicros

variable {γ : Type}

/-- The two whole parts a term adds. -/
def wholeParts (term : Expr γ × Expr γ) : List (Expr γ) :=
  [.mul term.1 (.div term.2 (.lit 1000000)),
    .mul (.div term.1 (.lit 1000000)) (.mod term.2 (.lit 1000000))]

/-- The remainder a term adds. -/
def restPart (term : Expr γ × Expr γ) : Expr γ :=
  .mul (.mod term.1 (.lit 1000000)) (.mod term.2 (.lit 1000000))

/-- `ceil_micros`, over pairs of a quantity and a rate. -/
def ceilMicros (terms : List (Expr γ × Expr γ)) : Expr γ :=
  .add (.join (terms.flatMap wholeParts))
    (.div (.add (.join (terms.map restPart)) (.lit 999999)) (.lit 1000000))

end CeilMicros

/-- `uncached_row`. -/
def uncachedRow : Expr UsageColumn :=
  ceilMicros [(.join [.col .inputTokens, .col .cacheReadTokens, .col .cacheWrite5mTokens,
        .col .cacheWrite1hTokens], .col .inputPrice),
      (.col .outputTokens, .col .outputPrice)]

/-- `lane_standard_row`. -/
def laneStandardRow : Expr UsageColumn :=
  ceilMicros
    [(.col .inputTokens, .col .standardInputPrice), (.col .outputTokens, .col .standardOutputPrice),
      (.col .cacheReadTokens, .col .standardCacheReadPrice),
      (.col .cacheWrite5mTokens, .col .standardCacheWrite5mPrice),
      (.col .cacheWrite1hTokens, .col .standardCacheWrite1hPrice)]

variable (row : UsageRow)

/-- The columns of a ledger row. -/
def UsageRow.columns : UsageColumn → Option Int64
  | .inputTokens => some row.tokens.input
  | .outputTokens => some row.tokens.output
  | .cacheReadTokens => some row.tokens.cacheRead
  | .cacheWrite5mTokens => some row.tokens.cacheWrite5m
  | .cacheWrite1hTokens => some row.tokens.cacheWrite1h
  | .inputPrice => some row.price.inputUsdMicrosPerMillion
  | .outputPrice => some row.price.outputUsdMicrosPerMillion
  | .standardInputPrice => row.standardInputPrice
  | .standardOutputPrice => row.standardOutputPrice
  | .standardCacheReadPrice => row.standardCacheReadPrice
  | .standardCacheWrite5mPrice => row.standardCacheWrite5mPrice
  | .standardCacheWrite1hPrice => row.standardCacheWrite1hPrice

/-- The row `reserve_in_tx` writes for a report.  The five standard rates are written together, and
an empty list of packs as none. -/
def NewUsageLedgerEntry.reserved (new : NewUsageLedgerEntry) (workspaceId : WorkspaceId)
    (acceptedAt : Int) : UsageRow :=
  let standard := new.evidence.standardPrice
  { usageReportId := new.usageReportId
    workspaceId
    threadId := new.threadId
    reporterId := new.reporter
    claimLeaseId := new.claimLeaseId
    model := trimStr new.model
    acceptedAt
    tokens := new.tokens
    price := new.priceSnapshot
    usdMicros := new.usdMicros
    turns := new.turns
    provider := new.evidence.provider
    serviceTier := new.evidence.serviceTier
    batch := new.evidence.batch
    harness := new.evidence.harness
    harnessVersion := new.evidence.harnessVersion
    effort := new.evidence.effort
    cacheKey := new.evidence.cacheKey
    cacheMissReason := new.evidence.cacheMissReason
    packSha256 := if new.evidence.packSha256.isEmpty then none else some new.evidence.packSha256
    standardInputPrice := standard.map (·.inputUsdMicrosPerMillion)
    standardOutputPrice := standard.map (·.outputUsdMicrosPerMillion)
    standardCacheReadPrice := standard.map (·.cacheReadUsdMicrosPerMillion)
    standardCacheWrite5mPrice := standard.map (·.cacheWrite5mUsdMicrosPerMillion)
    standardCacheWrite1hPrice := standard.map (·.cacheWrite1hUsdMicrosPerMillion) }

/-! ## 2. The identity -/

section CeilMicros

variable {γ : Type} {row : γ → Option Int64}

/-- No quantity and no rate is negative. -/
def TermsNonNeg (row : γ → Option Int64) (terms : List (Expr γ × Expr γ)) : Prop :=
  ∀ term ∈ terms, 0 ≤ term.1.exact row ∧ 0 ≤ term.2.exact row

/-- What the remainders of the terms multiply out to. -/
def restDot (row : γ → Option Int64) (terms : List (Expr γ × Expr γ)) : Int :=
  (terms.map fun term => term.1.exact row % 1000000 * (term.2.exact row % 1000000)).sum

/-- What the terms multiply out to. -/
def exactDot (row : γ → Option Int64) (terms : List (Expr γ × Expr γ)) : Int :=
  (terms.map fun term => term.1.exact row * term.2.exact row).sum

variable {term : Expr γ × Expr γ} {terms : List (Expr γ × Expr γ)}

section

variable (h : 0 ≤ term.1.exact row ∧ 0 ≤ term.2.exact row)
include h

theorem exact_wholeParts : (wholeParts term).map (Expr.exact row) =
      [term.1.exact row * (term.2.exact row / 1000000),
        term.1.exact row / 1000000 * (term.2.exact row % 1000000)] := by
  simp only [wholeParts, map_cons, map_nil, Expr.exact,
    Int.tdiv_eq_ediv_of_nonneg h.1, Int.tdiv_eq_ediv_of_nonneg h.2, Int.tmod_eq_emod_of_nonneg h.2]

theorem exact_restPart :
    (restPart term).exact row = term.1.exact row % 1000000 * (term.2.exact row % 1000000) := by
  simp only [restPart, Expr.exact, Int.tmod_eq_emod_of_nonneg h.1, Int.tmod_eq_emod_of_nonneg h.2]

/-- The remainder a term adds is below `10¹²`, whatever the term is. -/
theorem restPart_bounds :
    0 ≤ (restPart term).exact row ∧ (restPart term).exact row ≤ 1000000000000 := by
  rw [exact_restPart h]
  have hq := Int.emod_nonneg (term.1.exact row) (by decide : (1000000 : Int) ≠ 0)
  have hr := Int.emod_nonneg (term.2.exact row) (by decide : (1000000 : Int) ≠ 0)
  have hq' := Int.emod_lt_of_pos (term.1.exact row) (by decide : (0 : Int) < 1000000)
  have hr' := Int.emod_lt_of_pos (term.2.exact row) (by decide : (0 : Int) < 1000000)
  constructor
  · exact Int.mul_nonneg hq hr
  · calc term.1.exact row % 1000000 * (term.2.exact row % 1000000)
        ≤ 1000000 * 1000000 := Int.mul_le_mul hq'.le hr'.le hr (by decide)
      _ = 1000000000000 := by decide

end

theorem mul_split (q r : Int) :
    q * r = 1000000 * (q * (r / 1000000) + q / 1000000 * (r % 1000000)) +
      q % 1000000 * (r % 1000000) := by
  have hq := Int.mul_ediv_add_emod q 1000000
  have hr := Int.mul_ediv_add_emod r 1000000
  calc q * r = q * (1000000 * (r / 1000000) + r % 1000000) := by rw [hr]
    _ = 1000000 * (q * (r / 1000000)) +
        (1000000 * (q / 1000000) + q % 1000000) * (r % 1000000) := by rw [hq]; ring
    _ = _ := by ring

section

variable (h : TermsNonNeg row terms)
include h

theorem exactDot_split : exactDot row terms =
      1000000 * ((terms.flatMap wholeParts).map (Expr.exact row)).sum +
        ((terms.map restPart).map (Expr.exact row)).sum := by
  induction terms with
  | nil => rfl
  | cons term terms ih =>
    have hterm := h term mem_cons_self
    have hterms : TermsNonNeg row terms := fun t ht => h t (mem_cons_of_mem term ht)
    have ih := ih hterms
    unfold exactDot at ih ⊢
    simp only [map_cons, sum_cons, flatMap_cons, map_append, sum_append,
      exact_wholeParts hterm, exact_restPart hterm, sum_nil]
    rw [ih, mul_split (term.1.exact row) (term.2.exact row)]
    ring

theorem rest_bounds : 0 ≤ ((terms.map restPart).map (Expr.exact row)).sum ∧
      ((terms.map restPart).map (Expr.exact row)).sum ≤ terms.length * 1000000000000 := by
  induction terms with
  | nil => simp
  | cons term terms ih =>
    have ih := ih fun t ht => h t (mem_cons_of_mem term ht)
    have hterm := restPart_bounds (h term mem_cons_self)
    simp only [map_cons, sum_cons, length_cons]
    omega

theorem rest_eq : ((terms.map restPart).map (Expr.exact row)).sum = restDot row terms := by
  rw [map_map]
  exact congrArg sum (map_congr_left fun term hterm => exact_restPart (h term hterm))

theorem whole_nonneg : ∀ e ∈ terms.flatMap wholeParts, 0 ≤ e.exact row := by
  intro e he
  obtain ⟨term, hterm, he⟩ := mem_flatMap.mp he
  have hexact : e.exact row ∈ (wholeParts term).map (Expr.exact row) := mem_map_of_mem he
  obtain ⟨hq, hr⟩ := h term hterm
  rw [exact_wholeParts ⟨hq, hr⟩] at hexact
  have hq' := Int.ediv_nonneg hq (by decide : (0 : Int) ≤ 1000000)
  have hr' := Int.ediv_nonneg hr (by decide : (0 : Int) ≤ 1000000)
  have hm := Int.emod_nonneg (term.2.exact row) (by decide : (1000000 : Int) ≠ 0)
  rcases mem_pair.mp hexact with h | h
  · exact h ▸ Int.mul_nonneg hq hr'
  · exact h ▸ Int.mul_nonneg hq' hm

theorem rest_nonneg : ∀ e ∈ terms.map restPart, 0 ≤ e.exact row := by
  intro e he
  obtain ⟨term, hterm, rfl⟩ := mem_map.mp he
  exact (restPart_bounds (h term hterm)).1

/-- **The expression computes the charge.** -/
theorem exact_ceilMicros : (ceilMicros terms).exact row = roundUp (exactDot row terms) := by
  have hrest := (rest_bounds h).1
  simp only [ceilMicros, Expr.exact, Expr.exact_join, roundUp]
  rw [Int.tdiv_eq_ediv_of_nonneg (by omega), exactDot_split h]
  omega

/-! ## 3. What fits -/

theorem whole_le :
    ((terms.flatMap wholeParts).map (Expr.exact row)).sum ≤ roundUp (exactDot row terms) := by
  have hrest := (rest_bounds h).1
  rw [exactDot_split h]
  unfold roundUp
  omega

end

theorem le_sum_of_mem {es : List (Expr γ)} (h : ∀ e ∈ es, 0 ≤ e.exact row) {e : Expr γ}
    (he : e ∈ es) : e.exact row ≤ (es.map (Expr.exact row)).sum :=
  single_le_sum
    (fun n hn => by
      obtain ⟨x, hx, rfl⟩ := mem_map.mp hn
      exact h x hx)
    _ (mem_map_of_mem he)

theorem fits_wholeParts_iff (h : 0 ≤ term.1.exact row ∧ 0 ≤ term.2.exact row)
    (hle : ∀ e ∈ wholeParts term, e.exact row < 2 ^ 63) :
    (∀ e ∈ wholeParts term, e.Fits row) ↔ term.1.Fits row ∧ term.2.Fits row := by
  obtain ⟨hq, hr⟩ := h
  simp only [wholeParts, mem_cons, not_mem_nil, or_false, forall_eq_or_imp, forall_eq] at hle ⊢
  obtain ⟨hle1, hle2⟩ := hle
  constructor
  · intro hfits
    exact ⟨hfits.1.1.1, hfits.1.1.2.1.1⟩
  · rintro ⟨hfq, hfr⟩
    have hq' := hfq.inI64
    have hr' := hfr.inI64
    have hqd := Int.ediv_nonneg hq (by decide : (0 : Int) ≤ 1000000)
    have hrd := Int.ediv_nonneg hr (by decide : (0 : Int) ≤ 1000000)
    have hrm := Int.emod_nonneg (term.2.exact row) (by decide : (1000000 : Int) ≠ 0)
    have h1 : 0 ≤ term.1.exact row * (term.2.exact row / 1000000) := Int.mul_nonneg hq hrd
    have h2 : 0 ≤ term.1.exact row / 1000000 * (term.2.exact row % 1000000) :=
      Int.mul_nonneg hqd hrm
    simp only [Expr.Fits, Expr.exact, Int.tdiv_eq_ediv_of_nonneg hq, Int.tdiv_eq_ediv_of_nonneg hr,
      Int.tmod_eq_emod_of_nonneg hr] at hle1 hle2 ⊢
    refine ⟨⟨⟨hfq, ⟨hfr, by omega⟩, by omega, by omega⟩, by omega, hle1⟩, ⟨⟨⟨hfq, by omega⟩, by omega,
      by omega⟩, ⟨hfr, by omega⟩, by omega, by omega⟩, by omega, hle2⟩

theorem fits_restPart (h : 0 ≤ term.1.exact row ∧ 0 ≤ term.2.exact row) (hfq : term.1.Fits row)
    (hfr : term.2.Fits row) : (restPart term).Fits row := by
  have hbounds := restPart_bounds h
  simp only [restPart, Expr.Fits, Expr.exact, Int.tmod_eq_emod_of_nonneg h.1,
    Int.tmod_eq_emod_of_nonneg h.2] at hbounds ⊢
  exact ⟨⟨⟨⟨hfq, by omega⟩, by omega, by omega⟩, ⟨hfr, by omega⟩, by omega, by omega⟩, by omega,
    by omega⟩

/-- **The expression fits exactly when its charge does**, once its quantities and rates do and the
remainders add up within 64 bits. -/
theorem fits_ceilMicros (h : TermsNonNeg row terms) : (ceilMicros terms).Fits row ↔
      (∀ term ∈ terms, term.1.Fits row ∧ term.2.Fits row) ∧
        InI64 (roundUp (exactDot row terms)) ∧ InI64 (restDot row terms + 999999) := by
  have hexact := exact_ceilMicros h
  have hwhole := whole_le h
  have hrest := rest_bounds h
  constructor
  · intro hfits
    have hcharge := hfits.inI64
    rw [hexact] at hcharge
    have hsum := hfits.1.2.1.1.inI64
    simp only [Expr.exact, Expr.exact_join, rest_eq h] at hsum
    refine ⟨fun term hterm => ?_, hcharge, hsum⟩
    have hjoin := ((Expr.fits_join (whole_nonneg h)).mp hfits.1.1).1
    have hmem : ∀ e ∈ wholeParts term, e ∈ terms.flatMap wholeParts :=
      fun e he => mem_flatMap.mpr ⟨term, hterm, he⟩
    exact (fits_wholeParts_iff (h term hterm) fun e he =>
      (hjoin e (hmem e he)).inI64.2).mp fun e he => hjoin e (hmem e he)
  · rintro ⟨hterms, hcharge, hsum⟩
    rw [← rest_eq h] at hsum
    have hwholeFits : (Expr.join (terms.flatMap wholeParts)).Fits row := by
      rw [Expr.fits_join (whole_nonneg h)]
      have hsum := Expr.sum_exact_nonneg (whole_nonneg h)
      refine ⟨fun e he => ?_, by omega, by omega⟩
      obtain ⟨term, hterm, he'⟩ := mem_flatMap.mp he
      refine (fits_wholeParts_iff (h term hterm) fun x hx => ?_).mpr (hterms term hterm) e he'
      have hx' := le_sum_of_mem (whole_nonneg h) (mem_flatMap.mpr ⟨term, hterm, hx⟩)
      omega
    have hrestFits : (Expr.join (terms.map restPart)).Fits row := by
      rw [Expr.fits_join (rest_nonneg h)]
      refine ⟨fun e he => ?_, by omega, by omega⟩
      obtain ⟨term, hterm, rfl⟩ := mem_map.mp he
      exact fits_restPart (h term hterm) (hterms term hterm).1 (hterms term hterm).2
    simp only [ceilMicros, Expr.exact, Expr.exact_join] at hexact
    simp only [ceilMicros, Expr.Fits, Expr.exact, Expr.exact_join, hexact]
    have hdiv := Int.tdiv_eq_ediv_of_nonneg (b := 1000000)
      (show 0 ≤ ((terms.map restPart).map (Expr.exact row)).sum + 999999 by omega)
    exact ⟨⟨hwholeFits, ⟨⟨⟨hrestFits, by omega⟩, by omega, by omega⟩, by omega⟩, by omega, by omega,
      by omega⟩, hcharge⟩

end CeilMicros

/-- **The row expression of a charge**: its value is the charge, and it has one exactly when the
charge does. -/
theorem eval_ceilMicros {γ : Type} {row : γ → Option Int64} {terms : List (Expr γ × Expr γ)}
    (h : TermsNonNeg row terms) (hlen : terms.length ≤ 1000) {v : Int64} :
    (ceilMicros terms).eval row = some (some v) ↔
      (∀ term ∈ terms, term.1.Fits row ∧ term.2.Fits row) ∧
        v.toInt = roundUp (exactDot row terms) := by
  have hrest := rest_bounds h
  rw [rest_eq h] at hrest
  rw [Expr.eval_eq_some_iff, fits_ceilMicros h, exact_ceilMicros h, and_assoc]
  refine and_congr_right fun _ => ⟨And.right, fun hv => ⟨⟨hv ▸ inI64_toInt v, ?_⟩, hv⟩⟩
  exact ⟨by omega, by omega⟩

/-- The term's expressions evaluate to the pair's quantity and rate. -/
def Reads {γ : Type} (row : γ → Option Int64) (term : Expr γ × Expr γ) (pair : Int64 × Int64) : Prop :=
  term.1.eval row = some (some pair.1) ∧ term.2.eval row = some (some pair.2)

theorem exactDot_of_reads {γ : Type} {row : γ → Option Int64} {terms : List (Expr γ × Expr γ)}
    {pairs : List (Int64 × Int64)} (h : Forall₂ (Reads row) terms pairs)
    (hpos : ∀ p ∈ pairs, 0 ≤ p.1.toInt ∧ 0 ≤ p.2.toInt) :
    TermsNonNeg row terms ∧ (∀ term ∈ terms, term.1.Fits row ∧ term.2.Fits row) ∧
      exactDot row terms = dot (pairs.map Prod.fst) (pairs.map Prod.snd) := by
  induction h with
  | nil => simp [TermsNonNeg, exactDot, dot]
  | cons hterm _ ih =>
    obtain ⟨⟨hq, hquantity⟩, hr, hrate⟩ :=
      And.intro (Expr.eval_eq_some_iff.mp hterm.1) (Expr.eval_eq_some_iff.mp hterm.2)
    rw [forall_mem_cons] at hpos
    obtain ⟨hnonneg, hfits, hdot⟩ := ih hpos.2
    refine ⟨forall_mem_cons.mpr ⟨?_, hnonneg⟩, forall_mem_cons.mpr ⟨⟨hq, hr⟩, hfits⟩, ?_⟩
    · rw [← hquantity, ← hrate]
      exact hpos.1
    · simp only [exactDot, map_cons, sum_cons, dot, ← hdot, ← hquantity, ← hrate]

/-- A term adds two parts to the sum, so the expression is deeper than it has terms. -/
theorem length_le_height_ceilMicros {γ : Type} (terms : List (Expr γ × Expr γ)) :
    terms.length ≤ (ceilMicros terms).height := by
  have hjoin := Expr.length_le_height_join (terms.map restPart)
  simp only [ceilMicros, Expr.height, length_map] at hjoin ⊢
  omega

/-- **The SQL charge is exact**, with every intermediate value in range, exactly when the expression
is not too deep for SQLite.  For five terms it is what `charge` returns. -/
theorem ceil_micros_exact_iff {γ : Type} (row : γ → Option Int64) (term : Expr γ × Expr γ)
    (rest : List (Expr γ × Expr γ)) (pairs : List (Int64 × Int64))
    (hreads : Forall₂ (Reads row) (term :: rest) pairs)
    (hpos : ∀ p ∈ pairs, 0 ≤ p.1.toInt ∧ 0 ≤ p.2.toInt)
    (hcharge : InI64 (roundUp (dot (pairs.map Prod.fst) (pairs.map Prod.snd)))) :
    let charged := ceilMicros (term :: rest)
    ((charged.Fits row ∧ ∃ v, charged.query row = some (some v) ∧
        v.toInt = roundUp (dot (pairs.map Prod.fst) (pairs.map Prod.snd))) ↔
      charged.height ≤ Expr.maxDepth) ∧
    (charged.height ≤ Expr.maxDepth → pairs.length = 5 → ∃ v, charged.query row = some (some v) ∧
      charge (pairs.map Prod.fst) (pairs.map Prod.snd) = .ok v) := by
  generalize term :: rest = terms at hreads ⊢
  obtain ⟨hnonneg, hfits, hdot⟩ := exactDot_of_reads hreads hpos
  obtain ⟨v, hv⟩ := exists_i64?_iff.mpr hcharge
  rw [i64?_eq_some] at hv
  have hexact : (ceilMicros terms).height ≤ Expr.maxDepth →
      (ceilMicros terms).query row = some (some v) := by
    intro hdepth
    rw [Expr.query, if_pos hdepth,
      eval_ceilMicros hnonneg ((length_le_height_ceilMicros terms).trans hdepth), hdot]
    exact ⟨hfits, hv⟩
  refine ⟨⟨fun ⟨_, w, hw, _⟩ => ?_, fun hdepth => ?_⟩, fun hdepth _ => ?_⟩
  · by_contra hdeep
    rw [Expr.query, if_neg hdeep] at hw
    cases hw
  · have heval := hexact hdepth
    rw [Expr.query, if_pos hdepth] at heval
    exact ⟨(Expr.eval_eq_some_iff.mp heval).1, v, hexact hdepth, hv⟩
  · refine ⟨v, hexact hdepth, (charge_eq_ok ?_ ?_).mpr hv⟩
    · exact forall_mem_map.mpr fun p hp => (hpos p hp).1
    · exact forall_mem_map.mpr fun p hp => (hpos p hp).2

/-- Three tokens of each kind at seven. -/
theorem ceil_micros_exact_iff_evenPrices :
    ∃ v, (ceilMicros (replicate 5 (.lit 3, .lit 7))).query (fun c : Empty => c.elim) =
        some (some v) ∧ charge (replicate 5 3) (replicate 5 7) = .ok v :=
  (ceil_micros_exact_iff _ _ _ (replicate 5 (3, 7)) (by simp [replicate, Reads]; decide)
    (fun p hp => by rw [eq_of_mem_replicate hp]; decide) (by decide)).2 (by decide) rfl

/-- **Of terms over literals, 498 pass and 499 are too many**: the charge is 499 micros, and the query
is refused. -/
theorem deep_terms_refused :
    let terms (n : Nat) : List (Expr Empty × Expr Empty) := replicate n (.lit 1000000, .lit 1)
    (ceilMicros (terms 498)).height ≤ Expr.maxDepth ∧
      roundUp (exactDot (fun c : Empty => c.elim) (terms 499)) = 499 ∧
      (ceilMicros (terms 499)).query (fun c : Empty => c.elim) = none :=
  ⟨by decide +kernel, by decide +kernel, if_neg (by decide +kernel)⟩

example : uncachedRow.height = 10 ∧ laneStandardRow.height = 13 := by decide

/-- Over rates that are `NULL` the expression is `NULL`, and overflows nowhere. -/
theorem eval_ceilMicros_null {γ : Type} {row : γ → Option Int64} {terms : List (Expr γ × Expr γ)}
    (hne : terms ≠ []) (h : ∀ term ∈ terms, term.1.Fits row ∧ 0 ≤ term.1.exact row ∧
      term.2.eval row = some none) : (ceilMicros terms).eval row = some none := by
  have hmillion : ∀ n, n = 1000000 → (Expr.lit n : Expr γ).Fits row := by
    rintro n rfl
    simp only [Expr.Fits]
    decide
  have hwhole : (Expr.join (terms.flatMap wholeParts)).eval row = some none := by
    refine Expr.eval_join_null ?_ fun e he => ?_
    · cases terms with
      | nil => exact absurd rfl hne
      | cons => simp [wholeParts]
    · obtain ⟨term, hterm, he⟩ := mem_flatMap.mp he
      obtain ⟨hfits, hpos, hnull⟩ := h term hterm
      rcases mem_pair.mp he with rfl | rfl
      · exact Expr.eval_mul_null hfits (Expr.eval_div_null hnull (hmillion _ rfl))
      · refine Expr.eval_mul_null ?_ (Expr.eval_mod_null hnull (hmillion _ rfl))
        have hle := hfits.inI64
        simp only [Expr.Fits, Expr.exact, Int.tdiv_eq_ediv_of_nonneg hpos]
        exact ⟨⟨hfits, by omega⟩, by omega, by omega⟩
  simp only [ceilMicros, Expr.eval, hwhole]
  have hrest : (Expr.join (terms.map restPart)).eval row = some none := by
    refine Expr.eval_join_null (by simpa using hne) fun e he => ?_
    obtain ⟨term, hterm, rfl⟩ := mem_map.mp he
    obtain ⟨hfits, hpos, hnull⟩ := h term hterm
    refine Expr.eval_mul_null ?_ (Expr.eval_mod_null hnull (hmillion _ rfl))
    simp only [Expr.Fits, Expr.exact, Int.tmod_eq_emod_of_nonneg hpos]
    exact ⟨⟨hfits, by omega⟩, by omega, by omega⟩
  have h1 : i64? 999999 = some 999999 := by decide
  have h2 : i64? 1000000 = some 1000000 := by decide
  simp [hrest, h1, h2]

/-! ## 4. The sums of one row -/

/-- `UsageSums`. -/
structure UsageSums where
  reports : Int64 := 0
  inputTokens : Int64 := 0
  outputTokens : Int64 := 0
  cacheReadTokens : Int64 := 0
  cacheWrite5mTokens : Int64 := 0
  cacheWrite1hTokens : Int64 := 0
  usdMicros : Int64 := 0
  uncachedUsdMicros : Int64 := 0
  laneReports : Int64 := 0
  laneUsdMicros : Int64 := 0
  lanePricedReports : Int64 := 0
  lanePricedUsdMicros : Int64 := 0
  laneStandardUsdMicros : Int64 := 0

/-- SQLite's `TRIM`, which takes spaces only. -/
def sqlTrim (l : List Char) : List Char := dropEndWhile (· == ' ') (l.dropWhile (· == ' '))

/-- `LANE`.  A `NULL` tier is in no list, and SQLite's `LOWER` is that of ASCII. -/
def lane (row : UsageRow) : Bool :=
  row.batch || row.serviceTier.any fun tier =>
    ["batch".toList, "flex".toList].contains (toAsciiLowercase (sqlTrim tier.toList))

/-- `{lane} AND standard_input_price IS NOT NULL`. -/
def lanePriced : Bool := lane row && row.standardInputPrice.isSome

/-- `CASE WHEN cond THEN value ELSE 0 END`. -/
def caseWhen (cond : Bool) (value : Int64) : Int64 := if cond then value else 0

/-- What the rollup's query selects when the row is the only one in its scope, given the two row
expressions' values. -/
def sumsWith (uncached standard : Int64) : UsageSums :=
  { reports := 1
    inputTokens := row.tokens.input
    outputTokens := row.tokens.output
    cacheReadTokens := row.tokens.cacheRead
    cacheWrite5mTokens := row.tokens.cacheWrite5m
    cacheWrite1hTokens := row.tokens.cacheWrite1h
    usdMicros := row.usdMicros
    uncachedUsdMicros := uncached
    laneReports := caseWhen (lane row) 1
    laneUsdMicros := caseWhen (lane row) row.usdMicros
    lanePricedReports := caseWhen (lanePriced row) 1
    lanePricedUsdMicros := caseWhen (lanePriced row) row.usdMicros
    laneStandardUsdMicros := caseWhen (lanePriced row) standard }

/-- `CASE WHEN {lane} AND standard_input_price IS NOT NULL THEN {standard} ELSE 0 END`: the standard
row is evaluated only for a priced lane report. -/
def standardCase : Option (Option Int64) :=
  if lanePriced row then laneStandardRow.eval row.columns else some (some 0)

/-- The query over the one row; `none` where an expression leaves the 64-bit integers. -/
def rowSums : Option UsageSums := do
  let uncached ← uncachedRow.eval row.columns
  let standard ← standardCase row
  some (sumsWith row (uncached.getD 0) (standard.getD 0))

/-- `UsageRollupQuery`. -/
structure UsageRollupQuery where
  workspaceId : WorkspaceId
  threadId : Option ThreadId := none
  memberId : Option MemberId := none

/-- `UsageRollupQuery::scope_name`. -/
def UsageRollupQuery.scopeName (q : UsageRollupQuery) : Except String String :=
  match q.threadId, q.memberId with
  | some _, some _ => .error "name thread_id or member_id, not both"
  | some _, none => .ok "thread"
  | none, some _ => .ok "member"
  | none, none => .ok "workspace"

/-- `UsageRollup`. -/
structure UsageRollup where
  scope : String
  workspaceId : WorkspaceId
  threadId : Option ThreadId
  memberId : Option MemberId
  sums : UsageSums
  savedUsdMicros : Int64
  laneSavedUsdMicros : Int64
  laneUnpricedReports : Int64
  hitRatePpm : Option Int64
  writeSharePpm : Option Int64
  completedTasks : Int64
  completedUsdMicros : Int64
  costPerCompletedTaskUsdMicros : Option Int64

/-- `ppm`. -/
def ppm (part whole : Int64) : Except String (Option Int64) :=
  if whole = 0 then .ok none
  else do
    let scaled ← okOr "rate overflow" (i128? (part.toInt * 1000000))
    let value ← okOr "rate overflow" (i64? (scaled.tdiv whole.toInt))
    .ok (some value)

/-- `UsageRollup::from_sums`. -/
def UsageRollup.fromSums (query : UsageRollupQuery) (sums : UsageSums)
    (completedTasks completedUsdMicros : Int64) : Except String UsageRollup := do
  let scope ← query.scopeName
  if completedTasks < 0 ∨ completedUsdMicros < 0 then
    .error "completed task totals must be non-negative"
  else
    let prompt ← okOr "token total overflow"
      (checkedSum [sums.inputTokens, sums.cacheReadTokens, sums.cacheWrite5mTokens,
        sums.cacheWrite1hTokens])
    let saved ← okOr "saved usd overflow"
      (i64? (sums.uncachedUsdMicros.toInt - sums.usdMicros.toInt))
    let laneSaved ← okOr "lane saved usd overflow"
      (i64? (sums.laneStandardUsdMicros.toInt - sums.lanePricedUsdMicros.toInt))
    let laneUnpriced ← okOr "lane report counts are inconsistent"
      ((i64? (sums.laneReports.toInt - sums.lanePricedReports.toInt)).filter fun n =>
        decide (0 ≤ n))
    let hitRate ← ppm sums.cacheReadTokens prompt
    let written ← okOr "token total overflow"
      (i64? (sums.cacheWrite5mTokens.toInt + sums.cacheWrite1hTokens.toInt))
    let writeShare ← ppm written prompt
    .ok
      { scope
        workspaceId := query.workspaceId
        threadId := query.threadId
        memberId := query.memberId
        sums
        savedUsdMicros := saved
        laneSavedUsdMicros := laneSaved
        laneUnpricedReports := laneUnpriced
        hitRatePpm := hitRate
        writeSharePpm := writeShare
        completedTasks
        completedUsdMicros
        costPerCompletedTaskUsdMicros :=
          if completedTasks = 0 then none else some (completedUsdMicros / completedTasks) }

/-! ## 5. What rolls up -/

/-- **Accepted**: validated, and with a fresh-token total to add to the budget. -/
def NewUsageLedgerEntry.Accepted (new : NewUsageLedgerEntry) : Prop :=
  new.validate = .ok () ∧ ∃ fresh, new.tokens.fresh = .ok fresh

/-- **The report does not break the rollup**, stored as `row`.  No step of a row expression leaves
the 64-bit integers, the values are the charges the types compute, and the rollup over the row is
returned to every query with a scope. -/
structure RollsUp (new : NewUsageLedgerEntry) (row : UsageRow) : Prop where
  uncached : ∃ c, new.priceSnapshot.uncachedChargeUsdMicros new.tokens = .ok c ∧
    uncachedRow.eval row.columns = some (some c)
  standard : ∀ standard, new.evidence.standardPrice = some standard →
    ∃ c, standard.chargeUsdMicros new.tokens = .ok c ∧
      laneStandardRow.eval row.columns = some (some c)
  unpriced : new.evidence.standardPrice = none → laneStandardRow.eval row.columns = some none
  rollup : ∃ sums, rowSums row = some sums ∧
    ∀ (query : UsageRollupQuery) (scope : String) (tasks usd : Int64),
      query.scopeName = .ok scope → 0 ≤ tasks → 0 ≤ usd →
        ∃ rollup, UsageRollup.fromSums query sums tasks usd = .ok rollup

/-- What nothing checks: the input side adds up, and its price at the input rate is one. -/
def NewUsageLedgerEntry.UncachedFits (new : NewUsageLedgerEntry) : Prop :=
  (ints new.tokens.promptCounts).sum ≤ i64Max ∧
    (ints new.tokens.promptCounts).sum * new.priceSnapshot.inputUsdMicrosPerMillion.toInt +
      new.tokens.output.toInt * new.priceSnapshot.outputUsdMicrosPerMillion.toInt ≤ 1000000 * i64Max

instance (new : NewUsageLedgerEntry) : Decidable new.UncachedFits :=
  inferInstanceAs (Decidable (_ ∧ _))

theorem roundUp_inI64_iff (h : 0 ≤ n) : InI64 (roundUp n) ↔ n ≤ 1000000 * i64Max := by
  unfold roundUp InI64 i64Max
  omega

theorem NewUsageLedgerEntry.Valid.uncached_nonneg {new : NewUsageLedgerEntry} (h : new.Valid) :
    0 ≤ (ints new.tokens.promptCounts).sum ∧
      0 ≤ (ints new.tokens.promptCounts).sum * new.priceSnapshot.inputUsdMicrosPerMillion.toInt +
        new.tokens.output.toInt * new.priceSnapshot.outputUsdMicrosPerMillion.toInt := by
  have hsum := sum_ints_nonneg h.tokens_nonNeg.promptCounts
  have hin := h.rates_nonNeg new.priceSnapshot.inputUsdMicrosPerMillion
    (by simp [PriceSnapshot.rates])
  have hout := h.rates_nonNeg new.priceSnapshot.outputUsdMicrosPerMillion
    (by simp [PriceSnapshot.rates])
  have hoToken := h.tokens_nonNeg new.tokens.output (by simp [TokenUsage.quantities])
  exact ⟨hsum, Int.add_nonneg (Int.mul_nonneg hsum hin) (Int.mul_nonneg hoToken hout)⟩

theorem exists_uncachedCharge_iff {new : NewUsageLedgerEntry} (h : new.Valid) :
    (∃ c, new.priceSnapshot.uncachedChargeUsdMicros new.tokens = .ok c) ↔ new.UncachedFits := by
  obtain ⟨hsum, hnum⟩ := h.uncached_nonneg
  have hfits : InI64 (ints new.tokens.promptCounts).sum ↔
      (ints new.tokens.promptCounts).sum ≤ i64Max := by
    unfold InI64 i64Max
    omega
  simp only [PriceSnapshot.uncachedChargeUsdMicros_eq_ok, h.rates_nonNeg, h.tokens_nonNeg, true_and,
    exists_and_left, NewUsageLedgerEntry.UncachedFits, hfits]
  rw [← roundUp_inI64_iff hnum, ← exists_i64?_iff]
  simp only [i64?_eq_some]

section Stored

variable {new : NewUsageLedgerEntry} {workspaceId : WorkspaceId} {acceptedAt : Int} {row : UsageRow}
  (h : new.Valid) (hrow : row = new.reserved workspaceId acceptedAt)
include h hrow

theorem columns_nonneg (c : UsageColumn) : 0 ≤ ((row.columns c).getD 0).toInt := by
  have hq := h.tokens_nonNeg
  have hr := h.rates_nonNeg
  simp only [TokenUsage.NonNeg, TokenUsage.quantities, PriceSnapshot.NonNeg, PriceSnapshot.rates,
    mem_cons, not_mem_nil, or_false, forall_eq_or_imp, forall_eq] at hq hr
  cases hstandard : new.evidence.standardPrice with
  | none => cases c <;> simp [hrow, UsageRow.columns, NewUsageLedgerEntry.reserved, hstandard, hq, hr]
  | some standard =>
    obtain ⟨_, hcharge, _⟩ := h.standard standard hstandard
    have hs := (PriceSnapshot.chargeUsdMicros_eq_ok.mp hcharge).1
    simp only [PriceSnapshot.NonNeg, PriceSnapshot.rates, mem_cons, not_mem_nil, or_false,
      forall_eq_or_imp, forall_eq] at hs
    cases c <;> simp [hrow, UsageRow.columns, NewUsageLedgerEntry.reserved, hstandard, hq, hr, hs]

/-- **The uncached row** has a value exactly when the report has an uncached charge, and it is it. -/
theorem eval_uncachedRow_iff {c : Int64} :
    uncachedRow.eval row.columns = some (some c) ↔
      new.priceSnapshot.uncachedChargeUsdMicros new.tokens = .ok c := by
  have hcol := columns_nonneg h hrow
  have hprompt : ∀ e ∈ [Expr.col UsageColumn.inputTokens, .col .cacheReadTokens,
      .col .cacheWrite5mTokens, .col .cacheWrite1hTokens], 0 ≤ e.exact row.columns := by
    simp only [mem_cons, not_mem_nil, or_false, forall_eq_or_imp, forall_eq, Expr.exact]
    exact ⟨hcol _, hcol _, hcol _, hcol _⟩
  unfold uncachedRow
  rw [eval_ceilMicros ?_ (by simp), PriceSnapshot.uncachedChargeUsdMicros_eq_ok]
  · simp only [mem_cons, not_mem_nil, or_false, forall_eq_or_imp, forall_eq,
      Expr.fits_join hprompt, exactDot, map_cons, map_nil, sum_cons, sum_nil, Expr.exact_join,
      h.rates_nonNeg, h.tokens_nonNeg, true_and, Int.add_zero]
    simp [hrow, Expr.Fits, Expr.exact, UsageRow.columns, NewUsageLedgerEntry.reserved,
      TokenUsage.promptCounts]
  · simp only [TermsNonNeg, mem_cons, not_mem_nil, or_false, forall_eq_or_imp, forall_eq,
      Expr.exact_join]
    exact ⟨⟨Expr.sum_exact_nonneg hprompt, hcol _⟩, hcol _, hcol _⟩

/-- **The standard row** of a priced report always has a value: validation computed it. -/
theorem eval_laneStandardRow_iff {standard : PriceSnapshot}
    (hstandard : new.evidence.standardPrice = some standard) {c : Int64} :
    laneStandardRow.eval row.columns = some (some c) ↔
      standard.chargeUsdMicros new.tokens = .ok c := by
  have hcol := columns_nonneg h hrow
  obtain ⟨_, hcharge, _⟩ := h.standard standard hstandard
  have hrates := (PriceSnapshot.chargeUsdMicros_eq_ok.mp hcharge).1
  unfold laneStandardRow
  rw [eval_ceilMicros ?_ (by simp), PriceSnapshot.chargeUsdMicros_eq_ok]
  · simp only [hrates, h.tokens_nonNeg, true_and]
    simp [hrow, Expr.Fits, Expr.exact, UsageRow.columns, NewUsageLedgerEntry.reserved, hstandard,
      exactDot, dot, TokenUsage.quantities, PriceSnapshot.rates]
  · simp only [TermsNonNeg, mem_cons, not_mem_nil, or_false, forall_eq_or_imp, forall_eq]
    exact ⟨⟨hcol _, hcol _⟩, ⟨hcol _, hcol _⟩, ⟨hcol _, hcol _⟩, ⟨hcol _, hcol _⟩, hcol _, hcol _⟩

/-- Without a standard price the standard row is `NULL`. -/
theorem eval_laneStandardRow_unpriced (hstandard : new.evidence.standardPrice = none) :
    laneStandardRow.eval row.columns = some none := by
  have hcol := columns_nonneg h hrow
  refine eval_ceilMicros_null (by simp) ?_
  simp only [mem_cons, not_mem_nil, or_false, forall_eq_or_imp, forall_eq]
  have hterm : ∀ a b : UsageColumn, (row.columns a).isSome → row.columns b = none →
      (Expr.col a).Fits row.columns ∧ 0 ≤ (Expr.col a).exact row.columns ∧
        (Expr.col b).eval row.columns = some none := by
    intro a b ha hb
    exact ⟨ha, hcol a, by simp [Expr.eval, hb]⟩
  refine ⟨hterm _ _ rfl ?_, hterm _ _ rfl ?_, hterm _ _ rfl ?_, hterm _ _ rfl ?_, hterm _ _ rfl ?_⟩
  all_goals simp [hrow, UsageRow.columns, NewUsageLedgerEntry.reserved, hstandard]

end Stored

/-! ## 6. The rollup of what rolls up -/

theorem ppm_isOk (hpart : 0 ≤ part.toInt) (hle : part.toInt ≤ whole.toInt) :
    ∃ r, ppm part whole = .ok r := by
  unfold ppm
  split
  · exact ⟨none, rfl⟩
  · rename_i hwhole
    have hpos : 0 < whole.toInt := by
      have : whole.toInt ≠ 0 := fun h => hwhole (Int64.toInt_inj.mp h)
      omega
    have hpart' := inI64_toInt part
    have hrate : InI64 ((part.toInt * 1000000).tdiv whole.toInt) := by
      rw [Int.tdiv_eq_ediv_of_nonneg (by omega)]
      have hlow : 0 ≤ part.toInt * 1000000 / whole.toInt := Int.ediv_nonneg (by omega) hpos.le
      have hhigh : part.toInt * 1000000 / whole.toInt < 1000001 :=
        Int.ediv_lt_of_lt_mul hpos (by omega)
      omega
    obtain ⟨v, hv⟩ := exists_i64?_iff.mpr hrate
    refine ⟨some v, ?_⟩
    rw [i128?_eq_some.mpr ⟨rfl, by omega, by omega⟩]
    simp only [okOr, bind_eq_ok]
    exact ⟨_, rfl, v, by rw [hv], rfl⟩

/-- What `from_sums` asks of the sums. -/
structure SumsFit (sums : UsageSums) : Prop where
  read : 0 ≤ sums.cacheReadTokens.toInt
  write5m : 0 ≤ sums.cacheWrite5mTokens.toInt
  write1h : 0 ≤ sums.cacheWrite1hTokens.toInt
  input : 0 ≤ sums.inputTokens.toInt
  prompt : InI64 (sums.inputTokens.toInt + sums.cacheReadTokens.toInt +
    sums.cacheWrite5mTokens.toInt + sums.cacheWrite1hTokens.toInt)
  usd : 0 ≤ sums.usdMicros.toInt
  uncached : 0 ≤ sums.uncachedUsdMicros.toInt
  lanePriced : 0 ≤ sums.lanePricedUsdMicros.toInt
  laneStandard : 0 ≤ sums.laneStandardUsdMicros.toInt
  laneReports : 0 ≤ sums.lanePricedReports.toInt ∧
    sums.lanePricedReports.toInt ≤ sums.laneReports.toInt

theorem exists_sub {a b : Int64} (ha : 0 ≤ a.toInt) (hb : 0 ≤ b.toInt) :
    ∃ d, i64? (a.toInt - b.toInt) = some d := by
  have ha' := inI64_toInt a
  have hb' := inI64_toInt b
  exact exists_i64?_iff.mpr (by omega)

theorem exists_unpriced {priced reports : Int64} (h : 0 ≤ priced.toInt)
    (hle : priced.toInt ≤ reports.toInt) :
    ∃ n, (i64? (reports.toInt - priced.toInt)).filter (fun n => decide (0 ≤ n)) = some n := by
  have hreports := inI64_toInt reports
  obtain ⟨n, hn⟩ := exists_i64?_iff.mpr (show InI64 (reports.toInt - priced.toInt) by omega)
  have hcounted : 0 ≤ n := by
    rw [Int64.le_iff_toInt_le, i64?_eq_some.mp hn, Int64.toInt_zero]
    omega
  exact ⟨n, by simp [hn, hcounted]⟩

theorem fromSums_isOk {sums : UsageSums} (h : SumsFit sums) {query : UsageRollupQuery}
    {scope : String} {tasks usd : Int64} (hscope : query.scopeName = .ok scope) (htasks : 0 ≤ tasks)
    (husd : 0 ≤ usd) : ∃ rollup, UsageRollup.fromSums query sums tasks usd = .ok rollup := by
  obtain ⟨hread, h5m, h1h, hinput, hprompt, husd', huncached, hpriced, hstandard, hreports⟩ := h
  have hcounts : ∀ x ∈ [sums.inputTokens, sums.cacheReadTokens, sums.cacheWrite5mTokens,
      sums.cacheWrite1hTokens], 0 ≤ x.toInt := by
    simp only [mem_cons, not_mem_nil, or_false, forall_eq_or_imp, forall_eq]
    exact ⟨hinput, hread, h5m, h1h⟩
  obtain ⟨prompt, hprompt⟩ := exists_i64?_iff.mpr hprompt
  rw [i64?_eq_some] at hprompt
  have hsum := (checkedSum_eq_some hcounts (s := prompt)).mpr (by simp; omega)
  obtain ⟨saved, hsaved⟩ := exists_sub huncached husd'
  obtain ⟨laneSaved, hlaneSaved⟩ := exists_sub hstandard hpriced
  obtain ⟨unpriced, hfilter⟩ := exists_unpriced hreports.1 hreports.2
  obtain ⟨written, hwritten⟩ := exists_i64?_iff.mpr
    (show InI64 (sums.cacheWrite5mTokens.toInt + sums.cacheWrite1hTokens.toInt) by omega)
  have hwritten' := i64?_eq_some.mp hwritten
  obtain ⟨hit, hhit⟩ := ppm_isOk hread (show _ ≤ prompt.toInt by omega)
  obtain ⟨share, hshare⟩ := ppm_isOk (show 0 ≤ written.toInt by omega)
    (show _ ≤ prompt.toInt by omega)
  have hneg : ¬(tasks < 0 ∨ usd < 0) := by
    rintro (h | h)
    · exact Int64.not_lt.mpr htasks h
    · exact Int64.not_lt.mpr husd h
  refine exists_of_isOk ?_
  simp only [UsageRollup.fromSums, hscope, if_neg hneg, hsum, hsaved, hlaneSaved, hfilter, hhit,
    hwritten, hshare, okOr, bind, Except.bind]
  rfl

theorem caseWhen_nonneg {cond : Bool} {value : Int64} (h : 0 ≤ value.toInt) :
    0 ≤ (caseWhen cond value).toInt := by
  unfold caseWhen
  split
  · exact h
  · decide

theorem lanePriced_le_lane : 0 ≤ (caseWhen (lanePriced row) 1).toInt ∧
      (caseWhen (lanePriced row) 1).toInt ≤ (caseWhen (lane row) 1).toInt := by
  unfold lanePriced caseWhen
  cases lane row <;> cases row.standardInputPrice.isSome <;> decide

theorem NewUsageLedgerEntry.Valid.usd_nonneg {new : NewUsageLedgerEntry} (h : new.Valid) :
    0 ≤ new.usdMicros.toInt := by
  obtain ⟨hp, ht, hc⟩ := PriceSnapshot.chargeUsdMicros_eq_ok.mp h.charge
  have hdot := dot_nonneg ht hp
  unfold roundUp at hc
  omega

section Stored

variable {new : NewUsageLedgerEntry} {workspaceId : WorkspaceId} {acceptedAt : Int} {row : UsageRow}
  (h : new.Valid) (hrow : row = new.reserved workspaceId acceptedAt)
include h hrow

theorem sumsFit_sumsWith (hfits : new.UncachedFits) {uncached standard : Int64}
    (hu : 0 ≤ uncached.toInt) (hs : 0 ≤ standard.toInt) : SumsFit (sumsWith row uncached standard) := by
  subst hrow
  have hq := h.tokens_nonNeg
  have hprompt := hfits.1
  simp only [TokenUsage.NonNeg, TokenUsage.quantities, mem_cons, not_mem_nil, or_false,
    forall_eq_or_imp, forall_eq] at hq
  simp only [TokenUsage.promptCounts, ints_cons, ints_nil, sum_cons, sum_nil, i64Max] at hprompt
  obtain ⟨hin, _, hread, h5m, h1h⟩ := hq
  exact
    { read := hread
      write5m := h5m
      write1h := h1h
      input := hin
      prompt := by simp only [sumsWith, NewUsageLedgerEntry.reserved]; omega
      usd := h.usd_nonneg
      uncached := hu
      lanePriced := caseWhen_nonneg h.usd_nonneg
      laneStandard := caseWhen_nonneg hs
      laneReports := lanePriced_le_lane _ }

/-- The value of the `CASE` over the standard row. -/
theorem exists_standard : ∃ v : Option Int64, standardCase row = some v ∧ 0 ≤ (v.getD 0).toInt := by
  unfold standardCase
  split
  · cases hstandard : new.evidence.standardPrice with
    | none => exact ⟨none, eval_laneStandardRow_unpriced h hrow hstandard, by decide⟩
    | some standard =>
      obtain ⟨c, hc, hle⟩ := h.standard standard hstandard
      refine ⟨some c, (eval_laneStandardRow_iff h hrow hstandard).mpr hc, ?_⟩
      have husd := h.usd_nonneg
      rw [Int64.le_iff_toInt_le] at hle
      exact husd.trans hle
  · exact ⟨some 0, rfl, by decide⟩

end Stored

/-- **A report rolls up exactly when its uncached price does.**  The standard row keeps what the
validation promises; the uncached row has a promise of its own to keep, and nobody checked it. -/
theorem usageReport_rollsUp_iff (new : NewUsageLedgerEntry) (haccepted : new.Accepted)
    (workspaceId : WorkspaceId) (acceptedAt : Int) :
    RollsUp new (new.reserved workspaceId acceptedAt) ↔ new.UncachedFits := by
  generalize hrow : new.reserved workspaceId acceptedAt = row
  have hrow := hrow.symm
  have h := NewUsageLedgerEntry.valid_of_validate haccepted.1
  constructor
  · intro hup
    obtain ⟨c, hc, _⟩ := hup.uncached
    exact (exists_uncachedCharge_iff h).mp ⟨c, hc⟩
  · intro hfits
    obtain ⟨c, hc⟩ := (exists_uncachedCharge_iff h).mpr hfits
    have heval := (eval_uncachedRow_iff h hrow).mpr hc
    obtain ⟨v, hv, hpos⟩ := exists_standard h hrow
    have hcpos : 0 ≤ c.toInt := by
      have hnum := h.uncached_nonneg.2
      obtain ⟨_, _, _, hc'⟩ := PriceSnapshot.uncachedChargeUsdMicros_eq_ok.mp hc
      unfold roundUp at hc'
      omega
    refine ⟨⟨c, hc, heval⟩, fun standard hstandard => ?_,
      fun hnone => eval_laneStandardRow_unpriced h hrow hnone, sumsWith row c (v.getD 0), ?_, ?_⟩
    · obtain ⟨c', hc', _⟩ := h.standard standard hstandard
      exact ⟨c', hc', (eval_laneStandardRow_iff h hrow hstandard).mpr hc'⟩
    · simp only [rowSums, heval, hv, Option.bind_eq_bind, Option.bind_some, Option.getD_some]
    · intro query scope tasks usd hscope htasks husd
      exact fromSums_isOk (sumsFit_sumsWith h hrow hfits hcpos hpos) hscope htasks husd

/-- A batch call, priced at half the standard rates. -/
def batchReport : NewUsageLedgerEntry :=
  { usageReportId := ⟨1⟩, threadId := ⟨1⟩, reporter := ⟨1⟩, claimLeaseId := ⟨1⟩, model := "opus"
    tokens := { input := 1000, output := 200, cacheRead := 90000, cacheWrite5m := 300 }
    usdMicros := 104
    priceSnapshot :=
      { inputUsdMicrosPerMillion := 15000, outputUsdMicrosPerMillion := 75000
        cacheReadUsdMicrosPerMillion := 750, cacheWrite5mUsdMicrosPerMillion := 18750 }
    turns := 1
    evidence :=
      { batch := true
        standardPrice := some
          { inputUsdMicrosPerMillion := 30000, outputUsdMicrosPerMillion := 150000
            cacheReadUsdMicrosPerMillion := 1500, cacheWrite5mUsdMicrosPerMillion := 37500 } } }

theorem batchReport_accepted : batchReport.Accepted := by
  refine ⟨?_, exists_of_isOk ?_⟩ <;> decide +kernel

theorem usageReport_rollsUp_iff_batchReport :
    batchReport.Accepted ∧ RollsUp batchReport (batchReport.reserved ⟨1⟩ 0) :=
  ⟨batchReport_accepted,
    (usageReport_rollsUp_iff batchReport batchReport_accepted ⟨1⟩ 0).mpr (by decide +kernel)⟩

/-- One fresh token and a warm cache read of `i64::MAX`, all free of charge. -/
def warmReport : NewUsageLedgerEntry :=
  { usageReportId := ⟨1⟩, threadId := ⟨1⟩, reporter := ⟨1⟩, claimLeaseId := ⟨1⟩, model := "opus"
    tokens := { input := 1, cacheRead := 9223372036854775807 }
    usdMicros := 0
    priceSnapshot := {} }

/-- **The warm report is accepted and breaks the rollup.**  Its input side does not add up: the
uncached row leaves the 64-bit integers, and whatever that expression then comes back as, the whole
rollup answers an error. -/
theorem warmReport_breaks_rollup :
    warmReport.Accepted ∧ uncachedRow.eval (warmReport.reserved ⟨1⟩ 0).columns = none ∧
      ¬RollsUp warmReport (warmReport.reserved ⟨1⟩ 0) ∧
      ∀ uncached standard : Int64, UsageRollup.fromSums ⟨⟨1⟩, none, none⟩
          (sumsWith (warmReport.reserved ⟨1⟩ 0) uncached standard) 0 0 =
            .error "token total overflow" := by
  have hnone : uncachedRow.eval (warmReport.reserved ⟨1⟩ 0).columns = none := by decide +kernel
  have hsum : checkedSum [warmReport.tokens.input, warmReport.tokens.cacheRead,
      warmReport.tokens.cacheWrite5m, warmReport.tokens.cacheWrite1h] = none := by decide +kernel
  refine ⟨⟨by decide +kernel, exists_of_isOk (by decide +kernel)⟩, hnone, ?_, fun _ _ => ?_⟩
  · rintro ⟨⟨c, _, hc⟩, _, _, _⟩
    rw [hnone] at hc
    cases hc
  · have hneg : ¬((0 : Int64) < 0 ∨ (0 : Int64) < 0) := by decide
    simp only [UsageRollup.fromSums, UsageRollupQuery.scopeName, sumsWith,
      NewUsageLedgerEntry.reserved, if_neg hneg, hsum, okOr, bind, Except.bind]

/-! ## 7. One rule for the lanes -/

/-- **The counts over any rows agree**: a priced lane report is a lane report. -/
theorem fromSums_consistent {sums : UsageSums} {rows : List UsageRow}
    (hlane : sums.laneReports.toInt = rows.countP lane)
    (hpriced : sums.lanePricedReports.toInt = rows.countP lanePriced) :
    UsageRollup.fromSums query sums tasks usd ≠ .error "lane report counts are inconsistent" := by
  have hle : rows.countP lanePriced ≤ rows.countP lane := by
    refine countP_mono_left fun row _ h => ?_
    simp only [lanePriced, Bool.and_eq_true] at h
    exact h.1
  obtain ⟨n, hn⟩ := @exists_unpriced sums.lanePricedReports sums.laneReports (by omega) (by omega)
  have hppm : ∀ part whole, ppm part whole ≠ .error "lane report counts are inconsistent" := by
    intro part whole h
    unfold ppm at h
    split at h
    · cases h
    obtain ⟨_, -, h⟩ := bind_error h (okOr_ne_error (by decide))
    obtain ⟨_, -, h⟩ := bind_error h (okOr_ne_error (by decide))
    cases h
  intro h
  obtain ⟨_, -, h⟩ := bind_error h (by unfold UsageRollupQuery.scopeName; split <;> simp)
  split at h
  · simp at h
  -- of the checks after the totals only the one on the counts could say it
  obtain ⟨_, -, h⟩ := bind_error h (okOr_ne_error (by decide))
  obtain ⟨_, -, h⟩ := bind_error h (okOr_ne_error (by decide))
  obtain ⟨_, -, h⟩ := bind_error h (okOr_ne_error (by decide))
  obtain ⟨_, -, h⟩ := bind_error h (by simp [hn, okOr])
  obtain ⟨_, -, h⟩ := bind_error h (hppm _ _)
  obtain ⟨_, -, h⟩ := bind_error h (okOr_ne_error (by decide))
  obtain ⟨_, -, h⟩ := bind_error h (hppm _ _)
  cases h

/-- The names of the cheaper lanes, as both sides compare them. -/
def isLaneName (l : List Char) : Bool :=
  ["batch".toList, "flex".toList].contains (toAsciiLowercase l)

/-- **A tier the two sides read differently**: a lane's name with white space around it that is not
all spaces. -/
def Misread (tier : List Char) : Prop := isLaneName (trim tier) = true ∧ sqlTrim tier ≠ trim tier

theorem isAlpha_of_isLaneName (h : isLaneName l = true) : ∀ c ∈ l, c.isAlpha = true := by
  intro c hc
  have hnames : ["batch".toList, "flex".toList].all (·.all Char.isAlpha) = true := by decide
  have hlow : c.toLower ∈ toAsciiLowercase l := mem_map_of_mem hc
  simpa using all_eq_true.mp (all_eq_true.mp hnames _ (contains_iff_mem.mp h)) _ hlow

/-- A name that SQL finds between spaces, Rust finds too. -/
theorem trim_eq_sqlTrim (h : isLaneName (sqlTrim tier) = true) : trim tier = sqlTrim tier := by
  obtain ⟨u, w, htier, hu, hw⟩ := exists_cut (· == ' ') tier
  have hspace : ∀ c : Char, (c == ' ') = true → isWhitespace c = true := by
    intro c hc
    rw [beq_iff_eq.mp hc]
    decide
  conv_lhs => rw [htier]
  exact cut_append (fun c hc => hspace c (hu c hc))
    (fun c hc => not_isWhitespace_of_isAlpha (isAlpha_of_isLaneName h c hc))
    fun c hc => hspace c (hw c hc)

theorem isLaneName_agree_iff (tier : List Char) :
    isLaneName (trim tier) = isLaneName (sqlTrim tier) ↔ ¬Misread tier := by
  constructor
  · rintro hsame ⟨hname, hne⟩
    exact hne (trim_eq_sqlTrim (hsame ▸ hname)).symm
  · intro hmis
    rw [Bool.eq_iff_iff]
    constructor
    · intro h
      have hsame : sqlTrim tier = trim tier := by_contra fun hne => hmis ⟨h, hne⟩
      rw [hsame]
      exact h
    · intro h
      rw [trim_eq_sqlTrim h]
      exact h

/-- **The cheaper-lane rule is one rule exactly for the tiers both sides read alike.**  Then a report
with a standard price is counted as a lane report; whatever the tiers are, the counts over stored
rows are consistent. -/
theorem lane_rule_iff (new : NewUsageLedgerEntry) (h : new.evidence.validate = .ok ())
    (workspaceId : WorkspaceId) (acceptedAt : Int) :
    ((new.evidence.inLane = lane (new.reserved workspaceId acceptedAt) ∧
        (new.evidence.standardPrice.isSome = true →
          lane (new.reserved workspaceId acceptedAt) = true)) ↔
      (new.evidence.batch = true ∨ ∀ tier ∈ new.evidence.serviceTier, ¬Misread tier.toList)) ∧
    ∀ (rows : List UsageRow) (query : UsageRollupQuery) (sums : UsageSums) (tasks usd : Int64),
      sums.laneReports.toInt = rows.countP lane →
      sums.lanePricedReports.toInt = rows.countP lanePriced →
        UsageRollup.fromSums query sums tasks usd ≠
          .error "lane report counts are inconsistent" := by
  have hpriced : new.evidence.standardPrice.isSome = true → new.evidence.inLane = true := by
    intro hsome
    obtain ⟨standard, hstandard⟩ := Option.isSome_iff_exists.mp hsome
    simp only [UsageEvidence.validate, bind_eq_ok, hstandard] at h
    obtain ⟨_, _, _, _, _, _, _, _, _, _, _, _, _, _, h⟩ := h
    by_contra hlane
    rw [Bool.not_eq_true] at hlane
    split at h
    · cases h
    split at h
    · cases h
    simp [hlane] at h
  have hrule : new.evidence.inLane = lane (new.reserved workspaceId acceptedAt) ↔
      (new.evidence.batch = true ∨ ∀ tier ∈ new.evidence.serviceTier, ¬Misread tier.toList) := by
    unfold UsageEvidence.inLane lane NewUsageLedgerEntry.reserved
    cases new.evidence.batch with
    | true => simp
    | false =>
      cases new.evidence.serviceTier with
      | none => simp
      | some tier => exact (isLaneName_agree_iff tier.toList).trans (by simp)
  refine ⟨?_, fun rows query sums tasks usd => fromSums_consistent⟩
  rw [← hrule]
  exact and_iff_left_of_imp fun hsame hsome => hsame ▸ hpriced hsome

/-- The batch report, with the lane named by a tier alone. -/
def tierReport (tier : String) : NewUsageLedgerEntry :=
  { batchReport with
    evidence := { batchReport.evidence with batch := false, serviceTier := some tier } }

theorem lane_rule_iff_spaces :
    (tierReport " Batch ").evidence.inLane = lane ((tierReport " Batch ").reserved ⟨1⟩ 0) :=
  ((lane_rule_iff (tierReport " Batch ") (by decide +kernel) ⟨1⟩ 0).1.mpr (.inr (by
    simp only [tierReport, Option.mem_def, Option.some.injEq, forall_eq']
    unfold Misread
    decide +kernel))).1

/-- **A tab before the lane's name**: the report is validated as one in the lane, and is not counted
as one. -/
theorem tabbed_tier_not_counted :
    (tierReport "\tbatch").Accepted ∧ (tierReport "\tbatch").evidence.inLane = true ∧
      lane ((tierReport "\tbatch").reserved ⟨1⟩ 0) = false :=
  ⟨⟨by decide +kernel, exists_of_isOk (by decide +kernel)⟩, by decide +kernel, by decide +kernel⟩

end Maidan
