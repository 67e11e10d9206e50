import CodexRs.Library.Run
import CodexRs.Library.Text

/-!
# Retries of a stage-1 memory job

The rows of one thread. What a claim counts in the rows of other threads is a parameter.
-/
namespace CodexRs.State
open Text Machine

inductive JobStatus
  | running
  | error
deriving DecidableEq

structure JobRow where
  status : JobStatus
  ownershipToken : Str
  startedAt : ℤ
  finishedAt : Option ℤ
  leaseUntil : Option ℤ
  retryAt : Option ℤ
  retryRemaining : ℤ
  lastError : Option Str
  inputWatermark : Option ℤ
  lastSuccessWatermark : Option ℤ

structure Stage1Job where
  outputUpdatedAt : Option ℤ
  row : Option JobRow

/-- The arguments, with the clock, the new token and how many jobs of other threads are leased. -/
structure Stage1Claim where
  now : ℤ
  ownershipToken : Str
  sourceUpdatedAt : ℤ
  leaseSeconds : ℤ
  maxRunningJobs : ℤ
  runningElsewhere : ℤ

structure Stage1Failure where
  now : ℤ
  ownershipToken : Str
  failureReason : Str
  retryDelaySeconds : ℤ

inductive Stage1JobClaimOutcome
  | claimed (ownershipToken : Str)
  | skippedUpToDate
  | skippedRunning
  | skippedRetryBackoff
  | skippedRetryExhausted

def defaultRetryRemaining : ℤ := 3

def saturatingAdd (a b : ℤ) : ℤ := min (a + b) 9223372036854775807

namespace JobRow
variable (row : JobRow) (claim : Stage1Claim)

def isLeased (now : ℤ) : Bool := row.status = .running && row.leaseUntil.any (now < ·)

def isOutdated : Bool := row.inputWatermark.getD (-1) < claim.sourceUpdatedAt

def isClaimable : Bool :=
  (row.status ≠ .running || row.leaseUntil.all (· ≤ claim.now)) &&
    (row.retryAt.all (· ≤ claim.now) || row.isOutdated claim) &&
    (0 < row.retryRemaining || row.isOutdated claim) &&
    claim.runningElsewhere < claim.maxRunningJobs

def reclaim : JobRow :=
  { row with
    status := .running, ownershipToken := claim.ownershipToken, startedAt := claim.now
    finishedAt := none
    leaseUntil := some (saturatingAdd claim.now (max claim.leaseSeconds 0)), retryAt := none
    retryRemaining := if row.isOutdated claim then defaultRetryRemaining else row.retryRemaining
    lastError := none, inputWatermark := some claim.sourceUpdatedAt }

def new : JobRow :=
  ⟨.running, claim.ownershipToken, claim.now, none,
    some (saturatingAdd claim.now (max claim.leaseSeconds 0)), none, defaultRetryRemaining, none,
    some claim.sourceUpdatedAt, none⟩

def skipReason : Stage1JobClaimOutcome :=
  if row.retryRemaining ≤ 0 then .skippedRetryExhausted
  else if row.retryAt.any (claim.now < ·) then .skippedRetryBackoff
  else .skippedRunning

end JobRow

namespace Stage1Job
variable (job : Stage1Job)

/-- The rows are read first, then a row is inserted or, on a conflict, updated. -/
def tryClaimStage1Job (claim : Stage1Claim) : Stage1Job × Stage1JobClaimOutcome :=
  if job.outputUpdatedAt.any (claim.sourceUpdatedAt ≤ ·) then (job, .skippedUpToDate)
  else if (job.row.bind (·.lastSuccessWatermark)).any (claim.sourceUpdatedAt ≤ ·) then
    (job, .skippedUpToDate)
  else
    let own : ℤ := if job.row.any (·.isLeased claim.now) then 1 else 0
    let room : Bool := claim.runningElsewhere + own < claim.maxRunningJobs
    match job.row with
    | none =>
      if room then
        ({ job with row := some (.new claim) }, .claimed claim.ownershipToken)
      else (job, .skippedRunning)
    | some row =>
      if room && row.isClaimable claim then
        ({ job with row := some (row.reclaim claim) }, .claimed claim.ownershipToken)
      else (job, row.skipReason claim)

def markStage1JobFailed (failure : Stage1Failure) : Stage1Job × Bool :=
  match job.row with
  | none => (job, false)
  | some row =>
    if row.status = .running && row.ownershipToken = failure.ownershipToken then
      ({ job with
        row := some { row with
          status := .error, finishedAt := some failure.now, leaseUntil := none
          retryAt := some (saturatingAdd failure.now (max failure.retryDelaySeconds 0))
          retryRemaining := row.retryRemaining - 1, lastError := some failure.failureReason } },
        true)
    else (job, false)

end Stage1Job

/-- A job, and how many failures were recorded for the claims of each version. -/
structure RetriedJob where
  job : Stage1Job
  failures : ℤ → ℕ

inductive JobCall
  | claim (claim : Stage1Claim)
  | fail (failure : Stage1Failure)

namespace RetriedJob

def start (outputUpdatedAt : Option ℤ) : RetriedJob := ⟨⟨outputUpdatedAt, none⟩, fun _ => 0⟩

/-- The owner of the row is the last claim that was granted, which has left its version there. -/
def call (s : RetriedJob) : JobCall → RetriedJob
  | .claim claim => { s with job := (s.job.tryClaimStage1Job claim).1 }
  | .fail failure =>
    let (job, recorded) := s.job.markStage1JobFailed failure
    match recorded, s.job.row.bind (·.inputWatermark) with
    | true, some version => ⟨job, Function.update s.failures version (s.failures version + 1)⟩
    | _, _ => { s with job }

/-- No claim is for a version below the one that was claimed last. -/
def InOrder (s : RetriedJob) : JobCall → Prop
  | .claim claim => ∀ row ∈ s.job.row, ∀ version ∈ row.inputWatermark,
    version ≤ claim.sourceUpdatedAt
  | .fail _ => True

theorem inOrder_of_row {s : RetriedJob} {claim : Stage1Claim} {row : JobRow} {version : ℤ}
    (hrow : s.job.row = some row) (hversion : row.inputWatermark = some version)
    (hle : version ≤ claim.sourceUpdatedAt) : s.InOrder (.claim claim) := by
  intro row' hrow' version' hversion'
  cases hrow.symm.trans hrow'
  cases hversion.symm.trans hversion'
  exact hle

/-- Failures for the version of the row are paid for with its retries. -/
structure Paid (s : RetriedJob) (row : JobRow) (version : ℤ) : Prop where
  watermark : row.inputWatermark = some version
  later : ∀ v, version < v → s.failures v = 0
  paid : s.failures version + row.retryRemaining ≤ defaultRetryRemaining
  remaining : 0 ≤ row.retryRemaining
  running : row.status = .running → 0 < row.retryRemaining

def Bounded (s : RetriedJob) : Prop :=
  (∀ version, s.failures version ≤ defaultRetryRemaining) ∧
    match s.job.row with
    | none => ∀ version, s.failures version = 0
    | some row => ∃ version, s.Paid row version

variable {s : RetriedJob}

/-- A claim is refused, or it is granted and leaves its row. -/
theorem tryClaimStage1Job_cases (job : Stage1Job) (claim : Stage1Claim) :
    (job.tryClaimStage1Job claim).1 = job ∨
    job.row = none ∧ (job.tryClaimStage1Job claim).1 = { job with row := some (.new claim) } ∨
    ∃ row, job.row = some row ∧ row.isClaimable claim = true ∧
      (job.tryClaimStage1Job claim).1 = { job with row := some (row.reclaim claim) } := by
  obtain ⟨outputUpdatedAt, row⟩ := job
  unfold Stage1Job.tryClaimStage1Job
  cases row <;> grind

theorem Bounded.claim (h : s.Bounded) {claim : Stage1Claim} (horder : s.InOrder (.claim claim)) :
    (s.call (.claim claim)).Bounded := by
  obtain ⟨hall, hrow⟩ := h
  refine ⟨hall, ?_⟩
  rw [call]
  rcases tryClaimStage1Job_cases s.job claim with hnext | ⟨hnone, hnext⟩ | ⟨row, hsome, hok, hnext⟩
  · rw [hnext]
    exact hrow
  · rw [hnone] at hrow
    rw [hnext]
    refine ⟨claim.sourceUpdatedAt, rfl, fun v _ => hrow v, ?_, ?_, fun _ => ?_⟩ <;>
      simp [hrow, JobRow.new, defaultRetryRemaining]
  · rw [hsome] at hrow
    obtain ⟨version, hpaid⟩ := hrow
    have hle : version ≤ claim.sourceUpdatedAt := horder row hsome version hpaid.watermark
    have hretry : 0 < row.retryRemaining ∨ version < claim.sourceUpdatedAt := by
      simp only [JobRow.isClaimable, JobRow.isOutdated, hpaid.watermark, Bool.and_eq_true,
        Bool.or_eq_true, decide_eq_true_eq] at hok
      exact hok.1.2
    have hremaining : (row.reclaim claim).retryRemaining =
        if version < claim.sourceUpdatedAt then defaultRetryRemaining else row.retryRemaining := by
      simp [JobRow.reclaim, JobRow.isOutdated, hpaid.watermark]
    rw [hnext]
    rcases Int.lt_or_eq_of_le hle with hlt | rfl
    · refine ⟨claim.sourceUpdatedAt, rfl, fun v hv => hpaid.later v (by omega), ?_, ?_,
        fun _ => ?_⟩ <;> simp [hremaining, hlt, hpaid.later _ hlt, defaultRetryRemaining]
    · rw [if_neg (by omega)] at hremaining
      have hpos := hretry.resolve_right (by omega)
      exact ⟨_, rfl, hpaid.later, hremaining ▸ hpaid.paid, hremaining ▸ hpaid.remaining,
        fun _ => hremaining ▸ hpos⟩

theorem Bounded.fail (h : s.Bounded) (failure : Stage1Failure) :
    (s.call (.fail failure)).Bounded := by
  cases hjob : s.job.row with
  | none => simpa [call, Stage1Job.markStage1JobFailed, hjob] using h
  | some row =>
    by_cases hown : row.status = .running ∧ row.ownershipToken = failure.ownershipToken
    · obtain ⟨hall, hrow⟩ := h
      rw [hjob] at hrow
      obtain ⟨version, hpaid⟩ := hrow
      have hpos := hpaid.running hown.1
      have hbound := hpaid.paid
      simp only [call, Stage1Job.markStage1JobFailed, hjob, hown.1, hown.2, decide_true,
        Bool.and_self, if_true, Option.bind_some, hpaid.watermark]
      refine ⟨fun v => ?_, version, rfl, fun v hv => ?_, ?_, ?_, nofun⟩
      · by_cases hv : v = version
        · simp only [hv, Function.update_self]
          omega
        · simpa only [Function.update_of_ne hv] using hall v
      · simpa only [Function.update_of_ne (show v ≠ version by omega)] using hpaid.later v hv
      · simp only [Function.update_self]
        omega
      · exact Int.sub_nonneg_of_le hpos
    · have hrefused : s.job.markStage1JobFailed failure = (s.job, false) := by
        simpa [Stage1Job.markStage1JobFailed, hjob] using hown
      simpa [call, hrefused] using h

end RetriedJob

/-- Where versions are claimed in order, no version fails more often than it may be retried. -/
theorem failures_le_retries {outputUpdatedAt : Option ℤ} {calls : List JobCall} {s : RetriedJob}
    (hrun : Run (fun s call t => s.InOrder call ∧ s.call call = t) (.start outputUpdatedAt) calls s)
    (version : ℤ) : s.failures version ≤ defaultRetryRemaining := by
  have hstart : (RetriedJob.start outputUpdatedAt).Bounded :=
    ⟨fun _ => by simp [RetriedJob.start, defaultRetryRemaining], fun _ => rfl⟩
  refine (hrun.invariant (I := fun _ => RetriedJob.Bounded) ?_ hstart).1 version
  rintro (claim | failure) _ s t hs ⟨horder, rfl⟩
  · exact hs.claim horder
  · exact hs.fail failure

def exampleClaim (n : ℕ) (sourceUpdatedAt : ℤ) : JobCall :=
  .claim ⟨0, List.replicate n 'i', sourceUpdatedAt, 0, 1, 0⟩

def exampleFailure (n : ℕ) : JobCall := .fail ⟨0, List.replicate n 'i', [], 0⟩

/-- A version fails twice, then a newer one is claimed and fails. -/
def newerVersion : List JobCall :=
  [exampleClaim 0 2, exampleFailure 0, exampleClaim 1 2, exampleFailure 1, exampleClaim 2 3,
    exampleFailure 2]

theorem failures_le_retries_newerVersion :
    let s := newerVersion.foldl RetriedJob.call (.start none)
    (s.failures 2, s.failures 3) = (2, 1) ∧ ∀ version, s.failures version ≤ defaultRetryRemaining := by
  have hrun : Run (fun s call t => RetriedJob.InOrder s call ∧ s.call call = t) (.start none)
      newerVersion _ :=
    .cons ⟨nofun, rfl⟩ <| .cons ⟨trivial, rfl⟩ <| .cons ⟨RetriedJob.inOrder_of_row rfl rfl (by decide), rfl⟩ <|
      .cons ⟨trivial, rfl⟩ <| .cons ⟨RetriedJob.inOrder_of_row rfl rfl (by decide), rfl⟩ <|
        .cons ⟨trivial, rfl⟩ (.nil _)
  exact ⟨by decide +kernel, failures_le_retries hrun⟩

/-- Between two claims of a version somebody claims an older one and lets the lease expire. -/
theorem retries_restored :
    let round n := [exampleClaim n 2, exampleFailure n, exampleClaim (n + 4) 1]
    let calls := (List.range 4).flatMap round
    (calls.foldl RetriedJob.call (.start none)).failures 2 = 4 ∧ defaultRetryRemaining = 3 := by
  decide +kernel

end CodexRs.State
