import Mathlib.Algebra.Field.Rat
import Mathlib.Algebra.Order.Ring.Rat
import Mathlib.Data.List.MinMax
import Mathlib.Data.Option.NAry
import CotCompression.Verl.Advantage

set_option autoImplicit false

namespace CotCompression.Verl

open Text (lit decimal)
open Reordering (gather Complete)

inductive LossAggMode where
  | tokenMean
  | seqMeanTokenSum
  | seqMeanTokenSumNorm
  | seqMeanTokenMean

inductive KlPenalty where
  | k1
  | abs
  | k2
  | k3

structure GlobalBatchInfo where
  dpSize : Nat
  batchNumTokens : Option Nat
  globalBatchSize : Option Nat
  lossScaleFactor : Option Nat

section Losses

variable {K : Type} [Field K] [LinearOrder K]

def bit (mask : Bool) : K := if mask then 1 else 0

-- What is masked out is replaced before it is multiplied.
def maskedSum (values : List K) (mask : List Bool) : K :=
  (List.zipWith (fun value m => (if m then value else 0) * bit m) values mask).sum

-- torch.sum(loss_mat * loss_mask, dim=-1)
def tokenSum (values : List K) (mask : List Bool) : K := (List.zipWith (fun value m => value * bit m) values mask).sum

def tokenCount (mask : List Bool) : Nat := mask.countP id

-- A tensor divided by zero is nan or infinite, which is none here.
def finite (divisor : Nat) (x : K) : Option K := if divisor = 0 then none else some x

def divided (x : K) (divisor : Nat) : Option K := finite divisor (x / divisor)

def total (losses : List (Option K)) : Option K := losses.foldr (Option.map₂ (· + ·)) (some 0)

-- A size that is not given is that of this part, which has to be the whole then.
def wholeSize (size : Option Nat) (dpSize own : Nat) (message : Text) : Except Error Nat :=
  match size with
  | some size => .ok size
  | none => if 1 < dpSize then .error (.valueError message) else .ok own

-- Sequences without a token are left out of the mean.
def seqMean (info : GlobalBatchInfo) (seqLosses : List K) (counts : List Nat) : Except Error (Option K) := do
  let seqMask := counts.map fun count => decide (0 < count)
  let globalBatchSize ← wholeSize info.globalBatchSize info.dpSize (tokenCount seqMask)
    (lit "global_batch_size is required when dp_size > 1")
  return (divided (maskedSum seqLosses seqMask) globalBatchSize).map (· * (info.dpSize : K))

-- loss_mask.shape[-1], of rows padded to one width
def horizon (rows : List (List K × List Bool)) : Nat := (rows.map fun row => row.2.length).foldr max 0

def aggLoss (mode : LossAggMode) (info : GlobalBatchInfo) (rows : List (List K × List Bool)) :
    Except Error (Option K) :=
  let counts := rows.map fun row => tokenCount row.2
  match mode with
  | .tokenMean => do
    let batchNumTokens ← wholeSize info.batchNumTokens info.dpSize counts.sum
      (lit "(global) batch_num_tokens is required when dp_size > 1")
    return (divided (rows.map fun row => maskedSum row.1 row.2).sum batchNumTokens).map (· * (info.dpSize : K))
  | .seqMeanTokenSum => seqMean info (rows.map fun row => tokenSum row.1 row.2) counts
  | .seqMeanTokenSumNorm => do
    let loss ← seqMean info (rows.map fun row => tokenSum row.1 row.2) counts
    return loss.bind (divided · (info.lossScaleFactor.getD (horizon rows)))
  | .seqMeanTokenMean =>
    seqMean info (rows.map fun row => tokenSum row.1 row.2 / (tokenCount row.2 + 1 / 10 ^ 8)) counts

def clamp (low high x : K) : K := min (max x low) high

/-- The exponential is a parameter, as it is rounded. -/
structure PolicyLossArgs (K : Type) where
  exp : K → K
  clipRatio : K
  clipRatioLow : Option K
  clipRatioHigh : Option K
  clipRatioC : K
  clipRatioCText : Text

def pgLoss (args : PolicyLossArgs K) (advantage logProb oldLogProb : K) : K :=
  let cliprangeLow := args.clipRatioLow.getD args.clipRatio
  let cliprangeHigh := args.clipRatioHigh.getD args.clipRatio
  let negativeApproxKl := clamp (-20) 20 (logProb - oldLogProb)
  let ratio := args.exp negativeApproxKl
  let pgLosses1 := -advantage * ratio
  let pgLosses2 := -advantage * clamp (1 - cliprangeLow) (1 + cliprangeHigh) ratio
  let clipPgLosses1 := max pgLosses1 pgLosses2
  let pgLosses3 := -advantage * args.clipRatioC
  let clipPgLosses2 := min pgLosses3 clipPgLosses1
  if advantage < 0 then clipPgLosses2 else clipPgLosses1

def klPenaltyForward (exp : K → K) (penalty : KlPenalty) (logProb refLogProb : K) : K :=
  match penalty with
  | .k1 => logProb - refLogProb
  | .abs => |logProb - refLogProb|
  | .k2 => 1 / 2 * (logProb - refLogProb) ^ 2
  | .k3 =>
    let kl := clamp (-20) 20 (refLogProb - logProb)
    clamp (-10) 10 (exp kl - kl - 1)

structure ActorConfig (K : Type) where
  lossAggMode : LossAggMode
  lossScaleFactor : Option Nat
  policy : PolicyLossArgs K
  calculateEntropy : Bool
  entropyCoeff : K
  useKlLoss : Bool
  klLossType : KlPenalty
  klLossCoef : K

structure ActorRow (K : Type) where
  responseMask : List Bool
  oldLogProbs : List K
  advantages : List K
  refLogProb : List K
  old_shape : oldLogProbs.length = responseMask.length
  advantages_shape : advantages.length = responseMask.length
  ref_shape : refLogProb.length = responseMask.length

/-- The model speaks of the tokens of the response only, the mask also of its padding. -/
structure ModelOutput (K : Type) (width : Nat) where
  logProbs : List K
  entropy : List K
  logProbs_shape : logProbs.length ≤ width
  entropy_shape : entropy.length ≤ width

structure PaddedRow (K : Type) where
  responseMask : List Bool
  oldLogProbs : List K
  advantages : List K
  refLogProb : List K
  logProbs : List K
  entropy : List K

def maxResponseLen (rows : List (ActorRow K)) : Nat := (rows.map fun row => row.responseMask.length).foldr max 0

-- to_padded_tensor and no_padding_2_padding, on one row
def ActorRow.padded (row : ActorRow K) (output : ModelOutput K row.responseMask.length) (width : Nat) :
    PaddedRow K where
  responseMask := row.responseMask.rightpad width false
  oldLogProbs := row.oldLogProbs.rightpad width 0
  advantages := row.advantages.rightpad width 0
  refLogProb := row.refLogProb.rightpad width 0
  logProbs := output.logProbs.rightpad width 0
  entropy := output.entropy.rightpad width 0

def pgRow (config : ActorConfig K) (row : PaddedRow K) : List K × List Bool :=
  (List.zipWith (fun advantage probs => pgLoss config.policy advantage probs.1 probs.2) row.advantages
    (row.logProbs.zip row.oldLogProbs), row.responseMask)

def entropyRow (row : PaddedRow K) : List K × List Bool := (row.entropy, row.responseMask)

def klRow (config : ActorConfig K) (row : PaddedRow K) : List K × List Bool :=
  (List.zipWith (klPenaltyForward config.policy.exp config.klLossType) row.logProbs row.refLogProb, row.responseMask)

-- forward is what the model makes of each row.
def ppoLoss (config : ActorConfig K) (info : GlobalBatchInfo)
    (forward : (row : ActorRow K) → ModelOutput K row.responseMask.length) (data : List (ActorRow K)) :
    Except Error (Option K) := do
  let rows := data.map fun row => row.padded (forward row) (maxResponseLen data)
  require (1 < config.policy.clipRatioC)
    (lit "The lower bound of the clip_ratio_c for dual-clip PPO should be greater than 1.0," ++
      lit " but get the value: " ++ config.policy.clipRatioCText ++ lit ".")
  let pgLoss ← aggLoss config.lossAggMode info (rows.map (pgRow config))
  let policyLoss ←
    if config.calculateEntropy then do
      let entropyLoss ← aggLoss config.lossAggMode info (rows.map entropyRow)
      pure (Option.map₂ (fun policy entropy => policy - config.entropyCoeff * entropy) pgLoss entropyLoss)
    else pure pgLoss
  if config.useKlLoss then do
    let klLoss ← aggLoss config.lossAggMode info (rows.map (klRow config))
    return Option.map₂ (fun policy kl => policy + kl * config.klLossCoef) policyLoss klLoss
  else return policyLoss

structure Rank (K : Type) where
  settings : BatchSettings
  args : MicroArgs
  maxSeqLen : Nat
  seqLen : ActorRow K → Nat
  rows : List (ActorRow K)

-- forward_backward_batch: the gradients of the micro-batches add up.
def rankLoss (config : ActorConfig K) (info : GlobalBatchInfo)
    (forward : (row : ActorRow K) → ModelOutput K row.responseMask.length) (rank : Rank K) :
    Except Error (Option K) := do
  let (microBatches, _) ← prepareMicroBatches rank.settings rank.args rank.maxSeqLen rank.seqLen rank.rows
  let losses ← microBatches.mapM (ppoLoss config info forward)
  return total losses

-- The tokens are summed over the ranks, and the gradients averaged.
def trainBatch (config : ActorConfig K) (globalBatchSize : Nat)
    (forward : (row : ActorRow K) → ModelOutput K row.responseMask.length) (ranks : List (Rank K)) :
    Except Error (Option K) := do
  let batchNumTokens := (ranks.map fun rank => (rank.rows.map fun row => tokenCount row.responseMask).sum).sum
  let losses ← ranks.mapM
    (rankLoss config ⟨ranks.length, some batchNumTokens, some globalBatchSize, config.lossScaleFactor⟩ forward)
  return (total losses).map (· / (ranks.length : K))

end Losses

section Finite

variable {K : Type}

theorem map_finite (f : K → K) (divisor : Nat) (x : K) : (finite divisor x).map f = finite divisor (f x) := by
  by_cases zero : divisor = 0 <;> simp [finite, zero]

theorem map₂_finite (f : K → K → K) (divisor : Nat) (x y : K) :
    Option.map₂ f (finite divisor x) (finite divisor y) = finite divisor (f x y) := by
  by_cases zero : divisor = 0 <;> simp [finite, zero]

theorem bind_divided [Field K] (divisor : Nat) (x : K) (n : Nat) :
    (finite divisor x).bind (divided · n) = finite (divisor * n) (x / n) := by
  by_cases zero : divisor = 0 <;> simp [finite, divided, zero]

theorem total_finite [Field K] {α : Type} (f : α → K) (divisor : Nat) {parts : List α} (some_ : parts ≠ []) :
    total (parts.map fun part => finite divisor (f part)) = finite divisor (parts.map f).sum := by
  induction parts with
  | nil => exact absurd rfl some_
  | cons part parts ih =>
    cases parts with
    | nil => by_cases zero : divisor = 0 <;> simp [total, finite, zero]
    | cons next rest =>
      rw [List.map_cons, total, List.foldr_cons, ← total, ih (List.cons_ne_nil _ _), map₂_finite, List.map_cons,
        List.sum_cons, List.map_cons, List.sum_cons]
      rfl

end Finite

section Linear

variable {K : Type} [Field K]

def divisor (mode : LossAggMode) (tokens size scale : Nat) : Nat :=
  match mode with
  | .tokenMean => tokens
  | .seqMeanTokenSum => size
  | .seqMeanTokenSumNorm => size * scale
  | .seqMeanTokenMean => size

def rowLoss (mode : LossAggMode) (tokens size scale : Nat) (row : List K × List Bool) : K :=
  let seqLoss (loss : K) : K := if 0 < tokenCount row.2 then loss else 0
  match mode with
  | .tokenMean => maskedSum row.1 row.2 / tokens
  | .seqMeanTokenSum => seqLoss (tokenSum row.1 row.2) / size
  | .seqMeanTokenSumNorm => seqLoss (tokenSum row.1 row.2) / size / scale
  | .seqMeanTokenMean => seqLoss (tokenSum row.1 row.2 / (tokenCount row.2 + 1 / 10 ^ 8)) / size

theorem maskedSum_map {α : Type} (loss : α → K) (mask : α → Bool) (rows : List α) :
    maskedSum (rows.map loss) (rows.map mask) = (rows.map fun row => if mask row then loss row else 0).sum := by
  rw [maskedSum, List.zipWith_map, List.zipWith_self]
  refine congrArg List.sum (List.map_congr_left fun row _ => ?_)
  cases mask row <;> simp [bit]

theorem seqMean_ok {α : Type} (dpSize size : Nat) (batchNumTokens lossScaleFactor : Option Nat) (loss : α → K)
    (count : α → Nat) (rows : List α) :
    seqMean ⟨dpSize, batchNumTokens, some size, lossScaleFactor⟩ (rows.map loss) (rows.map count) =
      .ok (finite size ((rows.map fun row => (if 0 < count row then loss row else 0) / (size : K)).sum * dpSize)) := by
  have masked := maskedSum_map loss (fun row => decide (0 < count row)) rows
  simp only [decide_eq_true_eq] at masked
  rw [seqMean, wholeSize, ok_bind, List.map_map, divided, map_finite]
  simp only [Function.comp_def, masked, sum_div, List.map_map]
  rfl

theorem aggLoss_ok (mode : LossAggMode) (dpSize tokens size scale : Nat) (lossScaleFactor : Option Nat)
    (rows : List (List K × List Bool))
    (scaled : mode = .seqMeanTokenSumNorm → lossScaleFactor.getD (horizon rows) = scale) :
    aggLoss mode ⟨dpSize, some tokens, some size, lossScaleFactor⟩ rows =
      .ok (finite (divisor mode tokens size scale) ((rows.map (rowLoss mode tokens size scale)).sum * dpSize)) := by
  cases mode with
  | tokenMean =>
    simp only [aggLoss, wholeSize, ok_bind, divided, map_finite, sum_div, List.map_map]
    rfl
  | seqMeanTokenSum => exact seqMean_ok ..
  | seqMeanTokenSumNorm =>
    have made := seqMean_ok (K := K) dpSize size (some tokens) lossScaleFactor (fun row => tokenSum row.1 row.2)
      (fun row => tokenCount row.2) rows
    simp only [aggLoss, made, ok_bind, scaled rfl, bind_divided]
    refine congrArg (fun sum => Except.ok (finite (size * scale) sum)) ?_
    rw [mul_div_right_comm, sum_div, List.map_map]
    rfl
  | seqMeanTokenMean => exact seqMean_ok ..

end Linear

section Padding

variable {K : Type} [Field K]

theorem rightpad_length {α : Type} {values : List α} {width : Nat} (blank : α) (short : values.length ≤ width) :
    (values.rightpad width blank).length = width := by
  rw [List.length_rightpad, max_eq_left short]

theorem rightpad_rightpad {α : Type} {values : List α} {own width : Nat} (blank : α) (short : values.length ≤ own)
    (wide : own ≤ width) :
    values.rightpad width blank = values.rightpad own blank ++ List.replicate (width - own) blank := by
  rw [List.rightpad, List.rightpad, List.append_assoc, List.replicate_append_replicate,
    show own - values.length + (width - own) = width - values.length by omega]

theorem masked_append {weigh : K → Bool → K} (out : ∀ value, weigh value false = 0) {losses : List K}
    {mask : List Bool} (same : losses.length = mask.length) (extra : List K) (n : Nat) :
    (List.zipWith weigh (losses ++ extra) (mask ++ List.replicate n false)).sum =
      (List.zipWith weigh losses mask).sum := by
  have blank : ∀ (extra : List K) (n : Nat), (List.zipWith weigh extra (List.replicate n false)).sum = 0 := by
    intro extra
    induction extra with
    | nil => simp
    | cons value extra ih =>
      intro n
      cases n with
      | zero => simp
      | succ n => simpa [List.replicate_succ, out] using ih n
  rw [List.zipWith_append same, List.sum_append, blank, add_zero]

theorem rowLoss_append (mode : LossAggMode) (tokens size scale : Nat) {losses : List K} {mask : List Bool}
    (same : losses.length = mask.length) (extra : List K) (n : Nat) :
    rowLoss mode tokens size scale (losses ++ extra, mask ++ List.replicate n false) =
      rowLoss mode tokens size scale (losses, mask) := by
  have count : tokenCount (mask ++ List.replicate n false) = tokenCount mask := by
    simp [tokenCount, List.countP_replicate]
  have masked : maskedSum (losses ++ extra) (mask ++ List.replicate n false) = maskedSum losses mask :=
    masked_append (fun value => by simp [bit]) same extra n
  have summed : tokenSum (losses ++ extra) (mask ++ List.replicate n false) = tokenSum losses mask :=
    masked_append (fun value => by simp [bit]) same extra n
  simp only [rowLoss, count, masked, summed]

variable [LinearOrder K] {config : ActorConfig K} {row : ActorRow K} (output : ModelOutput K row.responseMask.length)

def rowPolicy (config : ActorConfig K) (tokens size scale : Nat) (row : PaddedRow K) : K :=
  let rowOf := rowLoss config.lossAggMode tokens size scale
  rowOf (pgRow config row) - config.entropyCoeff * (if config.calculateEntropy then rowOf (entropyRow row) else 0) +
    (if config.useKlLoss then rowOf (klRow config row) else 0) * config.klLossCoef

theorem rowPolicy_padded (tokens size scale : Nat) {width : Nat} (wide : row.responseMask.length ≤ width) :
    rowPolicy config tokens size scale (row.padded output width) =
      rowPolicy config tokens size scale (row.padded output row.responseMask.length) := by
  have mask := rightpad_rightpad false le_rfl wide
  have old := rightpad_rightpad (0 : K) row.old_shape.le wide
  have advantages := rightpad_rightpad (0 : K) row.advantages_shape.le wide
  have ref := rightpad_rightpad (0 : K) row.ref_shape.le wide
  have probs := rightpad_rightpad (0 : K) output.logProbs_shape wide
  have entropy := rightpad_rightpad (0 : K) output.entropy_shape wide
  have pg : rowLoss config.lossAggMode tokens size scale (pgRow config (row.padded output width)) =
      rowLoss config.lossAggMode tokens size scale (pgRow config (row.padded output row.responseMask.length)) := by
    simp only [pgRow, ActorRow.padded, mask, old, advantages, probs]
    have probs_length := rightpad_length (0 : K) output.logProbs_shape
    have old_length := rightpad_length (0 : K) row.old_shape.le
    have advantages_length := rightpad_length (0 : K) row.advantages_shape.le
    have paired := (List.length_zip ..).trans ((congrArg₂ min probs_length old_length).trans (min_self _))
    rw [List.zip_append (probs_length.trans old_length.symm),
      List.zipWith_append (advantages_length.trans paired.symm), rowLoss_append]
    rw [List.length_zipWith, advantages_length, paired, min_self, rightpad_length false le_rfl]
  have entropies : rowLoss config.lossAggMode tokens size scale (entropyRow (row.padded output width)) =
      rowLoss config.lossAggMode tokens size scale (entropyRow (row.padded output row.responseMask.length)) := by
    simp only [entropyRow, ActorRow.padded, mask, entropy]
    rw [rowLoss_append]
    rw [rightpad_length (0 : K) output.entropy_shape, rightpad_length false le_rfl]
  have kl : rowLoss config.lossAggMode tokens size scale (klRow config (row.padded output width)) =
      rowLoss config.lossAggMode tokens size scale (klRow config (row.padded output row.responseMask.length)) := by
    simp only [klRow, ActorRow.padded, mask, ref, probs]
    have probs_length := rightpad_length (0 : K) output.logProbs_shape
    have ref_length := rightpad_length (0 : K) row.ref_shape.le
    rw [List.zipWith_append (probs_length.trans ref_length.symm), rowLoss_append]
    rw [List.length_zipWith, probs_length, ref_length, min_self, rightpad_length false le_rfl]
  simp only [rowPolicy, pg, entropies, kl]

theorem le_foldr_max {widths : List Nat} {width : Nat} (member : width ∈ widths) : width ≤ widths.foldr max 0 :=
  List.le_max_of_le member le_rfl

theorem foldr_max_level {widths : List Nat} {width : Nat} (some_ : widths ≠ [])
    (level : ∀ other ∈ widths, other = width) : widths.foldr max 0 = width := by
  obtain ⟨first, member⟩ := List.exists_mem_of_ne_nil widths some_
  refine le_antisymm (List.max_le_of_forall_le widths width fun other among => (level other among).le) ?_
  rw [← level first member]
  exact le_foldr_max member

omit [Field K] [LinearOrder K] in
theorem le_maxResponseLen {rows : List (ActorRow K)} (member : row ∈ rows) :
    row.responseMask.length ≤ maxResponseLen rows :=
  le_foldr_max (List.mem_map_of_mem member)

end Padding

section Distributed

variable {K : Type} [Field K] [LinearOrder K] {config : ActorConfig K}
  {forward : (row : ActorRow K) → ModelOutput K row.responseMask.length}

def lossScale (config : ActorConfig K) (rows : List (ActorRow K)) : Nat :=
  config.lossScaleFactor.getD (maxResponseLen rows)

def modelPolicy (config : ActorConfig K) (tokens size scale : Nat)
    (forward : (row : ActorRow K) → ModelOutput K row.responseMask.length) (row : ActorRow K) : K :=
  rowPolicy config tokens size scale (row.padded (forward row) row.responseMask.length)

theorem sum_rowPolicy (tokens size scale : Nat) (rows : List (PaddedRow K)) :
    let rowOf := rowLoss config.lossAggMode tokens size scale
    (rows.map (rowPolicy config tokens size scale)).sum =
      (rows.map (rowOf ∘ pgRow config)).sum -
        config.entropyCoeff * (if config.calculateEntropy then (rows.map (rowOf ∘ entropyRow)).sum else 0) +
          (if config.useKlLoss then (rows.map (rowOf ∘ klRow config)).sum else 0) * config.klLossCoef := by
  intro rowOf
  induction rows with
  | nil => simp
  | cons row rows ih =>
    simp only [List.map_cons, List.sum_cons, ih, rowPolicy, Function.comp_apply, rowOf]
    split_ifs <;> ring

omit [LinearOrder K] in
theorem horizon_padded (rows : List (ActorRow K)) (part : PaddedRow K → List K × List Bool)
    (masks : ∀ row, (part row).2 = row.responseMask) :
    horizon ((rows.map fun row => row.padded (forward row) (maxResponseLen rows)).map part) = maxResponseLen rows := by
  cases rows with
  | nil => rfl
  | cons row rest =>
    refine foldr_max_level (by simp) fun width member => ?_
    obtain ⟨losses, aggregated, rfl⟩ := List.mem_map.mp member
    obtain ⟨padded, among, rfl⟩ := List.mem_map.mp aggregated
    obtain ⟨original, inside, rfl⟩ := List.mem_map.mp among
    rw [masks]
    exact rightpad_length false (le_maxResponseLen inside)

theorem ppoLoss_ok (clip : 1 < config.policy.clipRatioC) (dpSize tokens size : Nat) {scale : Nat}
    (data : List (ActorRow K)) (scaled : config.lossAggMode = .seqMeanTokenSumNorm → lossScale config data = scale) :
    ppoLoss config ⟨dpSize, some tokens, some size, config.lossScaleFactor⟩ forward data =
      .ok (finite (divisor config.lossAggMode tokens size scale)
        ((data.map (modelPolicy config tokens size scale forward)).sum * dpSize)) := by
  have agg (part : PaddedRow K → List K × List Bool) (masks : ∀ row, (part row).2 = row.responseMask) :
      aggLoss config.lossAggMode ⟨dpSize, some tokens, some size, config.lossScaleFactor⟩
        ((data.map fun row => row.padded (forward row) (maxResponseLen data)).map part) =
      .ok (finite (divisor config.lossAggMode tokens size scale)
        (((data.map fun row => row.padded (forward row) (maxResponseLen data)).map
          (rowLoss config.lossAggMode tokens size scale ∘ part)).sum * dpSize)) := by
    rw [aggLoss_ok _ _ _ _ scale _ _ fun mode => by rw [horizon_padded data part masks]; exact scaled mode,
      List.map_map]
  have padded : data.map (modelPolicy config tokens size scale forward) =
      (data.map fun row => row.padded (forward row) (maxResponseLen data)).map (rowPolicy config tokens size scale) := by
    rw [List.map_map]
    exact List.map_congr_left fun row member => (rowPolicy_padded _ _ _ _ (le_maxResponseLen member)).symm
  rw [ppoLoss, require_ok.mpr clip, ok_bind, padded, sum_rowPolicy]
  simp only [agg (pgRow config) fun _ => rfl, agg entropyRow fun _ => rfl, agg (klRow config) fun _ => rfl, ok_bind]
  cases config.calculateEntropy <;> cases config.useKlLoss <;>
    simp only [Bool.false_eq_true, if_true, if_false, ok_bind, pure, Except.pure, map₂_finite] <;>
    refine congrArg (fun sum => Except.ok (finite _ sum)) ?_ <;> ring

theorem ppoLoss_error (clip : ¬ 1 < config.policy.clipRatioC) : ∃ error, ∀ info data,
    ppoLoss config info forward data = .error error :=
  ⟨_, fun info data => by rw [ppoLoss, require, if_neg clip]; rfl⟩

def Rank.Prepared (rank : Rank K) : Prop :=
  Ready rank.settings rank.args rank.maxSeqLen (rank.rows.map rank.seqLen)

omit [LinearOrder K] in
theorem sum_map_flatten {α : Type} (f : α → K) (parts : List (List α)) (d : K) :
    (parts.map fun part => (part.map f).sum * d).sum = (parts.flatten.map f).sum * d := by
  induction parts with
  | nil => simp
  | cons part parts ih =>
    rw [List.map_cons, List.sum_cons, ih, List.flatten_cons, List.map_append, List.sum_append, add_mul]

def Scaled (config : ActorConfig K) (scale : Nat) (rows : List (ActorRow K)) : Prop :=
  config.lossAggMode = .seqMeanTokenSumNorm → ∀ part, part ⊆ rows → part ≠ [] → lossScale config part = scale

theorem rankLoss_ok (clip : 1 < config.policy.clipRatioC) (dpSize tokens size : Nat) {scale : Nat} {rank : Rank K}
    (prepared : rank.Prepared) (scaled : Scaled config scale rank.rows) :
    rankLoss config ⟨dpSize, some tokens, some size, config.lossScaleFactor⟩ forward rank =
      .ok (finite (divisor config.lossAggMode tokens size scale)
        ((rank.rows.map (modelPolicy config tokens size scale forward)).sum * dpSize)) := by
  obtain ⟨microBatches, indices, made, cut, filled⟩ := prepareMicroBatches_ok prepared
  have losses : microBatches.mapM
      (ppoLoss config ⟨dpSize, some tokens, some size, config.lossScaleFactor⟩ forward) =
      .ok (microBatches.map fun microBatch => finite (divisor config.lossAggMode tokens size scale)
        ((microBatch.map (modelPolicy config tokens size scale forward)).sum * dpSize)) := by
    refine mapM_ok fun microBatch member => ppoLoss_ok clip _ _ _ _ fun mode =>
      scaled mode microBatch (fun row among => ?_) (filled microBatch member)
    exact cut.perm.subset (List.mem_flatten.mpr ⟨microBatch, member, among⟩)
  rw [rankLoss, made, ok_bind]
  simp only [losses, ok_bind, total_finite _ _ (cut.filled prepared.filled), sum_map_flatten, (cut.perm.map _).sum_eq]
  rfl

theorem rankLoss_error {info : GlobalBatchInfo} {error : Error}
    (fails : ∀ data, ppoLoss config info forward data = .error error)
    {rank : Rank K} (prepared : rank.Prepared) : rankLoss config info forward rank = .error error := by
  obtain ⟨microBatches, indices, made, cut, -⟩ := prepareMicroBatches_ok prepared
  obtain ⟨first, rest, rfl⟩ := List.exists_cons_of_ne_nil (cut.filled prepared.filled)
  rw [rankLoss, made, ok_bind]
  simp only [List.mapM_cons, fails]
  rfl

variable {ranks : List (Rank K)}

theorem trainBatch_ok [IsStrictOrderedRing K] (clip : 1 < config.policy.clipRatioC) (some_ : ranks ≠ [])
    (prepared : ∀ rank ∈ ranks, rank.Prepared) {scale : Nat} (scaled : Scaled config scale (ranks.flatMap Rank.rows))
    (globalBatchSize : Nat) :
    let tokens := ((ranks.flatMap Rank.rows).map fun row => tokenCount row.responseMask).sum
    trainBatch config globalBatchSize forward ranks =
      .ok (finite (divisor config.lossAggMode tokens globalBatchSize scale)
        ((ranks.flatMap Rank.rows).map (modelPolicy config tokens globalBatchSize scale forward)).sum) := by
  intro tokens
  have counted : (ranks.map fun rank => (rank.rows.map fun row => tokenCount row.responseMask).sum).sum = tokens := by
    simp only [tokens]
    rw [List.map_flatMap, List.flatMap_def, List.sum_flatten, List.map_map]
    rfl
  have size : (ranks.length : K) ≠ 0 := by
    exact_mod_cast fun none => some_ (List.length_eq_zero_iff.mp none)
  have each : ∀ rank ∈ ranks, Scaled config scale rank.rows := fun rank member mode part inside =>
    scaled mode part fun row among => List.mem_flatMap.mpr ⟨rank, member, inside among⟩
  rw [trainBatch, counted, mapM_ok fun rank member => rankLoss_ok clip _ _ _ (prepared rank member) (each rank member),
    ok_bind, total_finite _ _ some_, map_finite]
  refine congrArg (fun sum => Except.ok (finite _ sum)) ?_
  have parts := sum_map_flatten (modelPolicy config tokens globalBatchSize scale forward)
    (ranks.map Rank.rows) (ranks.length : K)
  rw [List.map_map, ← List.flatMap_def] at parts
  rw [← mul_div_cancel_right₀ ((ranks.flatMap Rank.rows).map _).sum size, ← parts]
  rfl

theorem trainBatch_error (clip : ¬ 1 < config.policy.clipRatioC) (some_ : ranks ≠ [])
    (prepared : ∀ rank ∈ ranks, rank.Prepared) (globalBatchSize : Nat) (info : GlobalBatchInfo)
    (data : List (ActorRow K)) :
    trainBatch config globalBatchSize forward ranks = ppoLoss config info forward data := by
  obtain ⟨error, fails⟩ := @ppoLoss_error K _ _ config forward clip
  obtain ⟨first, rest, rfl⟩ := List.exists_cons_of_ne_nil some_
  rw [fails, trainBatch, List.mapM_cons, rankLoss_error (fails _) (prepared first List.mem_cons_self)]
  rfl

end Distributed

section Plain

variable {K : Type} [Field K]

theorem aggLoss_plain (mode : LossAggMode) (lossScaleFactor : Option Nat) {rows : List (List K × List Bool)}
    (filled : ∀ row ∈ rows, 0 < tokenCount row.2) :
    aggLoss mode ⟨1, none, none, lossScaleFactor⟩ rows =
      aggLoss mode ⟨1, some (rows.map fun row => tokenCount row.2).sum, some rows.length, lossScaleFactor⟩ rows := by
  have counted :
      tokenCount ((rows.map fun row => tokenCount row.2).map fun count => decide (0 < count)) = rows.length := by
    rw [tokenCount, List.map_map, List.countP_map, List.countP_eq_length]
    exact fun row member => decide_eq_true (filled row member)
  have seq (losses : List K) : seqMean ⟨1, none, none, lossScaleFactor⟩ losses (rows.map fun row => tokenCount row.2) =
      seqMean ⟨1, some (rows.map fun row => tokenCount row.2).sum, some rows.length, lossScaleFactor⟩ losses
        (rows.map fun row => tokenCount row.2) := by
    simp only [seqMean, wholeSize, counted]
    rfl
  cases mode with
  | tokenMean => rfl
  | seqMeanTokenSum => exact seq _
  | seqMeanTokenSumNorm => simp only [aggLoss, seq]
  | seqMeanTokenMean => exact seq _

theorem tokenCount_rightpad (mask : List Bool) (width : Nat) :
    tokenCount (mask.rightpad width false) = tokenCount mask := by
  simp [tokenCount, List.rightpad, List.countP_replicate]

variable [LinearOrder K] {forward : (row : ActorRow K) → ModelOutput K row.responseMask.length}

theorem ppoLoss_plain (config : ActorConfig K) {data : List (ActorRow K)}
    (filled : ∀ row ∈ data, 0 < tokenCount row.responseMask) :
    ppoLoss config ⟨1, none, none, config.lossScaleFactor⟩ forward data =
      ppoLoss config ⟨1, some (data.map fun row => tokenCount row.responseMask).sum, some data.length,
        config.lossScaleFactor⟩ forward data := by
  have plain (part : PaddedRow K → List K × List Bool) (masks : ∀ row, (part row).2 = row.responseMask) :
      aggLoss config.lossAggMode ⟨1, none, none, config.lossScaleFactor⟩
        ((data.map fun row => row.padded (forward row) (maxResponseLen data)).map part) =
      aggLoss config.lossAggMode ⟨1, some (data.map fun row => tokenCount row.responseMask).sum, some data.length,
        config.lossScaleFactor⟩ ((data.map fun row => row.padded (forward row) (maxResponseLen data)).map part) := by
    rw [aggLoss_plain]
    · simp only [List.map_map, Function.comp_def, masks, ActorRow.padded, tokenCount_rightpad, List.length_map]
    · intro row member
      obtain ⟨padded, among, rfl⟩ := List.mem_map.mp member
      obtain ⟨original, inside, rfl⟩ := List.mem_map.mp among
      rw [masks, ActorRow.padded, tokenCount_rightpad]
      exact filled original inside
  simp only [ppoLoss, plain (pgRow config) fun _ => rfl, plain entropyRow fun _ => rfl,
    plain (klRow config) fun _ => rfl]

end Plain

section Whole

variable {K : Type}

-- Without a scale given, seq-mean-token-sum-norm divides by the width of the micro-batch.
def Level (config : ActorConfig K) (whole : List (ActorRow K)) : Prop :=
  config.lossAggMode = .seqMeanTokenSumNorm → config.lossScaleFactor = none →
    ∃ width, ∀ row ∈ whole, row.responseMask.length = width

theorem maxResponseLen_level {width : Nat} {rows : List (ActorRow K)} (some_ : rows ≠ [])
    (level : ∀ row ∈ rows, row.responseMask.length = width) : maxResponseLen rows = width :=
  foldr_max_level (mt List.map_eq_nil_iff.mp some_) fun other member => by
    obtain ⟨row, among, rfl⟩ := List.mem_map.mp member
    exact level row among

theorem Level.scaled {config : ActorConfig K} {whole : List (ActorRow K)} (level : Level config whole) :
    Scaled config (lossScale config whole) whole := by
  intro mode part inside some_
  cases factor : config.lossScaleFactor with
  | some scale => simp only [lossScale, factor, Option.getD_some]
  | none =>
    obtain ⟨width, same⟩ := level mode factor
    obtain ⟨first, member⟩ := List.exists_mem_of_ne_nil part some_
    simp only [lossScale, factor, Option.getD_none]
    rw [maxResponseLen_level some_ fun row among => same row (inside among),
      maxResponseLen_level (List.ne_nil_of_mem (inside member)) same]

end Whole

-- Whatever the ranks and the micro-batches, the loss is that of the mini-batch in one piece.
theorem trainBatch_correct {K : Type} [Field K] [LinearOrder K] [IsStrictOrderedRing K] (config : ActorConfig K)
    (globalBatchSize : Nat) (forward : (row : ActorRow K) → ModelOutput K row.responseMask.length)
    (ranks : List (Rank K)) (whole : List (ActorRow K)) (some_ : ranks ≠ [])
    (prepared : ∀ rank ∈ ranks, rank.Prepared) (dealt : whole.Perm (ranks.flatMap Rank.rows))
    (level : Level config whole) :
    trainBatch config globalBatchSize forward ranks =
      ppoLoss config ⟨1, some (whole.map fun row => tokenCount row.responseMask).sum, some globalBatchSize,
        config.lossScaleFactor⟩ forward whole ∧
    (globalBatchSize = whole.length → (∀ row ∈ whole, 0 < tokenCount row.responseMask) →
      trainBatch config globalBatchSize forward ranks =
        ppoLoss config ⟨1, none, none, config.lossScaleFactor⟩ forward whole) := by
  have given : trainBatch config globalBatchSize forward ranks =
      ppoLoss config ⟨1, some (whole.map fun row => tokenCount row.responseMask).sum, some globalBatchSize,
        config.lossScaleFactor⟩ forward whole := by
    by_cases clip : 1 < config.policy.clipRatioC
    · have scaled : Scaled config (lossScale config whole) (ranks.flatMap Rank.rows) := fun mode part inside =>
        level.scaled mode part fun row among => dealt.mem_iff.mpr (inside among)
      rw [trainBatch_ok clip some_ prepared scaled, ppoLoss_ok clip 1 _ _ _ fun _ => rfl, Nat.cast_one, mul_one,
        (dealt.map fun row => tokenCount row.responseMask).sum_eq]
      exact congrArg (fun sum => Except.ok (finite _ sum)) (dealt.map _).sum_eq.symm
    · exact trainBatch_error clip some_ prepared globalBatchSize _ _
  refine ⟨given, fun size filled => ?_⟩
  rw [given, ppoLoss_plain config filled, size]

-- Two ranks that cut their rows into micro-batches of one.
def oneRow (advantage : ℚ) (padding : Nat) : ActorRow ℚ where
  responseMask := true :: List.replicate padding false
  oldLogProbs := -1 :: List.replicate padding 0
  advantages := advantage :: List.replicate padding 0
  refLogProb := -1 :: List.replicate padding 0
  old_shape := by simp
  advantages_shape := by simp
  ref_shape := by simp

def oneRowRank (rows : List (ActorRow ℚ)) : Rank ℚ where
  settings := ⟨false, 0, 1, 1⟩
  args := ⟨0, none, none, none, false, 1⟩
  maxSeqLen := 0
  seqLen _ := 1
  rows := rows

theorem oneRowRank_prepared {rows : List (ActorRow ℚ)} (filled : rows ≠ []) : (oneRowRank rows).Prepared := by
  refine ⟨?_, le_rfl, one_dvd _⟩
  simpa [oneRowRank] using filled

def seqMeanConfig : ActorConfig ℚ where
  lossAggMode := .seqMeanTokenMean
  lossScaleFactor := none
  policy := ⟨fun x => 1 + x, 1 / 5, none, none, 3, lit "3.0"⟩
  calculateEntropy := false
  entropyCoeff := 0
  useKlLoss := true
  klLossType := .k3
  klLossCoef := 1 / 1000

def sameProbs (row : ActorRow ℚ) : ModelOutput ℚ row.responseMask.length where
  logProbs := row.oldLogProbs
  entropy := []
  logProbs_shape := row.old_shape.le
  entropy_shape := Nat.zero_le _

def twoRanks : List (Rank ℚ) := [oneRowRank [oneRow 1 0], oneRowRank [oneRow (-1) 2, oneRow 0 1]]

def threeRows : List (ActorRow ℚ) := [oneRow 0 1, oneRow 1 0, oneRow (-1) 2]

theorem trainBatch_correct_two :
    trainBatch seqMeanConfig 3 sameProbs twoRanks =
        ppoLoss seqMeanConfig ⟨1, some 3, some 3, none⟩ sameProbs threeRows ∧
      trainBatch seqMeanConfig 3 sameProbs twoRanks =
        ppoLoss seqMeanConfig ⟨1, none, none, none⟩ sameProbs threeRows := by
  have prepared : ∀ rank ∈ twoRanks, rank.Prepared := by
    intro rank member
    simp only [twoRanks, List.mem_cons, List.not_mem_nil, or_false] at member
    rcases member with rfl | rfl
    · exact oneRowRank_prepared (by simp)
    · exact oneRowRank_prepared (by simp)
  have dealt : threeRows.Perm (twoRanks.flatMap Rank.rows) :=
    (List.perm_append_comm : ([oneRow 0 1] ++ [oneRow 1 0, oneRow (-1) 2]).Perm _)
  have level : Level seqMeanConfig threeRows := by
    intro mode
    cases mode
  obtain ⟨given, plain⟩ :=
    trainBatch_correct seqMeanConfig 3 sameProbs twoRanks threeRows (by simp [twoRanks]) prepared dealt level
  refine ⟨given, plain rfl fun row member => ?_⟩
  simp only [threeRows, List.mem_cons, List.not_mem_nil, or_false] at member
  rcases member with rfl | rfl | rfl <;> decide

end CotCompression.Verl
