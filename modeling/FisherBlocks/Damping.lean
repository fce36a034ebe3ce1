import Mathlib.Analysis.SpecialFunctions.Pow.Real
import Mathlib.LinearAlgebra.Matrix.Trace
import Mathlib.LinearAlgebra.Matrix.Symmetric

/-!
# Damping utilities and packaged functions

The module-level constants of `fisher_blocks.py` that the blocks read when they compute a
damping, the three damping utilities of the source, and the thunks with stable identities
(`PackagedFunc`) in which every block hands its damping to its factors.

* `normalizeDamping` divides a damping by `n ^ NORMALIZE_DAMPING_POWER` unless the power is
  zero.
* `computePiTracenorm` is the trace-norm ratio `π = √((tr A · dim B) / (tr B · dim A))` of two
  covariance estimates, a rank-1 estimate standing for a diagonal matrix.
* `computePiAdjustedDamping` splits a damping `s` into `(s π, s / π)` under `"tracenorm"` and
  into `(s, s)` under `"off"`; the product of the two halves is always `s ^ 2`
  (`computePiAdjustedDamping_mul`).
* `PackagedFunc` is a zero-argument function together with the tuple that identifies it;
  `PackagedFunc.funcId` evaluates the callable entries of that tuple.

## Main definitions

* `GlobalConstants`, `setGlobalConstants`: `NORMALIZE_DAMPING_POWER` and `PI_TYPE`.
* `CovEstimate`: the value of a factor's `get_cov`.
* `normalizeDamping`, `computePiTracenorm`, `computePiAdjustedDamping`.
* `Hashable`, `IdElement`, `PackagedFunc`, `packageFunc`.

## Main results

* `mul_normalizeDamping`: `n · normalizeDamping λ n = λ · n ^ (1 - p)` for `n > 0`.
* `computePiTracenorm_pos`, `computePiTracenorm_sq`: `π > 0` and `π ^ 2` is the ratio of the
  normalised traces, for estimates with positive traces.
* `computePiAdjustedDamping_mul`, `computePiAdjustedDamping_split`: the product and the ratio
  of the two halves.

## References

* `src/kfac/python/ops/fisher_blocks.py`, lines 53–155.
-/

noncomputable section

open Matrix

namespace FisherBlocks

/-! ### Global constants -/

/-- The values of `PI_TYPE`: `PI_OFF_NAME` and `PI_TRACENORM_NAME`. -/
inductive PiTypeName
  | off
  | tracenorm
  deriving DecidableEq, Repr

/-- The module-level constants the blocks read, with the defaults of the source. -/
structure GlobalConstants where
  normalizeDampingPower : ℝ := 1
  piType : PiTypeName := .tracenorm

/-- `set_global_constants`: each constant given is set, the others are kept. -/
def setGlobalConstants (g : GlobalConstants) (normalizeDampingPower : Option ℝ)
    (piType : Option PiTypeName) : GlobalConstants where
  normalizeDampingPower := normalizeDampingPower.getD g.normalizeDampingPower
  piType := piType.getD g.piType

variable (g : GlobalConstants)

/-! ### Normalising a damping by a replication count -/

/-- `normalize_damping`: `damping / num_replications ** NORMALIZE_DAMPING_POWER`, or `damping`
when the power is zero (Python's truth value of a float). -/
def normalizeDamping (damping numReplications : ℝ) : ℝ :=
  if g.normalizeDampingPower = 0 then damping
  else damping / numReplications ^ g.normalizeDampingPower

variable {g}

theorem normalizeDamping_nonneg {damping n : ℝ} (hd : 0 ≤ damping) (hn : 0 ≤ n) :
    0 ≤ normalizeDamping g damping n := by
  unfold normalizeDamping
  split_ifs
  exacts [hd, div_nonneg hd (Real.rpow_nonneg hn _)]

/-- Scaling a damping normalised by `n` back by `n` leaves `λ · n ^ (1 - p)`, whatever the
power `p` is. -/
theorem mul_normalizeDamping (damping : ℝ) {n : ℝ} (hn : 0 < n) :
    n * normalizeDamping g damping n = damping * n ^ (1 - g.normalizeDampingPower) := by
  unfold normalizeDamping
  split_ifs with hp
  · rw [hp, sub_zero, Real.rpow_one, mul_comm]
  · rw [Real.rpow_sub hn, Real.rpow_one]
    ring

/-- For `n > 0` the divisor `n ^ p` undoes the normalisation, whatever the power `p` is. -/
theorem normalizeDamping_mul_rpow (damping : ℝ) {n : ℝ} (hn : 0 < n) :
    normalizeDamping g damping n * n ^ g.normalizeDampingPower = damping := by
  unfold normalizeDamping
  split_ifs with hp
  · rw [hp, Real.rpow_zero, mul_one]
  · exact div_mul_cancel₀ damping (Real.rpow_pos_of_pos hn _).ne'

/-! ### Covariance estimates and the trace-norm ratio -/

/-- The value of a factor's `get_cov`: a rank-1 tensor holding the diagonal of a diagonal
matrix, or a full rank-2 covariance matrix, which is symmetric. -/
inductive CovEstimate (m : ℕ)
  | diagonal (d : Fin m → ℝ)
  | full (M : Matrix (Fin m) (Fin m) ℝ) (isSymm : M.IsSymm)

namespace CovEstimate

variable {m : ℕ}

/-- The matrix an estimate stands for. -/
def toMatrix : CovEstimate m → Matrix (Fin m) (Fin m) ℝ
  | diagonal d => Matrix.diagonal d
  | full M _ => M

/-- `_trace` in `compute_pi_tracenorm`: the sum of a diagonal, the trace of a full matrix. -/
def trace : CovEstimate m → ℝ
  | diagonal d => ∑ i, d i
  | full M _ => M.trace

theorem isSymm_toMatrix : (c : CovEstimate m) → c.toMatrix.IsSymm
  | diagonal d => isSymm_diagonal d
  | full _ h => h

theorem trace_eq_trace_toMatrix : (c : CovEstimate m) → c.trace = c.toMatrix.trace
  | diagonal d => (trace_diagonal d).symm
  | full _ _ => rfl

/-- An estimate with a positive trace has a positive dimension. -/
theorem dim_pos (c : CovEstimate m) (h : 0 < c.trace) : 0 < m := by
  rcases Nat.eq_zero_or_pos m with rfl | hm
  · simp [trace_eq_trace_toMatrix, Matrix.trace] at h
  · exact hm

end CovEstimate

variable {m k : ℕ}

/-- `compute_pi_tracenorm`: `π = √((tr A · dim B) / (tr B · dim A))`, the square root of the
ratio of the traces normalised by the dimensions. -/
def computePiTracenorm (leftCov : CovEstimate m) (rightCov : CovEstimate k) : ℝ :=
  let leftNorm := leftCov.trace * k
  let rightNorm := rightCov.trace * m
  Real.sqrt (leftNorm / rightNorm)

section Tracenorm

variable {A : CovEstimate m} {G : CovEstimate k}

theorem computePiTracenorm_pos (hA : 0 < A.trace) (hG : 0 < G.trace) :
    0 < computePiTracenorm A G := by
  have hm : (0 : ℝ) < m := Nat.cast_pos.mpr (A.dim_pos hA)
  have hk : (0 : ℝ) < k := Nat.cast_pos.mpr (G.dim_pos hG)
  exact Real.sqrt_pos.mpr (by positivity)

/-- `π ^ 2` is the ratio `(tr A / dim A) / (tr G / dim G)` of the normalised traces. -/
theorem computePiTracenorm_sq (hA : 0 < A.trace) (hG : 0 < G.trace) :
    computePiTracenorm A G ^ 2 = A.trace / m / (G.trace / k) := by
  rw [computePiTracenorm, Real.sq_sqrt (by positivity), div_div_div_eq, mul_comm (m : ℝ)]

end Tracenorm

variable (g)

/-- `compute_pi_adjusted_damping`: the damping `s` of the two factors split as `(s π, s / π)`
under `"tracenorm"`, and as `(s, s)` under `"off"`. -/
def computePiAdjustedDamping (leftCov : CovEstimate m) (rightCov : CovEstimate k)
    (damping : ℝ) : ℝ × ℝ :=
  match g.piType with
  | .tracenorm =>
    let pi := computePiTracenorm leftCov rightCov
    (damping * pi, damping / pi)
  | .off => (damping, damping)

variable {g}

section Adjusted

variable {A : CovEstimate m} {G : CovEstimate k}

/-- The two halves of the damping always multiply to its square: the split moves damping
between the factors without changing its total. -/
theorem computePiAdjustedDamping_mul (hA : 0 < A.trace) (hG : 0 < G.trace) (s : ℝ) :
    (computePiAdjustedDamping g A G s).1 * (computePiAdjustedDamping g A G s).2 = s ^ 2 := by
  unfold computePiAdjustedDamping
  cases g.piType
  · exact (sq s).symm
  · have := (computePiTracenorm_pos hA hG).ne'
    field_simp
    ring

/-- The halves are in the ratio of the normalised traces under `"tracenorm"` (written without
a division, so that it also holds for a zero damping), and equal under `"off"`. -/
theorem computePiAdjustedDamping_split (hA : 0 < A.trace) (hG : 0 < G.trace) (s : ℝ) :
    let d := computePiAdjustedDamping g A G s
    (g.piType = .tracenorm → d.1 * (G.trace / k) = d.2 * (A.trace / m)) ∧
      (g.piType = .off → d.1 = d.2) := by
  have hπ := (computePiTracenorm_pos hA hG).ne'
  have hx : G.trace / k ≠ 0 := div_ne_zero hG.ne' (Nat.cast_ne_zero.mpr (G.dim_pos hG).ne')
  unfold computePiAdjustedDamping
  refine ⟨fun h => ?_, fun h => ?_⟩ <;> simp only [h]
  rw [← div_mul_cancel₀ (A.trace / m) hx, ← computePiTracenorm_sq hA hG, div_mul_eq_mul_div,
    eq_div_iff hπ]
  ring

end Adjusted

/-! ### Packaged functions -/

/-- The hashable values in the identities of this file: strings and numbers. Python compares an
`int` and a `float` by value, so one constructor holds both. -/
inductive Hashable
  | str (s : String)
  | num (x : ℝ)

/-- An entry of a `func_id`: a hashable, or a zero-argument function producing one. -/
inductive IdElement
  | hashable (h : Hashable)
  | callable (f : Unit → Hashable)

/-- `PackagedFunc`: a zero-argument function with the tuple that identifies it. -/
structure PackagedFunc (α : Type) where
  func : Unit → α
  rawFuncId : List IdElement

namespace PackagedFunc

variable {α : Type}

/-- `PackagedFunc.__call__`. -/
def call (f : PackagedFunc α) : α := f.func ()

/-- `PackagedFunc.func_id`: the identifying tuple with its callable entries evaluated. -/
def funcId (f : PackagedFunc α) : List Hashable :=
  f.rawFuncId.map fun
    | .hashable h => h
    | .callable c => c ()

end PackagedFunc

/-- `_package_func`, for the tuples of hashables that every block of the source passes. -/
def packageFunc {α : Type} (func : Unit → α) (funcId : List Hashable) : PackagedFunc α :=
  ⟨func, funcId.map .hashable⟩

@[simp] theorem call_packageFunc {α : Type} (func : Unit → α) (funcId : List Hashable) :
    (packageFunc func funcId).call = func () := rfl

@[simp] theorem funcId_packageFunc {α : Type} (func : Unit → α) (funcId : List Hashable) :
    (packageFunc func funcId).funcId = funcId := by
  simp [packageFunc, PackagedFunc.funcId, List.map_map, Function.comp_def]

end FisherBlocks

end
