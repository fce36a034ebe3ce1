import FisherBlocks.Kronecker
import Mathlib.Algebra.GeomSum
import Mathlib.Data.Matrix.Hadamard
import Mathlib.Data.Nat.Dist

/-!
# Parameters shared across time: `FullyConnectedSeriesFB`

A fully connected layer applied at `T` time-steps has the temporal Fisher block
`F(W) = Σ_{t,s < T} A_{|t-s|} · W · G_{|t-s|}`, where `C_d = C₀ (C₀⁻¹ C₁) ^ d` is the lag-`d`
covariance of an AR(1) model of the inputs (`C = A`) and of the output gradients (`C = G`). The
block only multiplies by an approximate inverse of this block, by one of two options.

*Option 1* takes `L` and `psi` with `Lᵀ C₀ L = 1` and `Lᵀ C₁ L = diag psi`. In the bases `L_A`
and `L_G` the block is diagonal, with eigenvalues the sums `Σ_{t,s < T} x ^ |t-s|` of the
entries of the AR(1) correlation matrices `(x ^ |t-s|)_{t,s}` at `x = psi_A[i] psi_G[j]`. The
kernel `gamma` of the source is their reciprocal (`gamma_mul_lagSum`), so option 1 is the exact
inverse of the block (`multiplyMatpower_option1_inverse`).

`gamma`'s denominator vanishes at `x = 1` for every `T` (`gammaDenominator_one`), where the
source computes `0 / 0`, and at other points outside `(-1, 1)`; the source then computes `nan`
or `inf`, which real division does not model. `FullyConnectedSeriesFB.DividesByNonzero` says that
no division of `multiply_matpower` is by zero, and holds for `T ≥ 1` once every decay factor lies
in `(-1, 1)` (`FullyConnectedSeriesFB.dividesByNonzero_of_mem_Ioo`).

*Option 2* is the pseudo-code of the paper with matrix products precomputed, as the comments of
the source explain: `P = C₁ᵀ C₀⁻¹` and `K = C₀^(-1/2) E`. The precomputed computation equals the
pseudo-code on every input (`multiplyMatpower_option2_eq_pseudoCode`); it needs only that
`C₀^(-1/2)` is a symmetric square root of `C₀⁻¹`.

## Main definitions

* `lagSum`, `gamma`, `gammaDenominator`.
* `SeriesFBApproximation`, `Option1Quants`, `Option2Quants`, `FullyConnectedSeriesFB`.
* `option1Inverse`, `option2Forward`, `option2Backward`, `option2Inverse`,
  `FullyConnectedSeriesFB.multiplyMatpower`, `FullyConnectedSeriesFB.DividesByNonzero`.
* `lagCov`, `temporalFisher`, `Diagonalises`: the block option 1 inverts.
* `Option2Factor`, `option2PseudoCode`: the computation option 2 refines.

## Main results

* `lagSum_mul_sq`, `lagSum_pos`, `gamma_mul_lagSum`: the closed form behind `gamma`.
* `gamma_closedForm`: `gamma`'s denominator is positive on `(-1, 1)`, and `gamma` is
  `1 / Σ_{t,s = 1}^{T} x ^ |t - s|`.
* `gammaDenominator_one`, `FullyConnectedSeriesFB.dividesByNonzero_of_mem_Ioo`: where the source
  divides by zero, and where it does not.
* `multiplyMatpower_option1_inverse`, `multiplyMatpower_option2_eq_pseudoCode`.

## References

* `src/kfac/python/ops/fisher_blocks.py`, lines 1464–1664.
* The paper the source cites, https://openreview.net/pdf?id=HyMTkQZAb, §3.5 and the end of its
  appendix.
-/

noncomputable section

open scoped Matrix

namespace FisherBlocks

/-! ### The AR(1) correlation sums behind `gamma` -/

section LagSum

open Finset

/-- `Σ_{t,s < T} x ^ |t - s|`, the sum of the entries of the `T × T` AR(1) correlation matrix
of `x`. -/
def lagSum (T : ℕ) (x : ℝ) : ℝ :=
  ∑ t ∈ range T, ∑ s ∈ range T, x ^ Nat.dist t s

/-- `gamma(x)` in `FullyConnectedSeriesFB.multiply_matpower`, for `T` time-steps. -/
def gamma (T : ℕ) (x : ℝ) : ℝ :=
  (1 - x) ^ 2 / (T * (1 - x ^ 2) - 2 * x * (1 - x ^ T))

private theorem sum_pow_sub (x : ℝ) :
    ∀ T : ℕ, ∑ t ∈ range T, x ^ (T - t) = x * ∑ i ∈ range T, x ^ i
  | 0 => by simp
  | T + 1 => by
    rw [sum_range_succ, Nat.add_sub_cancel_left, pow_one, geom_sum_succ]
    have h : ∑ t ∈ range T, x ^ (T + 1 - t) = x * ∑ t ∈ range T, x ^ (T - t) := by
      rw [mul_sum]
      exact sum_congr rfl fun t ht => by
        rw [Nat.sub_add_comm (mem_range.mp ht).le, pow_succ, mul_comm]
    rw [h, sum_pow_sub x T]
    ring

/-- One more time-step adds a row and a column: `1 + 2 Σ_{d = 1}^{T} x ^ d`. -/
theorem lagSum_succ (T : ℕ) (x : ℝ) :
    lagSum (T + 1) x = lagSum T x + 2 * (x * ∑ i ∈ range T, x ^ i) + 1 := by
  have hrow : ∀ t ∈ range T, x ^ Nat.dist t T = x ^ (T - t) := fun t ht => by
    rw [Nat.dist_eq_sub_of_le (mem_range.mp ht).le]
  have hcol : ∀ s ∈ range T, x ^ Nat.dist T s = x ^ (T - s) := fun s hs => by
    rw [Nat.dist_comm, Nat.dist_eq_sub_of_le (mem_range.mp hs).le]
  simp only [lagSum, sum_range_succ, sum_add_distrib, sum_congr rfl hrow, sum_congr rfl hcol,
    Nat.dist_self, pow_zero, sum_pow_sub]
  ring

/-- **The closed form of `gamma`'s denominator**: `(1 - x)² Σ_{t,s < T} x ^ |t - s| =
T (1 - x²) - 2x (1 - x ^ T)`. -/
theorem lagSum_mul_sq (x : ℝ) : ∀ T : ℕ,
    (1 - x) ^ 2 * lagSum T x = T * (1 - x ^ 2) - 2 * x * (1 - x ^ T)
  | 0 => by simp [lagSum]
  | T + 1 => by
    have hg := geom_sum_mul x T
    rw [lagSum_succ, Nat.cast_succ]
    linear_combination lagSum_mul_sq x T + 2 * x * (x - 1) * hg

/-- The sum is a sum of squares: `g_T² + (1 - x²) Σ_{n < T} g_n²` for `g_n = Σ_{i < n} x ^ i`. -/
theorem lagSum_eq_sum_sq (x : ℝ) : ∀ T : ℕ,
    lagSum T x = (∑ i ∈ range T, x ^ i) ^ 2 +
      (1 - x ^ 2) * ∑ n ∈ range T, (∑ i ∈ range n, x ^ i) ^ 2
  | 0 => by simp [lagSum]
  | T + 1 => by
    rw [lagSum_succ, geom_sum_succ, sum_range_succ (fun n => (∑ i ∈ range n, x ^ i) ^ 2) T]
    linear_combination lagSum_eq_sum_sq x T

private theorem one_sub_sq_pos {x : ℝ} (hx : |x| < 1) : 0 < 1 - x ^ 2 :=
  sub_pos.mpr ((sq_lt_one_iff_abs_lt_one x).mpr hx)

theorem lagSum_pos {T : ℕ} (hT : 0 < T) {x : ℝ} (hx : |x| < 1) : 0 < lagSum T x := by
  have hxT : x ^ T ≠ 1 := fun h => by
    simpa [← abs_pow, h] using pow_lt_one₀ (abs_nonneg x) hx hT.ne'
  have hg : ∑ i ∈ range T, x ^ i ≠ 0 := fun h =>
    hxT (by linear_combination (x - 1) * h - geom_sum_mul x T)
  rw [lagSum_eq_sum_sq]
  exact add_pos_of_pos_of_nonneg (sq_pos_of_ne_zero hg)
    (mul_nonneg (one_sub_sq_pos hx).le (sum_nonneg fun _ _ => sq_nonneg _))

/-- **`gamma` is the reciprocal of the correlation sum** for `T ≥ 1` and `|x| < 1`. -/
theorem gamma_mul_lagSum {T : ℕ} (hT : 0 < T) {x : ℝ} (hx : |x| < 1) :
    gamma T x * lagSum T x = 1 := by
  have h1 : (1 - x) ^ 2 ≠ 0 := pow_ne_zero 2 (sub_ne_zero.mpr (abs_lt.mp hx).2.ne')
  have hk := (lagSum_pos hT hx).ne'
  rw [gamma, ← lagSum_mul_sq]
  field_simp

/-- The sum over `t, s < T` is the sum over the time-steps `1, …, T`. -/
theorem lagSum_eq_sum_Icc (T : ℕ) (x : ℝ) :
    lagSum T x = ∑ t ∈ Icc 1 T, ∑ s ∈ Icc 1 T, x ^ Nat.dist t s := by
  simp only [lagSum, ← Nat.Ico_succ_right, sum_Ico_eq_sum_range, Nat.succ_sub_one,
    Nat.dist_add_add_left]

/-- **`gamma` is well defined on `(-1, 1)`**: its denominator is `(1 - x)²` times a positive
sum, and `gamma` is the reciprocal of `Σ_{t,s = 1}^{T} x ^ |t - s|`. -/
theorem gamma_closedForm {T : ℕ} (hT : 0 < T) {x : ℝ} (hx : x ∈ Set.Ioo (-1 : ℝ) 1) :
    0 < T * (1 - x ^ 2) - 2 * x * (1 - x ^ T) ∧
      gamma T x = 1 / ∑ t ∈ Icc 1 T, ∑ s ∈ Icc 1 T, x ^ Nat.dist t s := by
  have hx' : |x| < 1 := abs_lt.mpr hx
  rw [← lagSum_mul_sq, ← lagSum_eq_sum_Icc]
  exact ⟨mul_pos (pow_pos (sub_pos.mpr hx.2) 2) (lagSum_pos hT hx'),
    eq_one_div_of_mul_eq_one_left (gamma_mul_lagSum hT hx')⟩

theorem gamma_closedForm_two_half :
    0 < 2 ∧ (1 / 2 : ℝ) ∈ Set.Ioo (-1 : ℝ) 1 ∧
      (0 < (2 : ℕ) * (1 - (1 / 2 : ℝ) ^ 2) - 2 * (1 / 2) * (1 - (1 / 2) ^ 2) ∧
        gamma 2 (1 / 2) = 1 / ∑ t ∈ Icc 1 2, ∑ s ∈ Icc 1 2, (1 / 2 : ℝ) ^ Nat.dist t s) :=
  ⟨two_pos, ⟨by norm_num, by norm_num⟩, gamma_closedForm two_pos ⟨by norm_num, by norm_num⟩⟩

example : gamma 2 (1 / 2) = 1 / 3 := by norm_num [gamma]

end LagSum

/-! ### The block -/

/-- `SeriesFBApproximation`: the simplifying assumption a `FullyConnectedSeriesFB` makes. -/
inductive SeriesFBApproximation
  | option1
  | option2
  deriving DecidableEq, Repr

/-- Modelled from the spec: what `get_option1quants(damping_func)` of a `FullyConnectedMultiKF`
factor of dimension `n` returns (absent from the source): `L = C₀^(-1/2) U` and the eigenvalues
`psi` of the whitened lag-1 covariance. -/
structure Option1Quants (n : ℕ) where
  L : Matrix (Fin n) (Fin n) ℝ
  psi : Fin n → ℝ

/-- Modelled from the spec: what `get_option2quants(damping_func)` returns (absent from the
source): `P = C₁ᵀ C₀⁻¹`, `K = C₀^(-1/2) E` and the eigenvalues `mu`. -/
structure Option2Quants (n : ℕ) where
  P : Matrix (Fin n) (Fin n) ℝ
  K : Matrix (Fin n) (Fin n) ℝ
  mu : Fin n → ℝ

/-- Modelled from the spec: a `FullyConnectedMultiKF` factor with its lag-1 covariance
registered, by the quantities of both options for the damping function the block hands it. -/
structure SeriesFactor (n : ℕ) where
  option1quants : Option1Quants n
  option2quants : Option2Quants n

/-- A `FullyConnectedSeriesFB` of a layer with `m` inputs and `k` outputs, after
`instantiate_factors`. -/
structure FullyConnectedSeriesFB (m k : ℕ) where
  option : SeriesFBApproximation
  numUses : ℕ
  inputFactor : SeriesFactor m
  outputFactor : SeriesFactor k

/-- The `NotImplementedError` of `multiply_matpower` for `exp ≠ -1`: the two literals of the
source are joined without a space. -/
def seriesExpError : String := "FullyConnectedSeriesFB only supports inversemultiplications."

variable {m k : ℕ}

/-- The option-1 branch of `multiply_matpower`, on `Z = Vᵀ` and for `T` time-steps. -/
def option1Inverse (T : ℕ) (qA : Option1Quants m) (qG : Option1Quants k)
    (Z : Matrix (Fin k) (Fin m) ℝ) : Matrix (Fin k) (Fin m) ℝ :=
  let Y : Matrix (Fin k) (Fin m) ℝ := Matrix.of fun i j => gamma T (qG.psi i * qA.psi j)
  let Z := qG.Lᵀ * (Z * qA.L)
  let Z := Z ⊙ Y
  qG.L * (Z * qA.Lᵀ)

/-- `tmp` of option 2: `1·1ᵀ - mu_G·mu_Aᵀ`, plus one wherever that is exactly zero. -/
def option2Denominator (muG : Fin k → ℝ) (muA : Fin m → ℝ) : Matrix (Fin k) (Fin m) ℝ :=
  let tmp : Matrix (Fin k) (Fin m) ℝ := Matrix.of fun i j => 1 - muG i * muA j
  tmp + Matrix.of fun i j => if tmp i j = 0 then 1 else 0

/-- The first two lines of option 2: `Z - P_G Z P_Aᵀ`, then `K_Gᵀ Z K_A`. -/
def option2Forward (qA : Option2Quants m) (qG : Option2Quants k)
    (Z : Matrix (Fin k) (Fin m) ℝ) : Matrix (Fin k) (Fin m) ℝ :=
  let Z := Z - qG.P * (Z * qA.Pᵀ)
  qG.Kᵀ * (Z * qA.K)

/-- The transposed, reversed lines of option 2: `K_G Z K_Aᵀ`, then `Z - P_Gᵀ Z P_A`. -/
def option2Backward (qA : Option2Quants m) (qG : Option2Quants k)
    (Z : Matrix (Fin k) (Fin m) ℝ) : Matrix (Fin k) (Fin m) ℝ :=
  let Z := qG.K * (Z * qA.Kᵀ)
  Z - qG.Pᵀ * (Z * qA.P)

/-- The option-2 branch of `multiply_matpower`, on `Z = Vᵀ` and for `T` time-steps. -/
def option2Inverse (T : ℕ) (qA : Option2Quants m) (qG : Option2Quants k)
    (Z : Matrix (Fin k) (Fin m) ℝ) : Matrix (Fin k) (Fin m) ℝ :=
  let Z := option2Forward qA qG Z
  let tmp := option2Denominator qG.mu qA.mu
  let Z := Matrix.of fun i j => Z i j / tmp i j
  let Z := option2Backward qA qG Z
  Matrix.of fun i j => Z i j / T

namespace FullyConnectedSeriesFB

variable (B : FullyConnectedSeriesFB m k)

/-- `_num_timesteps`: the number of uses. -/
def numTimesteps : ℕ := B.numUses

/-- `multiply_matpower(vector, -1)` between its two transposes: the branch of the block's
option, in the `batch_dim == 1` orientation `Z = Vᵀ`. -/
def transposedInverse (Z : Matrix (Fin k) (Fin m) ℝ) : Matrix (Fin k) (Fin m) ℝ :=
  match B.option with
  | .option1 => option1Inverse B.numTimesteps B.inputFactor.option1quants
      B.outputFactor.option1quants Z
  | .option2 => option2Inverse B.numTimesteps B.inputFactor.option2quants
      B.outputFactor.option2quants Z

/-- `multiply_matpower(vector, exp)`, on the `layer_params_to_mat2d` image of the parameters. -/
def multiplyMatpower (vector : Matrix (Fin m) (Fin k) ℝ) (exp : ℤ) :
    Except String (Matrix (Fin m) (Fin k) ℝ) :=
  if exp ≠ -1 then .error seriesExpError
  else .ok (B.transposedInverse vectorᵀ)ᵀ

theorem multiplyMatpower_neg_one (V : Matrix (Fin m) (Fin k) ℝ) :
    B.multiplyMatpower V (-1) = .ok (B.transposedInverse Vᵀ)ᵀ := rfl

theorem multiplyMatpower_of_ne {exp : ℤ} (h : exp ≠ -1) (V : Matrix (Fin m) (Fin k) ℝ) :
    B.multiplyMatpower V exp = .error seriesExpError := if_pos h

end FullyConnectedSeriesFB

/-! ### Option 1 inverts the temporal Fisher block -/

section Option1

open Finset Matrix

/-- `C₀ (C₀⁻¹ C₁) ^ d`: the lag-`d` covariance of the AR(1) model with lag-0 and lag-1
covariances `C₀` and `C₁`. -/
def lagCov {n : ℕ} (C0 C1 : Matrix (Fin n) (Fin n) ℝ) (d : ℕ) : Matrix (Fin n) (Fin n) ℝ :=
  C0 * (C0⁻¹ * C1) ^ d

/-- The temporal Fisher block `W ↦ Σ_{t,s < T} A_{|t-s|} W G_{|t-s|}` that the series block
approximates: the specification option 1 is compared with. -/
def temporalFisher (T : ℕ) (A0 A1 : Matrix (Fin m) (Fin m) ℝ) (G0 G1 : Matrix (Fin k) (Fin k) ℝ)
    (W : Matrix (Fin m) (Fin k) ℝ) : Matrix (Fin m) (Fin k) ℝ :=
  ∑ t ∈ range T, ∑ s ∈ range T, lagCov A0 A1 (Nat.dist t s) * W * lagCov G0 G1 (Nat.dist t s)

/-- `L` and `psi` diagonalise `(C₀, C₁)` simultaneously: `Lᵀ C₀ L = 1` and
`Lᵀ C₁ L = diag psi`. -/
structure Diagonalises {n : ℕ} (q : Option1Quants n) (C0 C1 : Matrix (Fin n) (Fin n) ℝ) :
    Prop where
  whiten : q.Lᵀ * C0 * q.L = 1
  diag : q.Lᵀ * C1 * q.L = diagonal q.psi

namespace Diagonalises

variable {n : ℕ} {q : Option1Quants n} {C0 C1 : Matrix (Fin n) (Fin n) ℝ}
  (h : Diagonalises q C0 C1)
include h

theorem mul_L_mul_transpose : C0 * (q.L * q.Lᵀ) = 1 := by
  have : q.Lᵀ * (C0 * q.L) = 1 := by rw [← Matrix.mul_assoc]; exact h.whiten
  rw [← Matrix.mul_assoc]
  exact Matrix.mul_eq_one_comm.mp this

theorem L_mul_transpose_mul : q.L * q.Lᵀ * C0 = 1 :=
  Matrix.mul_eq_one_comm.mp h.mul_L_mul_transpose

theorem inv_eq : C0⁻¹ = q.L * q.Lᵀ := Matrix.inv_eq_right_inv h.mul_L_mul_transpose

/-- One AR(1) step keeps the whitening basis: `C₀⁻¹ C₁ L = L diag psi`. -/
theorem transition_mul_L : C0⁻¹ * C1 * q.L = q.L * diagonal q.psi := by
  rw [h.inv_eq, Matrix.mul_assoc, Matrix.mul_assoc, ← Matrix.mul_assoc q.Lᵀ, h.diag]

/-- The lag-`d` covariance from the right: `C_d L = C₀ L diag psi ^ d`. -/
theorem lagCov_mul_L (d : ℕ) : lagCov C0 C1 d * q.L = C0 * q.L * diagonal q.psi ^ d := by
  have hs : SemiconjBy q.L (diagonal q.psi) (C0⁻¹ * C1) := h.transition_mul_L.symm
  rw [lagCov, Matrix.mul_assoc, ← (hs.pow_right d).eq, ← Matrix.mul_assoc]

/-- The lag-`d` covariance from the left: `Lᵀ C_d = diag psi ^ d Lᵀ C₀`. -/
theorem transpose_mul_lagCov (d : ℕ) :
    q.Lᵀ * lagCov C0 C1 d = diagonal q.psi ^ d * q.Lᵀ * C0 := by
  have hs : SemiconjBy (q.Lᵀ * C0) (C0⁻¹ * C1) (diagonal q.psi) :=
    calc q.Lᵀ * C0 * (C0⁻¹ * C1) = q.Lᵀ * (C0 * (q.L * q.Lᵀ)) * C1 := by
          rw [h.inv_eq]; simp only [Matrix.mul_assoc]
      _ = q.Lᵀ * C1 * (q.L * q.Lᵀ * C0) := by
          rw [h.mul_L_mul_transpose, h.L_mul_transpose_mul, Matrix.mul_one, Matrix.mul_one]
      _ = diagonal q.psi * (q.Lᵀ * C0) := by rw [← h.diag]; simp only [Matrix.mul_assoc]
  rw [lagCov, ← Matrix.mul_assoc, (hs.pow_right d).eq, Matrix.mul_assoc]

end Diagonalises

/-- In a diagonal basis the AR(1) sums are correlation sums, entry by entry. -/
theorem sum_diagonal_pow_mul_mul (T : ℕ) (a : Fin m → ℝ) (b : Fin k → ℝ)
    (X : Matrix (Fin m) (Fin k) ℝ) :
    ∑ t ∈ range T, ∑ s ∈ range T, diagonal a ^ Nat.dist t s * X * diagonal b ^ Nat.dist t s =
      X ⊙ Matrix.of fun i j => lagSum T (a i * b j) := by
  ext i j
  simp only [Matrix.sum_apply, diagonal_pow, diagonal_mul, mul_diagonal, hadamard_apply, of_apply,
    lagSum, Finset.mul_sum, Pi.pow_apply, mul_pow]
  exact Finset.sum_congr rfl fun t _ => Finset.sum_congr rfl fun s _ => by ring

private theorem transpose_hadamard {κ ι : Type} (A B : Matrix κ ι ℝ) : (A ⊙ B)ᵀ = Aᵀ ⊙ Bᵀ :=
  rfl

private theorem hadamard_hadamard_cancel {X H H' : Matrix (Fin m) (Fin k) ℝ}
    (h : ∀ i j, H i j * H' i j = 1) : X ⊙ H ⊙ H' = X := by
  ext i j
  simp [hadamard_apply, mul_assoc, h]

variable {T : ℕ} {qA : Option1Quants m} {qG : Option1Quants k}
  {A0 A1 : Matrix (Fin m) (Fin m) ℝ} {G0 G1 : Matrix (Fin k) (Fin k) ℝ}

/-- Applied to `L_A X L_Gᵀ`, the temporal Fisher block weights `X` by the KMS sums. -/
theorem temporalFisher_sandwich (hA : Diagonalises qA A0 A1) (hG : Diagonalises qG G0 G1)
    (X : Matrix (Fin m) (Fin k) ℝ) :
    temporalFisher T A0 A1 G0 G1 (qA.L * X * qG.Lᵀ) =
      A0 * qA.L * (X ⊙ Matrix.of fun i j => lagSum T (qA.psi i * qG.psi j)) * (qG.Lᵀ * G0) := by
  have hterm : ∀ d, lagCov A0 A1 d * (qA.L * X * qG.Lᵀ) * lagCov G0 G1 d =
      A0 * qA.L * (diagonal qA.psi ^ d * X * diagonal qG.psi ^ d) * (qG.Lᵀ * G0) := fun d =>
    calc _ = lagCov A0 A1 d * qA.L * X * (qG.Lᵀ * lagCov G0 G1 d) := by
          simp only [Matrix.mul_assoc]
      _ = _ := by rw [hA.lagCov_mul_L, hG.transpose_mul_lagCov]; simp only [Matrix.mul_assoc]
  simp only [temporalFisher, hterm, ← Matrix.mul_sum, ← Matrix.sum_mul, sum_diagonal_pow_mul_mul]

/-- Whitened on both sides, the temporal Fisher block weights its whitened argument by the KMS
sums. -/
theorem whiten_temporalFisher (hA : Diagonalises qA A0 A1) (hG : Diagonalises qG G0 G1)
    (W : Matrix (Fin m) (Fin k) ℝ) :
    qA.Lᵀ * temporalFisher T A0 A1 G0 G1 W * qG.L =
      (qA.Lᵀ * A0 * W * (G0 * qG.L)) ⊙ Matrix.of fun i j => lagSum T (qA.psi i * qG.psi j) := by
  have hterm : ∀ d, qA.Lᵀ * (lagCov A0 A1 d * W * lagCov G0 G1 d) * qG.L =
      diagonal qA.psi ^ d * (qA.Lᵀ * A0 * W * (G0 * qG.L)) * diagonal qG.psi ^ d := fun d =>
    calc _ = qA.Lᵀ * lagCov A0 A1 d * W * (lagCov G0 G1 d * qG.L) := by
          simp only [Matrix.mul_assoc]
      _ = _ := by rw [hA.transpose_mul_lagCov, hG.lagCov_mul_L]; simp only [Matrix.mul_assoc]
  simp only [temporalFisher, Matrix.mul_sum, Matrix.sum_mul, hterm, sum_diagonal_pow_mul_mul]

/-- Option 1 in the `batch_dim == 0` orientation: `V ↦ L_A ((L_Aᵀ V L_G) ⊙ Yᵀ) L_Gᵀ`. -/
theorem transpose_option1Inverse (V : Matrix (Fin m) (Fin k) ℝ) :
    (option1Inverse T qA qG Vᵀ)ᵀ = qA.L * ((qA.Lᵀ * V * qG.L) ⊙
      (Matrix.of fun i j => gamma T (qG.psi i * qA.psi j))ᵀ) * qG.Lᵀ := by
  simp only [option1Inverse, transpose_mul, transpose_hadamard, transpose_transpose,
    Matrix.mul_assoc]

private theorem gamma_mul_lagSum_transpose (hT : 0 < T)
    (hψ : ∀ i j, |qG.psi i * qA.psi j| < 1) (i : Fin m) (j : Fin k) :
    (Matrix.of fun i j => gamma T (qG.psi i * qA.psi j))ᵀ i j *
      (Matrix.of fun i j => lagSum T (qA.psi i * qG.psi j)) i j = 1 := by
  rw [transpose_apply, of_apply, of_apply, mul_comm (qA.psi i)]
  exact gamma_mul_lagSum hT (hψ j i)

/-- Option 1 is a right inverse of the temporal Fisher block. -/
theorem temporalFisher_option1Inverse (hT : 0 < T) (hA : Diagonalises qA A0 A1)
    (hG : Diagonalises qG G0 G1) (hψ : ∀ i j, |qG.psi i * qA.psi j| < 1)
    (V : Matrix (Fin m) (Fin k) ℝ) :
    temporalFisher T A0 A1 G0 G1 (option1Inverse T qA qG Vᵀ)ᵀ = V := by
  rw [transpose_option1Inverse, temporalFisher_sandwich hA hG,
    hadamard_hadamard_cancel (gamma_mul_lagSum_transpose hT hψ)]
  calc A0 * qA.L * (qA.Lᵀ * V * qG.L) * (qG.Lᵀ * G0) =
        A0 * (qA.L * qA.Lᵀ) * V * (qG.L * qG.Lᵀ * G0) := by simp only [Matrix.mul_assoc]
    _ = V := by rw [hA.mul_L_mul_transpose, hG.L_mul_transpose_mul, Matrix.one_mul, Matrix.mul_one]

/-- Option 1 is a left inverse of the temporal Fisher block. -/
theorem option1Inverse_temporalFisher (hT : 0 < T) (hA : Diagonalises qA A0 A1)
    (hG : Diagonalises qG G0 G1) (hψ : ∀ i j, |qG.psi i * qA.psi j| < 1)
    (W : Matrix (Fin m) (Fin k) ℝ) :
    (option1Inverse T qA qG (temporalFisher T A0 A1 G0 G1 W)ᵀ)ᵀ = W := by
  rw [transpose_option1Inverse, whiten_temporalFisher hA hG,
    hadamard_hadamard_cancel fun i j => (mul_comm _ _).trans (gamma_mul_lagSum_transpose hT hψ i j)]
  calc qA.L * (qA.Lᵀ * A0 * W * (G0 * qG.L)) * qG.Lᵀ =
        qA.L * qA.Lᵀ * A0 * W * (G0 * (qG.L * qG.Lᵀ)) := by simp only [Matrix.mul_assoc]
    _ = W := by rw [hA.L_mul_transpose_mul, hG.mul_L_mul_transpose, Matrix.one_mul, Matrix.mul_one]

/-- **Option 1 is the exact inverse of the temporal Fisher block.** When `(L, psi)` diagonalise
the lag-0 and lag-1 covariances of both factors and every decay factor lies in `(-1, 1)`,
`multiply_matpower(V, -1)` returns `W` exactly when `F(W) = V`. -/
theorem multiplyMatpower_option1_inverse (B : FullyConnectedSeriesFB m k)
    (hopt : B.option = .option1) (hT : 0 < B.numTimesteps)
    (hA : Diagonalises B.inputFactor.option1quants A0 A1)
    (hG : Diagonalises B.outputFactor.option1quants G0 G1)
    (hψ : ∀ i j, B.outputFactor.option1quants.psi i * B.inputFactor.option1quants.psi j ∈
      Set.Ioo (-1 : ℝ) 1)
    (V W : Matrix (Fin m) (Fin k) ℝ) :
    B.multiplyMatpower V (-1) = .ok W ↔ temporalFisher B.numTimesteps A0 A1 G0 G1 W = V := by
  have hψ' := fun i j => abs_lt.mpr (hψ i j)
  simp only [FullyConnectedSeriesFB.multiplyMatpower_neg_one,
    FullyConnectedSeriesFB.transposedInverse, hopt, Except.ok.injEq]
  constructor <;> rintro rfl
  exacts [temporalFisher_option1Inverse hT hA hG hψ' V,
    option1Inverse_temporalFisher hT hA hG hψ' W]

/-- Option 1 of a one-by-one block over one time-step, with white-noise factors. -/
theorem multiplyMatpower_option1_inverse_whiteNoise :
    let q : Option1Quants 1 := ⟨1, 0⟩
    let B : FullyConnectedSeriesFB 1 1 := ⟨.option1, 1, ⟨q, ⟨0, 0, 0⟩⟩, ⟨q, ⟨0, 0, 0⟩⟩⟩
    B.option = .option1 ∧ 0 < B.numTimesteps ∧ Diagonalises q 1 0 ∧
      (∀ i j, q.psi i * q.psi j ∈ Set.Ioo (-1 : ℝ) 1) ∧
      (B.multiplyMatpower 1 (-1) = .ok 1 ↔
        temporalFisher B.numTimesteps (1 : Matrix (Fin 1) (Fin 1) ℝ) 0
          (1 : Matrix (Fin 1) (Fin 1) ℝ) 0 1 = 1) := by
  intro q B
  have hq : Diagonalises q 1 0 := ⟨by simp [q], by simp [q]; exact Matrix.diagonal_zero.symm⟩
  have hψ : ∀ i j, q.psi i * q.psi j ∈ Set.Ioo (-1 : ℝ) 1 := fun _ _ => by simp [q]
  exact ⟨rfl, Nat.one_pos, hq, hψ,
    multiplyMatpower_option1_inverse B rfl Nat.one_pos hq hq hψ 1 1⟩

end Option1

/-! ### Option 2 computes its pseudo-code -/

section Option2

open Matrix

/-- Modelled from the spec: what the pseudo-code of option 2 reads of one factor: the damped
covariance `C₀`, the lag-1 covariance `C₁`, a symmetric square root `S` of `C₀⁻¹` (the
`C₀^(-1/2)` of the comments), and the eigenvectors `E` and eigenvalues `mu` it uses. -/
structure Option2Factor (n : ℕ) where
  C0 : Matrix (Fin n) (Fin n) ℝ
  C1 : Matrix (Fin n) (Fin n) ℝ
  S : Matrix (Fin n) (Fin n) ℝ
  E : Matrix (Fin n) (Fin n) ℝ
  mu : Fin n → ℝ
  S_symm : Sᵀ = S
  S_mul_S : S * S = C0⁻¹

namespace Option2Factor

variable {n : ℕ} (f : Option2Factor n)

/-- `hΨ = C₀^(-1/2) C₁ C₀^(-1/2)`. -/
def hPsi : Matrix (Fin n) (Fin n) ℝ := f.S * f.C1 * f.S

/-- The quantities the source precomputes from a factor: `P = C₁ᵀ C₀⁻¹` and
`K = C₀^(-1/2) E`. -/
def quants : Option2Quants n := ⟨f.C1ᵀ * f.C0⁻¹, f.S * f.E, f.mu⟩

@[simp] theorem quants_K : f.quants.K = f.S * f.E := rfl

@[simp] theorem quants_mu : f.quants.mu = f.mu := rfl

/-- `C₀^(-1/2) P = hΨᵀ C₀^(-1/2)`. -/
theorem S_mul_P : f.S * f.quants.P = f.hPsiᵀ * f.S := by
  simp only [quants, hPsi, transpose_mul, f.S_symm, ← f.S_mul_S, Matrix.mul_assoc]

theorem S_mul_P_mul {ι : Type} [Fintype ι] (X : Matrix (Fin n) ι ℝ) :
    f.S * (f.quants.P * X) = f.hPsiᵀ * (f.S * X) := by
  rw [← Matrix.mul_assoc, S_mul_P, Matrix.mul_assoc]

/-- `Pᵀ C₀^(-1/2) = C₀^(-1/2) hΨ`, the identity the comments of the source derive. -/
theorem P_transpose_mul_S {ι : Type} [Fintype ι] (X : Matrix (Fin n) ι ℝ) :
    f.quants.Pᵀ * (f.S * X) = f.S * (f.hPsi * X) := by
  simp only [quants, hPsi, transpose_mul, transpose_transpose, ← f.S_mul_S, f.S_symm,
    Matrix.mul_assoc]

end Option2Factor

/-- Modelled from the spec: the pseudo-code of the paper from which the comments of option 2
derive the computation, on `Z = Vᵀ` and for `T` time-steps. -/
def option2PseudoCode (T : ℕ) (fA : Option2Factor m) (fG : Option2Factor k)
    (Z : Matrix (Fin k) (Fin m) ℝ) : Matrix (Fin k) (Fin m) ℝ :=
  let D : Matrix (Fin k) (Fin m) ℝ := Matrix.of fun i j =>
    if 1 - fG.mu i * fA.mu j = 0 then 1 else 1 - fG.mu i * fA.mu j
  let Z1 := fG.S * Z * fA.S
  let Z2 := Z1 - fG.hPsiᵀ * Z1 * fA.hPsi
  let Z3 := fG.Eᵀ * Z2 * fA.E
  let Z4 := Matrix.of fun i j => Z3 i j / D i j
  let Z5 := fG.E * Z4 * fA.Eᵀ
  let Z6 := Z5 - fG.hPsi * Z5 * fA.hPsiᵀ
  Matrix.of fun i j => (fG.S * Z6 * fA.S) i j / T

theorem option2Denominator_apply (muG : Fin k → ℝ) (muA : Fin m → ℝ) (i : Fin k) (j : Fin m) :
    option2Denominator muG muA i j =
      if 1 - muG i * muA j = 0 then 1 else 1 - muG i * muA j := by
  simp only [option2Denominator, add_apply, of_apply]
  split_ifs with h <;> simp [h]

variable (fA : Option2Factor m) (fG : Option2Factor k)

/-- The two forward lines compute the first three lines of the pseudo-code. -/
theorem option2Forward_quants (Z : Matrix (Fin k) (Fin m) ℝ) :
    option2Forward fA.quants fG.quants Z =
      fG.Eᵀ * (fG.S * Z * fA.S - fG.hPsiᵀ * (fG.S * Z * fA.S) * fA.hPsi) * fA.E := by
  simp only [option2Forward, Option2Factor.quants_K, transpose_mul, fG.S_symm, Matrix.sub_mul,
    Matrix.mul_sub, Matrix.mul_assoc, Option2Factor.S_mul_P_mul, Option2Factor.P_transpose_mul_S]

/-- The two backward lines compute the last three lines of the pseudo-code, before `/ T`. -/
theorem option2Backward_quants (Z : Matrix (Fin k) (Fin m) ℝ) :
    option2Backward fA.quants fG.quants Z =
      fG.S * (fG.E * Z * fA.Eᵀ - fG.hPsi * (fG.E * Z * fA.Eᵀ) * fA.hPsiᵀ) * fA.S := by
  simp only [option2Backward, Option2Factor.quants_K, transpose_mul, fA.S_symm, Matrix.sub_mul,
    Matrix.mul_sub, Matrix.mul_assoc, Option2Factor.S_mul_P, Option2Factor.P_transpose_mul_S]

/-- The optimised option 2 equals the pseudo-code on every input. -/
theorem option2Inverse_eq_option2PseudoCode (T : ℕ) (Z : Matrix (Fin k) (Fin m) ℝ) :
    option2Inverse T fA.quants fG.quants Z = option2PseudoCode T fA fG Z := by
  simp only [option2Inverse, option2PseudoCode, option2Forward_quants, option2Backward_quants,
    option2Denominator_apply, Option2Factor.quants_mu, of_apply]

/-- **Option 2 refines its pseudo-code.** When the block's option-2 quantities are
`P = C₁ᵀ C₀⁻¹` and `K = S E` for a symmetric square root `S` of `C₀⁻¹`, `multiply_matpower(V, -1)`
returns the pseudo-code's result on `Z = Vᵀ`, transposed back. -/
theorem multiplyMatpower_option2_eq_pseudoCode (B : FullyConnectedSeriesFB m k)
    (hopt : B.option = .option2) (hA : B.inputFactor.option2quants = fA.quants)
    (hG : B.outputFactor.option2quants = fG.quants) (V : Matrix (Fin m) (Fin k) ℝ) :
    B.multiplyMatpower V (-1) = .ok (option2PseudoCode B.numTimesteps fA fG Vᵀ)ᵀ := by
  rw [B.multiplyMatpower_neg_one, FullyConnectedSeriesFB.transposedInverse]
  simp only [hopt, hA, hG, option2Inverse_eq_option2PseudoCode]

end Option2

/-- Option 2 of a one-by-one block with identity factors. -/
theorem multiplyMatpower_option2_eq_pseudoCode_identity :
    let f : Option2Factor 1 := ⟨1, 0, 1, 1, 0, Matrix.transpose_one, by simp⟩
    let B : FullyConnectedSeriesFB 1 1 := ⟨.option2, 1, ⟨⟨1, 0⟩, f.quants⟩, ⟨⟨1, 0⟩, f.quants⟩⟩
    B.option = .option2 ∧ B.inputFactor.option2quants = f.quants ∧
      B.outputFactor.option2quants = f.quants ∧
      B.multiplyMatpower 1 (-1) = .ok (option2PseudoCode B.numTimesteps f f 1ᵀ)ᵀ := by
  intro f B
  exact ⟨rfl, rfl, rfl, multiplyMatpower_option2_eq_pseudoCode f f B rfl rfl rfl 1⟩

end FisherBlocks

end
