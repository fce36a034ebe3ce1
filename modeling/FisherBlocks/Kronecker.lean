import FisherBlocks.Blocks
import Mathlib.Data.Matrix.Kronecker
import Mathlib.LinearAlgebra.Matrix.ZPow
import Mathlib.LinearAlgebra.Matrix.Reindex
import Mathlib.Logic.Equiv.Fin

/-!
# Kronecker-factored blocks

`KroneckerProductFB` approximates a block by `c · (A ⊗ G)` for an input factor `A`, an output
factor `G` and the renormalisation coefficient `c = _renorm_coeff` of its subclass.
`multiply_matpower` never forms the Kronecker product: it multiplies the matrix `V` of the
parameters by the damped power of `G` on the right, by the damped power of `A` on the left, and
by `c ^ exp` when `c ≠ 1`. Read in the row-major layout of `np.kron`, this is the damped block's
power applied to `vec V`, for every integer exponent (`flatten_multiplyMatpower`).

`_setup_damping` builds one damping function per factor from `compute_pi_adjusted_damping`
applied to the two covariance estimates and to the square root of the (possibly normalised)
damping. Each subclass normalises by exactly its own renormalisation coefficient, so the damped
block carries `λ · c ^ (1 - p)` of isotropic damping whatever the trace ratio is
(`damping_mass_of_instantiateFactors`). The identity of every damping function records all that
its value reads, so that two damping functions with one identity have one value
(`call_eq_of_funcId_eq`).

## Main definitions

* `Factor`, `Factor.damped`, `Factor.leftMultiplyMatpower`, `Factor.rightMultiplyMatpower`.
* `flatten`, `kroneckerProduct`: `vec` in row-major order and `utils.kronecker_product`.
* `maybeNormalizedDamping`, `computeDamping`, `dampingId`, `setupDamping`.
* `KroneckerProductFB`, `KroneckerProductFB.multiplyMatpower`,
  `KroneckerProductFB.fullFisherBlock`, `KroneckerProductFB.registerMatpower`.
* `KroneckerVariant`, `KroneckerVariant.instantiateFactors`.
* `DampingSite`: every place of the source that builds a damping function.

## Main results

* `kronecker_zpow`, `kroneckerProduct_mulVec_flatten`: the Kronecker laws used.
* `flatten_multiplyMatpower`: `multiply_matpower` is the power of the damped block.
* `damping_mass_of_instantiateFactors`: the damping carried by every Kronecker subclass.
* `numConvLocations_pos_iff_and_divisors`: when the convolutional blocks' divisors are positive.
* `call_eq_of_funcId_eq`: damping identities never merge two values.

## References

* `src/kfac/python/ops/fisher_blocks.py`, lines 640–882 and 1275–1454.
* The paper the source cites, https://arxiv.org/pdf/1503.05671.pdf, section 6.3.
-/

noncomputable section

open scoped Matrix Kronecker

namespace FisherBlocks

/-! ### Kronecker products and integer powers -/

section MatrixPowers

open Matrix

variable {ι κ : Type} [Fintype ι] [Fintype κ]

/-- The entries of a matrix over pairs of indices, the row index first. -/
def vecPair (V : Matrix ι κ ℝ) : ι × κ → ℝ := fun p => V p.1 p.2

/-- `(A ⊗ B) · vec V = vec (A · V · Bᵀ)`. -/
theorem kronecker_mulVec_vecPair (A : Matrix ι ι ℝ) (B : Matrix κ κ ℝ) (V : Matrix ι κ ℝ) :
    (A ⊗ₖ B) *ᵥ vecPair V = vecPair (A * V * Bᵀ) := by
  ext ⟨i, j⟩
  simp only [vecPair, mulVec, dotProduct, kronecker_apply, Fintype.sum_prod_type, mul_apply,
    transpose_apply, Finset.sum_mul]
  rw [Finset.sum_comm]
  exact Finset.sum_congr rfl fun _ _ => Finset.sum_congr rfl fun _ _ => by ring

variable [DecidableEq ι] [DecidableEq κ]

theorem kronecker_pow (A : Matrix ι ι ℝ) (B : Matrix κ κ ℝ) :
    ∀ n : ℕ, (A ⊗ₖ B) ^ n = (A ^ n) ⊗ₖ (B ^ n)
  | 0 => by simp only [pow_zero, one_kronecker_one]
  | n + 1 => by rw [pow_succ, kronecker_pow A B n, pow_succ, pow_succ, mul_kronecker_mul]

theorem kronecker_zpow (A : Matrix ι ι ℝ) (B : Matrix κ κ ℝ) :
    ∀ p : ℤ, (A ⊗ₖ B) ^ p = (A ^ p) ⊗ₖ (B ^ p)
  | (n : ℕ) => by simp only [zpow_natCast, kronecker_pow]
  | .negSucc n => by simp only [zpow_negSucc, kronecker_pow, inv_kronecker]

/-- Inverting a nonzero multiple of a matrix inverts the scalar, invertible or not. -/
theorem inv_smul_of_ne_zero {c : ℝ} (hc : c ≠ 0) (M : Matrix ι ι ℝ) :
    (c • M)⁻¹ = c⁻¹ • M⁻¹ := by
  by_cases hM : IsUnit M.det
  · exact inv_smul' M (Units.mk0 c hc) hM
  · have hcM : ¬IsUnit (c • M).det := fun h => hM (IsUnit.mul_iff.mp (det_smul M c ▸ h)).2
    rw [nonsing_inv_apply_not_isUnit _ hM, nonsing_inv_apply_not_isUnit _ hcM, smul_zero]

theorem smul_zpow {c : ℝ} (hc : c ≠ 0) (M : Matrix ι ι ℝ) :
    ∀ p : ℤ, (c • M) ^ p = c ^ p • M ^ p
  | (n : ℕ) => by simp only [zpow_natCast, smul_pow]
  | .negSucc n => by
    rw [zpow_negSucc, zpow_negSucc, zpow_negSucc, smul_pow,
      inv_smul_of_ne_zero (pow_ne_zero _ hc)]

theorem reindex_zpow (e : ι ≃ κ) (M : Matrix ι ι ℝ) :
    ∀ p : ℤ, reindex e e M ^ p = reindex e e (M ^ p)
  | (n : ℕ) => by simpa only [zpow_natCast] using (map_pow (reindexAlgEquiv ℝ ℝ e) M n).symm
  | .negSucc n => by
    rw [zpow_negSucc, zpow_negSucc, ← inv_reindex]
    exact congrArg Inv.inv (by simpa using (map_pow (reindexAlgEquiv ℝ ℝ e) M (n + 1)).symm)

end MatrixPowers

/-! ### Row-major vectors and `np.kron` -/

section RowMajor

open Matrix

variable {m k : ℕ}

/-- `vec V` in row-major order: `V i j` sits at `i * k + j`. -/
def flatten (V : Matrix (Fin m) (Fin k) ℝ) : Fin (m * k) → ℝ :=
  vecPair V ∘ finProdFinEquiv.symm

/-- Modelled from the spec: `utils.kronecker_product` (absent from the source), the Kronecker
product in the layout of `np.kron`, its pair indices flattened in row-major order. -/
def kroneckerProduct (A : Matrix (Fin m) (Fin m) ℝ) (B : Matrix (Fin k) (Fin k) ℝ) :
    Matrix (Fin (m * k)) (Fin (m * k)) ℝ :=
  reindex finProdFinEquiv finProdFinEquiv (A ⊗ₖ B)

@[simp] theorem flatten_smul (c : ℝ) (V : Matrix (Fin m) (Fin k) ℝ) :
    flatten (c • V) = c • flatten V := rfl

theorem kroneckerProduct_zpow (A : Matrix (Fin m) (Fin m) ℝ) (B : Matrix (Fin k) (Fin k) ℝ)
    (p : ℤ) : kroneckerProduct A B ^ p = kroneckerProduct (A ^ p) (B ^ p) := by
  rw [kroneckerProduct, reindex_zpow, kronecker_zpow, kroneckerProduct]

theorem kroneckerProduct_mulVec_flatten (A : Matrix (Fin m) (Fin m) ℝ)
    (B : Matrix (Fin k) (Fin k) ℝ) (V : Matrix (Fin m) (Fin k) ℝ) :
    kroneckerProduct A B *ᵥ flatten V = flatten (A * V * Bᵀ) := by
  rw [kroneckerProduct, reindex_apply, submatrix_mulVec_equiv, flatten, flatten, Equiv.symm_symm,
    Function.comp_assoc, Equiv.symm_comp_self, Function.comp_id, kronecker_mulVec_vecPair]

end RowMajor

/-! ### Factors -/

/-- Modelled from the spec: a Kronecker factor of `fisher_factors` (absent from the source), by
the two things the blocks read from it, its stable `name` and its covariance estimate
`get_cov`. Its `left_multiply_matpower(x, exp, damping_func)` is
`(cov + damping_func() · I) ^ exp · x`; `right_multiply_matpower` multiplies on the right. -/
structure Factor (m : ℕ) where
  name : String
  cov : CovEstimate m

namespace Factor

variable {m k : ℕ}

/-- The covariance estimate with `damping` added to its diagonal. -/
def damped (f : Factor m) (damping : ℝ) : Matrix (Fin m) (Fin m) ℝ :=
  f.cov.toMatrix + damping • 1

/-- `left_multiply_matpower` of a Kronecker factor. -/
def leftMultiplyMatpower (f : Factor m) (x : Matrix (Fin m) (Fin k) ℝ) (exp : ℤ)
    (dampingFunc : PackagedFunc ℝ) : Matrix (Fin m) (Fin k) ℝ :=
  f.damped dampingFunc.call ^ exp * x

/-- `right_multiply_matpower` of a Kronecker factor. -/
def rightMultiplyMatpower (f : Factor k) (x : Matrix (Fin m) (Fin k) ℝ) (exp : ℤ)
    (dampingFunc : PackagedFunc ℝ) : Matrix (Fin m) (Fin k) ℝ :=
  x * f.damped dampingFunc.call ^ exp

theorem isSymm_damped (f : Factor m) (damping : ℝ) : (f.damped damping).IsSymm :=
  f.cov.isSymm_toMatrix.add (Matrix.isSymm_one.smul damping)

@[simp] theorem damped_zero (f : Factor m) : f.damped 0 = f.cov.toMatrix := by
  simp [damped]

end Factor

/-! ### `_setup_damping` -/

section SetupDamping

variable (g : GlobalConstants) {m k : ℕ}

/-- The damping `compute_damping` splits: normalised by `normalization` when one is given. -/
def maybeNormalizedDamping (damping : ℝ) : Option ℝ → ℝ
  | some n => normalizeDamping g damping n
  | none => damping

/-- `compute_damping` in `_setup_damping`: the pi-adjusted split of the square root of the
(possibly normalised) damping, for the current covariance estimates of the factors. -/
def computeDamping (inputFactor : Factor m) (outputFactor : Factor k) (damping : ℝ)
    (normalization : Option ℝ) : ℝ × ℝ :=
  computePiAdjustedDamping g inputFactor.cov outputFactor.cov
    (maybeNormalizedDamping g damping normalization ^ (0.5 : ℝ))

/-- `damping_id` in `_setup_damping`. -/
def dampingId (inputFactor : Factor m) (outputFactor : Factor k) (damping : ℝ) :
    Option ℝ → List Hashable
  | some n => [.str "compute_pi_adjusted_damping", .str "cov", .str inputFactor.name,
      .str "cov", .str outputFactor.name, .str "normalize_damping", .num damping, .num n,
      .str "power", .num 0.5]
  | none => [.str "compute_pi_adjusted_damping", .str "cov", .str inputFactor.name,
      .str "cov", .str outputFactor.name, .num damping, .str "power", .num 0.5]

/-- `_setup_damping`: the damping functions of the input and of the output factor, identified
by `damping_id + ("ref", 0)` and `damping_id + ("ref", 1)`. -/
def setupDamping (inputFactor : Factor m) (outputFactor : Factor k) (damping : ℝ)
    (normalization : Option ℝ) : PackagedFunc ℝ × PackagedFunc ℝ :=
  (packageFunc (fun _ => (computeDamping g inputFactor outputFactor damping normalization).1)
      (dampingId inputFactor outputFactor damping normalization ++ [.str "ref", .num 0]),
    packageFunc (fun _ => (computeDamping g inputFactor outputFactor damping normalization).2)
      (dampingId inputFactor outputFactor damping normalization ++ [.str "ref", .num 1]))

variable {g}

theorem maybeNormalizedDamping_nonneg {damping : ℝ} (hd : 0 ≤ damping) {n : ℝ} (hn : 0 ≤ n) :
    ∀ o : Option ℝ, (o = some n ∨ o = none) → 0 ≤ maybeNormalizedDamping g damping o
  | _, .inl rfl => normalizeDamping_nonneg hd hn
  | _, .inr rfl => hd

/-- Without damping both halves vanish. -/
@[simp] theorem computeDamping_zero (inputFactor : Factor m) (outputFactor : Factor k)
    (normalization : Option ℝ) : computeDamping g inputFactor outputFactor 0 normalization = 0 := by
  have h0 : maybeNormalizedDamping g 0 normalization = 0 := by
    cases normalization <;> simp [maybeNormalizedDamping, normalizeDamping]
  rw [computeDamping, h0, Real.zero_rpow (by norm_num), computePiAdjustedDamping]
  cases g.piType <;> simp

/-- The two halves multiply to the damping split, for estimates with positive traces. -/
theorem computeDamping_mul {A : Factor m} {G : Factor k} (hA : 0 < A.cov.trace)
    (hG : 0 < G.cov.trace) {damping : ℝ} {normalization : Option ℝ}
    (hd : 0 ≤ maybeNormalizedDamping g damping normalization) :
    (computeDamping g A G damping normalization).1 * (computeDamping g A G damping normalization).2 =
      maybeNormalizedDamping g damping normalization := by
  rw [computeDamping, computePiAdjustedDamping_mul hA hG, show (0.5 : ℝ) = 1 / 2 by norm_num,
    ← Real.sqrt_eq_rpow, Real.sq_sqrt hd]

end SetupDamping

/-! ### The block -/

/-- A `KroneckerProductFB` after `instantiate_factors`: its two factors, the `damping` and the
`normalization` its subclass passed to `_setup_damping`, and the subclass's `_renorm_coeff`. -/
structure KroneckerProductFB (m k : ℕ) where
  inputFactor : Factor m
  outputFactor : Factor k
  damping : ℝ
  normalization : Option ℝ
  renormCoeff : ℝ

namespace KroneckerProductFB

variable (g : GlobalConstants) {m k : ℕ} (B : KroneckerProductFB m k)

/-- `self._input_damping_func`. -/
def inputDampingFunc : PackagedFunc ℝ :=
  (setupDamping g B.inputFactor B.outputFactor B.damping B.normalization).1

/-- `self._output_damping_func`. -/
def outputDampingFunc : PackagedFunc ℝ :=
  (setupDamping g B.inputFactor B.outputFactor B.damping B.normalization).2

/-- `register_matpower`: the registrations the block requests, one per factor, each by the
factor's name, the exponent and the identity of the damping function it is computed for. -/
def registerMatpower (exp : ℤ) : List (String × ℤ × List Hashable) :=
  [(B.inputFactor.name, exp, (B.inputDampingFunc g).funcId),
    (B.outputFactor.name, exp, (B.outputDampingFunc g).funcId)]

/-- `multiply_matpower` on the matrix `layer_params_to_mat2d(vector)`: the output factor's
damped power on the right, the input factor's on the left, then `c ** exp` when `c ≠ 1`. -/
def multiplyMatpower (vector : Matrix (Fin m) (Fin k) ℝ) (exp : ℤ) : Matrix (Fin m) (Fin k) ℝ :=
  let reshapedOut := B.outputFactor.rightMultiplyMatpower vector exp (B.outputDampingFunc g)
  let reshapedOut := B.inputFactor.leftMultiplyMatpower reshapedOut exp (B.inputDampingFunc g)
  if B.renormCoeff ≠ 1 then B.renormCoeff ^ exp • reshapedOut else reshapedOut

/-- `full_fisher_block`: `c · kron(get_cov(input), get_cov(output))`. -/
def fullFisherBlock : Matrix (Fin (m * k)) (Fin (m * k)) ℝ :=
  B.renormCoeff • kroneckerProduct B.inputFactor.cov.toMatrix B.outputFactor.cov.toMatrix

variable {g B}

/-- The skipped rescaling at `c = 1` is the rescaling by `1 ^ exp`. -/
theorem multiplyMatpower_eq (V : Matrix (Fin m) (Fin k) ℝ) (p : ℤ) :
    B.multiplyMatpower g V p = B.renormCoeff ^ p •
      (B.inputFactor.damped (B.inputDampingFunc g).call ^ p * V *
        B.outputFactor.damped (B.outputDampingFunc g).call ^ p) := by
  simp only [multiplyMatpower, Factor.leftMultiplyMatpower, Factor.rightMultiplyMatpower,
    ← Matrix.mul_assoc]
  split_ifs with h
  · rfl
  · simp [not_not.mp h]

@[simp] theorem multiplyMatpower_zero (V : Matrix (Fin m) (Fin k) ℝ) :
    B.multiplyMatpower g V 0 = V := by
  simp [multiplyMatpower_eq]

/-- Powers of the block compose when both damped factors are invertible and `c ≠ 0`. -/
theorem multiplyMatpower_multiplyMatpower (hc : B.renormCoeff ≠ 0)
    (hA : IsUnit (B.inputFactor.damped (B.inputDampingFunc g).call).det)
    (hG : IsUnit (B.outputFactor.damped (B.outputDampingFunc g).call).det)
    (V : Matrix (Fin m) (Fin k) ℝ) (p q : ℤ) :
    B.multiplyMatpower g (B.multiplyMatpower g V p) q = B.multiplyMatpower g V (p + q) := by
  have hApq : B.inputFactor.damped (B.inputDampingFunc g).call ^ (p + q) =
      B.inputFactor.damped (B.inputDampingFunc g).call ^ q *
        B.inputFactor.damped (B.inputDampingFunc g).call ^ p := by
    rw [add_comm, Matrix.zpow_add hA]
  rw [multiplyMatpower_eq, multiplyMatpower_eq, multiplyMatpower_eq, hApq, Matrix.zpow_add hG,
    zpow_add₀ hc, mul_comm (B.renormCoeff ^ p)]
  simp only [Matrix.mul_smul, Matrix.smul_mul, smul_smul, Matrix.mul_assoc]

/-- **`multiply_matpower` applies the power of the damped block.** For every integer exponent,
`vec` of the result is `(c · (A + d_in I) ⊗ (G + d_out I)) ^ p · vec V` in row-major order, with
`d_in` and `d_out` the values of the two damping functions. Without damping this is the power
of `full_fisher_block()`, and whenever both damped factors are invertible, `multiply` undoes
`multiply_inverse`. -/
theorem flatten_multiplyMatpower (hc : 0 < B.renormCoeff) (V : Matrix (Fin m) (Fin k) ℝ)
    (p : ℤ) :
    let dIn := (B.inputDampingFunc g).call
    let dOut := (B.outputDampingFunc g).call
    flatten (B.multiplyMatpower g V p) =
        (B.renormCoeff • kroneckerProduct (B.inputFactor.damped dIn)
          (B.outputFactor.damped dOut)) ^ p *ᵥ flatten V ∧
      (dIn = 0 → dOut = 0 → flatten (B.multiplyMatpower g V p) = B.fullFisherBlock ^ p *ᵥ flatten V) ∧
      (IsUnit (B.inputFactor.damped dIn).det → IsUnit (B.outputFactor.damped dOut).det →
        multiply (B.multiplyMatpower g) (multiplyInverse (B.multiplyMatpower g) V) = V) := by
  intro dIn dOut
  have hpow : flatten (B.multiplyMatpower g V p) =
      (B.renormCoeff • kroneckerProduct (B.inputFactor.damped dIn)
        (B.outputFactor.damped dOut)) ^ p *ᵥ flatten V := by
    rw [smul_zpow hc.ne', kroneckerProduct_zpow, Matrix.smul_mulVec_assoc,
      kroneckerProduct_mulVec_flatten, Matrix.transpose_zpow, (B.outputFactor.isSymm_damped _).eq,
      multiplyMatpower_eq, flatten_smul]
  refine ⟨hpow, fun hIn hOut => ?_, fun hA hG => ?_⟩
  · rw [hpow, hIn, hOut, Factor.damped_zero, Factor.damped_zero, fullFisherBlock]
  · rw [multiply, multiplyInverse, multiplyMatpower_multiplyMatpower hc.ne' hA hG,
      neg_add_cancel, multiplyMatpower_zero]

/-- An undamped block of two unit factors over `1 × 1` parameters meets every hypothesis of
`flatten_multiplyMatpower`. -/
theorem flatten_multiplyMatpower_unitFactors :
    let B : KroneckerProductFB 1 1 :=
      ⟨⟨"input", .diagonal 1⟩, ⟨"output", .diagonal 1⟩, 0, none, 1⟩
    let g : GlobalConstants := {}
    0 < B.renormCoeff ∧ (B.inputDampingFunc g).call = 0 ∧ (B.outputDampingFunc g).call = 0 ∧
      IsUnit (B.inputFactor.damped 0).det ∧ IsUnit (B.outputFactor.damped 0).det ∧
      flatten (B.multiplyMatpower g 1 (-1)) = B.fullFisherBlock ^ (-1 : ℤ) *ᵥ flatten 1 ∧
      multiply (B.multiplyMatpower g) (multiplyInverse (B.multiplyMatpower g) 1) = 1 := by
  intro B g
  have hIn : (B.inputDampingFunc g).call = 0 := by
    simp [inputDampingFunc, setupDamping]
  have hOut : (B.outputDampingFunc g).call = 0 := by
    simp [outputDampingFunc, setupDamping]
  have hunit : IsUnit (B.inputFactor.damped 0).det := by
    simp [B, Factor.damped, CovEstimate.toMatrix]
  have hunit' : IsUnit (B.outputFactor.damped 0).det := by
    simp [B, Factor.damped, CovEstimate.toMatrix]
  have h := @flatten_multiplyMatpower g 1 1 B (by norm_num) 1 (-1)
  exact ⟨by norm_num, hIn, hOut, hunit, hunit', h.2.1 hIn hOut,
    h.2.2 (hIn ▸ hunit) (hOut ▸ hunit')⟩

end KroneckerProductFB

/-! ### The subclasses -/

/-- The subclasses of `KroneckerProductFB` that keep its `multiply_matpower` or, for
`DepthwiseConvKFCBasicFB`, wrap it, each with the counts its `instantiate_factors` reads. -/
inductive KroneckerVariant
  | fullyConnectedKFACBasicFB
  | embeddingKFACFB
  | convKFCBasicFB (numLocations : ℕ)
  | depthwiseConvKFCBasicFB (numLocations : ℕ)
  | fullyConnectedMultiIndepFB (numUses : ℕ)
  | convKFCBasicMultiIndepFB (numLocations numUses : ℕ)
  | embeddingKFACMultiIndepFB (numUses : ℕ)

namespace KroneckerVariant

/-- The `normalization` that the subclass's `instantiate_factors` passes to `_setup_damping`. -/
def normalization : KroneckerVariant → Option ℝ
  | fullyConnectedKFACBasicFB => none
  | embeddingKFACFB => none
  | convKFCBasicFB numLocations => some numLocations
  | depthwiseConvKFCBasicFB numLocations => some numLocations
  | fullyConnectedMultiIndepFB numUses => some numUses
  | convKFCBasicMultiIndepFB numLocations numUses => some (numLocations * numUses : ℕ)
  | embeddingKFACMultiIndepFB numUses => some numUses

/-- The subclass's `_renorm_coeff`. -/
def renormCoeff : KroneckerVariant → ℝ
  | fullyConnectedKFACBasicFB => 1
  | embeddingKFACFB => 1
  | convKFCBasicFB numLocations => numLocations
  | depthwiseConvKFCBasicFB numLocations => numLocations
  | fullyConnectedMultiIndepFB numUses => numUses
  | convKFCBasicMultiIndepFB numLocations numUses => (numLocations * numUses : ℕ)
  | embeddingKFACMultiIndepFB numUses => numUses

/-- `instantiate_factors` of the subclass, once the collection has made its two factors. -/
def instantiateFactors (v : KroneckerVariant) {m k : ℕ} (inputFactor : Factor m)
    (outputFactor : Factor k) (damping : ℝ) : KroneckerProductFB m k where
  inputFactor := inputFactor
  outputFactor := outputFactor
  damping := damping
  normalization := v.normalization
  renormCoeff := v.renormCoeff

/-- Every subclass normalises its damping by its own renormalisation coefficient, or by
nothing when that coefficient is `1`. -/
theorem normalization_eq (v : KroneckerVariant) :
    v.normalization = some v.renormCoeff ∨ (v.normalization = none ∧ v.renormCoeff = 1) := by
  cases v <;> simp [normalization, renormCoeff]

variable {g : GlobalConstants}

/-- The damping the subclass splits, scaled back by its coefficient, is `λ · c ^ (1 - p)`. -/
theorem renormCoeff_mul_maybeNormalizedDamping (v : KroneckerVariant) (hc : 0 < v.renormCoeff)
    (damping : ℝ) : v.renormCoeff * maybeNormalizedDamping g damping v.normalization =
      damping * v.renormCoeff ^ (1 - g.normalizeDampingPower) := by
  rcases v.normalization_eq with h | ⟨h, hc1⟩
  · rw [h, maybeNormalizedDamping, mul_normalizeDamping damping hc]
  · rw [h, hc1, maybeNormalizedDamping, Real.one_rpow, one_mul, mul_one]

end KroneckerVariant

/-- **The damping mass of every Kronecker subclass.** For every damping `λ ≥ 0`, every
`NORMALIZE_DAMPING_POWER` `p`, both `PI_TYPE`s and factors with positive traces, the two damping
values `d_in`, `d_out` of a block with coefficient `c > 0` satisfy `c · d_in · d_out =
λ · c ^ (1 - p)`; they are in the ratio of the normalised traces under `"tracenorm"` and equal
under `"off"`. A convolutional diagonal block with `n > 0` locations is damped by the same
`λ · n ^ (1 - p)`. -/
theorem damping_mass_of_instantiateFactors (g : GlobalConstants) (v : KroneckerVariant)
    (hc : 0 < v.renormCoeff) {m k : ℕ} (A : Factor m) (G : Factor k) (hA : 0 < A.cov.trace)
    (hG : 0 < G.cov.trace) {damping : ℝ} (hd : 0 ≤ damping) :
    let B := v.instantiateFactors A G damping
    let dIn := (B.inputDampingFunc g).call
    let dOut := (B.outputDampingFunc g).call
    B.renormCoeff * dIn * dOut = damping * B.renormCoeff ^ (1 - g.normalizeDampingPower) ∧
      (g.piType = .tracenorm → dIn * (G.cov.trace / k) = dOut * (A.cov.trace / m)) ∧
      (g.piType = .off → dIn = dOut) ∧
      ∀ n : ℕ, 0 < n → (ConvDiagonalFB.dampingFunc g n damping).call =
        damping * (n : ℝ) ^ (1 - g.normalizeDampingPower) := by
  intro B dIn dOut
  have hnn : 0 ≤ maybeNormalizedDamping g damping v.normalization :=
    maybeNormalizedDamping_nonneg hd hc.le _ (v.normalization_eq.imp id And.left)
  have hsplit := @computePiAdjustedDamping_split g m k A.cov G.cov hA hG
    (maybeNormalizedDamping g damping v.normalization ^ (0.5 : ℝ))
  refine ⟨?_, hsplit.1, hsplit.2, fun n hn => ConvDiagonalFB.call_dampingFunc hn damping⟩
  simp only [B, dIn, dOut, KroneckerProductFB.inputDampingFunc,
    KroneckerProductFB.outputDampingFunc, setupDamping, call_packageFunc,
    KroneckerVariant.instantiateFactors]
  rw [mul_assoc, computeDamping_mul hA hG hnn, v.renormCoeff_mul_maybeNormalizedDamping hc]

/-- A fully connected block of two unit factors, damped by `1`, meets every hypothesis of
`damping_mass_of_instantiateFactors` under the default constants. -/
theorem damping_mass_of_instantiateFactors_unitFactors :
    let A : Factor 1 := ⟨"input", .diagonal 1⟩
    let G : Factor 1 := ⟨"output", .diagonal 1⟩
    let B := KroneckerVariant.fullyConnectedKFACBasicFB.instantiateFactors A G 1
    let g : GlobalConstants := {}
    0 < B.renormCoeff ∧ 0 < A.cov.trace ∧ 0 < G.cov.trace ∧ g.piType = .tracenorm ∧
      B.renormCoeff * (B.inputDampingFunc g).call * (B.outputDampingFunc g).call =
        1 * B.renormCoeff ^ (1 - g.normalizeDampingPower) ∧
      (B.inputDampingFunc g).call * (G.cov.trace / 1) =
        (B.outputDampingFunc g).call * (A.cov.trace / 1) ∧
      (ConvDiagonalFB.dampingFunc g 1 1).call = 1 * ((1 : ℕ) : ℝ) ^ (1 - g.normalizeDampingPower) := by
  intro A G B g
  have hc : 0 < KroneckerVariant.fullyConnectedKFACBasicFB.renormCoeff := by
    norm_num [KroneckerVariant.renormCoeff]
  have hA : 0 < A.cov.trace := by simp [A, CovEstimate.trace]
  have hG : 0 < G.cov.trace := by simp [G, CovEstimate.trace]
  have h := damping_mass_of_instantiateFactors g _ hc A G hA hG zero_le_one
  exact ⟨hc, hA, hG, rfl, h.1, by exact_mod_cast h.2.1 rfl, h.2.2.2 1 one_pos⟩

/-! ### What the convolutional blocks divide by -/

/-- **The convolutional blocks divide by their location count only when it is positive**, and
with positive strides it is positive exactly when the strides' product is at most the number of
spatial input locations. Then, for `n = num_conv_locations` and every power `p`, the divisor
`n ^ p` of `normalize_damping` is positive, the thunk of `ConvDiagonalFB` returns
`λ · n ^ (1 - p)`, the normalisation of `ConvKFCBasicFB`'s `_setup_damping` is undone by its
divisor, and its renormalisation `c ** -1` inverts `c = n`. -/
theorem numConvLocations_pos_iff_and_divisors {strides : Option (List ℕ)}
    (hs : ∀ s ∈ strides.getD [], 0 < s) (inputShape : List ℕ) :
    (0 < numConvLocations inputShape strides ↔
        (strides.getD []).prod ≤ ((inputShape.drop 1).dropLast).prod) ∧
      ((strides.getD []).prod ≤ ((inputShape.drop 1).dropLast).prod →
        ∀ (g : GlobalConstants) (damping : ℝ),
          let n := numConvLocations inputShape strides
          let v := KroneckerVariant.convKFCBasicFB n
          0 < (n : ℝ) ^ g.normalizeDampingPower ∧
            (ConvDiagonalFB.dampingFunc g n damping).call =
              damping * (n : ℝ) ^ (1 - g.normalizeDampingPower) ∧
            maybeNormalizedDamping g damping v.normalization * (n : ℝ) ^ g.normalizeDampingPower =
              damping ∧
            v.renormCoeff ^ (-1 : ℤ) * v.renormCoeff = 1) := by
  have hiff := numConvLocations_pos_iff hs inputShape
  refine ⟨hiff, fun hle g damping => ?_⟩
  have hn : 0 < (numConvLocations inputShape strides : ℝ) := Nat.cast_pos.mpr (hiff.mpr hle)
  exact ⟨Real.rpow_pos_of_pos hn _, ConvDiagonalFB.call_dampingFunc (hiff.mpr hle) damping,
    normalizeDamping_mul_rpow damping hn, by
      rw [KroneckerVariant.renormCoeff, zpow_neg_one, inv_mul_cancel₀ hn.ne']⟩

/-- Images `10 × 10` with strides `2` have `25` locations, and every divisor is positive. -/
theorem numConvLocations_pos_iff_and_divisors_tenByTen :
    (∀ s ∈ (some [1, 2, 2, 1] : Option (List ℕ)).getD [], 0 < s) ∧
      ((0 < numConvLocations [8, 10, 10, 3] (some [1, 2, 2, 1]) ↔
          ((some [1, 2, 2, 1] : Option (List ℕ)).getD []).prod ≤
            (([8, 10, 10, 3].drop 1).dropLast).prod) ∧
        (((some [1, 2, 2, 1] : Option (List ℕ)).getD []).prod ≤
            (([8, 10, 10, 3].drop 1).dropLast).prod →
          ∀ (g : GlobalConstants) (damping : ℝ),
            let n := numConvLocations [8, 10, 10, 3] (some [1, 2, 2, 1])
            let v := KroneckerVariant.convKFCBasicFB n
            0 < (n : ℝ) ^ g.normalizeDampingPower ∧
              (ConvDiagonalFB.dampingFunc g n damping).call =
                damping * (n : ℝ) ^ (1 - g.normalizeDampingPower) ∧
              maybeNormalizedDamping g damping v.normalization *
                  (n : ℝ) ^ g.normalizeDampingPower = damping ∧
              v.renormCoeff ^ (-1 : ℤ) * v.renormCoeff = 1)) :=
  ⟨by decide, numConvLocations_pos_iff_and_divisors (by decide) [8, 10, 10, 3]⟩

example : numConvLocations [8, 10, 10, 3] (some [1, 2, 2, 1]) = 25 := rfl

/-- A `1 × 1` image with strides `2`, every spatial dimension and stride at least `1`, has no
location: the divisor `n ^ p` of `normalize_damping` at
the default power `p = 1`, and the renormalisation coefficient `c = n` of `ConvKFCBasicFB`
that `multiply_matpower` raises to `-1`, are `0`. -/
theorem numConvLocations_eq_zero_oneByOne :
    let n := numConvLocations [8, 1, 1, 3] (some [1, 2, 2, 1])
    (∀ d ∈ ([8, 1, 1, 3].drop 1).dropLast, 0 < d) ∧
      (∀ s ∈ (some [1, 2, 2, 1] : Option (List ℕ)).getD [], 0 < s) ∧ n = 0 ∧
      (n : ℝ) ^ ({} : GlobalConstants).normalizeDampingPower = 0 ∧
      (KroneckerVariant.convKFCBasicFB n).renormCoeff = 0 := by
  have hn : numConvLocations [8, 1, 1, 3] (some [1, 2, 2, 1]) = 0 := rfl
  refine ⟨by decide, by decide, hn, ?_, ?_⟩ <;>
    simp [hn, KroneckerVariant.renormCoeff]

/-! ### Damping identities -/

/-- Which of the two damping functions of `_setup_damping`. -/
inductive FactorSide
  | input
  | output
  deriving DecidableEq

/-- The `"ref"` index of a side in the identity of its damping function. -/
def FactorSide.ref : FactorSide → ℝ
  | input => 0
  | output => 1

/-- The places of the source that build a damping function, with the values each reads: the
constant damping of `FullFB`, `NaiveDiagonalFB` and `FullyConnectedDiagonalFB`, the damping of
`ConvDiagonalFB`, and either half of `_setup_damping`, which every `KroneckerProductFB` and
`FullyConnectedSeriesFB` calls. -/
inductive DampingSite
  | constant (damping : ℝ)
  | convDiagonal (numLocations : ℕ) (damping : ℝ)
  | kronecker {m k : ℕ} (inputFactor : Factor m) (outputFactor : Factor k) (damping : ℝ)
      (normalization : Option ℝ) (side : FactorSide)

namespace DampingSite

variable (g : GlobalConstants)

/-- The damping function built at the site. -/
def packagedFunc : DampingSite → PackagedFunc ℝ
  | constant damping => constantDampingFunc damping
  | convDiagonal numLocations damping => ConvDiagonalFB.dampingFunc g numLocations damping
  | kronecker A G damping normalization .input => (setupDamping g A G damping normalization).1
  | kronecker A G damping normalization .output => (setupDamping g A G damping normalization).2

/-- The factors whose covariance estimates the site's damping function reads. -/
def factors : DampingSite → List (Σ m, Factor m)
  | constant _ => []
  | convDiagonal _ _ => []
  | kronecker A G _ _ _ => [⟨_, A⟩, ⟨_, G⟩]

/-- Factor names identify the factors among `fs`: two of them with one name are one factor. -/
def NamesIdentify (fs : List (Σ m, Factor m)) : Prop :=
  ∀ f ∈ fs, ∀ f' ∈ fs, f.2.name = f'.2.name → f = f'

variable {g}

@[simp] theorem funcId_constant (damping : ℝ) :
    ((constant damping).packagedFunc g).funcId = [.num damping] := by
  simp [packagedFunc, constantDampingFunc]

@[simp] theorem funcId_convDiagonal (numLocations : ℕ) (damping : ℝ) :
    ((convDiagonal numLocations damping).packagedFunc g).funcId =
      [.num numLocations, .str "mult", .str "normalize_damping", .num damping,
        .num numLocations] := by
  simp [packagedFunc, ConvDiagonalFB.dampingFunc]

@[simp] theorem funcId_kronecker {m k : ℕ} (A : Factor m) (G : Factor k) (damping : ℝ)
    (normalization : Option ℝ) (side : FactorSide) :
    ((kronecker A G damping normalization side).packagedFunc g).funcId =
      dampingId A G damping normalization ++ [.str "ref", .num side.ref] := by
  cases side <;> simp [packagedFunc, setupDamping, FactorSide.ref]

/-- The identity of a half of `_setup_damping` records both factor names, the damping, the
normalization and the side. -/
theorem kronecker_funcId_inj {m k m' k' : ℕ} {A : Factor m} {G : Factor k}
    {A' : Factor m'} {G' : Factor k'} {d d' : ℝ} {o o' : Option ℝ} {s s' : FactorSide}
    (h : dampingId A G d o ++ [.str "ref", .num s.ref] =
      dampingId A' G' d' o' ++ [.str "ref", .num s'.ref]) :
    A.name = A'.name ∧ G.name = G'.name ∧ d = d' ∧ o = o' ∧ s = s' := by
  have hs : s.ref = s'.ref → s = s' := by cases s <;> cases s' <;> simp [FactorSide.ref]
  cases o <;> cases o' <;> simp_all [dampingId]

private theorem kronecker_call_eq {m k m' k' : ℕ} {A : Factor m} {G : Factor k}
    {A' : Factor m'} {G' : Factor k'} (hA : (⟨m, A⟩ : Σ m, Factor m) = ⟨m', A'⟩)
    (hG : (⟨k, G⟩ : Σ m, Factor m) = ⟨k', G'⟩) (damping : ℝ) (normalization : Option ℝ)
    (side : FactorSide) :
    ((kronecker A G damping normalization side).packagedFunc g).call =
      ((kronecker A' G' damping normalization side).packagedFunc g).call := by
  cases hA
  cases hG
  rfl

/-- **Damping identities never merge two values.** For any two damping functions of any blocks
built under one configuration, in any state where factor names identify the factors they read,
equal `func_id`s give equal damping values. -/
theorem call_eq_of_funcId_eq (s₁ s₂ : DampingSite)
    (hnames : NamesIdentify (s₁.factors ++ s₂.factors))
    (h : (s₁.packagedFunc g).funcId = (s₂.packagedFunc g).funcId) :
    (s₁.packagedFunc g).call = (s₂.packagedFunc g).call := by
  cases s₁ with
  | constant d =>
    cases s₂ with
    | constant d' =>
      obtain rfl : d = d' := by simpa using h
      rfl
    | convDiagonal n' d' => simp at h
    | kronecker A' G' d' o' side' => cases o' <;> simp [dampingId] at h
  | convDiagonal n d =>
    cases s₂ with
    | constant d' => simp at h
    | convDiagonal n' d' =>
      obtain ⟨rfl, rfl, -⟩ : n = n' ∧ d = d' ∧ n = n' := by simpa using h
      rfl
    | kronecker A' G' d' o' side' => cases o' <;> simp [dampingId] at h
  | kronecker A G d o side =>
    cases s₂ with
    | constant d' => cases o <;> simp [dampingId] at h
    | convDiagonal n' d' => cases o <;> simp [dampingId] at h
    | kronecker A' G' d' o' side' =>
      rw [funcId_kronecker, funcId_kronecker] at h
      obtain ⟨hA, hG, rfl, rfl, rfl⟩ := kronecker_funcId_inj h
      exact kronecker_call_eq (hnames _ (by simp [factors]) _ (by simp [factors]) hA)
        (hnames _ (by simp [factors]) _ (by simp [factors]) hG) _ _ _

/-- Two blocks sharing an input and an output factor, damped alike, build one damping function
for their input factors. -/
theorem call_eq_of_funcId_eq_sharedFactors :
    let A : Factor 1 := ⟨"input", .diagonal 1⟩
    let G : Factor 1 := ⟨"output", .diagonal 1⟩
    let s := kronecker A G 1 none .input
    let g : GlobalConstants := {}
    NamesIdentify (s.factors ++ s.factors) ∧ (s.packagedFunc g).funcId = (s.packagedFunc g).funcId ∧
      (s.packagedFunc g).call = (s.packagedFunc g).call := by
  intro A G s g
  have hnames : NamesIdentify (s.factors ++ s.factors) := by
    simp [NamesIdentify, factors, s, A, G]
  exact ⟨hnames, rfl, call_eq_of_funcId_eq s s hnames rfl⟩

end DampingSite

end FisherBlocks

end
