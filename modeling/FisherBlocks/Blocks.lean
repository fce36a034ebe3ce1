import FisherBlocks.Damping
import Mathlib.Algebra.Order.BigOperators.Group.List

/-!
# The block contract and the full and diagonal blocks

Every block of `fisher_blocks.py` derives `register_inverse`, `multiply_inverse` and `multiply`
from its `register_matpower` and `multiply_matpower` at the exponents `-1` and `1`. This file
states those defaults once, and models the blocks that keep a single factor: `FullFB`,
`NaiveDiagonalFB`, `FullyConnectedDiagonalFB` and `ConvDiagonalFB`.

The three blocks without replication hand their factor the thunk `lambda: damping`, identified
by `(damping,)`. `ConvDiagonalFB` scales the damping by its location count `n` after normalising
it by `n`, so that its thunk returns `λ · n ^ (1 - p)` (`ConvDiagonalFB.call_dampingFunc`).

The diagonal factors compute their powers on demand, entry by entry, so that
`register_matpower` is a no-op for these blocks and any exponent may be multiplied by.

## Main definitions

* `registerInverse`, `multiplyInverse`, `multiply`: the defaults of `FisherBlock`.
* `constantDampingFunc`, `FullFB.dampingFunc`, `NaiveDiagonalFB.dampingFunc`,
  `FullyConnectedDiagonalFB.dampingFunc`.
* `numConvLocations`, `ConvDiagonalFB.dampingFunc`.
* `DiagonalFactor`, `DiagonalFactor.leftMultiplyMatpower`.

## Main results

* `numConvLocations_pos_iff`: the location count is a floor, positive exactly when the strides'
  product is at most the spatial input size.
* `ConvDiagonalFB.call_dampingFunc`: the damping of a convolutional diagonal block.

## References

* `src/kfac/python/ops/fisher_blocks.py`, lines 158–625 and 1121–1140.
-/

noncomputable section

namespace FisherBlocks

/-! ### The defaults of `FisherBlock` -/

section Contract

variable {α β γ : Type}

/-- `FisherBlock.register_inverse`: `register_matpower(-1)`. -/
def registerInverse (registerMatpower : ℤ → γ) : γ := registerMatpower (-1)

/-- `FisherBlock.multiply_inverse`: `multiply_matpower(vector, -1)`. -/
def multiplyInverse (multiplyMatpower : α → ℤ → β) (vector : α) : β :=
  multiplyMatpower vector (-1)

/-- `FisherBlock.multiply`: `multiply_matpower(vector, 1)`. -/
def multiply (multiplyMatpower : α → ℤ → β) (vector : α) : β := multiplyMatpower vector 1

end Contract

/-! ### Damping functions of the blocks without Kronecker factors -/

/-- `_package_func(lambda: damping, (damping,))`, the damping function of the blocks whose
damping is not normalised. -/
def constantDampingFunc (damping : ℝ) : PackagedFunc ℝ :=
  packageFunc (fun _ => damping) [.num damping]

/-- The damping function `FullFB.instantiate_factors` builds. -/
def FullFB.dampingFunc (damping : ℝ) : PackagedFunc ℝ := constantDampingFunc damping

/-- The damping function `NaiveDiagonalFB.instantiate_factors` builds. -/
def NaiveDiagonalFB.dampingFunc (damping : ℝ) : PackagedFunc ℝ := constantDampingFunc damping

/-- The damping function `FullyConnectedDiagonalFB.instantiate_factors` builds. -/
def FullyConnectedDiagonalFB.dampingFunc (damping : ℝ) : PackagedFunc ℝ :=
  constantDampingFunc damping

@[simp] theorem call_constantDampingFunc (damping : ℝ) :
    (constantDampingFunc damping).call = damping := rfl

/-! ### Convolutional diagonal blocks -/

/-- `num_conv_locations`: the product of the spatial dimensions of the input shape (all but
the first and the last) divided, rounding down, by the product of the strides. -/
def numConvLocations (inputShape : List ℕ) (strides : Option (List ℕ)) : ℕ :=
  let spatialInputLocations := ((inputShape.drop 1).dropLast).prod
  let spatialStridesDivisor := match strides with
    | none => 1
    | some s => s.prod
  spatialInputLocations / spatialStridesDivisor

/-- No strides divide by the empty product `1`. -/
theorem numConvLocations_eq (inputShape : List ℕ) (strides : Option (List ℕ)) :
    numConvLocations inputShape strides =
      ((inputShape.drop 1).dropLast).prod / (strides.getD []).prod := by
  cases strides <;> rfl

/-- With positive strides, there is a location exactly when the strides' product is at most
the number of spatial input locations: the count is a floor, not a count per dimension. -/
theorem numConvLocations_pos_iff {strides : Option (List ℕ)} (hs : ∀ s ∈ strides.getD [], 0 < s)
    (inputShape : List ℕ) :
    0 < numConvLocations inputShape strides ↔
      (strides.getD []).prod ≤ ((inputShape.drop 1).dropLast).prod := by
  rw [numConvLocations_eq, Nat.div_pos_iff (Nat.pos_iff_ne_zero.mp (List.one_le_prod_of_one_le hs))]

variable (g : GlobalConstants)

/-- The damping function `ConvDiagonalFB.instantiate_factors` builds for `numLocations`
locations: `n · normalize_damping(damping, n)`, identified by
`(n, "mult", "normalize_damping", damping, n)`. -/
def ConvDiagonalFB.dampingFunc (numLocations : ℕ) (damping : ℝ) : PackagedFunc ℝ :=
  packageFunc (fun _ => numLocations * normalizeDamping g damping numLocations)
    [.num numLocations, .str "mult", .str "normalize_damping", .num damping, .num numLocations]

variable {g}

/-- A convolutional diagonal block is damped by `λ · n ^ (1 - p)` for its `n > 0` locations. -/
theorem ConvDiagonalFB.call_dampingFunc {n : ℕ} (hn : 0 < n) (damping : ℝ) :
    (ConvDiagonalFB.dampingFunc g n damping).call =
      damping * (n : ℝ) ^ (1 - g.normalizeDampingPower) := by
  simpa [ConvDiagonalFB.dampingFunc] using mul_normalizeDamping damping (Nat.cast_pos.mpr hn)

/-! ### Powers computed on demand by diagonal factors -/

/-- Modelled from the spec: a diagonal factor of `fisher_factors` (absent from the source), by
its estimate `E[v_i ^ 2]` of the diagonal of the block, laid out as the matrix `x` that its
`left_multiply_matpower(x, exp, damping_func)` multiplies entry by entry by
`(diag + damping_func()) ^ exp`. -/
structure DiagonalFactor (m k : ℕ) where
  diag : Matrix (Fin m) (Fin k) ℝ

namespace DiagonalFactor

variable {m k : ℕ} (f : DiagonalFactor m k)

/-- `left_multiply_matpower` of a diagonal factor. -/
def leftMultiplyMatpower (x : Matrix (Fin m) (Fin k) ℝ) (exp : ℤ)
    (dampingFunc : PackagedFunc ℝ) : Matrix (Fin m) (Fin k) ℝ :=
  Matrix.of fun i j => (f.diag i j + dampingFunc.call) ^ exp * x i j

end DiagonalFactor

end FisherBlocks

end
