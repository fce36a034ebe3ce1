import FisherBlocks.MultiUse
import FisherBlocks.Registrations
import FisherBlocks.Series

/-!
# The life of a multi-use block

A block lives through four phases: `register_additional_tower` calls, one
`instantiate_factors`, `register_matpower` calls, and products. This file follows the two
multi-use blocks with a Kronecker structure through all of them, on data in per-use format:
`T ≥ 1` registered towers, each holding the `U ≥ 1` uses of the layer's inputs, and gradient
sources of the same shape, under either strategy.

* `FullyConnectedMultiIndepFB` instantiates with the coefficient `U`. Once it has called
  `register_inverse`, among any calls by the blocks of a collection whose factor names identify
  its factors, `multiply_inverse` through the registered powers returns a matrix that the
  block's `multiply` maps back to the vector, whenever both damped factors are invertible
  (`FullyConnectedMultiIndepFB.multiply_multiplyInverseOn_of_towers`).
* `FullyConnectedSeriesFB` instantiates over `U` time-steps, the uses and not the towers, and
  under option 1 its `multiply_matpower(·, -1)` inverts the temporal Fisher block over those `U`
  time-steps (`FullyConnectedSeriesFB.instantiateFactors_option1_inverse`).

## References

* `src/kfac/python/ops/fisher_blocks.py`, lines 436–445, 1150–1330 and 1472–1553.
-/

noncomputable section

namespace FisherBlocks

open InputOutputMultiTowerMultiUse

variable {β γ : Type}

/-- `FullyConnectedSeriesFB.instantiate_factors`, once the collection makes the two factors and
they register their lag-1 covariances: the block of the option chosen at construction, over
the number of uses `_process_data` records. -/
def FullyConnectedSeriesFB.instantiateFactors {m k : ℕ} (option : SeriesFBApproximation)
    (inputFactor : SeriesFactor m) (outputFactor : SeriesFactor k) (strategy : String)
    (inputs : InputsData β) (gradsList : GradsData β) :
    EStateM String (Option ℕ) (FullyConnectedSeriesFB m k) :=
  multiUseInstantiateFactors (fun numUses => ⟨option, numUses, inputFactor, outputFactor⟩)
    strategy inputs gradsList

section PerUse

variable {T U : ℕ} {towers : List (List (List β) × γ)} {gradsList : List (List (List (List β)))}
  {numUses : Option ℕ} {strategy : String}

/-- Towers registered in per-use format, with gradients of their shape, pass `_process_data`
with their number of uses. -/
theorem processData_run_perUse (hT : 0 < T) (hinputs : IsRectangular T U (towers.map Prod.fst))
    (hS : gradsList ≠ []) (hgrads : ∀ grads ∈ gradsList, IsRectangular T U grads)
    (hnum : numUses = none ∨ numUses = some U) (hσ : strategy ∈ ["concat", "separate"]) :
    ∃ r, processData strategy (.perUse (TowerState.run towers).inputs) (.perUse gradsList)
      numUses = .ok r (some U) := by
  obtain ⟨format, hf⟩ := Option.isSome_iff_exists.mp ((@towerFormat_isSome_iff β strategy).mpr hσ)
  rw [TowerState.run_eq_ofTowers]
  exact ⟨_, processData_eq (processInputs_perUse hT hinputs hnum hf)
    (processGrads_perUse hT hS hgrads (.inr rfl) hf)⟩

/-- **The life of a multi-use fully connected block.** For `T ≥ 1` registered towers of `U ≥ 1`
uses, gradient sources of that shape, `num_uses` none or `U` and either strategy,
`instantiate_factors` completes with the coefficient `U`. For any factors the collection makes
and any damping, and every sequence of `register_matpower` calls by the blocks of a collection
whose factor names identify its factors, the block of the collection calling `register_inverse`
among them is served by `multiply_inverse` a matrix that its `multiply` maps back to the vector,
whenever both damped factors are invertible. -/
theorem FullyConnectedMultiIndepFB.multiply_multiplyInverseOn_of_towers (g : GlobalConstants)
    (hT : 0 < T) (hU : 0 < U) (hinputs : IsRectangular T U (towers.map Prod.fst))
    (hS : gradsList ≠ []) (hgrads : ∀ grads ∈ gradsList, IsRectangular T U grads)
    (hnum : numUses = none ∨ numUses = some U) (hσ : strategy ∈ ["concat", "separate"])
    {m k : ℕ} (A : Factor m) (G : Factor k) (damping : ℝ) (blocks : List AnyKroneckerFB)
    (hnames : DampingSite.NamesIdentify (factorsOf blocks)) {calls : List (AnyKroneckerFB × ℤ)}
    (hcalls : ∀ c ∈ calls, c.1 ∈ blocks) :
    let B := (KroneckerVariant.fullyConnectedMultiIndepFB U).instantiateFactors A G damping
    FullyConnectedMultiIndepFB.instantiateFactors strategy (.perUse (TowerState.run towers).inputs)
        (.perUse gradsList) numUses = .ok (.fullyConnectedMultiIndepFB U) (some U) ∧
      (⟨m, k, B⟩ ∈ blocks → (⟨m, k, B⟩, -1) ∈ calls →
        IsUnit (A.damped (B.inputDampingFunc g).call).det →
        IsUnit (G.damped (B.outputDampingFunc g).call).det → ∀ V, ∃ W,
          multiplyInverse (B.multiplyMatpowerOn g (registerAll g .empty calls)) V = some W ∧
            multiply (B.multiplyMatpower g) W = V) := by
  intro B
  obtain ⟨r, hr⟩ := processData_run_perUse hT hinputs hS hgrads hnum hσ
  refine ⟨multiUseInstantiateFactors_of_ok hr, fun hB hinv hA hG V => ?_⟩
  have hreg : ∀ q ∈ B.registerMatpower g (-1), (registerAll g .empty calls q.1 q.2).isSome :=
    fun q hq => (isSome_registerAll _ _ _ _).mpr (.inr ⟨_, hinv, by rwa [Prod.mk.eta]⟩)
  have hc : B.renormCoeff ≠ 0 := Nat.cast_ne_zero.mpr hU.ne'
  refine ⟨B.multiplyMatpower g V (-1), ?_, ?_⟩
  · rw [multiplyInverse, KroneckerProductFB.multiplyMatpowerOn_eq
      (Registrations.kept_registerAll hcalls) hnames hB, if_pos hreg]
  · rw [multiply, KroneckerProductFB.multiplyMatpower_multiplyMatpower hc hA hG, neg_add_cancel,
      KroneckerProductFB.multiplyMatpower_zero]

/-- One tower of one use with one gradient source, in a collection of the block alone. -/
theorem FullyConnectedMultiIndepFB.multiply_multiplyInverseOn_of_towers_oneTower :
    let towers : List (List (List ℕ) × ℕ) := [([[1]], 0)]
    let gradsList : List (List (List (List ℕ))) := [[[[2]]]]
    let A : Factor 1 := ⟨"input", .diagonal 1⟩
    let G : Factor 1 := ⟨"output", .diagonal 1⟩
    let B := (KroneckerVariant.fullyConnectedMultiIndepFB 1).instantiateFactors A G 1
    let blocks : List AnyKroneckerFB := [⟨1, 1, B⟩]
    let calls : List (AnyKroneckerFB × ℤ) := [(⟨1, 1, B⟩, -1)]
    let g : GlobalConstants := {}
    0 < 1 ∧ IsRectangular 1 1 (towers.map Prod.fst) ∧ gradsList ≠ [] ∧
      (∀ grads ∈ gradsList, IsRectangular 1 1 grads) ∧ "concat" ∈ ["concat", "separate"] ∧
      DampingSite.NamesIdentify (factorsOf blocks) ∧ (∀ c ∈ calls, c.1 ∈ blocks) ∧
      (FullyConnectedMultiIndepFB.instantiateFactors "concat"
          (.perUse (TowerState.run towers).inputs) (.perUse gradsList) none =
          .ok (.fullyConnectedMultiIndepFB 1) (some 1) ∧
        (⟨1, 1, B⟩ ∈ blocks → (⟨1, 1, B⟩, -1) ∈ calls →
          IsUnit (A.damped (B.inputDampingFunc g).call).det →
          IsUnit (G.damped (B.outputDampingFunc g).call).det → ∀ V, ∃ W,
            multiplyInverse (B.multiplyMatpowerOn g (registerAll g .empty calls)) V = some W ∧
              multiply (B.multiplyMatpower g) W = V)) := by
  intro towers gradsList A G B blocks calls g
  have hinputs : IsRectangular 1 1 (towers.map Prod.fst) := by decide
  have hgrads : ∀ grads ∈ gradsList, IsRectangular 1 1 grads := by decide
  have hnames : DampingSite.NamesIdentify (factorsOf blocks) := by
    simp [DampingSite.NamesIdentify, factorsOf, blocks, B, A, G, KroneckerProductFB.factors,
      KroneckerVariant.instantiateFactors]
  have hcalls : ∀ c ∈ calls, c.1 ∈ blocks := by simp [calls, blocks]
  exact ⟨one_pos, hinputs, List.cons_ne_nil _ _, hgrads, by simp, hnames, hcalls,
    FullyConnectedMultiIndepFB.multiply_multiplyInverseOn_of_towers g one_pos one_pos hinputs
      (List.cons_ne_nil _ _) hgrads (.inl rfl) (by simp) A G 1 blocks hnames hcalls⟩

/-- **The life of a series block.** For `T ≥ 1` registered towers of `U ≥ 1` uses, gradient
sources of that shape, `num_uses` none or `U` and either strategy, `instantiate_factors` of a
block built with option 1 completes over `U` time-steps. When `(L, psi)` diagonalise the lag-0
and lag-1 covariances of both factors and every decay factor lies in `(-1, 1)`, the block's
`multiply_matpower(V, -1)` returns `W` exactly when the temporal Fisher block over the `U` uses
maps `W` to `V`. -/
theorem FullyConnectedSeriesFB.instantiateFactors_option1_inverse (hT : 0 < T) (hU : 0 < U)
    (hinputs : IsRectangular T U (towers.map Prod.fst)) (hS : gradsList ≠ [])
    (hgrads : ∀ grads ∈ gradsList, IsRectangular T U grads)
    (hnum : numUses = none ∨ numUses = some U) (hσ : strategy ∈ ["concat", "separate"])
    {m k : ℕ} (fA : SeriesFactor m) (fG : SeriesFactor k) {A0 A1 : Matrix (Fin m) (Fin m) ℝ}
    {G0 G1 : Matrix (Fin k) (Fin k) ℝ} (hA : Diagonalises fA.option1quants A0 A1)
    (hG : Diagonalises fG.option1quants G0 G1)
    (hψ : ∀ i j, fG.option1quants.psi i * fA.option1quants.psi j ∈ Set.Ioo (-1 : ℝ) 1) :
    let B : FullyConnectedSeriesFB m k := ⟨.option1, U, fA, fG⟩
    FullyConnectedSeriesFB.instantiateFactors .option1 fA fG strategy
        (.perUse (TowerState.run towers).inputs) (.perUse gradsList) numUses = .ok B (some U) ∧
      ∀ V W, B.multiplyMatpower V (-1) = .ok W ↔ temporalFisher U A0 A1 G0 G1 W = V := by
  intro B
  obtain ⟨r, hr⟩ := processData_run_perUse hT hinputs hS hgrads hnum hσ
  have hψ' := fun i j => abs_lt.mpr (hψ i j)
  refine ⟨multiUseInstantiateFactors_of_ok hr, fun V W => ?_⟩
  rw [FullyConnectedSeriesFB.multiplyMatpower_neg_one, Except.ok.injEq]
  constructor <;> rintro rfl
  exacts [temporalFisher_option1Inverse hU hA hG hψ' V, option1Inverse_temporalFisher hU hA hG hψ' W]

/-- Two towers of one use with one gradient source, and white-noise factors. -/
theorem FullyConnectedSeriesFB.instantiateFactors_option1_inverse_twoTowers :
    let towers : List (List (List ℕ) × ℕ) := [([[1]], 0), ([[2]], 0)]
    let gradsList : List (List (List (List ℕ))) := [[[[3]], [[4]]]]
    let q : Option1Quants 1 := ⟨1, 0⟩
    let f : SeriesFactor 1 := ⟨q, ⟨0, 0, 0⟩⟩
    let B : FullyConnectedSeriesFB 1 1 := ⟨.option1, 1, f, f⟩
    0 < 2 ∧ 0 < 1 ∧ IsRectangular 2 1 (towers.map Prod.fst) ∧ gradsList ≠ [] ∧
      (∀ grads ∈ gradsList, IsRectangular 2 1 grads) ∧ "separate" ∈ ["concat", "separate"] ∧
      Diagonalises q 1 0 ∧ (∀ i j, q.psi i * q.psi j ∈ Set.Ioo (-1 : ℝ) 1) ∧
      (FullyConnectedSeriesFB.instantiateFactors .option1 f f "separate"
          (.perUse (TowerState.run towers).inputs) (.perUse gradsList) none = .ok B (some 1) ∧
        ∀ V W, B.multiplyMatpower V (-1) = .ok W ↔
          temporalFisher 1 (1 : Matrix (Fin 1) (Fin 1) ℝ) 0 (1 : Matrix (Fin 1) (Fin 1) ℝ) 0 W = V) := by
  intro towers gradsList q f B
  have hinputs : IsRectangular 2 1 (towers.map Prod.fst) := by decide
  have hgrads : ∀ grads ∈ gradsList, IsRectangular 2 1 grads := by decide
  have hq : Diagonalises q 1 0 := ⟨by simp [q], by simp [q]; exact Matrix.diagonal_zero.symm⟩
  have hψ : ∀ i j, q.psi i * q.psi j ∈ Set.Ioo (-1 : ℝ) 1 := fun _ _ => by simp [q]
  exact ⟨two_pos, one_pos, hinputs, List.cons_ne_nil _ _, hgrads, by simp, hq, hψ,
    FullyConnectedSeriesFB.instantiateFactors_option1_inverse two_pos one_pos hinputs
      (List.cons_ne_nil _ _) hgrads (.inl rfl) (by simp) f f hq hq hψ⟩

end PerUse

end FisherBlocks

end
