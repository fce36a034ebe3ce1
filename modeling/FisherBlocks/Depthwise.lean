import FisherBlocks.Kronecker
import Mathlib.LinearAlgebra.Matrix.Block

/-!
# Depthwise convolutions through the conv blocks

`DepthwiseConvKFCBasicFB` and `DepthwiseConvDiagonalFB` have no structure of their own. Their
`multiply_matpower` embeds the depthwise filter of shape `[h, w, c, m]` into the conv2d filter of
shape `[h, w, c, c·m]` that computes the same convolution
(`depthwise_conv2d_filter_to_conv2d_filter`), applies the power of the conv block the class
extends, and extracts the diagonal blocks of the result
(`conv2d_filter_to_depthwise_conv2d_filter`).

The embedding writes channel `i`'s filter at output index `i·m + k` and zeros elsewhere; the
extraction reads exactly those entries back, so that extracting undoes embedding, and embedding
after extracting zeroes the off-diagonal blocks (`extract_embed`).

Extracting is a projection, so the powers of the depthwise block compose only when the powers of
the conv block keep filters channel-diagonal. The class docstring of `DepthwiseConvKFCBasicFB`
calls it equivalent to the conv block applied to each input channel in isolation, and
`multiply` and `multiply_inverse` are documented to multiply by the damped block and by its damped
inverse, which would make them inverse to each other. A damped input factor that couples two
channels breaks the round trip `multiply(multiply_inverse(V)) = V` even when both damped factors
are invertible (`multiply_multiplyInverse_coupledChannels`): the extraction drops what the
coupling writes between channels, a term the documented per-channel block does not have. Factors without cross-channel terms keep the round
trip (`multiply_multiplyInverse_of_channelDiagonal`). The diagonal block multiplies entry by
entry, so that it keeps channel-diagonal filters and the round trip for every factor whose
damped diagonal has no zero entry (`DepthwiseConvDiagonalFB.multiply_multiplyInverse_of_ne_zero`).

## Main definitions

* `Tensor`, `concat`: tensors by their entries, and `array_ops.concat`.
* `depthwiseConv2dFilterToConv2dFilter`, `conv2dFilterToDepthwiseConv2dFilter`.
* `layerParamsToMat2d`, `mat2dToLayerParams`: the reshape of a filter to the block's matrix.
* `depthwiseMultiplyMatpower`: the `multiply_matpower` both depthwise blocks share.
* `DepthwiseConvKFCBasicFB`, `DepthwiseConvDiagonalFB` and their `multiplyMatpower`.
* `ChannelDiagonal`: a matrix that couples only indices of one channel.

## Main results

* `extract_embed`.
* `multiply_multiplyInverse_coupledChannels`, `multiply_multiplyInverse_of_channelDiagonal`.
* `DepthwiseConvDiagonalFB.multiply_multiplyInverse_of_ne_zero`.

## References

* `src/kfac/python/ops/fisher_blocks.py`, lines 629–634 and 885–1112.
-/

noncomputable section

open scoped Matrix

namespace FisherBlocks

/-! ### Tensors and `concat` -/

/-- A tensor of rank `n`, by its entry at every index; entries outside its shape are never
read. -/
abbrev Tensor (n : ℕ) : Type := (Fin n → ℕ) → ℝ

/-- `array_ops.zeros(shape)`. -/
def zeros {n : ℕ} : Tensor n := fun _ => 0

/-- `array_ops.concat(values, axis)`, each value given with its size along `axis`: an index reads
the first value whose range along `axis` holds it, at its offset in that range. -/
def concat {n : ℕ} (axis : Fin n) : List (ℕ × Tensor n) → Tensor n
  | [] => zeros
  | (size, t) :: ts => fun idx =>
    if idx axis < size then t idx
    else concat axis ts (Function.update idx axis (idx axis - size))

/-- The Python exceptions the depthwise functions raise. -/
inductive PyError
  | notImplementedError (message : String)
  | valueError (message : String)
  | zeroDivisionError
  deriving DecidableEq, Repr

section Concat

variable {n : ℕ} (axis : Fin n)

@[simp] theorem zeros_apply (idx : Fin n → ℕ) : (zeros : Tensor n) idx = 0 := rfl

theorem concat_eq_zero {l : List (ℕ × Tensor n)} (h : ∀ p ∈ l, p.2 = zeros)
    (idx : Fin n → ℕ) : concat axis l idx = 0 := by
  induction l generalizing idx with
  | nil => rfl
  | cons p l ih =>
    obtain ⟨size, t⟩ := p
    have ht : t = zeros := h _ (List.mem_cons_self _ _)
    simp only [concat, ht, zeros_apply]
    split_ifs
    · rfl
    · exact ih (fun q hq => h q (List.mem_cons_of_mem _ hq)) _

/-- Concatenating two lists reads the second one past the total size of the first. -/
theorem concat_append (l₁ l₂ : List (ℕ × Tensor n)) (idx : Fin n → ℕ) :
    concat axis (l₁ ++ l₂) idx =
      if idx axis < (l₁.map Prod.fst).sum then concat axis l₁ idx
      else concat axis l₂ (Function.update idx axis (idx axis - (l₁.map Prod.fst).sum)) := by
  induction l₁ generalizing idx with
  | nil => simp
  | cons p l₁ ih =>
    obtain ⟨size, t⟩ := p
    simp only [List.cons_append, concat, List.append_eq, List.map_cons, List.sum_cons, ih,
      Function.update_same, Function.update_idem]
    by_cases h : idx axis < size
    · simp [h, show idx axis < size + (l₁.map Prod.fst).sum by omega]
    · have hc : idx axis - size < (l₁.map Prod.fst).sum ↔
          idx axis < size + (l₁.map Prod.fst).sum := by omega
      simp only [h, if_false, hc, Nat.sub_sub]

/-- Concatenating values of one size reads value `i` at the index `i · size + k`. -/
theorem concat_map_apply {α : Type} (size : ℕ) (f : α → Tensor n) :
    ∀ (l : List α) (i : ℕ) (hi : i < l.length) {k : ℕ}, k < size → ∀ idx : Fin n → ℕ,
      idx axis = i * size + k →
        concat axis (l.map fun a => (size, f a)) idx = f l[i] (Function.update idx axis k)
  | [], _, hi, _, _, _, _ => absurd hi (Nat.not_lt_zero _)
  | a :: l, 0, _, k, hk, idx, he => by
    rw [zero_mul, zero_add] at he
    rw [List.map_cons, concat]
    dsimp only
    rw [if_pos (he ▸ hk), List.getElem_cons_zero, ← he, Function.update_eq_self]
  | a :: l, i + 1, hi, k, hk, idx, he => by
    have hle : ¬idx axis < size := by rw [he, Nat.succ_mul]; omega
    rw [List.map_cons, concat]
    dsimp only
    rw [if_neg hle, List.getElem_cons_succ,
      concat_map_apply size f l i (Nat.lt_of_succ_lt_succ hi) hk _
        (by rw [Function.update_same, he, Nat.succ_mul]; omega),
      Function.update_idem]

end Concat

/-- Updating one entry of an explicit index vector. -/
@[simp] theorem update_vec₄ (a b c d e : ℕ) :
    (Function.update ![a, b, c, d] 2 e = ![a, b, e, d]) ∧
      Function.update ![a, b, c, d] 3 e = ![a, b, c, e] := by
  constructor <;> funext i <;> fin_cases i <;> rfl

/-! ### The two filter conversions -/

/-- `depthwise_conv2d_filter_to_conv2d_filter` for a filter of shape
`[filter_height, filter_width, in_channels, channel_multiplier]`: channel `i`'s filter, padded
with zeros along the input channels, for each `i`, concatenated along the output channels. -/
def depthwiseConv2dFilterToConv2dFilter (inChannels channelMultiplier : ℕ) (filter : Tensor 4) :
    Tensor 4 :=
  let results := (List.range inChannels).map fun i =>
    let elements := (if i > 0 then [(i, zeros)] else []) ++
      [(1, fun idx => filter (Function.update idx 2 (i + idx 2)))] ++
      (if i + 1 < inChannels then [(inChannels - (i + 1), zeros)] else [])
    (channelMultiplier, concat 2 elements)
  concat 3 results

/-- `conv2d_filter_to_depthwise_conv2d_filter` for a filter of shape
`[filter_height, filter_width, in_channels, out_channels]`: the diagonal blocks of the filter
reshaped to `[.., in_channels, in_channels, channel_multiplier]`, concatenated along the input
channels. -/
def conv2dFilterToDepthwiseConv2dFilter (inChannels outChannels : ℕ) (filter : Tensor 4) :
    Except PyError (Tensor 4) :=
  if inChannels = 0 then .error .zeroDivisionError
  else if outChannels % inChannels ≠ 0 then
    .error (.valueError "out_channels must be evenly divisible by in_channels.")
  else
    let channelMultiplier := outChannels / inChannels
    let filter : Tensor 5 := fun idx =>
      filter ![idx 0, idx 1, idx 2, idx 3 * channelMultiplier + idx 4]
    let results := (List.range inChannels).map fun i =>
      (1, fun idx : Fin 4 → ℕ => filter ![idx 0, idx 1, i, i, idx 3])
    .ok (concat 2 results)

section Conversions

variable {c : ℕ}

private theorem concat_inChannel (filter : Tensor 4) (i : ℕ) (idx : Fin 4 → ℕ) :
    concat 2 ((if i > 0 then [(i, zeros)] else []) ++
        [(1, fun idx => filter (Function.update idx 2 (i + idx 2)))] ++
        (if i + 1 < c then [(c - (i + 1), zeros)] else [])) idx =
      if idx 2 = i then filter idx else 0 := by
  have hpre : ((if i > 0 then [(i, (zeros : Tensor 4))] else []).map Prod.fst).sum = i := by
    split_ifs <;> simp_all
  have hzero : ∀ l : List (ℕ × Tensor 4), (l = [] ∨ ∃ s, l = [(s, zeros)]) →
      ∀ p ∈ l, p.2 = zeros := by
    rintro l (rfl | ⟨s, rfl⟩) p hp <;> simp_all
  rw [List.append_assoc, concat_append, hpre, List.singleton_append]
  by_cases hlt : idx 2 < i
  · rw [if_pos hlt, concat_eq_zero _ (hzero _ (by split_ifs <;> simp)), if_neg hlt.ne]
  · rw [if_neg hlt, concat]
    dsimp only
    simp only [Function.update_same, Function.update_idem]
    by_cases heq : idx 2 = i
    · rw [if_pos (by omega), if_pos heq, heq, Nat.sub_self, add_zero, ← heq,
        Function.update_eq_self]
    · rw [if_neg (by omega), if_neg heq, concat_eq_zero _ (hzero _ (by split_ifs <;> simp))]

/-- The embedded filter holds channel `i`'s filter at output index `i · m + k`, at input
channel `i` only. -/
theorem depthwiseConv2dFilterToConv2dFilter_apply {m : ℕ} (filter : Tensor 4) {i k : ℕ} (hi : i < c)
    (hk : k < m) (y x j : ℕ) :
    depthwiseConv2dFilterToConv2dFilter c m filter ![y, x, j, i * m + k] =
      if j = i then filter ![y, x, i, k] else 0 := by
  rw [depthwiseConv2dFilterToConv2dFilter]
  dsimp only
  rw [concat_map_apply 3 m _ (List.range c) i (by simpa using hi) hk _ rfl, List.getElem_range,
    (update_vec₄ _ _ _ _ _).2, concat_inChannel]
  show (if j = i then filter ![y, x, j, k] else 0) = _
  split_ifs with h <;> simp [h]

/-- For `c ≥ 1` channels the extraction succeeds, reading the entry at output index `j · m + k`
of input channel `j`. -/
theorem conv2dFilterToDepthwiseConv2dFilter_apply (m : ℕ) (hc : 0 < c) (filter : Tensor 4) :
    ∃ W, conv2dFilterToDepthwiseConv2dFilter c (c * m) filter = .ok W ∧
      ∀ y x k, ∀ j < c, W ![y, x, j, k] = filter ![y, x, j, j * m + k] := by
  refine ⟨_, by rw [conv2dFilterToDepthwiseConv2dFilter, if_neg hc.ne',
    if_neg (by simp), Nat.mul_div_cancel_left m hc], fun y x k j hj => ?_⟩
  rw [concat_map_apply 2 1 _ (List.range c) j (by simpa using hj) Nat.one_pos _ (by simp),
    List.getElem_range]
  rfl

/-- **Extracting undoes embedding, and embedding after extracting keeps exactly the diagonal
blocks**, for every filter and every `c ≥ 1`. -/
theorem extract_embed {m : ℕ} (hc : 0 < c) (W F : Tensor 4) :
    (∃ W', conv2dFilterToDepthwiseConv2dFilter c (c * m)
        (depthwiseConv2dFilterToConv2dFilter c m W) = .ok W' ∧
      ∀ y x, ∀ j < c, ∀ k < m, W' ![y, x, j, k] = W ![y, x, j, k]) ∧
    (∃ F', conv2dFilterToDepthwiseConv2dFilter c (c * m) F = .ok F' ∧
      ∀ y x j, ∀ i < c, ∀ k < m, depthwiseConv2dFilterToConv2dFilter c m F' ![y, x, j, i * m + k] =
        if j = i then F ![y, x, i, i * m + k] else 0) := by
  obtain ⟨W', hW', hW'_apply⟩ := conv2dFilterToDepthwiseConv2dFilter_apply m hc
    (depthwiseConv2dFilterToConv2dFilter c m W)
  obtain ⟨F', hF', hF'_apply⟩ := conv2dFilterToDepthwiseConv2dFilter_apply m hc F
  refine ⟨⟨W', hW', fun y x j hj k hk => ?_⟩, ⟨F', hF', fun y x j i hi k hk => ?_⟩⟩
  · rw [hW'_apply y x k j hj, depthwiseConv2dFilterToConv2dFilter_apply W hj hk, if_pos rfl]
  · rw [depthwiseConv2dFilterToConv2dFilter_apply F' hi hk, hF'_apply y x k i hi]

/-- Two channels with multiplier three, on the filter `[y, x, j, k] ↦ j + k`. -/
theorem extract_embed_twoChannels :
    let W : Tensor 4 := fun idx => idx 2 + idx 3
    0 < 2 ∧
      (∃ W', conv2dFilterToDepthwiseConv2dFilter 2 (2 * 3)
          (depthwiseConv2dFilterToConv2dFilter 2 3 W) = .ok W' ∧
        ∀ y x, ∀ j < 2, ∀ k < 3, W' ![y, x, j, k] = W ![y, x, j, k]) ∧
      (∃ F', conv2dFilterToDepthwiseConv2dFilter 2 (2 * 3) W = .ok F' ∧
        ∀ y x j, ∀ i < 2, ∀ k < 3,
          depthwiseConv2dFilterToConv2dFilter 2 3 F' ![y, x, j, i * 3 + k] =
            if j = i then W ![y, x, i, i * 3 + k] else 0) :=
  ⟨by decide, extract_embed (by decide) _ _⟩

end Conversions

/-! ### The reshape to the block's matrix -/

section Reshape

variable {h w c o m : ℕ}

/-- The row-major order of `[h, w, c]`: `(y, x, j) ↦ (y·w + x)·c + j`. -/
def rowIndex (h w c : ℕ) : (Fin h × Fin w) × Fin c ≃ Fin (h * w * c) :=
  (Equiv.prodCongr finProdFinEquiv (Equiv.refl _)).trans finProdFinEquiv

/-- Modelled from the spec: `utils.layer_params_to_mat2d` of a filter of shape `[h, w, c, o]`
(absent from the source), its row-major reshape to `[h·w·c, o]`. -/
def layerParamsToMat2d (h w c o : ℕ) (filter : Tensor 4) : Matrix (Fin (h * w * c)) (Fin o) ℝ :=
  Matrix.of fun r q =>
    let p := (rowIndex h w c).symm r
    filter ![p.1.1, p.1.2, p.2, q]

/-- Modelled from the spec: `utils.mat2d_to_layer_params`, the reshape back to `[h, w, c, o]`. -/
def mat2dToLayerParams (h w c o : ℕ) (X : Matrix (Fin (h * w * c)) (Fin o) ℝ) : Tensor 4 :=
  fun idx => if hi : idx 0 < h ∧ idx 1 < w ∧ idx 2 < c ∧ idx 3 < o then
    X (rowIndex h w c ((⟨idx 0, hi.1⟩, ⟨idx 1, hi.2.1⟩), ⟨idx 2, hi.2.2.1⟩)) ⟨idx 3, hi.2.2.2⟩
  else 0

@[simp] theorem layerParamsToMat2d_rowIndex (filter : Tensor 4) (p : (Fin h × Fin w) × Fin c)
    (q : Fin o) :
    layerParamsToMat2d h w c o filter (rowIndex h w c p) q = filter ![p.1.1, p.1.2, p.2, q] := by
  simp [layerParamsToMat2d]

theorem mat2dToLayerParams_apply (X : Matrix (Fin (h * w * c)) (Fin o) ℝ)
    (p : (Fin h × Fin w) × Fin c) (q : Fin o) :
    mat2dToLayerParams h w c o X ![p.1.1, p.1.2, p.2, q] = X (rowIndex h w c p) q := by
  simp [mat2dToLayerParams]

theorem sum_rowIndex (f : Fin (h * w * c) → ℝ) : ∑ r, f r = ∑ p, f (rowIndex h w c p) :=
  ((rowIndex h w c).sum_comp f).symm

/-- The input channel of a row of the reshaped filter. -/
def inChannel (h w c : ℕ) (r : Fin (h * w * c)) : Fin c := ((rowIndex h w c).symm r).2

/-- The input channel whose filter the output channel `i·m + k` of a conv2d filter holds. -/
def outChannel (c m : ℕ) (o : Fin (c * m)) : Fin c := (finProdFinEquiv.symm o).1

@[simp] theorem inChannel_rowIndex (p : (Fin h × Fin w) × Fin c) :
    inChannel h w c (rowIndex h w c p) = p.2 := by
  simp [inChannel]

@[simp] theorem outChannel_finProdFinEquiv (i : Fin c) (k : Fin m) :
    outChannel c m (finProdFinEquiv (i, k)) = i := by
  simp [outChannel]

/-- The reshaped embedding of `V`: the filter `V` wherever the channels of row and column agree,
zero elsewhere. -/
def embedMat (h w c m : ℕ) (V : Tensor 4) : Matrix (Fin (h * w * c)) (Fin (c * m)) ℝ :=
  layerParamsToMat2d h w c (c * m) (depthwiseConv2dFilterToConv2dFilter c m V)

theorem embedMat_apply (V : Tensor 4) (p : (Fin h × Fin w) × Fin c) (i : Fin c) (k : Fin m) :
    embedMat h w c m V (rowIndex h w c p) (finProdFinEquiv (i, k)) =
      if p.2 = i then V ![p.1.1, p.1.2, i, k] else 0 := by
  have hval : ((finProdFinEquiv (i, k) : Fin (c * m)) : ℕ) = i * m + k := by
    rw [finProdFinEquiv_apply_val, Nat.add_comm, Nat.mul_comm]
  rw [embedMat, layerParamsToMat2d_rowIndex, hval,
    depthwiseConv2dFilterToConv2dFilter_apply V i.2 k.2]
  simp only [Fin.val_inj]

/-- The entries of `X` whose row and column have the same channel. -/
def channelProjection (X : Matrix (Fin (h * w * c)) (Fin (c * m)) ℝ) :
    Matrix (Fin (h * w * c)) (Fin (c * m)) ℝ :=
  Matrix.of fun r o => if inChannel h w c r = outChannel c m o then X r o else 0

/-- Embedding what the extraction read back from `X` keeps its diagonal blocks. -/
theorem embedMat_eq_channelProjection {V : Tensor 4} {X : Matrix (Fin (h * w * c)) (Fin (c * m)) ℝ}
    (hV : ∀ (p : (Fin h × Fin w) × Fin c) (k : Fin m),
      V ![p.1.1, p.1.2, p.2, k] = X (rowIndex h w c p) (finProdFinEquiv (p.2, k))) :
    embedMat h w c m V = channelProjection X := by
  ext r o
  obtain ⟨p, rfl⟩ := (rowIndex h w c).surjective r
  obtain ⟨⟨i, k⟩, rfl⟩ := finProdFinEquiv.surjective o
  rw [embedMat_apply, channelProjection, Matrix.of_apply, inChannel_rowIndex,
    outChannel_finProdFinEquiv]
  split_ifs with hpi
  · subst hpi
    exact hV p k
  · rfl

end Reshape

/-! ### Channel-diagonal matrices -/

/-- `X` couples only rows and columns of the same channel. -/
def ChannelDiagonal {ι κ : Type} {c : ℕ} (rowChannel : ι → Fin c) (colChannel : κ → Fin c)
    (X : Matrix ι κ ℝ) : Prop :=
  ∀ i j, rowChannel i ≠ colChannel j → X i j = 0

namespace ChannelDiagonal

variable {ι κ μ : Type} {c : ℕ} {a : ι → Fin c} {b : κ → Fin c} {d : μ → Fin c}

theorem mul [Fintype κ] {X : Matrix ι κ ℝ} {Y : Matrix κ μ ℝ} (hX : ChannelDiagonal a b X)
    (hY : ChannelDiagonal b d Y) : ChannelDiagonal a d (X * Y) := fun i j hij =>
  Finset.sum_eq_zero fun l _ => by
    show X i l * Y l j = 0
    by_cases h : a i = b l
    · rw [hY l j (h ▸ hij), mul_zero]
    · rw [hX i l h, zero_mul]

theorem smul {X : Matrix ι κ ℝ} (hX : ChannelDiagonal a b X) (s : ℝ) :
    ChannelDiagonal a b (s • X) := fun i j h => by
  rw [Matrix.smul_apply, hX i j h, smul_zero]

theorem one [DecidableEq ι] : ChannelDiagonal a a (1 : Matrix ι ι ℝ) := fun _ _ h =>
  Matrix.one_apply_ne fun e => h (congrArg a e)

/-- Channel-diagonal means block triangular for the channel order and for its dual. -/
theorem iff_blockTriangular {M : Matrix ι ι ℝ} :
    ChannelDiagonal a a M ↔ M.BlockTriangular a ∧ M.BlockTriangular (OrderDual.toDual ∘ a) :=
  ⟨fun h => ⟨fun i j hij => h i j hij.ne', fun i j hij =>
      h i j (OrderDual.toDual_lt_toDual.mp hij).ne⟩,
    fun h _ _ hij => (lt_or_gt_of_ne hij).elim
      (fun hl => h.2 (OrderDual.toDual_lt_toDual.mpr hl)) fun hg => h.1 hg⟩

/-- The inverse of a channel-diagonal matrix is channel-diagonal, invertible or not. -/
theorem inv [Fintype ι] [DecidableEq ι] {M : Matrix ι ι ℝ} (hM : ChannelDiagonal a a M) :
    ChannelDiagonal a a M⁻¹ := by
  by_cases hu : IsUnit M.det
  · letI := M.invertibleOfIsUnitDet hu
    obtain ⟨h₁, h₂⟩ := iff_blockTriangular.mp hM
    exact iff_blockTriangular.mpr ⟨Matrix.blockTriangular_inv_of_blockTriangular h₁,
      Matrix.blockTriangular_inv_of_blockTriangular h₂⟩
  · rw [Matrix.nonsing_inv_apply_not_isUnit M hu]
    exact fun _ _ _ => rfl

theorem pow [Fintype ι] [DecidableEq ι] {M : Matrix ι ι ℝ} (hM : ChannelDiagonal a a M) :
    ∀ n : ℕ, ChannelDiagonal a a (M ^ n)
  | 0 => by rw [pow_zero]; exact one
  | n + 1 => by rw [pow_succ]; exact (hM.pow n).mul hM

theorem zpow [Fintype ι] [DecidableEq ι] {M : Matrix ι ι ℝ} (hM : ChannelDiagonal a a M) :
    ∀ p : ℤ, ChannelDiagonal a a (M ^ p)
  | (n : ℕ) => by rw [zpow_natCast]; exact hM.pow n
  | .negSucc n => by rw [zpow_negSucc]; exact (hM.pow (n + 1)).inv

end ChannelDiagonal

/-- The powers of a Kronecker block whose damped factors are channel-diagonal keep
channel-diagonal matrices channel-diagonal. -/
theorem ChannelDiagonal.multiplyMatpower {r o c : ℕ} {a : Fin r → Fin c} {b : Fin o → Fin c}
    {g : GlobalConstants} {B : KroneckerProductFB r o}
    (hA : ChannelDiagonal a a (B.inputFactor.damped (B.inputDampingFunc g).call))
    (hG : ChannelDiagonal b b (B.outputFactor.damped (B.outputDampingFunc g).call))
    {X : Matrix (Fin r) (Fin o) ℝ} (hX : ChannelDiagonal a b X) (p : ℤ) :
    ChannelDiagonal a b (B.multiplyMatpower g X p) := by
  rw [KroneckerProductFB.multiplyMatpower_eq]
  exact (((hA.zpow p).mul hX).mul (hG.zpow p)).smul _

/-! ### The depthwise `multiply_matpower` -/

section Depthwise

variable {h w c m : ℕ}

/-- `multiply_matpower` of `DepthwiseConvDiagonalFB` and of `DepthwiseConvKFCBasicFB`: embed, apply
the `multiply_matpower` of the conv block the class extends, extract. -/
def depthwiseMultiplyMatpower (c m : ℕ) (convMultiplyMatpower : Tensor 4 → ℤ → Tensor 4)
    (vector : Tensor 4) (exp : ℤ) : Except PyError (Tensor 4) :=
  let conv2dVector := depthwiseConv2dFilterToConv2dFilter c m vector
  let conv2dResult := convMultiplyMatpower conv2dVector exp
  conv2dFilterToDepthwiseConv2dFilter c (c * m) conv2dResult

/-- For `c ≥ 1` channels, over a conv block that acts on the reshaped filter through `op`, the
depthwise `multiply_matpower` succeeds and reads the diagonal blocks of `op` of the embedded
filter. -/
theorem depthwiseMultiplyMatpower_apply
    (op : Matrix (Fin (h * w * c)) (Fin (c * m)) ℝ → ℤ → Matrix (Fin (h * w * c)) (Fin (c * m)) ℝ)
    (hc : 0 < c) (V : Tensor 4) (p : ℤ) :
    ∃ W, depthwiseMultiplyMatpower c m
        (fun v e => mat2dToLayerParams h w c (c * m) (op (layerParamsToMat2d h w c (c * m) v) e))
        V p = .ok W ∧
      ∀ (q : (Fin h × Fin w) × Fin c) (k : Fin m),
        W ![q.1.1, q.1.2, q.2, k] = op (embedMat h w c m V) p (rowIndex h w c q)
          (finProdFinEquiv (q.2, k)) := by
  obtain ⟨W, hW, hW_apply⟩ := conv2dFilterToDepthwiseConv2dFilter_apply m hc
    (mat2dToLayerParams h w c (c * m) (op (embedMat h w c m V) p))
  refine ⟨W, hW, fun q k => ?_⟩
  have hval : q.2.val * m + k.val = (finProdFinEquiv (q.2, k) : Fin (c * m)).val := by
    rw [finProdFinEquiv_apply_val, Nat.add_comm, Nat.mul_comm]
  rw [hW_apply _ _ _ _ q.2.2, hval, mat2dToLayerParams_apply]

end Depthwise

/-! ### The Kronecker block -/

/-- A `DepthwiseConvKFCBasicFB` with filter shape `[h, w, c, m]`: a `ConvKFCBasicFB` over the
`h·w·c` rows and the `c·m` output channels of the equivalent conv2d filter. -/
structure DepthwiseConvKFCBasicFB (h w c m : ℕ) extends KroneckerProductFB (h * w * c) (c * m)

variable (g : GlobalConstants) {h w c m : ℕ}

/-- `ConvKFCBasicFB.multiply_matpower`, that of `KroneckerProductFB`, on a conv2d filter of
shape `[h, w, c, o]`: reshaped to the block's matrix and back. -/
def convMultiplyMatpower {o : ℕ} (B : KroneckerProductFB (h * w * c) o) (vector : Tensor 4)
    (exp : ℤ) : Tensor 4 :=
  mat2dToLayerParams h w c o (B.multiplyMatpower g (layerParamsToMat2d h w c o vector) exp)

namespace DepthwiseConvKFCBasicFB

variable (D : DepthwiseConvKFCBasicFB h w c m)

/-- `DepthwiseConvKFCBasicFB.multiply_matpower`, over `ConvKFCBasicFB`. -/
def multiplyMatpower (vector : Tensor 4) (exp : ℤ) : Except PyError (Tensor 4) :=
  depthwiseMultiplyMatpower c m (convMultiplyMatpower g D.toKroneckerProductFB) vector exp

variable {D}

/-- For `c ≥ 1` channels `multiply_matpower` succeeds, and reads the diagonal blocks of the conv
block's power of the embedded filter. -/
theorem multiplyMatpower_apply (hc : 0 < c) (V : Tensor 4) (p : ℤ) :
    ∃ W, D.multiplyMatpower g V p = .ok W ∧ ∀ (q : (Fin h × Fin w) × Fin c) (k : Fin m),
      W ![q.1.1, q.1.2, q.2, k] = D.toKroneckerProductFB.multiplyMatpower g (embedMat h w c m V) p
        (rowIndex h w c q) (finProdFinEquiv (q.2, k)) :=
  depthwiseMultiplyMatpower_apply (D.toKroneckerProductFB.multiplyMatpower g) hc V p

/-- **Factors without cross-channel terms keep the round trip.** When both damped factors are
invertible and channel-diagonal and `c ≠ 0`, `multiply(multiply_inverse(V))` returns `V`. -/
theorem multiply_multiplyInverse_of_channelDiagonal (hc : 0 < c) (hren : D.renormCoeff ≠ 0)
    (hA : IsUnit (D.inputFactor.damped (D.inputDampingFunc g).call).det)
    (hG : IsUnit (D.outputFactor.damped (D.outputDampingFunc g).call).det)
    (hAc : ChannelDiagonal (inChannel h w c) (inChannel h w c)
      (D.inputFactor.damped (D.inputDampingFunc g).call))
    (hGc : ChannelDiagonal (outChannel c m) (outChannel c m)
      (D.outputFactor.damped (D.outputDampingFunc g).call))
    (V : Tensor 4) :
    ∃ W, (multiplyInverse (D.multiplyMatpower g) V >>= multiply (D.multiplyMatpower g)) = .ok W ∧
      ∀ y < h, ∀ x < w, ∀ j < c, ∀ k < m, W ![y, x, j, k] = V ![y, x, j, k] := by
  obtain ⟨W₁, h₁, hW₁⟩ := D.multiplyMatpower_apply g hc V (-1)
  obtain ⟨W₂, h₂, hW₂⟩ := D.multiplyMatpower_apply g hc W₁ 1
  have hdiag : ChannelDiagonal (inChannel h w c) (outChannel c m) (embedMat h w c m V) :=
    fun r o hro => by
      obtain ⟨p, rfl⟩ := (rowIndex h w c).surjective r
      obtain ⟨⟨i, k⟩, rfl⟩ := finProdFinEquiv.surjective o
      rw [embedMat_apply, if_neg (by simpa using hro)]
  have hE : embedMat h w c m W₁ =
      D.toKroneckerProductFB.multiplyMatpower g (embedMat h w c m V) (-1) := by
    rw [embedMat_eq_channelProjection hW₁]
    ext r o
    rw [channelProjection, Matrix.of_apply, ite_eq_left_iff]
    exact fun hro => ((ChannelDiagonal.multiplyMatpower hAc hGc hdiag (-1)) r o hro).symm
  refine ⟨W₂, by rw [multiplyInverse, h₁]; exact h₂, fun y hy x hx j hj k hk => ?_⟩
  rw [hW₂ ((⟨y, hy⟩, ⟨x, hx⟩), ⟨j, hj⟩) ⟨k, hk⟩, hE,
    KroneckerProductFB.multiplyMatpower_multiplyMatpower hren hA hG, neg_add_cancel,
    KroneckerProductFB.multiplyMatpower_zero, embedMat_apply, if_pos rfl]

/-- Identity factors on two channels meet every hypothesis of the round trip. -/
theorem multiply_multiplyInverse_of_channelDiagonal_unitFactors :
    let D : DepthwiseConvKFCBasicFB 1 1 2 1 :=
      ⟨⟨⟨"input", .full 1 Matrix.isSymm_one⟩, ⟨"output", .full 1 Matrix.isSymm_one⟩, 0, none, 1⟩⟩
    let V : Tensor 4 := fun idx => idx 2 + 1
    0 < 2 ∧ D.renormCoeff ≠ 0 ∧ IsUnit (D.inputFactor.damped (D.inputDampingFunc {}).call).det ∧
      IsUnit (D.outputFactor.damped (D.outputDampingFunc {}).call).det ∧
      ChannelDiagonal (inChannel 1 1 2) (inChannel 1 1 2)
        (D.inputFactor.damped (D.inputDampingFunc {}).call) ∧
      ChannelDiagonal (outChannel 2 1) (outChannel 2 1)
        (D.outputFactor.damped (D.outputDampingFunc {}).call) ∧
      ∃ W, (multiplyInverse (D.multiplyMatpower {}) V >>= multiply (D.multiplyMatpower {})) =
          .ok W ∧ ∀ y < 1, ∀ x < 1, ∀ j < 2, ∀ k < 1, W ![y, x, j, k] = V ![y, x, j, k] := by
  intro D V
  have hA : D.inputFactor.damped (D.inputDampingFunc {}).call = 1 := by
    simp [KroneckerProductFB.inputDampingFunc, setupDamping, D, CovEstimate.toMatrix]
  have hG : D.outputFactor.damped (D.outputDampingFunc {}).call = 1 := by
    simp [KroneckerProductFB.outputDampingFunc, setupDamping, D, CovEstimate.toMatrix]
  have hAu : IsUnit (D.inputFactor.damped (D.inputDampingFunc {}).call).det := by simp [hA]
  have hGu : IsUnit (D.outputFactor.damped (D.outputDampingFunc {}).call).det := by simp [hG]
  have hAc : ChannelDiagonal (inChannel 1 1 2) (inChannel 1 1 2)
      (D.inputFactor.damped (D.inputDampingFunc {}).call) := hA ▸ ChannelDiagonal.one
  have hGc : ChannelDiagonal (outChannel 2 1) (outChannel 2 1)
      (D.outputFactor.damped (D.outputDampingFunc {}).call) := hG ▸ ChannelDiagonal.one
  exact ⟨by decide, one_ne_zero, hAu, hGu, hAc, hGc,
    multiply_multiplyInverse_of_channelDiagonal {} (by decide) one_ne_zero hAu hGu hAc hGc V⟩

/-- **The round trip fails for a factor that couples two channels.** A depthwise block with two
channels whose damped input factor `[[2, 1], [1, 2]]` couples them, with identity output factor:
both damped factors are invertible, yet `multiply(multiply_inverse(V))` holds `4/3` where `V`
holds `1`. -/
theorem multiply_multiplyInverse_coupledChannels :
    let A : Factor (1 * 1 * 2) :=
      ⟨"input", .full (Matrix.of fun r r' => if r = r' then 2 else 1)
        (Matrix.IsSymm.ext fun _ _ => if_congr eq_comm rfl rfl)⟩
    let G : Factor (2 * 1) := ⟨"output", .full 1 Matrix.isSymm_one⟩
    let D : DepthwiseConvKFCBasicFB 1 1 2 1 := ⟨⟨A, G, 0, none, 1⟩⟩
    let V : Tensor 4 := fun _ => 1
    IsUnit (D.inputFactor.damped (D.inputDampingFunc {}).call).det ∧
      IsUnit (D.outputFactor.damped (D.outputDampingFunc {}).call).det ∧
      ∃ W, (multiplyInverse (D.multiplyMatpower {}) V >>= multiply (D.multiplyMatpower {})) =
        .ok W ∧ W ![0, 0, 0, 0] = 4 / 3 ∧ V ![0, 0, 0, 0] = 1 := by
  intro A G D V
  have hrow : ∀ p q : (Fin 1 × Fin 1) × Fin 2, rowIndex 1 1 2 p = rowIndex 1 1 2 q ↔ p.2 = q.2 := by
    decide
  have hA : D.inputFactor.damped (D.inputDampingFunc {}).call =
      Matrix.of fun r r' => if r = r' then 2 else 1 := by
    simp [KroneckerProductFB.inputDampingFunc, setupDamping, D, A, CovEstimate.toMatrix]
  have hG : D.outputFactor.damped (D.outputDampingFunc {}).call = 1 := by
    simp [KroneckerProductFB.outputDampingFunc, setupDamping, D, G, CovEstimate.toMatrix]
  have hBA : (Matrix.of fun r r' => if r = r' then (2 / 3 : ℝ) else -1 / 3 :
        Matrix (Fin (1 * 1 * 2)) (Fin (1 * 1 * 2)) ℝ) *
      (Matrix.of fun r r' => if r = r' then 2 else 1) = 1 := by
    ext r r'
    obtain ⟨p, rfl⟩ := (rowIndex 1 1 2).surjective r
    obtain ⟨p', rfl⟩ := (rowIndex 1 1 2).surjective r'
    simp only [Matrix.mul_apply, sum_rowIndex, Matrix.of_apply, Matrix.one_apply, hrow,
      Fintype.sum_prod_type, Fin.sum_univ_one, Fin.sum_univ_two]
    fin_cases p <;> fin_cases p' <;> norm_num
  obtain ⟨W₁, h₁, hW₁⟩ := D.multiplyMatpower_apply {} (by decide) V (-1)
  obtain ⟨W₂, h₂, hW₂⟩ := D.multiplyMatpower_apply {} (by decide) W₁ 1
  refine ⟨Matrix.isUnit_det_of_left_inverse (hA ▸ hBA), by simp [hG], W₂,
    by rw [multiplyInverse, h₁]; exact h₂, ?_, rfl⟩
  rw [show W₂ ![0, 0, 0, 0] = _ from hW₂ ((0, 0), 0) 0, embedMat_eq_channelProjection hW₁,
    KroneckerProductFB.multiplyMatpower_eq, KroneckerProductFB.multiplyMatpower_eq, hA, hG]
  simp only [D, zpow_one, one_zpow, zpow_neg_one, Matrix.inv_eq_left_inv hBA, one_smul, inv_one,
    Matrix.mul_one, Matrix.mul_apply, sum_rowIndex, channelProjection, Matrix.of_apply,
    inChannel_rowIndex, outChannel_finProdFinEquiv, embedMat_apply, hrow, Fintype.sum_prod_type,
    Fin.sum_univ_one, Fin.sum_univ_two]
  norm_num

end DepthwiseConvKFCBasicFB

/-! ### The diagonal block -/

/-- `ConvDiagonalFB.multiply_matpower` on a conv2d filter of shape `[h, w, c, o]`: the factor's
`left_multiply_matpower` of the reshaped filter, reshaped back. -/
def convDiagonalMultiplyMatpower {o : ℕ} (factor : DiagonalFactor (h * w * c) o)
    (dampingFunc : PackagedFunc ℝ) (vector : Tensor 4) (exp : ℤ) : Tensor 4 :=
  mat2dToLayerParams h w c o
    (factor.leftMultiplyMatpower (layerParamsToMat2d h w c o vector) exp dampingFunc)

/-- A `DepthwiseConvDiagonalFB` with filter shape `[h, w, c, m]`, by what its
`instantiate_factors` leaves: the diagonal factor of the `ConvDiagonalFB` over the equivalent
conv2d filter, and its damping function. -/
structure DepthwiseConvDiagonalFB (h w c m : ℕ) where
  factor : DiagonalFactor (h * w * c) (c * m)
  dampingFunc : PackagedFunc ℝ

namespace DepthwiseConvDiagonalFB

variable (D : DepthwiseConvDiagonalFB h w c m)

/-- `DepthwiseConvDiagonalFB.multiply_matpower`, over `ConvDiagonalFB`. -/
def multiplyMatpower (vector : Tensor 4) (exp : ℤ) : Except PyError (Tensor 4) :=
  depthwiseMultiplyMatpower c m (convDiagonalMultiplyMatpower D.factor D.dampingFunc) vector exp

variable {D}

/-- For `c ≥ 1` channels `multiply_matpower` succeeds and scales each entry of the filter by the
power of its damped diagonal entry. -/
theorem multiplyMatpower_apply (hc : 0 < c) (V : Tensor 4) (p : ℤ) :
    ∃ W, D.multiplyMatpower V p = .ok W ∧ ∀ (q : (Fin h × Fin w) × Fin c) (k : Fin m),
      W ![q.1.1, q.1.2, q.2, k] = (D.factor.diag (rowIndex h w c q) (finProdFinEquiv (q.2, k)) +
        D.dampingFunc.call) ^ p * V ![q.1.1, q.1.2, q.2, k] := by
  obtain ⟨W, hW, hW_apply⟩ := depthwiseMultiplyMatpower_apply
    (fun X e => D.factor.leftMultiplyMatpower X e D.dampingFunc) hc V p
  refine ⟨W, hW, fun q k => ?_⟩
  rw [hW_apply, DiagonalFactor.leftMultiplyMatpower, Matrix.of_apply, embedMat_apply, if_pos rfl]

/-- Powers compose: where no damped diagonal entry is zero, `multiply_matpower(·, p')` after
`multiply_matpower(·, p)` scales each entry by the power `p + p'`. -/
theorem multiplyMatpower_bind_multiplyMatpower (hc : 0 < c)
    (h0 : ∀ i j, D.factor.diag i j + D.dampingFunc.call ≠ 0) (V : Tensor 4) (p p' : ℤ) :
    ∃ W, (D.multiplyMatpower V p >>= fun W => D.multiplyMatpower W p') = .ok W ∧
      ∀ (q : (Fin h × Fin w) × Fin c) (k : Fin m),
        W ![q.1.1, q.1.2, q.2, k] = (D.factor.diag (rowIndex h w c q) (finProdFinEquiv (q.2, k)) +
          D.dampingFunc.call) ^ (p + p') * V ![q.1.1, q.1.2, q.2, k] := by
  obtain ⟨W₁, h₁, hW₁⟩ := D.multiplyMatpower_apply hc V p
  obtain ⟨W₂, h₂, hW₂⟩ := D.multiplyMatpower_apply hc W₁ p'
  refine ⟨W₂, by rw [h₁]; exact h₂, fun q k => ?_⟩
  rw [hW₂, hW₁, ← mul_assoc, ← zpow_add₀ (h0 _ _), add_comm p']

/-- **The diagonal block keeps the round trip.** Unlike the Kronecker block, for every factor
whose damped diagonal has no zero entry, `multiply(multiply_inverse(V))` returns `V`. -/
theorem multiply_multiplyInverse_of_ne_zero (hc : 0 < c)
    (h0 : ∀ i j, D.factor.diag i j + D.dampingFunc.call ≠ 0) (V : Tensor 4) :
    ∃ W, (multiplyInverse D.multiplyMatpower V >>= multiply D.multiplyMatpower) = .ok W ∧
      ∀ y < h, ∀ x < w, ∀ j < c, ∀ k < m, W ![y, x, j, k] = V ![y, x, j, k] := by
  obtain ⟨W, hW, hW_apply⟩ := multiplyMatpower_bind_multiplyMatpower hc h0 V (-1) 1
  refine ⟨W, hW, fun y hy x hx j hj k hk => ?_⟩
  rw [hW_apply ((⟨y, hy⟩, ⟨x, hx⟩), ⟨j, hj⟩) ⟨k, hk⟩, neg_add_cancel, zpow_zero, one_mul]

/-- A two-channel block with unit diagonal and damping one. -/
theorem multiply_multiplyInverse_of_ne_zero_unitDiagonal :
    let D : DepthwiseConvDiagonalFB 1 1 2 1 := ⟨⟨Matrix.of fun _ _ => 1⟩, constantDampingFunc 1⟩
    let V : Tensor 4 := fun idx => idx 2 + 1
    0 < 2 ∧ (∀ i j, D.factor.diag i j + D.dampingFunc.call ≠ 0) ∧
      ∃ W, (multiplyInverse D.multiplyMatpower V >>= multiply D.multiplyMatpower) = .ok W ∧
        ∀ y < 1, ∀ x < 1, ∀ j < 2, ∀ k < 1, W ![y, x, j, k] = V ![y, x, j, k] := by
  intro D V
  have h0 : ∀ i j, D.factor.diag i j + D.dampingFunc.call ≠ 0 := fun _ _ => by norm_num [D]
  exact ⟨by decide, h0, multiply_multiplyInverse_of_ne_zero (by decide) h0 V⟩

end DepthwiseConvDiagonalFB

end FisherBlocks

end
