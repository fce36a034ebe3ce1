import FisherBlocks.Depthwise

/-!
# The constructors of the convolutional blocks

`ConvDiagonalFB.__init__` checks the lengths of its strides and dilations, the data format and
the rank of the filter, in this order, and defaults the dilations to `[1, 1, 1, 1]`;
`ConvKFCBasicFB.__init__` checks nothing. The constructors of the two depthwise blocks make the
same five checks of their own (no bias, a 4-D filter, four strides, a rate of two spatial
entries, channels last), widen the rate to the four entries conv2d expects, call their parent's
constructor and overwrite the recorded filter shape `[h, w, c, m]` with that of the equivalent
conv2d filter, `[h, w, c, c·m]`.

`utils.is_data_format_channel_last(data_format)` is absent from the source; the constructors
take its value. The padding and the data format are only passed on to the factors and are left
out of what the constructors record.

## Main definitions

* `ConvParams`: the `params` of a convolutional layer, by the shapes the constructors read.
* `raiseIf`: Python's `if cond: raise error`.
* `ConvDiagonalFB.init`, `ConvKFCBasicFB.init`.
* `depthwiseInitChecks`: the checks both depthwise constructors make.
* `DepthwiseConvDiagonalFB.init`, `DepthwiseConvKFCBasicFB.init`.

## References

* `src/kfac/python/ops/fisher_blocks.py`, lines 550–602, 822–861, 891–946 and 961–1017.
-/

namespace FisherBlocks

/-! ### Raising from a check -/

/-- Python's `if cond: raise error`. -/
def raiseIf (cond : Prop) [Decidable cond] (error : PyError) : Except PyError Unit :=
  if cond then .error error else .ok ()

/-! ### The parents' constructors -/

/-- The `params` of a convolutional layer, by the shape of the kernel: the kernel alone, or a
tuple of the kernel and a bias. -/
inductive ConvParams
  | kernel (shape : List ℕ)
  | kernelAndBias (shape : List ℕ)

namespace ConvParams

/-- `isinstance(params, (tuple, list))`. -/
def isTuple : ConvParams → Bool
  | kernel _ => false
  | kernelAndBias _ => true

/-- `fltr.shape.as_list()` for `fltr = params[0] if has_bias else params`. -/
def filterShape : ConvParams → List ℕ
  | kernel shape => shape
  | kernelAndBias shape => shape

end ConvParams

/-- What `ConvDiagonalFB.__init__` records: `_strides`, `_dilations`, `_has_bias` and
`_filter_shape`. -/
structure ConvDiagonalFBConfig where
  strides : List ℕ
  dilations : List ℕ
  hasBias : Bool
  filterShape : List ℕ
  deriving DecidableEq

/-- `ConvDiagonalFB.__init__`, given the value `channelsLast` of
`utils.is_data_format_channel_last(data_format)`. -/
def ConvDiagonalFB.init (params : ConvParams) (strides : List ℕ) (channelsLast : Bool)
    (dilations : Option (List ℕ)) : Except PyError ConvDiagonalFBConfig := do
  raiseIf (strides.length ≠ 4) (.valueError "strides must contain 4 numbers.")
  let dilations := dilations.getD [1, 1, 1, 1]
  raiseIf (dilations.length ≠ 4) (.valueError "dilations must contain 4 numbers.")
  raiseIf (channelsLast = false) (.valueError "data_format must be channels-last.")
  let hasBias := params.isTuple
  let filterShape := params.filterShape
  raiseIf (filterShape.length ≠ 4) (.valueError ("Convolution filter must be of shape" ++
    " [filter_height, filter_width, in_channels, out_channels]."))
  pure ⟨strides, dilations, hasBias, filterShape⟩

/-- What `ConvKFCBasicFB.__init__` records: `_strides`, `_dilation_rate`,
`_extract_patches_fn`, `_has_bias` and `_filter_shape`. -/
structure ConvKFCBasicFBConfig where
  strides : Option (List ℕ)
  dilationRate : Option (List ℕ)
  extractPatchesFn : Option String
  hasBias : Bool
  filterShape : List ℕ
  deriving DecidableEq

/-- `ConvKFCBasicFB.__init__`, which checks nothing. -/
def ConvKFCBasicFB.init (params : ConvParams) (strides dilationRate : Option (List ℕ))
    (extractPatchesFn : Option String) : ConvKFCBasicFBConfig :=
  ⟨strides, dilationRate, extractPatchesFn, params.isTuple, params.filterShape⟩

/-! ### The depthwise constructors -/

/-- `if rate is not None`: a rate of two spatial entries widened to `[1, r₀, r₁, 1]`. -/
def depthwiseRate : Option (List ℕ) → Except PyError (Option (List ℕ))
  | none => .ok none
  | some [r0, r1] => .ok (some [1, r0, r1, 1])
  | some [] | some [_] | some (_ :: _ :: _ :: _) =>
    .error (.valueError "rate must only account for spatial dimensions.")

/-- The checks `DepthwiseConvDiagonalFB.__init__` and `DepthwiseConvKFCBasicFB.__init__` both
make before they call their parent's constructor, returning the rate it is given. -/
def depthwiseInitChecks (params : ConvParams) (strides : List ℕ) (rate : Option (List ℕ))
    (channelsLast : Bool) : Except PyError (Option (List ℕ)) := do
  raiseIf (params.isTuple = true) (.notImplementedError "Bias not yet supported.")
  raiseIf (params.filterShape.length ≠ 4) (.valueError "Filter must be 4-D.")
  raiseIf (strides.length ≠ 4) (.valueError "strides must account for 4 dimensions.")
  let rate ← depthwiseRate rate
  raiseIf (channelsLast = false) (.valueError "data_format must be channels-last.")
  pure rate

/-- The hack that overwrites `_filter_shape` with `(h, w, c, c·m)` for the depthwise shape
`[h, w, c, m]`, the only shape left once the 4-D check has passed. -/
def depthwiseFilterShape : List ℕ → List ℕ
  | [h, w, c, m] => [h, w, c, c * m]
  | shape => shape

/-- `DepthwiseConvDiagonalFB.__init__`. -/
def DepthwiseConvDiagonalFB.init (params : ConvParams) (strides : List ℕ)
    (rate : Option (List ℕ)) (channelsLast : Bool) : Except PyError ConvDiagonalFBConfig := do
  let rate ← depthwiseInitChecks params strides rate channelsLast
  let config ← ConvDiagonalFB.init params strides channelsLast rate
  pure { config with filterShape := depthwiseFilterShape params.filterShape }

/-- `DepthwiseConvKFCBasicFB.__init__`. -/
def DepthwiseConvKFCBasicFB.init (params : ConvParams) (strides : List ℕ)
    (rate : Option (List ℕ)) (channelsLast : Bool) : Except PyError ConvKFCBasicFBConfig := do
  let rate ← depthwiseInitChecks params strides rate channelsLast
  let config := ConvKFCBasicFB.init params (some strides) rate (some "extract_image_patches")
  pure { config with filterShape := depthwiseFilterShape params.filterShape }

example : DepthwiseConvDiagonalFB.init (.kernel [3, 3, 2, 4]) [1, 2, 2, 1] (some [2, 2]) true =
    .ok ⟨[1, 2, 2, 1], [1, 2, 2, 1], false, [3, 3, 2, 8]⟩ := rfl

end FisherBlocks
