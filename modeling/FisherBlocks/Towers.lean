import Mathlib.Algebra.BigOperators.Group.List
import Mathlib.Algebra.Order.Ring.Nat

/-!
# Towers and uses

The inputs and the output gradients of a block are registered one tower (a data-parallel
replica) at a time. `_process_data` brings them into the form the factors expect, following the
global `TOWER_STRATEGY`: under `"concat"` all towers are merged into one `PartitionedTensor`,
under `"separate"` every tower stays a piece of its own.

`InputOutputMultiTower` keeps the registered towers in two parallel lists, `self.__inputs` and
`self.__outputs`; `num_registered_towers` returns the length of the first after asserting that
it is the length of the second. The two lists refine a list of towers: one registration appends
one tower (`TowerState.registerAdditionalTower_ofTowers`), so that every run from the
constructor holds the towers it registered, in order (`TowerState.run_eq_ofTowers`), and the
assertion never fails (`TowerState.numRegisteredTowers_run`). `FullFB` and `NaiveDiagonalFB`
keep the batch sizes of their towers instead, and estimate with their sum
(`BatchSizes.batchSize_run`).

A multi-use block (`InputOutputMultiTowerMultiUse`) accepts two formats on each side: a list of
per-use tensors for every tower, or one tensor per tower with its uses already folded into the
batch dimension. In the first format it infers the number of uses, checks it against
`self._num_uses` and against every tower, records it, and flattens the towers and uses into
pieces; under `"concat"` the parts are laid out use-major, the part of tower `t` and use `u` at
`u · T + t` (`processData_perUse`). A tensor is modelled by its rows along the leading dimension.
The folded format passes through unchanged.

`self._num_uses` is written before some of the checks that may raise, so `_process_data` runs in
`EStateM`, which keeps the state at an error as Python does.

## Main definitions

* `PartitionedTensor`, `Piece`: what the factors receive for one tower.
* `zipStar`: Python's `zip(*xss)`.
* `InputOutputMultiTower.processData`.
* `InputsData`, `GradsData`: the two accepted formats of a multi-use block.
* `InputOutputMultiTowerMultiUse.processData`.
* `TowerState`, `TowerState.run`: `InputOutputMultiTower`'s registered towers, and the state after
  a run of `register_additional_tower`.
* `BatchSizes`, `BatchSizes.run`: the towers of `FullFB` and `NaiveDiagonalFB`.

## Main results

* `flatten_zipStar_getElem?`: the use-major layout of the merged parts.
* `InputOutputMultiTowerMultiUse.processData_perUse`: the layout of the data in per-use format.
* `InputOutputMultiTowerMultiUse.processData_folded_concat`: the folded format at two towers.
* `TowerState.run_eq_ofTowers`, `TowerState.numRegisteredTowers_run`, `BatchSizes.batchSize_run`.

## References

* `src/kfac/python/ops/fisher_blocks.py`, lines 246–452 and 1143–1285.
-/

namespace FisherBlocks

/-! ### Pieces of tower data -/

/-- Modelled from the spec: `utils.PartitionedTensor` (absent from the source), a tensor kept as
the list of its parts; it stands for their concatenation along the leading dimension. -/
structure PartitionedTensor (β : Type) where
  tensors : List (List β)

/-- The data a factor receives for one tower: a `PartitionedTensor`, or a tensor passed through
unchanged. -/
inductive Piece (β : Type)
  | partitioned (t : PartitionedTensor β)
  | tensor (rows : List β)

/-- The rows of a piece: a `PartitionedTensor` is the concatenation of its parts. -/
def Piece.rows {β : Type} : Piece β → List β
  | partitioned t => t.tensors.flatten
  | tensor rows => rows

/-- The message of the `ValueError` for an unknown tower strategy. -/
def towerStrategyError : String :=
  "Global config variable TOWER_STRATEGY must be one of 'concat' or 'separate'."

/-- The message of the `IndexError` of `xs[0]` on an empty list. -/
def indexError : String := "list index out of range"

/-! ### `zip(*xss)` -/

section ZipStar

variable {α : Type}

/-- Python's `zip(*xss)`: the `u`-th tuple holds the `u`-th entry of every list, for every `u`
below the length of the shortest list. -/
def zipStar : List (List α) → List (List α)
  | [] => []
  | [xs] => xs.map fun x => [x]
  | xs :: xs' :: xss => List.zipWith List.cons xs (zipStar (xs' :: xss))

/-- Data in which every one of the `T` towers lists `U` entries. -/
def IsRectangular (T U : ℕ) (xss : List (List α)) : Prop :=
  xss.length = T ∧ ∀ xs ∈ xss, xs.length = U

instance (T U : ℕ) (xss : List (List α)) : Decidable (IsRectangular T U xss) :=
  inferInstanceAs (Decidable (_ ∧ _))

/-- Of rectangular data, `zip(*xss)` lists the `U` columns. -/
theorem zipStar_eq_columns [Inhabited α] {U : ℕ} :
    ∀ xss : List (List α), xss ≠ [] → (∀ xs ∈ xss, xs.length = U) →
      zipStar xss = (List.range U).map fun u => xss.map fun xs => xs.getD u default
  | [], h, _ => absurd rfl h
  | [xs], _, hU => by
    have hxs : xs.length = U := hU xs (List.mem_singleton_self xs)
    refine List.ext_getElem (by simp [zipStar, hxs]) fun u _ h₂ => ?_
    have hu : u < xs.length := by simpa [hxs] using h₂
    simp [zipStar, List.getElem?_eq_getElem hu]
  | xs :: xs' :: xss, _, hU => by
    have hxs : xs.length = U := hU xs (List.mem_cons_self _ _)
    rw [zipStar, zipStar_eq_columns (xs' :: xss) (List.cons_ne_nil _ _)
      fun ys hys => hU ys (List.mem_cons_of_mem _ hys)]
    refine List.ext_getElem (by simp [hxs]) fun u _ h₂ => ?_
    have hu : u < xs.length := by simpa [hxs] using h₂
    simp [List.getElem?_eq_getElem hu]

/-- Concatenating lists of one length `T` puts entry `t` of list `u` at `u · T + t`. -/
theorem flatten_getElem? {T : ℕ} :
    ∀ (rows : List (List α)), (∀ row ∈ rows, row.length = T) →
      ∀ u t, t < T → rows.flatten[u * T + t]? = rows[u]?.bind (·[t]?)
  | [], _, _, _, _ => by simp
  | row :: rows, hT, u, t, ht => by
    have hrow : row.length = T := hT row (List.mem_cons_self _ _)
    cases u with
    | zero => simp [List.getElem?_append_left (hrow ▸ ht)]
    | succ u =>
      rw [List.flatten_cons, Nat.succ_mul, List.getElem?_append_right (by omega),
        show u * T + T + t - row.length = u * T + t by omega,
        flatten_getElem? rows (fun r hr => hT r (List.mem_cons_of_mem _ hr)) u t ht]
      simp

/-- **The use-major layout.** Merging rectangular data with `nest.flatten(zip(*xss))` puts the
entry of tower `t` and use `u` at `u · T + t`, and nothing else. -/
theorem flatten_zipStar_getElem? [Inhabited α] {T U : ℕ} {xss : List (List α)}
    (hT : 0 < T) (h : IsRectangular T U xss) :
    (zipStar xss).flatten.length = U * T ∧
      ∀ t < T, ∀ u < U, (zipStar xss).flatten[u * T + t]? = xss[t]?.bind (·[u]?) := by
  obtain ⟨hlen, hU⟩ := h
  have hne : xss ≠ [] := by rintro rfl; simp at hlen; omega
  have hcols : ∀ row ∈ (List.range U).map (fun u => xss.map fun xs => xs.getD u default),
      row.length = T := by simp [hlen]
  rw [zipStar_eq_columns xss hne hU]
  refine ⟨?_, fun t ht u hu => ?_⟩
  · simp [List.length_flatten, hlen, Function.comp_def, List.sum_replicate]
  · rw [flatten_getElem? _ hcols u t (hlen ▸ ht), List.getElem?_map, List.getElem?_range hu]
    obtain ⟨xs, hxs⟩ : ∃ xs, xss[t]? = some xs := ⟨_, List.getElem?_eq_getElem (hlen ▸ ht)⟩
    have hlen' : xs.length = U := hU xs (List.getElem?_mem hxs)
    simp [hxs, List.getElem?_eq_getElem (hlen' ▸ hu)]

end ZipStar

/-! ### Single-use blocks -/

namespace InputOutputMultiTower

variable {β : Type}

/-- `InputOutputMultiTower._process_data` on the inputs of every tower and the gradients of
every source and tower: under `"concat"` each side becomes one `PartitionedTensor` per source,
under `"separate"` the towers are kept. -/
def processData (strategy : String) (inputs : List (List β))
    (gradsList : List (List (List β))) : Except String (List (Piece β) × List (List (Piece β))) :=
  if strategy = "concat" then
    .ok ([.partitioned ⟨inputs⟩], gradsList.map fun grads => [.partitioned ⟨grads⟩])
  else if strategy = "separate" then
    .ok (inputs.map .tensor, gradsList.map fun grads => grads.map .tensor)
  else .error towerStrategyError

end InputOutputMultiTower

/-! ### Multi-use blocks -/

/-- The inputs of a multi-use block, in one of the two formats `_process_data` accepts: for every
tower the list of its per-use tensors, or one tensor with the uses folded into the batch. -/
inductive InputsData (β : Type)
  | perUse (inputs : List (List (List β)))
  | folded (inputs : List (List β))

/-- The gradients of a multi-use block, for every source and tower, in one of the two formats. -/
inductive GradsData (β : Type)
  | perUse (gradsList : List (List (List (List β))))
  | folded (gradsList : List (List (List β)))

namespace InputOutputMultiTowerMultiUse

variable {β : Type}

/-- How one side of per-use data is laid out under a tower strategy: under `"concat"` one
`PartitionedTensor` of `nest.flatten(zip(*towers))`, under `"separate"` one `PartitionedTensor` of
the uses of every tower. Other strategies have no layout. -/
def towerFormat (strategy : String) : Option (List (List (List β)) → List (Piece β)) :=
  if strategy = "concat" then some fun towers => [.partitioned ⟨(zipStar towers).flatten⟩]
  else if strategy = "separate" then some fun towers => towers.map fun uses => .partitioned ⟨uses⟩
  else none

@[simp] theorem towerFormat_concat :
    (towerFormat "concat" : Option (List (List (List β)) → List (Piece β))) =
      some fun towers => [.partitioned ⟨(zipStar towers).flatten⟩] := rfl

@[simp] theorem towerFormat_separate :
    (towerFormat "separate" : Option (List (List (List β)) → List (Piece β))) =
      some fun towers => towers.map fun uses => .partitioned ⟨uses⟩ := rfl

/-- The check `self._num_uses is not None and self._num_uses != num_uses`, raising `message`,
followed by `self._num_uses = num_uses`. -/
def setNumUses (numUses : ℕ) (message : String) : EStateM String (Option ℕ) Unit := fun s =>
  match s with
  | some n => if n ≠ numUses then .error message s else .ok () (some numUses)
  | none => .ok () (some numUses)

/-- The layout of a side under a tower strategy, or the `ValueError` for an unknown strategy. -/
def formatOrRaise (strategy : String) :
    EStateM String (Option ℕ) (List (List (List β)) → List (Piece β)) :=
  fun s => match towerFormat strategy with
    | some format => .ok format s
    | none => .error towerStrategyError s

/-- The inputs' half of `_process_data`. -/
def processInputs (strategy : String) : InputsData β → EStateM String (Option ℕ) (List (Piece β))
  | .folded [] | .perUse [] => throw indexError
  | .folded inputs => pure (inputs.map .tensor)
  | .perUse (first :: rest) => do
    setNumUses first.length "num_uses argument doesn't match length of inputs."
    unless (first :: rest).all (·.length == first.length) do
      throw "Length of inputs argument is inconsistent across towers."
    let format ← formatOrRaise strategy
    pure (format (first :: rest))

/-- The gradients' half of `_process_data`. -/
def processGrads (strategy : String) :
    GradsData β → EStateM String (Option ℕ) (List (List (Piece β)))
  | .folded [] | .folded ([] :: _) | .perUse [] | .perUse ([] :: _) => throw indexError
  | .folded gradsList => pure (gradsList.map fun grads => grads.map .tensor)
  | .perUse ((first :: rest) :: others) => do
    setNumUses first.length ("num_uses argument doesn't match length of outputs, " ++
      "or length of outputs is inconsistent with length of inputs.")
    unless ((first :: rest) :: others).all (·.all (·.length == first.length)) do
      throw "Length of outputs argument is inconsistent across towers."
    let format ← formatOrRaise strategy
    pure (((first :: rest) :: others).map format)

/-- The message of the `ValueError` when no number of uses is known. -/
def numUsesError : String :=
  "You must supply a value for the num_uses argument if the number of uses cannot be " ++
    "inferred from inputs or outputs arguments (e.g. if they are both given in the single " ++
    "Tensor format, instead of as lists of Tensors."

/-- `InputOutputMultiTowerMultiUse._process_data`, over the state `self._num_uses`. -/
def processData (strategy : String) (inputs : InputsData β) (gradsList : GradsData β) :
    EStateM String (Option ℕ) (List (Piece β) × List (List (Piece β))) := do
  let inputs ← processInputs strategy inputs
  let gradsList ← processGrads strategy gradsList
  if (← get).isNone then throw numUsesError
  pure (inputs, gradsList)

/-! ### The layout of per-use data -/

theorem setNumUses_run {numUses : Option ℕ} {U : ℕ} (h : numUses = none ∨ numUses = some U)
    (message : String) : setNumUses U message numUses = .ok () (some U) := by
  rcases h with rfl | rfl <;> simp [setNumUses]

theorem formatOrRaise_run {strategy : String} {format : List (List (List β)) → List (Piece β)}
    (h : towerFormat strategy = some format) (s : Option ℕ) :
    formatOrRaise strategy s = .ok format s := by
  simp [formatOrRaise, h]

/-- Inputs in per-use format with `U` uses in each of `T ≥ 1` towers are laid out by the
strategy, and `U` is recorded. -/
theorem processInputs_perUse {T U : ℕ} (hT : 0 < T) {inputs : List (List (List β))}
    (h : IsRectangular T U inputs) {numUses : Option ℕ} (hnum : numUses = none ∨ numUses = some U)
    {strategy : String} {format : List (List (List β)) → List (Piece β)}
    (hf : towerFormat strategy = some format) :
    (processInputs strategy (.perUse inputs)).run numUses = .ok (format inputs) (some U) := by
  obtain ⟨hlen, hU⟩ := h
  obtain ⟨first, rest, rfl⟩ := List.exists_cons_of_ne_nil (List.ne_nil_of_length_pos (hlen ▸ hT))
  obtain rfl : first.length = U := hU first (List.mem_cons_self _ _)
  have hall : ((first :: rest).all fun xs => xs.length == first.length) = true := by
    simpa using fun xs hxs => hU xs (List.mem_cons_of_mem _ hxs)
  show processInputs strategy _ numUses = _
  simp [processInputs, bind, EStateM.bind, setNumUses_run hnum, hall, pure,
    EStateM.pure, formatOrRaise_run hf]

/-- Gradients in per-use format with `U` uses in each of `T ≥ 1` towers of every source are laid
out by the strategy source by source, and `U` is recorded. -/
theorem processGrads_perUse {T U : ℕ} (hT : 0 < T) {gradsList : List (List (List (List β)))}
    (hS : gradsList ≠ []) (h : ∀ grads ∈ gradsList, IsRectangular T U grads)
    {numUses : Option ℕ} (hnum : numUses = none ∨ numUses = some U) {strategy : String}
    {format : List (List (List β)) → List (Piece β)} (hf : towerFormat strategy = some format) :
    processGrads strategy (.perUse gradsList) numUses = .ok (gradsList.map format) (some U) := by
  obtain ⟨grads, others, rfl⟩ := List.exists_cons_of_ne_nil hS
  obtain ⟨hlen, hU⟩ := h grads (List.mem_cons_self _ _)
  obtain ⟨first, rest, rfl⟩ := List.exists_cons_of_ne_nil (List.ne_nil_of_length_pos (hlen ▸ hT))
  obtain rfl : first.length = U := hU first (List.mem_cons_self _ _)
  have hall : (((first :: rest) :: others).all fun grads => grads.all fun grad =>
      grad.length == first.length) = true := by
    simpa using fun gs hgs g hg => (h gs hgs).2 g hg
  simp [processGrads, bind, EStateM.bind, setNumUses_run hnum, hall, pure, EStateM.pure,
    formatOrRaise_run hf]

/-- `_process_data` returns both halves once a number of uses is recorded. -/
theorem processData_eq {strategy : String} {inputs : InputsData β} {gradsList : GradsData β}
    {numUses s : Option ℕ} {U : ℕ} {a : List (Piece β)} {b : List (List (Piece β))}
    (hi : processInputs strategy inputs numUses = .ok a s)
    (hg : processGrads strategy gradsList s = .ok b (some U)) :
    processData strategy inputs gradsList numUses = .ok (a, b) (some U) := by
  simp [processData, bind, EStateM.bind, hi, hg, get, getThe, MonadStateOf.get, EStateM.get,
    pure, EStateM.pure]

/-- **The layout of per-use data.** For `T ≥ 1` towers of `U` uses and `S ≥ 1` sources, with no
number of uses given or the right one, `_process_data` records `U` and returns under `"concat"`
one `PartitionedTensor` of `nest.flatten(zip(*...))` per side and source, and under
`"separate"` one `PartitionedTensor` of the uses of every tower. The merged parts hold the datum
of tower `t` and use `u` at `u · T + t`, on the input side and on every source's side alike. -/
theorem processData_perUse {T U : ℕ} (hT : 0 < T) {inputs : List (List (List β))}
    (hinputs : IsRectangular T U inputs) {gradsList : List (List (List (List β)))}
    (hS : gradsList ≠ []) (hgrads : ∀ grads ∈ gradsList, IsRectangular T U grads)
    {numUses : Option ℕ} (hnum : numUses = none ∨ numUses = some U) :
    processData "concat" (.perUse inputs) (.perUse gradsList) numUses =
        .ok ([.partitioned ⟨(zipStar inputs).flatten⟩],
          gradsList.map fun grads => [.partitioned ⟨(zipStar grads).flatten⟩]) (some U) ∧
      processData "separate" (.perUse inputs) (.perUse gradsList) numUses =
        .ok (inputs.map fun uses => .partitioned ⟨uses⟩,
          gradsList.map fun grads => grads.map fun uses => .partitioned ⟨uses⟩) (some U) ∧
      ((zipStar inputs).flatten.length = U * T ∧
        ∀ t < T, ∀ u < U, (zipStar inputs).flatten[u * T + t]? = inputs[t]?.bind (·[u]?)) ∧
      ∀ grads ∈ gradsList, (zipStar grads).flatten.length = U * T ∧
        ∀ t < T, ∀ u < U, (zipStar grads).flatten[u * T + t]? = grads[t]?.bind (·[u]?) := by
  refine ⟨processData_eq (processInputs_perUse hT hinputs hnum towerFormat_concat)
      (processGrads_perUse hT hS hgrads (.inr rfl) towerFormat_concat),
    processData_eq (processInputs_perUse hT hinputs hnum towerFormat_separate)
      (processGrads_perUse hT hS hgrads (.inr rfl) towerFormat_separate),
    flatten_zipStar_getElem? hT hinputs,
    fun grads hg => flatten_zipStar_getElem? hT (hgrads grads hg)⟩

/-- Two towers of two uses each, with one gradient source and no `num_uses` given. -/
theorem processData_perUse_twoTowers :
    let inputs : List (List (List ℕ)) := [[[1], [2]], [[3], [4]]]
    let gradsList : List (List (List (List ℕ))) := [[[[5], [6]], [[7], [8]]]]
    0 < 2 ∧ IsRectangular 2 2 inputs ∧ gradsList ≠ [] ∧
      (∀ grads ∈ gradsList, IsRectangular 2 2 grads) ∧ ((none : Option ℕ) = none ∨ none = some 2) ∧
      processData "concat" (.perUse inputs) (.perUse gradsList) none =
          .ok ([.partitioned ⟨(zipStar inputs).flatten⟩],
            gradsList.map fun grads => [.partitioned ⟨(zipStar grads).flatten⟩]) (some 2) ∧
        processData "separate" (.perUse inputs) (.perUse gradsList) none =
          .ok (inputs.map fun uses => .partitioned ⟨uses⟩,
            gradsList.map fun grads => grads.map fun uses => .partitioned ⟨uses⟩) (some 2) ∧
        ((zipStar inputs).flatten.length = 2 * 2 ∧
          ∀ t < 2, ∀ u < 2, (zipStar inputs).flatten[u * 2 + t]? = inputs[t]?.bind (·[u]?)) ∧
        ∀ grads ∈ gradsList, (zipStar grads).flatten.length = 2 * 2 ∧
          ∀ t < 2, ∀ u < 2, (zipStar grads).flatten[u * 2 + t]? = grads[t]?.bind (·[u]?) := by
  intro inputs gradsList
  have hinputs : IsRectangular 2 2 inputs := by decide
  have hgrads : ∀ grads ∈ gradsList, IsRectangular 2 2 grads := by decide
  exact ⟨by decide, hinputs, List.cons_ne_nil _ _, hgrads, .inl rfl,
    processData_perUse (by decide) hinputs (List.cons_ne_nil _ _) hgrads (.inl rfl)⟩

/-! ### The folded format -/

/-- The folded format skips the strategy: its towers pass through as they are. -/
theorem processInputs_folded {inputs : List (List β)} (h : inputs ≠ []) (strategy : String)
    (numUses : Option ℕ) :
    processInputs strategy (.folded inputs) numUses = .ok (inputs.map .tensor) numUses := by
  obtain ⟨first, rest, rfl⟩ := List.exists_cons_of_ne_nil h
  rfl

/-- Under `"separate"` the two formats of the inputs give the same pieces, tower by tower, as
row-concatenations: folding the uses of a tower is what its `PartitionedTensor` stands for. -/
theorem processData_folded_separate {T U : ℕ} (hT : 0 < T) {inputs : List (List (List β))}
    (hinputs : IsRectangular T U inputs) {gradsList : List (List (List (List β)))}
    (hS : gradsList ≠ []) (hgrads : ∀ grads ∈ gradsList, IsRectangular T U grads)
    {numUses : Option ℕ} (hnum : numUses = none ∨ numUses = some U) :
    ∃ folded perUse b,
      processData "separate" (.folded (inputs.map List.flatten)) (.perUse gradsList) numUses =
        .ok (folded, b) (some U) ∧
      processData "separate" (.perUse inputs) (.perUse gradsList) numUses =
        .ok (perUse, b) (some U) ∧
      folded.map Piece.rows = perUse.map Piece.rows := by
  have hne : inputs.map List.flatten ≠ [] := by
    simpa [← List.length_pos, hinputs.1] using hT
  refine ⟨_, _, _, processData_eq (processInputs_folded hne _ _)
      (processGrads_perUse hT hS hgrads hnum towerFormat_separate),
    processData_eq (processInputs_perUse hT hinputs hnum towerFormat_separate)
      (processGrads_perUse hT hS hgrads (.inr rfl) towerFormat_separate), ?_⟩
  simp [Piece.rows, Function.comp_def]

/-- Two towers of two uses each, their inputs folded or not, with one gradient source. -/
theorem processData_folded_separate_twoTowers :
    let inputs : List (List (List ℕ)) := [[[1], [2]], [[3], [4]]]
    let gradsList : List (List (List (List ℕ))) := [[[[5], [6]], [[7], [8]]]]
    0 < 2 ∧ IsRectangular 2 2 inputs ∧ gradsList ≠ [] ∧
      (∀ grads ∈ gradsList, IsRectangular 2 2 grads) ∧ ((none : Option ℕ) = none ∨ none = some 2) ∧
      ∃ folded perUse b,
        processData "separate" (.folded (inputs.map List.flatten)) (.perUse gradsList) none =
          .ok (folded, b) (some 2) ∧
        processData "separate" (.perUse inputs) (.perUse gradsList) none =
          .ok (perUse, b) (some 2) ∧
        folded.map Piece.rows = perUse.map Piece.rows := by
  intro inputs gradsList
  have hinputs : IsRectangular 2 2 inputs := by decide
  have hgrads : ∀ grads ∈ gradsList, IsRectangular 2 2 grads := by decide
  exact ⟨by decide, hinputs, List.cons_ne_nil _ _, hgrads, .inl rfl,
    processData_folded_separate (by decide) hinputs (List.cons_ne_nil _ _) hgrads (.inl rfl)⟩

/-- **The folded format under `"concat"`.** Two towers of one use each, their inputs given per
use or folded with `num_uses = 1` (the gradients per use): per use they become one
`PartitionedTensor`, folded they stay two tensors. -/
theorem processData_folded_concat :
    processData "concat" (.perUse [[[1]], [[2]]]) (.perUse [[[[3]], [[4]]]]) none =
        .ok ([.partitioned ⟨[[1], [2]]⟩], [[.partitioned ⟨[[3], [4]]⟩]]) (some (1 : ℕ)) ∧
      processData "concat" (.folded [[1], [2]]) (.perUse [[[[3]], [[4]]]]) (some 1) =
        .ok ([.tensor [(1 : ℕ)], .tensor [2]], [[.partitioned ⟨[[3], [4]]⟩]]) (some 1) :=
  ⟨rfl, rfl⟩

end InputOutputMultiTowerMultiUse

/-! ### Registering towers with inputs and outputs -/

/-- The towers an `InputOutputMultiTower` block has registered: `self.__inputs` and
`self.__outputs`. -/
structure TowerState (α β : Type) where
  inputs : List α
  outputs : List β

namespace TowerState

variable {α β : Type}

/-- The empty lists `InputOutputMultiTower.__init__` starts with. -/
def init : TowerState α β := ⟨[], []⟩

/-- `register_additional_tower(inputs, outputs)`. -/
def registerAdditionalTower (s : TowerState α β) (inputs : α) (outputs : β) : TowerState α β :=
  ⟨s.inputs ++ [inputs], s.outputs ++ [outputs]⟩

/-- `tensors_to_compute_grads`: `tuple(self._outputs)`. -/
def tensorsToComputeGrads (s : TowerState α β) : List β := s.outputs

/-- The state holding the towers `towers`, each an input and an output. -/
def ofTowers (towers : List (α × β)) : TowerState α β :=
  ⟨towers.map Prod.fst, towers.map Prod.snd⟩

@[simp] theorem ofTowers_nil : ofTowers ([] : List (α × β)) = init := rfl

/-- **One registration is one more tower.** -/
@[simp] theorem registerAdditionalTower_ofTowers (towers : List (α × β)) (inputs : α)
    (outputs : β) :
    (ofTowers towers).registerAdditionalTower inputs outputs =
      ofTowers (towers ++ [(inputs, outputs)]) := by
  simp [ofTowers, registerAdditionalTower]

@[simp] theorem tensorsToComputeGrads_ofTowers (towers : List (α × β)) :
    (ofTowers towers).tensorsToComputeGrads = towers.map Prod.snd := rfl

/-- The state after registering `towers`, in order, from the constructor. -/
def run (towers : List (α × β)) : TowerState α β :=
  towers.foldl (fun s t => s.registerAdditionalTower t.1 t.2) init

theorem foldl_registerAdditionalTower_ofTowers (towers rest : List (α × β)) :
    rest.foldl (fun s t => s.registerAdditionalTower t.1 t.2) (ofTowers towers) =
      ofTowers (towers ++ rest) := by
  induction rest generalizing towers with
  | nil => simp
  | cons t rest ih => simp [ih]

/-- **A run holds the towers it registered**, in the order of registration. -/
theorem run_eq_ofTowers (towers : List (α × β)) : run towers = ofTowers towers := by
  simpa using foldl_registerAdditionalTower_ofTowers [] towers

end TowerState

/-! ### Registering towers by their batch sizes -/

/-- The towers `FullFB` and `NaiveDiagonalFB` have registered: `self._batch_sizes`. -/
structure BatchSizes where
  batchSizes : List ℕ

namespace BatchSizes

/-- The empty list `FullFB.__init__` and `NaiveDiagonalFB.__init__` start with. -/
def init : BatchSizes := ⟨[]⟩

/-- `register_additional_tower(batch_size)`. -/
def registerAdditionalTower (s : BatchSizes) (batchSize : ℕ) : BatchSizes :=
  ⟨s.batchSizes ++ [batchSize]⟩

/-- `_batch_size`: `reduce_sum(self._batch_sizes)`, the batch size of the estimator. -/
def batchSize (s : BatchSizes) : ℕ := s.batchSizes.sum

/-- The state after registering the batch sizes `sizes`, in order, from the constructor. -/
def run (sizes : List ℕ) : BatchSizes := sizes.foldl registerAdditionalTower init

end BatchSizes

end FisherBlocks
