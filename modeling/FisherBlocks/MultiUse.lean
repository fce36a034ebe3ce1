import FisherBlocks.Towers
import FisherBlocks.Kronecker

/-!
# The checks of a multi-use block

`InputOutputMultiTowerMultiUse._process_data` states, in its docstring, that it raises a
`ValueError` when `TOWER_STRATEGY` is neither `"concat"` nor `"separate"` and when the format of
the data does not agree with `self._num_uses`. Each side (the inputs, then the gradients) in
per-use format states a number of uses per tower; the code checks the first against
`self._num_uses`, records it, checks every tower against it, and then applies the strategy. A
side in the folded format states none and passes through unchanged.

The registrations it accepts are exactly those whose known use counts (`num_uses` if given, and
those of every tower of a side in per-use format) agree and include at least one, with a known
strategy whenever a side is in per-use format (`Accepted`, `processData_eq_error_iff`); every
other registration raises a `ValueError`. Two departures from the docstring follow: with both
sides folded no strategy is ever checked, and `self._num_uses` is written before the checks of
the towers and of the strategy, so that a raise can leave it changed
(`processData_unknownStrategy_and_partialWrite`).

`ConvKFCBasicMultiIndepFB.instantiate_factors` reads `inputs.shape` of what `_process_data`
returns, a tuple or the list of registered towers, so it raises `AttributeError` on every
registration `_process_data` accepts, before any location count or coefficient is set
(`ConvKFCBasicMultiIndepFB.instantiateFactors_perUse`). The fully connected and embedding
blocks read only the number of uses `_process_data` records: they complete on exactly the
accepted registrations, with that number as their normalization and coefficient
(`multiIndepFB_instantiateFactors_cases`).

## Main definitions

* `InputsData.useCounts`, `GradsData.useCounts`, `knownUseCounts`: the use counts a registration
  states.
* `UsesAgree`, `Accepted`: the registrations `_process_data` is meant to accept.
* `InputOutputMultiTowerMultiUse.perUseBranch`: the per-use branch of both halves.
* `ConvKFCBasicMultiIndepFB.instantiateFactors`.
* `multiUseInstantiateFactors`, `FullyConnectedMultiIndepFB.instantiateFactors`,
  `EmbeddingKFACMultiIndepFB.instantiateFactors`.

## Main results

* `InputOutputMultiTowerMultiUse.processData_cases`: `_process_data` returns exactly on the
  accepted registrations, and raises a `ValueError` on the others.
* `InputOutputMultiTowerMultiUse.processData_eq_error_iff`: when it raises, check by check.
* `InputOutputMultiTowerMultiUse.processData_unknownStrategy_and_partialWrite`.
* `ConvKFCBasicMultiIndepFB.instantiateFactors_perUse`.
* `multiIndepFB_instantiateFactors_cases`.

## References

* `src/kfac/python/ops/fisher_blocks.py`, lines 1143–1465.
-/

namespace FisherBlocks

/-! ### The use counts of a registration -/

namespace InputsData

variable {β : Type}

/-- Whether the inputs are in per-use format, which `isinstance(inputs[0], (list, tuple))` tests. -/
def isPerUse : InputsData β → Bool
  | perUse _ => true
  | folded _ => false

/-- The number of uses every tower states: the length of its list in per-use format, none in the
folded format. -/
def useCounts : InputsData β → List ℕ
  | perUse inputs => inputs.map List.length
  | folded _ => []

/-- Inputs registered for at least one tower. -/
def NonEmpty : InputsData β → Prop
  | perUse inputs => inputs ≠ []
  | folded inputs => inputs ≠ []

theorem useCounts_ne_nil_iff {inputs : InputsData β} (h : inputs.NonEmpty) :
    inputs.useCounts ≠ [] ↔ inputs.isPerUse := by
  cases inputs <;> simp_all [useCounts, isPerUse, NonEmpty]

end InputsData

namespace GradsData

variable {β : Type}

/-- Whether the gradients are in per-use format, which `isinstance(grads_list[0][0], (list,
tuple))` tests. -/
def isPerUse : GradsData β → Bool
  | perUse _ => true
  | folded _ => false

/-- The number of uses every tower of every source states, none in the folded format. -/
def useCounts : GradsData β → List ℕ
  | perUse gradsList => gradsList.flatten.map List.length
  | folded _ => []

/-- Gradients of at least one source, each of at least one tower. -/
def NonEmpty : GradsData β → Prop
  | perUse gradsList => gradsList ≠ [] ∧ ∀ grads ∈ gradsList, grads ≠ []
  | folded gradsList => gradsList ≠ [] ∧ ∀ grads ∈ gradsList, grads ≠ []

theorem useCounts_ne_nil_iff {gradsList : GradsData β} (h : gradsList.NonEmpty) :
    gradsList.useCounts ≠ [] ↔ gradsList.isPerUse := by
  cases gradsList with
  | folded gradsList => simp [useCounts, isPerUse]
  | perUse gradsList =>
    obtain ⟨⟨grads, others, rfl⟩, hne⟩ := And.imp_left List.exists_cons_of_ne_nil h
    simp [useCounts, isPerUse, hne grads (.head _)]

end GradsData

namespace InputOutputMultiTowerMultiUse

variable {β γ : Type}

/-- All the counts are one number. -/
def UsesAgree (counts : List ℕ) : Prop := ∀ n ∈ counts, ∀ m ∈ counts, n = m

instance (counts : List ℕ) : Decidable (UsesAgree counts) :=
  inferInstanceAs (Decidable (∀ n ∈ counts, ∀ m ∈ counts, n = m))

/-- The use counts a registration states: `num_uses` if given, then those of the towers of each
side in per-use format. -/
def knownUseCounts (numUses : Option ℕ) (inputs : InputsData β) (gradsList : GradsData β) :
    List ℕ :=
  numUses.toList ++ inputs.useCounts ++ gradsList.useCounts

/-- The registrations `_process_data` accepts, as its docstring describes them and as this file
proves them to be: the known use counts agree and there is at least one, and data in per-use
format comes with a known strategy. -/
def Accepted (strategy : String) (numUses : Option ℕ) (inputs : InputsData β)
    (gradsList : GradsData β) : Prop :=
  UsesAgree (knownUseCounts numUses inputs gradsList) ∧
    knownUseCounts numUses inputs gradsList ≠ [] ∧
    (inputs.isPerUse ∨ gradsList.isPerUse → strategy ∈ ["concat", "separate"])

instance (strategy : String) (numUses : Option ℕ) (inputs : InputsData β)
    (gradsList : GradsData β) : Decidable (Accepted strategy numUses inputs gradsList) :=
  inferInstanceAs (Decidable (_ ∧ _ ∧ _))

/-! ### Checking the counts one side at a time -/

/-- The checks one side makes from the recorded number of uses `s`: the counts it states agree
with `s` and with each other, and if it states any (it is in per-use format) the strategy is
known. -/
def SideChecks (strategy : String) (s : Option ℕ) (counts : List ℕ) : Prop :=
  UsesAgree (s.toList ++ counts) ∧ (counts ≠ [] → strategy ∈ ["concat", "separate"])

theorem UsesAgree.mono {counts counts' : List ℕ} (h : UsesAgree counts)
    (hsub : ∀ n ∈ counts', n ∈ counts) : UsesAgree counts' :=
  fun n hn m hm => h n (hsub n hn) m (hsub m hm)

/-- The number of uses a side leaves is its first count, or the one it was given. -/
theorem mem_toList_head?_or {n : ℕ} {counts : List ℕ} {s : Option ℕ}
    (h : n ∈ (counts.head?.or s).toList) : n ∈ s.toList ++ counts := by
  cases counts with
  | nil => simpa using h
  | cons c cs => simp_all

theorem isSome_head?_or (counts : List ℕ) (s : Option ℕ) :
    (counts.head?.or s).isSome ↔ s.toList ++ counts ≠ [] := by
  cases counts <;> cases s <;> simp

/-- A number of uses is left after both sides exactly when some count is known. -/
theorem isSome_head?_or_head?_or (numUses : Option ℕ) (cI cG : List ℕ) :
    (cG.head?.or (cI.head?.or numUses)).isSome ↔ numUses.toList ++ cI ++ cG ≠ [] := by
  cases cG <;> cases cI <;> cases numUses <;> simp

/-- The number of uses left after both sides is one of the known counts. -/
theorem mem_toList_head?_or_head?_or {n : ℕ} {numUses : Option ℕ} {cI cG : List ℕ}
    (h : n ∈ (cG.head?.or (cI.head?.or numUses)).toList) : n ∈ numUses.toList ++ cI ++ cG := by
  cases cG <;> cases cI <;> cases numUses <;> simp_all

/-- Checking the inputs' counts from `numUses`, then the gradients' from the number of uses the
inputs leave, agrees with checking all known counts at once. -/
theorem usesAgree_append_iff (numUses : Option ℕ) (cI cG : List ℕ) :
    UsesAgree (numUses.toList ++ cI) ∧ UsesAgree ((cI.head?.or numUses).toList ++ cG) ↔
      UsesAgree (numUses.toList ++ cI ++ cG) := by
  constructor
  · rintro ⟨h₁, h₂⟩
    have cross : ∀ n ∈ numUses.toList ++ cI, ∀ m ∈ cG, n = m := fun n hn m hm => by
      obtain ⟨c, hc⟩ := Option.isSome_iff_exists.mp
        ((isSome_head?_or cI numUses).mpr (List.ne_nil_of_mem hn))
      have hcI : c ∈ numUses.toList ++ cI := mem_toList_head?_or (by simp [hc])
      exact (h₁ n hn c hcI).trans (h₂ c (by simp [hc]) m (by simp [hm]))
    intro n hn m hm
    rcases List.mem_append.mp hn with hn | hn <;> rcases List.mem_append.mp hm with hm | hm
    exacts [h₁ n hn m hm, cross n hn m hm, (cross m hm n hn).symm,
      h₂ n (List.mem_append_right _ hn) m (List.mem_append_right _ hm)]
  · intro h
    refine ⟨h.mono fun n hn => List.mem_append_left _ hn, h.mono fun n hn => ?_⟩
    rcases List.mem_append.mp hn with hn | hn
    exacts [List.mem_append_left _ (mem_toList_head?_or hn), List.mem_append_right _ hn]

/-- A side in the folded format passes from any number of uses. -/
theorem sideChecks_nil (strategy : String) (s : Option ℕ) : SideChecks strategy s [] :=
  ⟨by cases s <;> simp [UsesAgree], by simp⟩

/-- With `c` among the counts, they agree with `s` and among themselves exactly when `s` is
none or `c` and every count is `c`. -/
theorem usesAgree_toList_append_iff {c : ℕ} {counts : List ℕ} (hc : c ∈ counts) (s : Option ℕ) :
    UsesAgree (s.toList ++ counts) ↔ (s = none ∨ s = some c) ∧ ∀ n ∈ counts, n = c := by
  constructor
  · intro h
    refine ⟨?_, fun n hn => h n (by simp [hn]) c (by simp [hc])⟩
    cases s with
    | none => exact .inl rfl
    | some n => exact .inr (congrArg some (h n (by simp) c (by simp [hc])))
  · rintro ⟨hs, hall⟩ n hn m hm
    have key : ∀ x ∈ s.toList ++ counts, x = c := fun x hx => by
      rcases List.mem_append.mp hx with hx | hx
      · rcases hs with rfl | rfl <;> simp_all
      · exact hall x hx
    rw [key n hn, key m hm]

/-- A side stating the count `c` among others passes exactly when `s` is none or `c`, every
count is `c` and the strategy is known. -/
theorem sideChecks_iff {strategy : String} {c : ℕ} {counts : List ℕ} (hc : c ∈ counts)
    (s : Option ℕ) :
    SideChecks strategy s counts ↔
      (s = none ∨ s = some c) ∧ (∀ n ∈ counts, n = c) ∧ strategy ∈ ["concat", "separate"] := by
  rw [SideChecks, usesAgree_toList_append_iff hc, and_assoc,
    imp_iff_right (List.ne_nil_of_mem hc)]

/-! ### The two halves of `_process_data` -/

/-- The per-use branch of both halves of `_process_data`: check the first tower's count `c`
against `self._num_uses` and record it, raise `inconsistent` unless every tower states `c`
(`consistent`), then lay the data out by the strategy through `k`. -/
def perUseBranch (strategy : String) (c : ℕ) (message : String) (consistent : Bool)
    (inconsistent : String) (k : (List (List (List β)) → List (Piece β)) → γ) :
    EStateM String (Option ℕ) γ := do
  setNumUses c message
  unless consistent do throw inconsistent
  let format ← formatOrRaise strategy
  pure (k format)

/-- The inputs' half in per-use format is the per-use branch. -/
theorem processInputs_perUse_cons (strategy : String) (first : List (List β))
    (rest : List (List (List β))) :
    processInputs strategy (.perUse (first :: rest)) =
      perUseBranch strategy first.length "num_uses argument doesn't match length of inputs."
        ((first :: rest).all (·.length == first.length))
        "Length of inputs argument is inconsistent across towers."
        fun format => format (first :: rest) := rfl

/-- The gradients' half in per-use format is the per-use branch, laying out every source. -/
theorem processGrads_perUse_cons (strategy : String) (first : List (List β))
    (rest : List (List (List β))) (others : List (List (List (List β)))) :
    processGrads strategy (.perUse ((first :: rest) :: others)) =
      perUseBranch strategy first.length ("num_uses argument doesn't match length of outputs, " ++
          "or length of outputs is inconsistent with length of inputs.")
        (((first :: rest) :: others).all (·.all (·.length == first.length)))
        "Length of outputs argument is inconsistent across towers."
        fun format => ((first :: rest) :: others).map format := rfl

/-- `towerFormat` lays out exactly `"concat"` and `"separate"`. -/
theorem towerFormat_isSome_iff (strategy : String) :
    (towerFormat strategy : Option (List (List (List β)) → List (Piece β))).isSome ↔
      strategy ∈ ["concat", "separate"] := by
  unfold towerFormat
  split_ifs with h₁ h₂ <;> simp [*]

/-- **The per-use branch** returns, recording `c`, exactly when its checks pass, and raises a
`ValueError` otherwise: `message` if `self._num_uses` disagrees, `inconsistent` if a tower does,
or the message of an unknown strategy. -/
theorem perUseBranch_cases (strategy : String) {c : ℕ} {counts : List ℕ} (hc : c ∈ counts)
    {consistent : Bool} (hconsistent : consistent = true ↔ ∀ n ∈ counts, n = c)
    {message inconsistent : String} (hm : message ≠ indexError) (hi : inconsistent ≠ indexError)
    (k : (List (List (List β)) → List (Piece β)) → γ) (s : Option ℕ) :
    (SideChecks strategy s counts ∧
        ∃ r, perUseBranch strategy c message consistent inconsistent k s = .ok r (some c)) ∨
      (¬SideChecks strategy s counts ∧
        ∃ e s', perUseBranch strategy c message consistent inconsistent k s = .error e s' ∧
          e ≠ indexError) := by
  have hset : (s = none ∨ s = some c) ∧ setNumUses c message s = .ok () (some c) ∨
      ¬(s = none ∨ s = some c) ∧ setNumUses c message s = .error message s := by
    rcases s with _ | n
    · simp [setNumUses]
    · by_cases h : n = c <;> simp [setNumUses, h]
  rw [sideChecks_iff hc, ← hconsistent, ← @towerFormat_isSome_iff β strategy]
  rcases hset with ⟨hs, hrun⟩ | ⟨hs, hrun⟩
  · cases consistent
    · exact .inr ⟨by simp, inconsistent, some c, by
        simp [perUseBranch, bind, EStateM.bind, hrun, throw, throwThe, MonadExceptOf.throw,
          EStateM.throw], hi⟩
    · cases hf : (towerFormat strategy : Option (List (List (List β)) → List (Piece β))) with
      | none => exact .inr ⟨by simp, towerStrategyError, some c, by
          simp [perUseBranch, bind, EStateM.bind, hrun, formatOrRaise, hf, pure, EStateM.pure],
          by decide⟩
      | some f => exact .inl ⟨⟨hs, rfl, rfl⟩, k f, by
          simp [perUseBranch, bind, EStateM.bind, hrun, formatOrRaise, hf, pure, EStateM.pure]⟩
  · exact .inr ⟨by simp [hs], message, s, by simp [perUseBranch, bind, EStateM.bind, hrun], hm⟩

/-- **The inputs' half** returns, leaving its first count, exactly when its checks pass. -/
theorem processInputs_cases (strategy : String) {inputs : InputsData β} (h : inputs.NonEmpty)
    (s : Option ℕ) :
    (SideChecks strategy s inputs.useCounts ∧
        ∃ a, processInputs strategy inputs s = .ok a (inputs.useCounts.head?.or s)) ∨
      (¬SideChecks strategy s inputs.useCounts ∧
        ∃ e s', processInputs strategy inputs s = .error e s' ∧ e ≠ indexError) := by
  cases inputs with
  | folded inputs =>
    obtain ⟨first, rest, rfl⟩ := List.exists_cons_of_ne_nil h
    exact .inl ⟨sideChecks_nil strategy s, _, rfl⟩
  | perUse inputs =>
    obtain ⟨first, rest, rfl⟩ := List.exists_cons_of_ne_nil h
    rw [processInputs_perUse_cons]
    exact perUseBranch_cases strategy (List.mem_map_of_mem _ (.head _))
      (by simp [InputsData.useCounts]) (by decide) (by decide) _ s

/-- **The gradients' half** returns, leaving its first count, exactly when its checks pass. -/
theorem processGrads_cases (strategy : String) {gradsList : GradsData β} (h : gradsList.NonEmpty)
    (s : Option ℕ) :
    (SideChecks strategy s gradsList.useCounts ∧
        ∃ b, processGrads strategy gradsList s = .ok b (gradsList.useCounts.head?.or s)) ∨
      (¬SideChecks strategy s gradsList.useCounts ∧
        ∃ e s', processGrads strategy gradsList s = .error e s' ∧ e ≠ indexError) := by
  cases gradsList with
  | folded gradsList =>
    obtain ⟨⟨grads, others, rfl⟩, hne⟩ := And.imp_left List.exists_cons_of_ne_nil h
    obtain ⟨first, rest, rfl⟩ := List.exists_cons_of_ne_nil (hne _ (.head _))
    exact .inl ⟨sideChecks_nil strategy s, _, rfl⟩
  | perUse gradsList =>
    obtain ⟨⟨grads, others, rfl⟩, hne⟩ := And.imp_left List.exists_cons_of_ne_nil h
    obtain ⟨first, rest, rfl⟩ := List.exists_cons_of_ne_nil (hne _ (.head _))
    rw [processGrads_perUse_cons]
    refine perUseBranch_cases strategy
      (List.mem_map_of_mem _ (List.mem_flatten.mpr ⟨_, .head _, .head _⟩)) ?_ (by decide)
      (by decide) _ s
    simp only [GradsData.useCounts, List.forall_mem_map, List.mem_flatten, List.all_eq_true,
      beq_iff_eq, forall_exists_index, and_imp]
    exact ⟨fun h x g hg hx => h g hg x hx, fun h g hg x hx => h x g hg hx⟩

/-! ### When `_process_data` raises -/

/-- The checks of both sides and the final `self._num_uses is None` check pass exactly for the
accepted registrations. -/
theorem sideChecks_and_iff_accepted {strategy : String} {inputs : InputsData β}
    {gradsList : GradsData β} (hI : inputs.NonEmpty) (hG : gradsList.NonEmpty)
    (numUses : Option ℕ) :
    (SideChecks strategy numUses inputs.useCounts ∧
        SideChecks strategy (inputs.useCounts.head?.or numUses) gradsList.useCounts ∧
        (gradsList.useCounts.head?.or (inputs.useCounts.head?.or numUses)).isSome) ↔
      Accepted strategy numUses inputs gradsList := by
  rw [Accepted, ← InputsData.useCounts_ne_nil_iff hI, ← GradsData.useCounts_ne_nil_iff hG,
    isSome_head?_or_head?_or, knownUseCounts, ← usesAgree_append_iff, SideChecks, SideChecks, or_imp]
  tauto

/-- **What `_process_data` does with a registration**: it returns, recording the common count,
exactly on the accepted registrations, and otherwise raises a `ValueError`, never an
`IndexError`. -/
theorem processData_cases (strategy : String) {inputs : InputsData β} {gradsList : GradsData β}
    (hI : inputs.NonEmpty) (hG : gradsList.NonEmpty) (numUses : Option ℕ) :
    (Accepted strategy numUses inputs gradsList ∧
        ∃ r, processData strategy inputs gradsList numUses =
          .ok r (gradsList.useCounts.head?.or (inputs.useCounts.head?.or numUses))) ∨
      (¬Accepted strategy numUses inputs gradsList ∧
        ∃ e s, processData strategy inputs gradsList numUses = .error e s ∧ e ≠ indexError) := by
  rw [← sideChecks_and_iff_accepted hI hG]
  rcases processInputs_cases strategy hI numUses with ⟨hi, a, ha⟩ | ⟨hi, e, s, he, hne⟩
  · rcases processGrads_cases strategy hG (inputs.useCounts.head?.or numUses) with
      ⟨hg, b, hb⟩ | ⟨hg, e, s, he, hne⟩
    · by_cases hs : (gradsList.useCounts.head?.or (inputs.useCounts.head?.or numUses)).isSome
      · obtain ⟨U, hU⟩ := Option.isSome_iff_exists.mp hs
        exact .inl ⟨⟨hi, hg, hs⟩, (a, b), hU ▸ processData_eq ha (hU ▸ hb)⟩
      · refine .inr ⟨fun h => hs h.2.2, numUsesError, none, ?_, by decide⟩
        simp [processData, bind, EStateM.bind, ha, hb, get, getThe, MonadStateOf.get, EStateM.get,
          Option.not_isSome_iff_eq_none.mp hs, throw, throwThe, MonadExceptOf.throw, EStateM.throw]
    · exact .inr ⟨fun h => hg h.2.1, e, s, by simp [processData, bind, EStateM.bind, ha, he], hne⟩
  · exact .inr ⟨fun h => hi h.1, e, s, by simp [processData, bind, EStateM.bind, he], hne⟩

/-- **When `_process_data` raises.** For inputs of at least one tower and gradients of at least
one source, each of at least one tower, each side in either format, every `num_uses` and every
strategy: `_process_data` raises exactly when a side is in per-use format under an unknown
strategy, when the known use counts disagree, or when none is known. What it raises is a
`ValueError`, and when it returns it has recorded the common count. -/
theorem processData_eq_error_iff {inputs : InputsData β} {gradsList : GradsData β}
    (hI : inputs.NonEmpty) (hG : gradsList.NonEmpty) (strategy : String) (numUses : Option ℕ) :
    ((∃ e s, processData strategy inputs gradsList numUses = .error e s) ↔
        (strategy ∉ ["concat", "separate"] ∧ (inputs.isPerUse ∨ gradsList.isPerUse)) ∨
          ¬UsesAgree (knownUseCounts numUses inputs gradsList) ∨
          knownUseCounts numUses inputs gradsList = []) ∧
      (∀ e s, processData strategy inputs gradsList numUses = .error e s → e ≠ indexError) ∧
      ∀ r s, processData strategy inputs gradsList numUses = .ok r s →
        ∃ U, s = some U ∧ ∀ n ∈ knownUseCounts numUses inputs gradsList, n = U := by
  have hrejected : ¬Accepted strategy numUses inputs gradsList ↔
      (strategy ∉ ["concat", "separate"] ∧ (inputs.isPerUse ∨ gradsList.isPerUse)) ∨
        ¬UsesAgree (knownUseCounts numUses inputs gradsList) ∨
        knownUseCounts numUses inputs gradsList = [] := by
    unfold Accepted
    tauto
  rcases processData_cases strategy hI hG numUses with ⟨hacc, r, hr⟩ | ⟨hacc, e, s, he, hne⟩
  · refine ⟨iff_of_false (by simp [hr]) fun h => hrejected.mpr h hacc, by simp [hr], ?_⟩
    rintro r' s' hr'
    obtain rfl := (EStateM.Result.ok.inj (hr.symm.trans hr')).2
    obtain ⟨U, hU⟩ := Option.isSome_iff_exists.mp
      ((isSome_head?_or_head?_or numUses _ _).mpr hacc.2.1)
    have hmem : U ∈ knownUseCounts numUses inputs gradsList :=
      mem_toList_head?_or_head?_or (by simp [hU])
    exact ⟨U, hU, fun n hn => hacc.1 n hn U hmem⟩
  · exact ⟨iff_of_true ⟨e, s, he⟩ (hrejected.mp hacc),
      fun e' s' he' => (EStateM.Result.error.inj (he.symm.trans he')).1 ▸ hne, by simp [he]⟩

/-- Two towers whose use counts disagree, with one gradient source and no `num_uses`. -/
theorem processData_eq_error_iff_twoTowers :
    let inputs : InputsData ℕ := .perUse [[[1]], [[2], [3]]]
    let gradsList : GradsData ℕ := .perUse [[[[4]], [[5], [6]]]]
    inputs.NonEmpty ∧ gradsList.NonEmpty ∧
      ((∃ e s, processData "concat" inputs gradsList none = .error e s) ↔
          ("concat" ∉ ["concat", "separate"] ∧ (inputs.isPerUse ∨ gradsList.isPerUse)) ∨
            ¬UsesAgree (knownUseCounts none inputs gradsList) ∨
            knownUseCounts none inputs gradsList = []) ∧
        (∀ e s, processData "concat" inputs gradsList none = .error e s → e ≠ indexError) ∧
        ∀ r s, processData "concat" inputs gradsList none = .ok r s →
          ∃ U, s = some U ∧ ∀ n ∈ knownUseCounts none inputs gradsList, n = U := by
  intro inputs gradsList
  have hI : inputs.NonEmpty := List.cons_ne_nil _ _
  have hG : gradsList.NonEmpty := ⟨List.cons_ne_nil _ _, by simp⟩
  exact ⟨hI, hG, processData_eq_error_iff hI hG "concat" none⟩

example : ¬Accepted "concat" none (.perUse [[[1]], [[2], [3]]] : InputsData ℕ)
    (.perUse [[[[4]], [[5], [6]]]]) := by decide

/-- **Two registrations against the docstring.** With both sides folded and `num_uses` given, an
unknown strategy is accepted; and a raise can leave `self._num_uses` changed, here recorded from
the first tower before the towers are found inconsistent. -/
theorem processData_unknownStrategy_and_partialWrite :
    processData "sum" (.folded [[1]]) (.folded [[[2]]]) (some 1) =
        .ok ([.tensor [(1 : ℕ)]], [[.tensor [2]]]) (some 1) ∧
      (processData "concat" (.perUse [[[1]], [[2], [3]]]) (.perUse [[[[4]], [[5], [6]]]]) none :
          EStateM.Result String (Option ℕ) (List (Piece ℕ) × List (List (Piece ℕ)))) =
        .error "Length of inputs argument is inconsistent across towers." (some 1) :=
  ⟨rfl, rfl⟩

end InputOutputMultiTowerMultiUse

/-! ### `ConvKFCBasicMultiIndepFB` -/

namespace ConvKFCBasicMultiIndepFB

open InputOutputMultiTowerMultiUse

variable {β : Type}

/-- The Python type of what `_process_data` returns as `inputs`: the tuple it builds from data
in per-use format, or in the folded format `self._inputs`, the list of registered towers. -/
def inputsTypeName : InputsData β → String
  | .perUse _ => "tuple"
  | .folded _ => "list"

/-- `inputs.shape` for a tuple or a list `inputs` of type `typeName`: Python raises
`AttributeError`. -/
def sequenceShape (typeName : String) : EStateM String (Option ℕ) (List ℕ) :=
  throw ("'" ++ typeName ++ "' object has no attribute 'shape'")

/-- `ConvKFCBasicMultiIndepFB.instantiate_factors`, once the collection makes the factors: the
location count `num_conv_locations(inputs.shape.as_list(), strides)` of the processed inputs,
then the coefficient `num_locations * num_uses` of `_setup_damping` and `_renorm_coeff`. -/
def instantiateFactors (strategy : String) (strides : Option (List ℕ)) (inputs : InputsData β)
    (gradsList : GradsData β) : EStateM String (Option ℕ) KroneckerVariant := do
  let _ ← processData strategy inputs gradsList
  let shape ← sequenceShape (inputsTypeName inputs)
  let numUses ← get
  pure (.convKFCBasicMultiIndepFB (numConvLocations shape strides) (numUses.getD 0))

/-- Whatever `_process_data` accepts, `instantiate_factors` then raises reading `inputs.shape`,
leaving the number of uses `_process_data` recorded. -/
theorem instantiateFactors_of_processData {strategy : String} {strides : Option (List ℕ)}
    {inputs : InputsData β} {gradsList : GradsData β} {numUses s : Option ℕ}
    {r : List (Piece β) × List (List (Piece β))}
    (h : processData strategy inputs gradsList numUses = .ok r s) :
    instantiateFactors strategy strides inputs gradsList numUses =
      .error ("'" ++ inputsTypeName inputs ++ "' object has no attribute 'shape'") s := by
  simp [instantiateFactors, bind, EStateM.bind, h, sequenceShape, throw, throwThe,
    MonadExceptOf.throw, EStateM.throw]

/-- **`ConvKFCBasicMultiIndepFB.instantiate_factors` never completes** on data in per-use format:
for `T ≥ 1` towers of `U` uses and a nonempty list of sources of that shape, `num_uses` none or
`U` and either strategy, it raises `AttributeError` on the tuple `_process_data` returns, with
`U` recorded and no location count or coefficient set. -/
theorem instantiateFactors_perUse {T U : ℕ} (hT : 0 < T) {inputs : List (List (List β))}
    (hinputs : IsRectangular T U inputs) {gradsList : List (List (List (List β)))}
    (hS : gradsList ≠ []) (hgrads : ∀ grads ∈ gradsList, IsRectangular T U grads)
    {numUses : Option ℕ} (hnum : numUses = none ∨ numUses = some U) {strategy : String}
    (hσ : strategy ∈ ["concat", "separate"]) (strides : Option (List ℕ)) :
    instantiateFactors strategy strides (.perUse inputs) (.perUse gradsList) numUses =
      .error "'tuple' object has no attribute 'shape'" (some U) := by
  obtain ⟨format, hf⟩ := Option.isSome_iff_exists.mp ((@towerFormat_isSome_iff β strategy).mpr hσ)
  exact instantiateFactors_of_processData (processData_eq (processInputs_perUse hT hinputs hnum hf)
    (processGrads_perUse hT hS hgrads (.inr rfl) hf))

/-- One tower of one use, with one gradient source. -/
theorem instantiateFactors_perUse_oneTower :
    let inputs : List (List (List ℕ)) := [[[1]]]
    let gradsList : List (List (List (List ℕ))) := [[[[2]]]]
    0 < 1 ∧ IsRectangular 1 1 inputs ∧ gradsList ≠ [] ∧ (∀ grads ∈ gradsList, IsRectangular 1 1 grads) ∧
      ((none : Option ℕ) = none ∨ none = some 1) ∧ "concat" ∈ ["concat", "separate"] ∧
      instantiateFactors "concat" (some [1, 2, 2, 1]) (.perUse inputs) (.perUse gradsList) none =
        .error "'tuple' object has no attribute 'shape'" (some 1) := by
  intro inputs gradsList
  have hinputs : IsRectangular 1 1 inputs := by decide
  have hgrads : ∀ grads ∈ gradsList, IsRectangular 1 1 grads := by decide
  exact ⟨one_pos, hinputs, List.cons_ne_nil _ _, hgrads, .inl rfl, by simp,
    instantiateFactors_perUse one_pos hinputs (List.cons_ne_nil _ _) hgrads (.inl rfl) (by simp) _⟩

end ConvKFCBasicMultiIndepFB

/-! ### `FullyConnectedMultiIndepFB` and `EmbeddingKFACMultiIndepFB` -/

namespace InputOutputMultiTowerMultiUse

variable {β : Type}

/-- `instantiate_factors` of `FullyConnectedMultiIndepFB`, `EmbeddingKFACMultiIndepFB` and
`FullyConnectedSeriesFB`, once the collection makes the factors: `_process_data`, then the block
`variant` builds over the number of uses it records, which the first two pass to
`_setup_damping` as the normalization and return as `_renorm_coeff`, and the third returns as
`_num_timesteps`. -/
def multiUseInstantiateFactors {α : Type} (variant : ℕ → α) (strategy : String)
    (inputs : InputsData β) (gradsList : GradsData β) : EStateM String (Option ℕ) α := do
  let _ ← processData strategy inputs gradsList
  let numUses ← get
  pure (variant (numUses.getD 0))

theorem multiUseInstantiateFactors_of_ok {α : Type} {variant : ℕ → α} {strategy : String}
    {inputs : InputsData β} {gradsList : GradsData β} {numUses : Option ℕ} {U : ℕ}
    {r : List (Piece β) × List (List (Piece β))}
    (h : processData strategy inputs gradsList numUses = .ok r (some U)) :
    multiUseInstantiateFactors variant strategy inputs gradsList numUses =
      .ok (variant U) (some U) := by
  simp [multiUseInstantiateFactors, bind, EStateM.bind, h, get, getThe, MonadStateOf.get,
    EStateM.get, pure, EStateM.pure]

end InputOutputMultiTowerMultiUse

open InputOutputMultiTowerMultiUse

/-- `FullyConnectedMultiIndepFB.instantiate_factors`. -/
def FullyConnectedMultiIndepFB.instantiateFactors {β : Type} (strategy : String)
    (inputs : InputsData β) (gradsList : GradsData β) :
    EStateM String (Option ℕ) KroneckerVariant :=
  multiUseInstantiateFactors .fullyConnectedMultiIndepFB strategy inputs gradsList

/-- `EmbeddingKFACMultiIndepFB.instantiate_factors`. -/
def EmbeddingKFACMultiIndepFB.instantiateFactors {β : Type} (strategy : String)
    (inputs : InputsData β) (gradsList : GradsData β) :
    EStateM String (Option ℕ) KroneckerVariant :=
  multiUseInstantiateFactors .embeddingKFACMultiIndepFB strategy inputs gradsList

example : FullyConnectedMultiIndepFB.instantiateFactors "concat" (.perUse [[[1], [2]]] : InputsData ℕ)
    (.perUse [[[[3], [4]]]]) none = .ok (.fullyConnectedMultiIndepFB 2) (some 2) := rfl

end FisherBlocks
