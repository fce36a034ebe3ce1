import FisherBlocks.Kronecker

/-!
# Registered matrix powers

A Kronecker factor computes a damped power of its covariance only for the pairs
`(exp, damping_func.func_id)` registered with it beforehand. `KroneckerProductFB.register_matpower`
registers one pair with each of the block's two factors, each with the damping function of its
side, and `multiply_matpower` reads the two powers back; asking for a pair never registered
violates the precondition of the block contract. The collection shares factors between blocks,
so a block may be served a power that another block registered, computed with that block's
damping function.

This file models the registrations as a state of the collection, keyed by factor name, and
proves what they serve. After every sequence of `register_matpower` calls by the Kronecker
blocks of a collection whose factor names identify its factors, every block of the collection
is served the product `KroneckerProductFB.multiplyMatpower` computes with the block's own
damping functions when both of its pairs were registered, by itself or by any other block, and
nothing otherwise (`multiplyMatpowerOn_registerAll`). The registrations themselves depend only
on which calls were made, not on their order or their repetitions (`registerAll_eq_of_mem_iff`),
although a factor keeps the damping function of the first registration of a pair.

The argument is an invariant of the state (`Registrations.Kept`): every damping function kept
is the damping function of a side of a block of the collection, kept under its own identity.
No registration has it vacuously, and every `register_matpower` keeps it; since the identity of
a half of `_setup_damping` records both factor names, the damping, the normalization and the
side, it then fixes the function kept (`Registrations.packagedFunc_dampingSite_eq`).

## Main definitions

* `Registrations`, `Registrations.registerMatpower`: the factors' registrations.
* `Factor.leftMultiplyMatpowerOn`, `Factor.rightMultiplyMatpowerOn`: a factor's products by its
  registered powers.
* `KroneckerProductFB.registerMatpowerOn`, `KroneckerProductFB.multiplyMatpowerOn`: the block's
  `register_matpower` and `multiply_matpower` over them.
* `registerAll`: a sequence of `register_matpower` calls.

## Main results

* `Registrations.kept_registerAll`: the invariant along every sequence of calls.
* `isSome_registerAll`: a pair is registered exactly when some call requested it.
* `registerAll_eq_of_mem_iff`, `multiplyMatpowerOn_registerAll`.

## References

* `src/kfac/python/ops/fisher_blocks.py`, lines 646–699.
-/

noncomputable section

namespace FisherBlocks

/-- Identities are compared by value, as Python compares tuples of strings and numbers. -/
noncomputable instance : DecidableEq Hashable := Classical.decEq _

/-! ### The registrations of the factors -/

/-- Modelled from the spec: the matrix powers registered with the factors of a collection
(absent from the source). Under a factor's name and a pair `(exp, func_id)` it holds the damping
function of the first registration of that pair, with which the factor computes the power, and
nothing for a pair never registered. -/
def Registrations := String → ℤ × List Hashable → Option (PackagedFunc ℝ)

namespace Registrations

/-- No factor has a registration. -/
def empty : Registrations := fun _ _ => none

/-- Modelled from the spec: `register_matpower(exp, damping_func)` of the factor named `name`.
The pair `(exp, damping_func.func_id)` is registered, with `damping_func` unless the pair was
registered before. -/
def registerMatpower (r : Registrations) (name : String) (exp : ℤ)
    (dampingFunc : PackagedFunc ℝ) : Registrations :=
  Function.update r name <| Function.update (r name) (exp, dampingFunc.funcId) <|
    (r name (exp, dampingFunc.funcId)).or (some dampingFunc)

theorem registerMatpower_apply (r : Registrations) (name : String) (exp : ℤ)
    (dampingFunc : PackagedFunc ℝ) (name' : String) (key : ℤ × List Hashable) :
    r.registerMatpower name exp dampingFunc name' key =
      if name' = name ∧ key = (exp, dampingFunc.funcId) then (r name' key).or (some dampingFunc)
      else r name' key := by
  simp only [registerMatpower, Function.update_apply, ite_apply, ite_and]
  split_ifs <;> subst_vars <;> rfl

/-- A registration adds at most the pair it registers. -/
theorem isSome_registerMatpower (r : Registrations) (name : String) (exp : ℤ)
    (dampingFunc : PackagedFunc ℝ) (name' : String) (key : ℤ × List Hashable) :
    (r.registerMatpower name exp dampingFunc name' key).isSome ↔
      (r name' key).isSome ∨ (name', key) = (name, exp, dampingFunc.funcId) := by
  rw [registerMatpower_apply]
  split_ifs with h
  · cases r name' key <;> simp [h]
  · simp only [Prod.mk.injEq, h, or_false]

end Registrations

/-! ### Products by registered powers -/

namespace Factor

variable {m k : ℕ}

/-- Modelled from the spec: `left_multiply_matpower(x, exp, damping_func)` of a factor whose
powers are registered in `r`: the product by the power computed with the damping function kept
for `(exp, damping_func.func_id)`, and nothing for a pair never registered. -/
def leftMultiplyMatpowerOn (r : Registrations) (f : Factor m) (x : Matrix (Fin m) (Fin k) ℝ)
    (exp : ℤ) (dampingFunc : PackagedFunc ℝ) : Option (Matrix (Fin m) (Fin k) ℝ) :=
  (r f.name (exp, dampingFunc.funcId)).map (f.leftMultiplyMatpower x exp)

/-- Modelled from the spec: `right_multiply_matpower(x, exp, damping_func)` of a factor whose
powers are registered in `r`. -/
def rightMultiplyMatpowerOn (r : Registrations) (f : Factor k) (x : Matrix (Fin m) (Fin k) ℝ)
    (exp : ℤ) (dampingFunc : PackagedFunc ℝ) : Option (Matrix (Fin m) (Fin k) ℝ) :=
  (r f.name (exp, dampingFunc.funcId)).map (f.rightMultiplyMatpower x exp)

end Factor

/-! ### The block over the registrations -/

namespace KroneckerProductFB

variable (g : GlobalConstants) {m k : ℕ} (B : KroneckerProductFB m k)

/-- The damping site of a side of the block: the half of `_setup_damping` it hands that side's
factor. -/
def dampingSite (side : FactorSide) : DampingSite :=
  .kronecker B.inputFactor B.outputFactor B.damping B.normalization side

/-- The two factors of the block. -/
def factors : List (Σ n, Factor n) := [⟨m, B.inputFactor⟩, ⟨k, B.outputFactor⟩]

/-- `register_matpower(exp)`: the input factor registers the power with the input damping
function, then the output factor with the output damping function. -/
def registerMatpowerOn (r : Registrations) (exp : ℤ) : Registrations :=
  (r.registerMatpower B.inputFactor.name exp (B.inputDampingFunc g)).registerMatpower
    B.outputFactor.name exp (B.outputDampingFunc g)

/-- `multiply_matpower(vector, exp)` through the registered powers: the output factor's on the
right, the input factor's on the left, then `c ** exp` when `c ≠ 1`; nothing when a factor has
no power registered for the pair the block asks it for. -/
def multiplyMatpowerOn (r : Registrations) (vector : Matrix (Fin m) (Fin k) ℝ) (exp : ℤ) :
    Option (Matrix (Fin m) (Fin k) ℝ) := do
  let reshapedOut ← B.outputFactor.rightMultiplyMatpowerOn r vector exp (B.outputDampingFunc g)
  let reshapedOut ← B.inputFactor.leftMultiplyMatpowerOn r reshapedOut exp (B.inputDampingFunc g)
  pure (if B.renormCoeff ≠ 1 then B.renormCoeff ^ exp • reshapedOut else reshapedOut)

variable {g B}

@[simp] theorem packagedFunc_dampingSite_input :
    (B.dampingSite .input).packagedFunc g = B.inputDampingFunc g := rfl

@[simp] theorem packagedFunc_dampingSite_output :
    (B.dampingSite .output).packagedFunc g = B.outputDampingFunc g := rfl

/-- A call registers exactly the two pairs the block requests. -/
theorem isSome_registerMatpowerOn (r : Registrations) (exp : ℤ) (name : String)
    (key : ℤ × List Hashable) :
    (B.registerMatpowerOn g r exp name key).isSome ↔
      (r name key).isSome ∨ (name, key) ∈ B.registerMatpower g exp := by
  simp only [registerMatpowerOn, Registrations.isSome_registerMatpower, registerMatpower,
    List.mem_cons, List.mem_singleton, List.not_mem_nil, or_false]
  tauto

end KroneckerProductFB

/-- Two halves of `_setup_damping` over the same factors are the same damping function. -/
theorem DampingSite.kronecker_packagedFunc_eq {g : GlobalConstants} {m k m' k' : ℕ}
    {A : Factor m} {G : Factor k} {A' : Factor m'} {G' : Factor k'}
    (hA : (⟨m, A⟩ : Σ n, Factor n) = ⟨m', A'⟩) (hG : (⟨k, G⟩ : Σ n, Factor n) = ⟨k', G'⟩)
    (damping : ℝ) (normalization : Option ℝ) (side : FactorSide) :
    (kronecker A G damping normalization side).packagedFunc g =
      (kronecker A' G' damping normalization side).packagedFunc g := by
  cases hA
  cases hG
  rfl

/-! ### The collection -/

/-- A Kronecker block of a collection, of any layer dimensions. -/
abbrev AnyKroneckerFB := Σ (m : ℕ) (k : ℕ), KroneckerProductFB m k

/-- The factors of the blocks of a collection. -/
def factorsOf (blocks : List AnyKroneckerFB) : List (Σ n, Factor n) :=
  blocks.flatMap fun B => B.2.2.factors

variable (g : GlobalConstants)

/-- The registrations after the `register_matpower(exp)` calls of `calls`, in order, each by the
block it names. -/
def registerAll (r : Registrations) (calls : List (AnyKroneckerFB × ℤ)) : Registrations :=
  calls.foldl (fun r c => c.1.2.2.registerMatpowerOn g r c.2) r

/-- Every damping function kept is the damping function of a side of a block of `blocks`, kept
under its own identity. -/
def Registrations.Kept (blocks : List AnyKroneckerFB) (r : Registrations) : Prop :=
  ∀ name key f, r name key = some f →
    key.2 = f.funcId ∧ ∃ B ∈ blocks, ∃ side, (B.2.2.dampingSite side).packagedFunc g = f

variable {g}

namespace Registrations

variable {blocks : List AnyKroneckerFB}

theorem kept_empty : empty.Kept g blocks := fun _ _ _ h => nomatch h

/-- Registering a damping function of a block of the collection keeps the invariant. -/
theorem Kept.registerMatpower {r : Registrations} (hr : r.Kept g blocks) {B : AnyKroneckerFB}
    (hB : B ∈ blocks) (side : FactorSide) (name : String) (exp : ℤ) :
    (r.registerMatpower name exp ((B.2.2.dampingSite side).packagedFunc g)).Kept g blocks := by
  intro name' key f h
  rw [registerMatpower_apply] at h
  split_ifs at h with hk
  · cases hr' : r name' key with
    | none =>
      rw [hr', Option.none_or, Option.some_inj] at h
      exact ⟨h ▸ congrArg Prod.snd hk.2, B, hB, side, h⟩
    | some f' => exact hr name' key f (by rw [hr'] at h ⊢; exact h)
  · exact hr name' key f h

theorem Kept.registerMatpowerOn {r : Registrations} (hr : r.Kept g blocks) {m k : ℕ}
    {B : KroneckerProductFB m k} (hB : ⟨m, k, B⟩ ∈ blocks) (exp : ℤ) :
    (B.registerMatpowerOn g r exp).Kept g blocks :=
  (hr.registerMatpower hB .input _ exp).registerMatpower hB .output _ exp

/-- **The invariant along every sequence of calls** by blocks of the collection. -/
theorem Kept.registerAll {r : Registrations} (hr : r.Kept g blocks)
    {calls : List (AnyKroneckerFB × ℤ)} (hcalls : ∀ c ∈ calls, c.1 ∈ blocks) :
    (FisherBlocks.registerAll g r calls).Kept g blocks := by
  induction calls generalizing r with
  | nil => exact hr
  | cons c calls ih =>
    exact ih (hr.registerMatpowerOn (hcalls c (List.mem_cons_self _ _)) c.2)
      fun c' hc' => hcalls c' (List.mem_cons_of_mem _ hc')

theorem kept_registerAll {calls : List (AnyKroneckerFB × ℤ)} (hcalls : ∀ c ∈ calls, c.1 ∈ blocks) :
    (FisherBlocks.registerAll g empty calls).Kept g blocks :=
  kept_empty.registerAll hcalls

/-- With factor names identifying the factors of the collection, the damping function of a side
of a block of the collection is determined by its identity. -/
theorem packagedFunc_dampingSite_eq (hnames : DampingSite.NamesIdentify (factorsOf blocks))
    {B B' : AnyKroneckerFB} (hB : B ∈ blocks) (hB' : B' ∈ blocks) {side side' : FactorSide}
    (h : ((B.2.2.dampingSite side).packagedFunc g).funcId =
      ((B'.2.2.dampingSite side').packagedFunc g).funcId) :
    (B.2.2.dampingSite side).packagedFunc g = (B'.2.2.dampingSite side').packagedFunc g := by
  simp only [KroneckerProductFB.dampingSite, DampingSite.funcId_kronecker] at h ⊢
  obtain ⟨hA, hG, hd, ho, rfl⟩ := DampingSite.kronecker_funcId_inj h
  have mem : ∀ {C : AnyKroneckerFB}, C ∈ blocks → ∀ f ∈ C.2.2.factors, f ∈ factorsOf blocks :=
    fun hC _ hf => List.mem_flatMap.mpr ⟨_, hC, hf⟩
  rw [hd, ho]
  exact DampingSite.kronecker_packagedFunc_eq
    (hnames _ (mem hB _ (by simp [KroneckerProductFB.factors])) _
      (mem hB' _ (by simp [KroneckerProductFB.factors])) hA)
    (hnames _ (mem hB _ (by simp [KroneckerProductFB.factors])) _
      (mem hB' _ (by simp [KroneckerProductFB.factors])) hG) _ _ _

/-- The function kept for a pair a block of the collection requests is that block's own. -/
theorem Kept.eq_dampingSite {r : Registrations} (hr : r.Kept g blocks)
    (hnames : DampingSite.NamesIdentify (factorsOf blocks)) {B : AnyKroneckerFB} (hB : B ∈ blocks)
    (side : FactorSide) {name : String} {exp : ℤ} {f : PackagedFunc ℝ}
    (h : r name (exp, ((B.2.2.dampingSite side).packagedFunc g).funcId) = some f) :
    f = (B.2.2.dampingSite side).packagedFunc g := by
  obtain ⟨hid, B', hB', side', rfl⟩ := hr _ _ _ h
  exact packagedFunc_dampingSite_eq hnames hB' hB hid.symm

/-- Two states keeping the invariant are equal when they register the same pairs. -/
theorem Kept.ext {r r' : Registrations} (hr : r.Kept g blocks) (hr' : r'.Kept g blocks)
    (hnames : DampingSite.NamesIdentify (factorsOf blocks))
    (h : ∀ name key, (r name key).isSome ↔ (r' name key).isSome) : r = r' := by
  funext name key
  have hk := h name key
  cases h₁ : r name key with
  | none => cases h₂ : r' name key <;> simp_all
  | some f =>
    cases h₂ : r' name key with
    | none => simp_all
    | some f' =>
      obtain ⟨hid, B, hB, side, rfl⟩ := hr _ _ _ h₁
      obtain ⟨hid', B', hB', side', rfl⟩ := hr' _ _ _ h₂
      rw [packagedFunc_dampingSite_eq hnames hB hB' (hid.symm.trans hid')]

end Registrations

/-- A pair is registered after a sequence of calls exactly when it was before or some call
requested it. -/
theorem isSome_registerAll (r : Registrations) :
    ∀ (calls : List (AnyKroneckerFB × ℤ)) (name : String) (key : ℤ × List Hashable),
      (registerAll g r calls name key).isSome ↔
        (r name key).isSome ∨ ∃ c ∈ calls, (name, key) ∈ c.1.2.2.registerMatpower g c.2
  | [], _, _ => by simp [registerAll]
  | c :: calls, name, key => by
    rw [registerAll, List.foldl_cons, ← registerAll, isSome_registerAll _ calls,
      KroneckerProductFB.isSome_registerMatpowerOn]
    simp only [List.mem_cons, or_and_right, exists_or, exists_eq_left]
    tauto

/-- **The registrations depend only on which calls were made.** For every collection of
Kronecker blocks whose factor names identify its factors, two sequences of `register_matpower`
calls by its blocks that make the same calls, in any order and with any repetitions, leave the
factors with the same registrations: the same pairs, each with the same damping function,
although a factor keeps the function of the first registration of a pair. -/
theorem registerAll_eq_of_mem_iff (blocks : List AnyKroneckerFB)
    (hnames : DampingSite.NamesIdentify (factorsOf blocks))
    {calls calls' : List (AnyKroneckerFB × ℤ)} (hcalls : ∀ c ∈ calls, c.1 ∈ blocks)
    (hsame : ∀ c, c ∈ calls ↔ c ∈ calls') :
    registerAll g .empty calls = registerAll g .empty calls' :=
  (Registrations.kept_registerAll hcalls).ext
    (Registrations.kept_registerAll fun c hc => hcalls c ((hsame c).mpr hc)) hnames
    fun name key => by simp only [isSome_registerAll, hsame]

/-- Two blocks over the same factors, damped differently, registering their inverses in either
order. -/
theorem registerAll_eq_of_mem_iff_twoBlocks :
    let A : Factor 1 := ⟨"input", .diagonal 1⟩
    let G : Factor 1 := ⟨"output", .diagonal 1⟩
    let B₁ := KroneckerVariant.fullyConnectedKFACBasicFB.instantiateFactors A G 1
    let B₂ := KroneckerVariant.fullyConnectedKFACBasicFB.instantiateFactors A G 2
    let blocks : List AnyKroneckerFB := [⟨1, 1, B₁⟩, ⟨1, 1, B₂⟩]
    let calls : List (AnyKroneckerFB × ℤ) := [(⟨1, 1, B₁⟩, -1), (⟨1, 1, B₂⟩, -1)]
    let calls' : List (AnyKroneckerFB × ℤ) := [(⟨1, 1, B₂⟩, -1), (⟨1, 1, B₁⟩, -1), (⟨1, 1, B₂⟩, -1)]
    let g : GlobalConstants := {}
    DampingSite.NamesIdentify (factorsOf blocks) ∧ (∀ c ∈ calls, c.1 ∈ blocks) ∧
      (∀ c, c ∈ calls ↔ c ∈ calls') ∧ registerAll g .empty calls = registerAll g .empty calls' := by
  intro A G B₁ B₂ blocks calls calls' g
  have hnames : DampingSite.NamesIdentify (factorsOf blocks) := by
    simp [DampingSite.NamesIdentify, factorsOf, blocks, B₁, B₂, A, G, KroneckerProductFB.factors,
      KroneckerVariant.instantiateFactors]
  have hcalls : ∀ c ∈ calls, c.1 ∈ blocks := by simp [calls, blocks]
  have hsame : ∀ c, c ∈ calls ↔ c ∈ calls' := by
    intro c
    simp only [calls, calls', List.mem_cons, List.mem_singleton, List.not_mem_nil, or_false]
    tauto
  exact ⟨hnames, hcalls, hsame, registerAll_eq_of_mem_iff blocks hnames hcalls hsame⟩

namespace KroneckerProductFB

variable {blocks : List AnyKroneckerFB} {m k : ℕ} {B : KroneckerProductFB m k}

/-- On registrations keeping the invariant, the block's product through the registrations is
its direct product when both of its pairs are registered, and nothing otherwise. -/
theorem multiplyMatpowerOn_eq {r : Registrations} (hr : r.Kept g blocks)
    (hnames : DampingSite.NamesIdentify (factorsOf blocks)) (hB : ⟨m, k, B⟩ ∈ blocks)
    (V : Matrix (Fin m) (Fin k) ℝ) (exp : ℤ) :
    B.multiplyMatpowerOn g r V exp =
      if ∀ q ∈ B.registerMatpower g exp, (r q.1 q.2).isSome then some (B.multiplyMatpower g V exp)
      else none := by
  simp only [registerMatpower, List.mem_cons, List.mem_singleton, List.not_mem_nil, or_false,
    forall_eq_or_imp, forall_eq]
  cases hout : r B.outputFactor.name (exp, (B.outputDampingFunc g).funcId) with
  | none => simp [multiplyMatpowerOn, Factor.rightMultiplyMatpowerOn, hout]
  | some fo =>
    cases hin : r B.inputFactor.name (exp, (B.inputDampingFunc g).funcId) with
    | none =>
      simp [multiplyMatpowerOn, Factor.rightMultiplyMatpowerOn, Factor.leftMultiplyMatpowerOn,
        hout, hin]
    | some fi =>
      obtain rfl := hr.eq_dampingSite hnames hB .output hout
      obtain rfl := hr.eq_dampingSite hnames hB .input hin
      simp [multiplyMatpowerOn, Factor.rightMultiplyMatpowerOn, Factor.leftMultiplyMatpowerOn,
        hout, hin, multiplyMatpower]

/-- **The registrations serve every block its own product.** For every collection of Kronecker
blocks whose factor names identify its factors and every sequence of `register_matpower` calls
by its blocks, any block of the collection multiplying by the registered powers gets the product
computed with its own damping functions when each of the two pairs it requests was requested by
some call, of its own or of another block, and nothing otherwise. -/
theorem multiplyMatpowerOn_registerAll (blocks : List AnyKroneckerFB)
    (hnames : DampingSite.NamesIdentify (factorsOf blocks)) {calls : List (AnyKroneckerFB × ℤ)}
    (hcalls : ∀ c ∈ calls, c.1 ∈ blocks) (hB : ⟨m, k, B⟩ ∈ blocks)
    (V : Matrix (Fin m) (Fin k) ℝ) (exp : ℤ) :
    B.multiplyMatpowerOn g (registerAll g .empty calls) V exp =
      if ∀ q ∈ B.registerMatpower g exp, ∃ c ∈ calls, q ∈ c.1.2.2.registerMatpower g c.2
      then some (B.multiplyMatpower g V exp) else none := by
  rw [multiplyMatpowerOn_eq (Registrations.kept_registerAll hcalls) hnames hB]
  simp only [isSome_registerAll, Registrations.empty, Option.isSome_none, Bool.false_eq_true,
    false_or, Prod.mk.eta]

/-- A fully connected block of two unit factors, registering its inverse. -/
theorem multiplyMatpowerOn_registerAll_unitFactors :
    let B := KroneckerVariant.fullyConnectedKFACBasicFB.instantiateFactors
      (⟨"input", .diagonal 1⟩ : Factor 1) (⟨"output", .diagonal 1⟩ : Factor 1) 1
    let blocks : List AnyKroneckerFB := [⟨1, 1, B⟩]
    let calls : List (AnyKroneckerFB × ℤ) := [(⟨1, 1, B⟩, -1)]
    let g : GlobalConstants := {}
    DampingSite.NamesIdentify (factorsOf blocks) ∧ (∀ c ∈ calls, c.1 ∈ blocks) ∧
      (⟨1, 1, B⟩ : AnyKroneckerFB) ∈ blocks ∧
      B.multiplyMatpowerOn g (registerAll g .empty calls) 1 (-1) =
        if ∀ q ∈ B.registerMatpower g (-1), ∃ c ∈ calls, q ∈ c.1.2.2.registerMatpower g c.2
        then some (B.multiplyMatpower g 1 (-1)) else none := by
  intro B blocks calls g
  have hnames : DampingSite.NamesIdentify (factorsOf blocks) := by
    simp [DampingSite.NamesIdentify, factorsOf, blocks, B, KroneckerProductFB.factors,
      KroneckerVariant.instantiateFactors]
  have hcalls : ∀ c ∈ calls, c.1 ∈ blocks := by simp [calls, blocks]
  exact ⟨hnames, hcalls, List.mem_singleton_self _,
    multiplyMatpowerOn_registerAll blocks hnames hcalls (List.mem_singleton_self _) 1 (-1)⟩

end KroneckerProductFB

end FisherBlocks

end
