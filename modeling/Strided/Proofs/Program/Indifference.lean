import Strided.Proofs.Buffer.Frame
import Strided.Proofs.Program.Reference
/-!
# What an evaluation does not depend on

`Program.eval_indifferent`: the outcome of evaluating a compiled program, and what is in storage
afterwards, is a matter of the program, the bound arguments and storage.  The options and the pool
of descriptors at hand make no difference, and the pool is left as it was.

* What an operator takes from a pool is its own activation, whatever else the pool holds
  (`Operator.consult_cases`), so `CompiledProgram.evalIn` comes to what `eval` comes to, of any
  instructions.  A finalized operator takes nothing, and all operators of a compiled program are.
* The output check is the one thing the options decide, and it never fails.  What an operator yields
  has the shape settled for the call (`Operator.shape_of_compute`).  An activation yields the buffer
  it is given, so this needs the values so far to have shapes that the compiled ones admit
  (`Admitted`); each instruction that goes through keeps them so (`Admitted.snoc`).

Nothing is asked of the bound arguments: they may be missing, or have other shapes, or not fit their
buffers.
-/

namespace Strided

open CompiledProgram

/-! ## 1. The pool

An operator that has no descriptor asks for one, computes with it and gives it up again.  The
descriptor is of the operator's own activation, whichever number it has. -/

namespace Operator

variable {op : Operator} {held : List Nat} {pool : Pool} {args : List Argument}

/-- An operator that has its descriptor leaves the pool alone. -/
theorem consult_of_isFinalized (h : op.isFinalized = true) :
    op.consult held pool args = (op, pool) := by
  unfold consult
  split
  next => rw [if_pos h]
  next => rfl

/-- An operator that asks the pool is an activation, and gets a descriptor of itself. -/
theorem consult_cases (op : Operator) (held : List Nat) (pool : Pool) (args : List Argument) :
    (op.consult held pool args).1 = op ∨
      ∃ alpha descriptor, op = .elu ⟨alpha, none⟩ ∧ descriptor.activation = ⟨.elu, alpha⟩ ∧
        (op.consult held pool args).1 = .elu ⟨alpha, some descriptor⟩ := by
  unfold consult
  split
  next =>
    split
    next => exact Or.inl rfl
    next hfinalized =>
      cases op with
      | reshape dims => exact absurd rfl hfinalized
      | contiguous => exact absurd rfl hfinalized
      | elu unit =>
        obtain ⟨alpha, descriptor⟩ := unit
        cases descriptor with
        | some descriptor => exact absurd rfl hfinalized
        | none =>
          exact Or.inr ⟨alpha, _, rfl, Pool.activation_request pool held ⟨.elu, alpha⟩, rfl⟩
  next => exact Or.inl rfl

/-- With a descriptor of itself an activation computes as without. -/
theorem compute_of_descriptor [Exponential] {alpha : Binary64} {descriptor : Descriptor}
    (h : descriptor.activation = ⟨.elu, alpha⟩) (store : Store) (output : StaticShape)
    (args : List Argument) :
    (Operator.elu ⟨alpha, some descriptor⟩).compute store output args
      = (Operator.elu ⟨alpha, none⟩).compute store output args := by
  have hunit : computeElu ⟨alpha, some descriptor⟩ = computeElu ⟨alpha, none⟩ := by
    funext store x out
    simp only [computeElu, Option.map_some, Option.map_none, Option.getD_some, Option.getD_none, h,
      Elu.activation]
  rcases args with _ | ⟨x, _ | ⟨out, _ | ⟨more, rest⟩⟩⟩
  · rfl
  · rfl
  · rw [compute, compute, hunit]
  · rfl

/-- **The descriptor makes no difference to what an operator does**, so neither does the pool that
it came from. -/
theorem applyOperator_consult [Exponential] (validate : Bool) (index : Nat) (shape : Shape)
    (store : Store) :
    applyOperator validate index (op.consult held pool args).1 shape args store
      = applyOperator validate index op shape args store := by
  rcases op.consult_cases held pool args with hsame | ⟨alpha, descriptor, rfl, hactivation, hasked⟩
  · rw [hsame]
  · rw [hasked]
    simp only [applyOperator, compute_of_descriptor hactivation]
    rfl

end Operator

namespace CompiledProgram

variable {held : List Nat} {pool : Pool} {bindings : Bindings} {values : List Argument}
  {validate : Bool} {entries : List CompiledInstruction} {store : Store}

/-- An instruction that has its descriptor leaves the pool alone. -/
theorem consult_of_isFinalized {entry : CompiledInstruction}
    (h : entry.instruction.isFinalized = true) (index : Nat) :
    consult held pool values index entry = (entry, pool) := by
  obtain ⟨instruction, shape, aliasOf⟩ := entry
  cases instruction with
  | param name declared => rfl
  | apply op inputs =>
    have hop : op.isFinalized = true := h
    unfold consult
    cases hargs : fetch values index inputs with
    | error error => simp only [hargs]
    | ok args =>
      cases hsettle : op.settle shape args with
      | error error => simp only [hargs, hsettle]
      | ok output => simp only [hargs, hsettle, Operator.consult_of_isFinalized hop]

variable [Exponential]

/-- It makes none to an instruction, whose operands are those of its operator. -/
theorem evalInstruction_consult (index : Nat) (entry : CompiledInstruction) :
    evalInstruction validate bindings values index (consult held pool values index entry).1 store
      = evalInstruction validate bindings values index entry store := by
  obtain ⟨instruction, shape, aliasOf⟩ := entry
  cases instruction with
  | param name declared => rfl
  | apply op inputs =>
    unfold consult
    cases hargs : fetch values index inputs with
    | error error => simp only [hargs]
    | ok args =>
      cases hsettle : op.settle shape args with
      | error error => simp only [hargs, hsettle]
      | ok output =>
        simp only [evalInstruction, hargs, hsettle, Operator.applyOperator_consult]

/-- **The pool at hand makes no difference** to what an evaluation comes to, whatever is
evaluated. -/
theorem evalFromIn_snd (held : List Nat) (pool : Pool) :
    (evalFromIn validate held bindings values entries pool store).2
      = evalFrom validate bindings values entries store := by
  induction entries generalizing values pool store with
  | nil => rfl
  | cons entry entries ih =>
    rw [evalFromIn, evalFrom]
    simp only [evalInstruction_consult]
    cases evalInstruction validate bindings values values.length entry store with
    | mk now outcome =>
      cases outcome with
      | error error => rfl
      | ok value => exact ih _

/-- So whatever is shown of `eval` holds of an evaluation with any pool at hand. -/
theorem evalIn_snd (program : CompiledProgram) (options : Options) (held : List Nat)
    (pool : Pool) :
    (program.evalIn options held pool bindings store).2
      = program.eval options bindings store := by
  rw [evalIn, eval, ← evalFromIn_snd held pool]
  cases evalFromIn options.validateOutputs held bindings [] program.instructions pool store with
  | mk after outcome =>
    obtain ⟨now, outcome⟩ := outcome
    cases outcome with
    | error error => rfl
    | ok values => rfl

/-- Finalized instructions leave the pool as it is. -/
theorem evalFromIn_fst (h : ∀ entry ∈ entries, entry.instruction.isFinalized = true) :
    (evalFromIn validate held bindings values entries pool store).1 = pool := by
  induction entries generalizing values store with
  | nil => rfl
  | cons entry entries ih =>
    obtain ⟨hentry, hentries⟩ := List.forall_mem_cons.mp h
    rw [evalFromIn, consult_of_isFinalized hentry]
    dsimp only
    cases evalInstruction validate bindings values values.length entry store with
    | mk now outcome =>
      cases outcome with
      | error error => rfl
      | ok value => exact ih hentries

/-- A program whose instructions are all finalized leaves the pool as it was. -/
theorem evalIn_fst {program : CompiledProgram} {options : Options}
    (h : ∀ entry ∈ program.instructions, entry.instruction.isFinalized = true) :
    (program.evalIn options held pool bindings store).1 = pool := by
  rw [evalIn]
  cases hrun : evalFromIn options.validateOutputs held bindings [] program.instructions pool
      store with
  | mk after outcome =>
    obtain ⟨now, outcome⟩ := outcome
    have hpool := congrArg Prod.fst hrun
    rw [evalFromIn_fst h] at hpool
    cases outcome with
    | error error => exact hpool.symm
    | ok values => exact hpool.symm

end CompiledProgram

/-! ## 2. The output check

The check compares the shape of what was computed with the shape that was settled.  They are equal
at every instruction, so that it makes no difference whether the check is made. -/

section Admitted

variable [Exponential] {before rest : List CompiledInstruction} {entry : CompiledInstruction}
  {values args : List Argument} {bindings : Bindings} {validate : Bool} {store store' : Store}
  {op : Operator} {operands : List Nat} {shape : Shape}

/-- An instruction that goes through keeps the values admitted. -/
theorem Admitted.snoc (h : Admitted before values) (hfollows : Follows before entry)
    {index : Nat} {value : Argument}
    (hvalue : evalInstruction validate bindings values index entry store = (store', .ok value)) :
    Admitted (before ++ [entry]) (values ++ [value]) := by
  refine List.rel_append h (.cons ?_ .nil)
  cases hfollows with
  | param name shape =>
    obtain ⟨-, hbound⟩ := Prod.mk.inj hvalue
    exact (bind_eq_ok_iff.mp hbound).2
  | apply hlt hresolves =>
    obtain ⟨args, hargs⟩ := h.exists_args hlt
    rw [evalInstruction_apply hargs] at hvalue
    obtain ⟨output, hsettle, hcompute⟩ := applyOperator_ok hvalue
    exact (h.shape_of_call hresolves hargs hsettle hcompute).2

/-- **The output check passes.** -/
theorem Admitted.evalInstruction_validate (h : Admitted before values)
    (hfollows : Follows before entry) (validate : Bool) (index : Nat) :
    evalInstruction validate bindings values index entry store
      = evalInstruction false bindings values index entry store := by
  cases hfollows with
  | param name shape => rfl
  | @apply op operands shape hlt hresolves =>
    obtain ⟨args, hargs⟩ := h.exists_args hlt
    rw [evalInstruction_apply hargs, evalInstruction_apply hargs, applyOperator, applyOperator]
    cases hsettle : op.settle shape args with
    | error error => rfl
    | ok output =>
      cases hcompute : op.compute store output args with
      | error error => simp only [hcompute]
      | ok computed =>
        obtain ⟨now, result⟩ := computed
        have hshape := (h.shape_of_call hresolves hargs hsettle hcompute).1
        simp [hshape, hcompute]

/-- **The output check passes in every run.**  What comes of a well-formed list of instructions is
what comes of it without the check. -/
theorem Admitted.evalFrom_validate (h : Admitted before values)
    (hwell : WellFormed (before ++ rest))
    (validate : Bool) :
    evalFrom validate bindings values rest store = evalFrom false bindings values rest store := by
  induction rest generalizing before values store with
  | nil => rfl
  | cons entry rest ih =>
    rw [List.append_cons] at hwell
    have hfollows := hwell.init.last
    rw [evalFrom, evalFrom, h.evalInstruction_validate hfollows]
    cases hvalue : evalInstruction false bindings values values.length entry store with
    | mk now outcome =>
      cases outcome with
      | error error => rfl
      | ok value => exact ih (h.snoc hfollows hvalue) hwell

end Admitted

namespace CompiledProgram

variable [Exponential] {bindings : Bindings} {store : Store}

/-- Without the check no output is refused for its shape. -/
theorem eval_ne_outputShape (program : CompiledProgram) {options : Options}
    (hunchecked : options.validateOutputs = false) (at' : Nat) (expected actual : StaticShape) :
    (program.eval options bindings store).2 ≠ .error (.outputShape at' expected actual) := by
  intro herror
  rw [eval, hunchecked] at herror
  cases hrun : evalFrom false bindings [] program.instructions store with
  | mk now outcome =>
    rw [hrun] at herror
    cases outcome with
    | error error =>
      obtain rfl := Except.error.inj herror
      obtain ⟨_, entry, _, _, done, -, -, hfails⟩ := evalFrom_error hrun
      cases faults_of_evalInstruction (congrArg Prod.snd hfails) with
      | checked hvalidate => exact absurd hvalidate Bool.false_ne_true
    | ok values =>
      obtain ⟨id, -, -, hid⟩ := fetch_error herror
      simp at hid

/-- **The options make no difference** to a well-formed program. -/
theorem eval_congr_options {program : CompiledProgram} (hwell : WellFormed program.instructions)
    (options options' : Options) :
    program.eval options bindings store = program.eval options' bindings store := by
  have hnil : Admitted [] [] := .nil
  rw [eval, eval, hnil.evalFrom_validate hwell,
    hnil.evalFrom_validate hwell options'.validateOutputs]

end CompiledProgram

/-! ## 3. The whole of it -/

/-- **Nothing but the program, its arguments and storage decides an evaluation.**  For everything
that compiles, whatever is bound:

* the pool at hand is left as it was, and the store and the results are those of `eval`;
* with other options and another pool they are the same;
* no output is refused for its shape. -/
theorem Program.eval_indifferent [Exponential] {policy : AliasPolicy} {others : List Nat}
    {made : Pool}
    {program : Program} {compiled : CompiledProgram}
    (h : (program.compile policy others made).result = .ok compiled) (bindings : Bindings)
    (store : Store) :
    (∀ options held pool, compiled.evalIn options held pool bindings store
      = (pool, compiled.eval options bindings store)) ∧
    (∀ options options' held held' pool pool',
      (compiled.evalIn options held pool bindings store).2
        = (compiled.evalIn options' held' pool' bindings store).2) ∧
    ∀ options held pool index expected actual,
      (compiled.evalIn options held pool bindings store).2.2
        ≠ .error (.outputShape index expected actual) := by
  have hwell := (Program.wellFormed_of_compile h).1
  obtain ⟨c, hc⟩ := Program.compile_result_eq_ok h
  have hfinalized := (Compilation.compiles_of_compileProgram hc).1.isFinalized
  refine ⟨fun options held pool => ?_, fun options options' held held' pool pool' => ?_,
    fun options held pool index expected actual => ?_⟩
  · exact Prod.ext (evalIn_fst hfinalized) (evalIn_snd compiled options held pool)
  · rw [evalIn_snd, evalIn_snd]
    exact eval_congr_options hwell options options'
  · rw [evalIn_snd, eval_congr_options hwell options ⟨.reject, false, false⟩]
    exact compiled.eval_ne_outputShape rfl index expected actual

/-- Three ones and three zeros, to be bound to the parameter of the example. -/
def twiceCopiedStore : Store :=
  ⟨#[⟨#[0, 0, 128, 63, 0, 0, 128, 63, 0, 0, 128, 63, 0, 0, 0, 0, 0, 0, 0, 0, 0, 0, 0, 0]⟩]⟩

/-- Its parameter, bound to an argument that its shape admits. -/
def twiceCopiedBindings : Bindings :=
  [("x", ⟨transposed, 0, 0⟩)]

/-- A pool that knows another activation under the number of the one in the example. -/
def otherPool : Pool :=
  ⟨[⟨0, ⟨.elu, .ofPattern 0x4000000000000000⟩⟩], 1⟩

/-- With the check and without it, and with two different pools. -/
theorem twiceCopied_indifferent :
    (twiceCopied.compile .copy [] .empty).result = .ok twiceCopiedCompiled ∧
      (twiceCopiedCompiled.evalIn .default [0] otherPool twiceCopiedBindings twiceCopiedStore).1
        = otherPool ∧
      (twiceCopiedCompiled.evalIn .default [0] otherPool twiceCopiedBindings twiceCopiedStore).2
        = (twiceCopiedCompiled.evalIn ⟨.copy, false, true⟩ [] .empty twiceCopiedBindings
            twiceCopiedStore).2 ∧
      (twiceCopiedCompiled.eval .default twiceCopiedBindings twiceCopiedStore).2
        = .ok [⟨.standard .float32 [6], 4, 0⟩] := by
  obtain ⟨hplain, hsame, -⟩ :=
    Program.eval_indifferent twiceCopied_compile twiceCopiedBindings twiceCopiedStore
  exact ⟨twiceCopied_compile, congrArg Prod.fst (hplain .default [0] otherPool),
    hsame _ _ _ _ _ _, by decide +kernel⟩

end Strided
