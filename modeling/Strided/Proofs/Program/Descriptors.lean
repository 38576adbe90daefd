import Strided.Proofs.Activation.Pool
import Strided.Proofs.Program.Indifference
import Strided.Proofs.Program.Trace
/-!
# What a compiled program holds

`Program.serves_compile`: a compilation asks the pool for one descriptor after the other, and holds
what it got only in the instructions compiled so far.  The pool serves those and whoever held
something before (`Compilation.Serves`), up to the end or the first error.  So it serves the latter
when the instructions are dropped, and the compiled program beside them when they are not.

A compiled program holds the descriptors of its own activations, one each
(`CompiledProgram.IsEquipped`).  The descriptors that the source operators hold play no part.
-/

namespace Strided

/-! ## 1. The scales of a program's activations

Instructions that are not activations hold nothing, so the descriptors of a program are as many as
its activations, each of the scale of its own. -/

/-- The scale of the instruction's activation, if it is one. -/
def Instruction.alpha? : Instruction → Option Binary64
  | .apply (.elu unit) _ => some unit.alpha
  | _ => none

/-- Whether the instruction's operator, if any, holds just the descriptor it computes with. -/
def Instruction.IsEquipped : Instruction → Prop
  | .param .. => True
  | .apply op _ => op.isFinalized = true ∧ op.Faithful

/-- An equipped instruction asks no pool at run time. -/
theorem Instruction.IsEquipped.isFinalized {instruction : Instruction}
    (h : instruction.IsEquipped) : instruction.isFinalized = true := by
  cases instruction with
  | param name declared => rfl
  | apply op inputs => exact h.1

namespace CompiledProgram

/-- The scales of the activations, by their bits. -/
def alphas (program : CompiledProgram) : List Binary64 :=
  program.instructions.filterMap fun entry => entry.instruction.alpha?

/-- Every operator of the program holds just the descriptor it computes with. -/
def IsEquipped (program : CompiledProgram) : Prop :=
  ∀ entry ∈ program.instructions, entry.instruction.IsEquipped

end CompiledProgram

/-- **Every compiled instruction is equipped**: an activation has its descriptor from compilation
on. -/
theorem Compiles.isEquipped {policy : AliasPolicy} {source : List Instruction}
    {entries : List CompiledInstruction} {places : List Nat}
    (h : Compiles policy source entries places) :
    ∀ entry ∈ entries, entry.instruction.IsEquipped := by
  induction h with
  | nil => exact List.forall_mem_nil _
  | param _ _ _ ih => exact List.forall_mem_append.mpr ⟨ih, List.forall_mem_singleton.mpr trivial⟩
  | apply _ _ _ hfinal ih =>
    refine List.forall_mem_append.mpr ⟨ih, List.forall_mem_singleton.mpr ?_⟩
    exact ⟨hfinal.finalized, hfinal.faithful⟩
  | copied _ _ _ _ _ _ _ _ ih =>
    refine List.forall_mem_append.mpr ⟨ih, List.forall_mem_cons.mpr ⟨⟨rfl, trivial⟩, ?_⟩⟩
    exact List.forall_mem_singleton.mpr ⟨rfl, trivial⟩

/-- An equipped instruction holds a descriptor of its scale, or has none. -/
theorem CompiledInstruction.activation_descriptor? {entry : CompiledInstruction}
    (h : entry.instruction.IsEquipped) :
    entry.descriptor?.map Descriptor.activation
      = entry.instruction.alpha?.map (Activation.mk .elu) := by
  obtain ⟨instruction, shape, aliasOf⟩ := entry
  cases instruction with
  | param name declared => rfl
  | apply op inputs =>
    obtain ⟨hfinalized, hfaithful⟩ := h
    cases op with
    | reshape dims => rfl
    | contiguous => rfl
    | elu unit =>
      obtain ⟨descriptor, hdescriptor⟩ := Option.isSome_iff_exists.mp hfinalized
      have hactivation : descriptor.activation = ⟨.elu, unit.alpha⟩ :=
        hfaithful descriptor hdescriptor
      simpa [descriptor?, Operator.descriptor?, Instruction.alpha?, hdescriptor] using hactivation

/-- The descriptors of an equipped program are those of its scales, in order. -/
theorem CompiledProgram.map_activation_descriptors {program : CompiledProgram}
    (h : program.IsEquipped) :
    program.descriptors.map Descriptor.activation = program.alphas.map (Activation.mk .elu) := by
  rw [descriptors, alphas, List.map_filterMap, List.map_filterMap]
  exact List.filterMap_congr fun entry hentry =>
    CompiledInstruction.activation_descriptor? (h entry hentry)

/-! ## 2. What a compilation asks for

What is held is read off the instructions compiled so far.  A step that fails may have asked before
it failed; what it got is then held by nobody, and the invariant allows for that. -/

namespace Compilation

/-- The descriptors that the instructions compiled so far hold. -/
def descriptors (c : Compilation) : List Descriptor :=
  c.entries.filterMap CompiledInstruction.descriptor?

/-- The pool serves what is held outside and what is compiled so far. -/
def Serves (outer : List Descriptor) (c : Compilation) : Prop :=
  c.pool.Serves (outer ++ c.descriptors)

variable {policy : AliasPolicy} {outer : List Descriptor} {c : Compilation}

/-- Compilation begins with what the outer programs hold. -/
theorem serves_start {pool : Pool} (h : pool.Serves outer) : (start pool).Serves outer := by
  simpa [Serves, start, descriptors] using h

/-- An instruction is appended with the descriptor it holds. -/
theorem descriptors_push (c : Compilation) (entry : CompiledInstruction) :
    (c.push entry).descriptors = c.descriptors ++ entry.descriptor?.toList := by
  cases h : entry.descriptor? <;> simp [descriptors, push, List.filterMap_append, h]

/-- Copies hold nothing and need nothing of the pool. -/
theorem insertCopies_keeps (operands : List Nat) :
    (c.insertCopies operands).1.descriptors = c.descriptors ∧
      (c.insertCopies operands).1.pool = c.pool := by
  induction operands generalizing c with
  | nil => exact ⟨rfl, rfl⟩
  | cons operand operands ih =>
    rw [insertCopies]
    split
    next shape _ =>
      split
      next => exact ih
      next =>
        have hcopy : (c.pushCopy operand shape).descriptors = c.descriptors := by
          simp [descriptors, pushCopy, CompiledInstruction.descriptor?, Operator.descriptor?]
        exact ⟨ih.1.trans hcopy, ih.2⟩
    next => exact ih

/-- To settle shapes, and to insert copies, asks for no descriptor. -/
theorem resolve_keeps (policy : AliasPolicy) (index : Nat) (op : Operator) (operands : List Nat) :
    (c.resolve policy index op operands).1.descriptors = c.descriptors ∧
      (c.resolve policy index op operands).1.pool = c.pool := by
  rw [resolve]
  split
  next => exact ⟨rfl, rfl⟩
  next =>
    split
    next =>
      dsimp only
      split <;> exact insertCopies_keeps operands
    next => exact ⟨rfl, rfl⟩

/-- Finalizing keeps the pool serving, with what the operator then holds. -/
theorem serves_finalize {pool : Pool} {held : List Descriptor} (h : pool.Serves held)
    (op : Operator) :
    (op.finalize pool (held.map Descriptor.id)).2.Serves
      (held ++ (op.finalize pool (held.map Descriptor.id)).1.descriptor?.toList) := by
  cases op with
  | reshape dims => simpa [Operator.finalize, Operator.descriptor?] using h
  | contiguous => simpa [Operator.finalize, Operator.descriptor?] using h
  | elu unit => exact h.request unit.activation

/-- **One instruction keeps the pool serving**, whether or not it compiles. -/
theorem serves_compileInstruction (h : c.Serves outer) (policy : AliasPolicy) (index : Nat)
    (instruction : Instruction) :
    (c.compileInstruction policy (outer.map Descriptor.id) index instruction).1.Serves outer := by
  cases instruction with
  | param name shape =>
    rw [compileInstruction, Serves, descriptors_push]
    exact (List.append_nil c.descriptors).symm ▸ h
  | apply op inputs =>
    rw [compileInstruction]
    split
    next => exact h
    next operands _ =>
      obtain ⟨hdescriptors, hpool⟩ := resolve_keeps (c := c) policy index op operands
      split
      next d error hd =>
        rw [hd] at hdescriptors hpool
        rwa [Serves, hdescriptors, hpool]
      next d operands shape hd =>
        rw [hd] at hdescriptors hpool
        have hd' : d.Serves outer := by rwa [Serves, hdescriptors, hpool]
        have hfinal := serves_finalize hd' op
        rw [List.map_append, List.append_assoc] at hfinal
        rw [Serves, descriptors_push]
        exact hfinal

/-- **So do any number of instructions**, up to the first that does not compile. -/
theorem serves_compileFrom (h : c.Serves outer) (policy : AliasPolicy) (index : Nat)
    (rest : List Instruction) :
    (c.compileFrom policy (outer.map Descriptor.id) index rest).1.Serves outer := by
  induction rest generalizing c index with
  | nil => exact h
  | cons instruction rest ih =>
    have hstep := serves_compileInstruction h policy index instruction
    rw [compileFrom]
    split
    next d error hd =>
      rw [hd] at hstep
      exact hstep
    next d hd =>
      rw [hd] at hstep
      exact ih hstep (index + 1)

/-- **Compilation leaves the pool serving all who held one before**, and what it has compiled so
far, failed or not. -/
theorem serves_compileProgram {pool : Pool} (h : pool.Serves outer) (policy : AliasPolicy)
    (program : Program) :
    (compileProgram policy (outer.map Descriptor.id) pool program).1.Serves outer := by
  have hrun := serves_compileFrom (serves_start h) policy 0 program.instructions
  rw [compileProgram]
  split
  next => exact serves_start h
  next =>
    split
    next d error hd =>
      rw [hd] at hrun
      exact hrun
    next d hd =>
      rw [hd] at hrun
      split <;> exact hrun

end Compilation

/-- **A compilation leaves the pool serving** those outside, and, when the program compiles, the
compiled program beside them. -/
theorem Program.serves_compile {pool : Pool} {outer : List Descriptor} (h : pool.Serves outer)
    (policy : AliasPolicy) (program : Program) :
    (program.compile policy (outer.map Descriptor.id) pool).pool.Serves outer ∧
    ∀ compiled, (program.compile policy (outer.map Descriptor.id) pool).result = .ok compiled →
      compiled.IsEquipped ∧
      (program.compile policy (outer.map Descriptor.id) pool).pool.Serves
        (outer ++ compiled.descriptors) := by
  have hserves := Compilation.serves_compileProgram h policy program
  rw [Program.compile]
  cases hc : Compilation.compileProgram policy (outer.map Descriptor.id) pool program with
  | mk c outcome =>
    rw [hc] at hserves
    have houter : c.pool.Serves outer := hserves.subset fun _ => List.mem_append_left _
    cases outcome with
    | error error => exact ⟨houter, fun compiled hok => absurd hok (by simp)⟩
    | ok compiled =>
      refine ⟨houter, fun found hfound => ?_⟩
      obtain rfl := Except.ok.inj hfound
      have hcompiles := (Compilation.compiles_of_compileProgram hc).1
      refine ⟨hcompiles.isEquipped, ?_⟩
      rw [CompiledProgram.descriptors, Compilation.instructions_of_compileProgram hc]
      exact hserves

end Strided
