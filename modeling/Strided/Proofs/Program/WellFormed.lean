import Mathlib.Data.List.Induction
import Strided.Proofs.Program.Evaluate
/-!
# Compiled programs are well formed

`Follows` says how a compiled instruction stands after those before it: its operands are among them,
and the shape and the alias recorded for it are what its operator says of their shapes.  A list is
`WellFormed` if every instruction in it follows those before it; so is every first part of it, and
every compiled program (`Program.wellFormed_of_compile`).

An evaluation executes a first part of the program, all of it unless there is an error
(`CompiledProgram.Executes`).  What is true of every well-formed list of instructions that runs
through is therefore true of every evaluation, however it ends (`executes_of_eval_ok`,
`executes_of_eval_error`).
-/

namespace Strided

open CompiledProgram

/-! ## 1. Instructions in order

The condition is on one instruction and those before it, so that a list is well formed if it was
built up in order. -/

/-- **How an instruction stands after those before it.** -/
inductive Follows (before : List CompiledInstruction) : CompiledInstruction → Prop
  | param (name : String) (shape : Shape) : Follows before ⟨.param name shape, shape, none⟩
  | apply {op : Operator} {operands : List Nat} {shape : Shape}
      (hlt : ∀ operand ∈ operands, operand < before.length)
      (hresolves : op.Resolves (shapesAt before operands) shape) :
      Follows before ⟨.apply op operands, shape, op.outputAlias (shapesAt before operands)⟩

/-- Every instruction follows those before it. -/
def WellFormed (entries : List CompiledInstruction) : Prop :=
  ∀ before entry, before ++ [entry] <+: entries → Follows before entry

namespace WellFormed

variable {entries first rest : List CompiledInstruction} {entry : CompiledInstruction}

/-- No instruction refers to a later one if there is none. -/
theorem nil : WellFormed [] := by
  intro before entry hfirst
  simp at hfirst

/-- One more instruction, which follows those before it. -/
theorem snoc (h : WellFormed entries) (hentry : Follows entries entry) :
    WellFormed (entries ++ [entry]) := by
  intro before last hfirst
  rcases List.prefix_concat_iff.mp hfirst with heq | hfirst
  · obtain ⟨rfl, rfl⟩ := List.append_singleton_inj.mp heq
    exact hentry
  · exact h before last hfirst

/-- Every first part of a well-formed list is well formed. -/
theorem of_isPrefix (h : WellFormed entries) (hfirst : first <+: entries) : WellFormed first :=
  fun before entry hbefore => h before entry (hbefore.trans hfirst)

/-- What stands before the last instructions is well formed. -/
theorem init (h : WellFormed (entries ++ rest)) : WellFormed entries :=
  h.of_isPrefix (List.prefix_append entries rest)

/-- The last instruction follows the others. -/
theorem last (h : WellFormed (entries ++ [entry])) : Follows entries entry :=
  h entries entry (List.prefix_refl _)

end WellFormed

/-- **Compilation makes well-formed lists.** -/
theorem Compiles.wellFormed {policy : AliasPolicy} {source : List Instruction}
    {entries : List CompiledInstruction} {places : List Nat}
    (h : Compiles policy source entries places) : WellFormed entries := by
  refine h.induction_entries .nil ?_ ?_
  · intro entries name shape _ hentries
    exact hentries.snoc (.param name shape)
  · intro entries op operands shape hlt _ hresolves hentries
    exact hentries.snoc (.apply hlt hresolves)

/-- **A compiled program is well formed**, and its outputs are instructions of it. -/
theorem Program.wellFormed_of_compile {policy : AliasPolicy} {held : List Nat} {pool : Pool}
    {program : Program} {compiled : CompiledProgram}
    (h : (program.compile policy held pool).result = .ok compiled) :
    WellFormed compiled.instructions ∧ ∀ output ∈ compiled.outputs, output < compiled.size := by
  obtain ⟨c, hc⟩ := Program.compile_result_eq_ok h
  obtain ⟨hcompiles, houtputs⟩ := Compilation.compiles_of_compileProgram hc
  exact ⟨hcompiles.wellFormed, hcompiles.operands_lt houtputs⟩

/-! ## 2. What is executed

The instruction at which an evaluation fails is not among those executed. -/

namespace CompiledProgram

variable [Exponential] {program : CompiledProgram} {options : Options} {bindings : Bindings}
  {store store' : Store}

/-- **The evaluation executes the first instructions** as given: they yield `values`, and leave the
store `now`. -/
structure Executes (program : CompiledProgram) (options : Options) (bindings : Bindings)
    (store : Store) (executed : List CompiledInstruction) (values : List Argument)
    (now : Store) : Prop where
  isPrefix : executed <+: program.instructions
  run : evalFrom options.validateOutputs bindings [] executed store = (now, .ok values)

/-- An evaluation that goes through executes all instructions. -/
theorem executes_of_eval_ok {results : List Argument}
    (h : program.eval options bindings store = (store', .ok results)) :
    ∃ values, program.Executes options bindings store program.instructions values store' := by
  obtain ⟨values, hrun, -⟩ := eval_eq_ok_iff.mp h
  exact ⟨values, List.prefix_refl _, hrun⟩

/-- An evaluation that fails executes the instructions before the one that fails. -/
theorem executes_of_eval_error (houtputs : ∀ output ∈ program.outputs, output < program.size)
    {error : ProgramError} (h : program.eval options bindings store = (store', .error error)) :
    ∃ executed entry values now, executed ++ [entry] <+: program.instructions ∧
      program.Executes options bindings store executed values now ∧
      evalInstruction options.validateOutputs bindings values values.length entry now
        = (store', .error error) := by
  rw [eval] at h
  cases hrun : evalFrom options.validateOutputs bindings [] program.instructions store with
  | mk now outcome =>
    rw [hrun] at h
    cases outcome with
    | error found =>
      obtain ⟨rfl, hfound⟩ := Prod.mk.inj h
      obtain rfl := Except.error.inj hfound
      obtain ⟨first, entry, rest, mid, values, hsplit, hfirst, hentry⟩ := evalFrom_error hrun
      have hentries : first ++ [entry] <+: program.instructions := ⟨rest, by simp [hsplit]⟩
      exact ⟨first, entry, values, mid, hentries, ⟨isPrefix_of_append hentries, hfirst⟩, hentry⟩
    | ok values =>
      have hlength : values.length = program.size := by
        rw [length_evalFrom hrun, List.length_nil, Nat.zero_add, size]
      obtain ⟨results, hresults⟩ := exists_args (hlength ▸ houtputs)
      simp [fetch_eq_ok_iff.mpr hresults] at h

end CompiledProgram

end Strided
