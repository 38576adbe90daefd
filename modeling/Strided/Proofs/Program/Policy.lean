import Strided.Proofs.Program.Compile
/-!
# What the alias policy changes

`Program.compile_copy_extends`: compilation under `AliasPolicy.copy` comes to what it comes to under
`AliasPolicy.reject`, unless that fails for want of a view; and it never fails for that itself.

* The policies take the same steps until a reshape lacks a view (`resolve_copy_eq`), and there
  `reject` fails.  So a run under `reject` that does not lack a view is the run under `copy`
  (`compileFrom_copy_eq`).
* Where a view is wanting, one copy mends it (`exists_retry`), so that no run under `copy` lacks a
  view (`lacksView_compileFrom_copy`).
-/

namespace Strided

/-- Whether the error is that a reshape could not view its input. -/
def ProgramError.isAliasing : ProgramError → Bool
  | .instruction _ _ source => source.isAliasing
  | _ => false

/-- Whether something failed for want of a view. -/
def lacksView {α : Type} : Except ProgramError α → Bool
  | .ok _ => false
  | .error error => error.isAliasing

/-- What does not lack a view either goes through or fails with another kind of error. -/
theorem lacksView_eq_false_iff {α : Type} {outcome : Except ProgramError α} :
    lacksView outcome = false ↔ ∀ error, outcome = .error error → error.isAliasing = false := by
  cases outcome with
  | ok value => simp [lacksView]
  | error error => simp [lacksView]

/-- Under `reject` every instruction of the source is compiled to one. -/
theorem Compiles.length_entries_of_reject {source : List Instruction}
    {entries : List CompiledInstruction} {places : List Nat}
    (h : Compiles .reject source entries places) : entries.length = source.length := by
  induction h with
  | nil => rfl
  | param _ _ _ ih => simp [ih]
  | apply _ _ _ _ ih => simp [ih]
  | copied _ hpolicy => cases hpolicy

namespace Compilation

variable {outer : List Nat} {c : Compilation} {index : Nat}

/-! ## 1. Until a view is wanting

Each lemma has the same form: if a step under `reject` does not lack a view, then it is the step
under `copy`, with the same compilation afterwards.  It speaks of steps that fail, too. -/

/-- The policies differ only where a view is wanting. -/
theorem resolve_copy_eq {op : Operator} {operands : List Nat}
    (h : lacksView (c.resolve .reject index op operands).2 = false) :
    c.resolve .copy index op operands = c.resolve .reject index op operands := by
  rw [resolve] at h
  rw [resolve, resolve]
  cases hshape : op.outputShape (c.shapes operands) with
  | ok shape => rfl
  | error error =>
    have hother : error.isAliasing = false := by
      simpa [hshape, lacksView, ProgramError.isAliasing] using h
    simp [hother]

/-- So they agree on an instruction that does not lack one. -/
theorem compileInstruction_copy_eq {instruction : Instruction}
    (h : lacksView (c.compileInstruction .reject outer index instruction).2 = false) :
    c.compileInstruction .copy outer index instruction
      = c.compileInstruction .reject outer index instruction := by
  cases instruction with
  | param name shape => rfl
  | apply op inputs =>
    rw [compileInstruction] at h
    rw [compileInstruction, compileInstruction]
    cases hplaces : c.placeAll index inputs with
    | error error => rfl
    | ok operands =>
      have hresolve : lacksView (c.resolve .reject index op operands).2 = false := by
        cases hfound : c.resolve .reject index op operands with
        | mk d outcome =>
          cases outcome with
          | ok found => rfl
          | error error => simpa [hplaces, hfound, lacksView] using h
      simp only [resolve_copy_eq hresolve]

/-- **A run under `reject` that does not lack a view is the run under `copy`.** -/
theorem compileFrom_copy_eq {rest : List Instruction}
    (h : lacksView (c.compileFrom .reject outer index rest).2 = false) :
    c.compileFrom .copy outer index rest = c.compileFrom .reject outer index rest := by
  induction rest generalizing c index with
  | nil => rfl
  | cons instruction rest ih =>
    rw [compileFrom] at h
    rw [compileFrom, compileFrom]
    have hfirst : lacksView (c.compileInstruction .reject outer index instruction).2 = false := by
      cases hfound : c.compileInstruction .reject outer index instruction with
      | mk d outcome =>
        cases outcome with
        | ok found => rfl
        | error error => simpa [hfound] using h
    rw [compileInstruction_copy_eq hfirst]
    cases hfound : c.compileInstruction .reject outer index instruction with
    | mk d outcome =>
      cases outcome with
      | error error => rfl
      | ok found => exact ih (by simpa [hfound] using h)

/-- They agree on a whole program, whose outputs are placed alike. -/
theorem compileProgram_copy_eq {pool : Pool} {program : Program}
    (h : lacksView (compileProgram .reject outer pool program).2 = false) :
    compileProgram .copy outer pool program = compileProgram .reject outer pool program := by
  rw [compileProgram] at h
  rw [compileProgram, compileProgram]
  by_cases hempty : program.instructions = []
  · simp only [if_pos hempty]
  · have hrun : lacksView ((start pool).compileFrom .reject outer 0 program.instructions).2
        = false := by
      cases hfound : (start pool).compileFrom .reject outer 0 program.instructions with
      | mk d outcome =>
        cases outcome with
        | ok found => rfl
        | error error => simpa [hempty, hfound, lacksView] using h
    simp only [compileFrom_copy_eq hrun]

/-! ## 2. A copy mends it

The operand of a reshape that lacks a view is static, so the copy of it is in standard layout, and
over that no view is looked for.  The sizes were resolved already, and they depend on the lens
alone. -/

/-- **The second attempt goes through**: where a view was wanting, the operator is accepted with a
copy in place of its operand. -/
theorem exists_retry {op : Operator} {operands : List Nat} {error : OperatorError}
    (hlt : ∀ operand ∈ operands, operand < c.entries.length)
    (herror : op.outputShape (c.shapes operands) = .error error)
    (haliasing : error.isAliasing = true) :
    ∃ operand actual shape, operands = [operand] ∧
      c.insertCopies operands = (c.pushCopy operand actual, [c.entries.length]) ∧
      op.outputShape ((c.pushCopy operand actual).shapes [c.entries.length]) = .ok shape := by
  obtain ⟨dims, operand, actual, rfl, rfl, hat, -, hrefused, hinsert, hcopied⟩ :=
    insertCopies_of_aliasing hlt herror haliasing
  obtain ⟨output, houtput⟩ := Reshape.exists_ofStatic_toStandard hrefused haliasing
  have hone : dims.count (-1) ≤ 1 := by
    -- two entries to be inferred would have been refused for that
    by_contra hmany
    have hshapes : c.shapes [operand] = [.static actual] := Compiles.shapesAt_singleton hat
    rw [hshapes, Operator.outputShape, Operator.reshapeShape] at herror
    obtain rfl : Reshape.fault (.manyInferred (dims.count (-1))) = error := by
      simpa [InputCheck.start, InputCheck.allowDynamic, InputCheck.has, Nat.lt_of_not_le hmany]
        using herror
    exact absurd haliasing Bool.false_ne_true
  refine ⟨operand, actual, .static output, rfl, hinsert, ?_⟩
  rw [hcopied]
  exact Operator.outputShape_eq_ok_iff.mpr (.reshapeStatic hone houtput)

/-- As compilation takes the two attempts: the operator is resolved after one copy, and it would be
resolved again at that copy without another. -/
theorem exists_resolve_copy {op : Operator} {operands : List Nat}
    (hlt : ∀ operand ∈ operands, operand < c.entries.length)
    (hlacks : lacksView (c.resolve .reject index op operands).2 = true) :
    ∃ operand actual shape, operands = [operand] ∧
      c.resolve .copy index op operands
        = (c.pushCopy operand actual, .ok ([c.entries.length], shape)) ∧
      (c.pushCopy operand actual).resolve .copy index op [c.entries.length]
        = (c.pushCopy operand actual, .ok ([c.entries.length], shape)) := by
  rw [resolve] at hlacks
  cases hshape : op.outputShape (c.shapes operands) with
  | ok shape => simp [hshape, lacksView] at hlacks
  | error error =>
    have haliasing : error.isAliasing = true := by
      simpa [hshape, lacksView, ProgramError.isAliasing] using hlacks
    obtain ⟨operand, actual, shape, hoperands, hinsert, hretry⟩ := exists_retry hlt hshape haliasing
    refine ⟨operand, actual, shape, hoperands, ?_, ?_⟩
    · rw [resolve, hshape]
      simp [haliasing, hinsert, hretry]
    · rw [resolve, hretry]

/-- **Under `copy` no view is wanting**: the operands were copied before shapes were settled again,
and a copy can be viewed. -/
theorem lacksView_resolve_copy {op : Operator} {operands : List Nat}
    (hlt : ∀ operand ∈ operands, operand < c.entries.length) :
    lacksView (c.resolve .copy index op operands).2 = false := by
  cases hlacks : lacksView (c.resolve .reject index op operands).2 with
  | false => rw [resolve_copy_eq hlacks, hlacks]
  | true =>
    obtain ⟨operand, actual, shape, -, hresolve, -⟩ := exists_resolve_copy hlt hlacks
    rw [hresolve]
    rfl

/-- An operand that has no place is another kind of error. -/
theorem placeAll_error {inputs : List Nat} {error : ProgramError}
    (h : c.placeAll index inputs = .error error) : error.isAliasing = false := by
  induction inputs with
  | nil => simp [placeAll] at h
  | cons input inputs ih =>
    rw [placeAll] at h
    split at h
    next hplace =>
      obtain rfl := Except.error.inj h
      unfold place at hplace
      split at hplace
      next => simp at hplace
      next => exact Except.error.inj hplace ▸ rfl
    next =>
      split at h
      next hrest => exact ih (hrest.trans h)
      next => simp at h

section Run

variable {source : List Instruction}

/-- So no instruction fails for want of a view. -/
theorem lacksView_compileInstruction_copy {instruction : Instruction}
    (hinv : Compiles .copy source c.entries c.places) :
    lacksView (c.compileInstruction .copy outer index instruction).2 = false := by
  cases instruction with
  | param name shape => rfl
  | apply op inputs =>
    rw [compileInstruction]
    cases hplaces : c.placeAll index inputs with
    | error error => exact placeAll_error hplaces
    | ok operands =>
      have hresolve : lacksView (c.resolve .copy index op operands).2 = false :=
        lacksView_resolve_copy (hinv.operands_lt (placeAll_ok hplaces))
      cases hfound : c.resolve .copy index op operands with
      | mk d outcome =>
        cases outcome with
        | ok found => simp [hfound, lacksView]
        | error error => simpa [hfound, lacksView] using hresolve

/-- **No run under `copy` lacks a view.** -/
theorem lacksView_compileFrom_copy {rest : List Instruction}
    (hinv : Compiles .copy source c.entries c.places) :
    lacksView (c.compileFrom .copy outer index rest).2 = false := by
  induction rest generalizing c source index with
  | nil => rfl
  | cons instruction rest ih =>
    rw [compileFrom]
    have hfirst : lacksView (c.compileInstruction .copy outer index instruction).2 = false :=
      lacksView_compileInstruction_copy hinv
    cases hfound : c.compileInstruction .copy outer index instruction with
    | mk d outcome =>
      cases outcome with
      | error error => simpa [hfound] using hfirst
      | ok found => exact ih (compiles_of_compileInstruction hinv hfound)

end Run

/-- Nor does a program: the run is made of its instructions, and outputs are operands. -/
theorem lacksView_compileProgram_copy {pool : Pool} {program : Program} :
    lacksView (compileProgram .copy outer pool program).2 = false := by
  rw [compileProgram]
  split
  next => rfl
  next =>
    have hstart : Compiles .copy [] (start pool).entries (start pool).places := .nil
    have hrun : lacksView ((start pool).compileFrom .copy outer 0 program.instructions).2 = false :=
      lacksView_compileFrom_copy hstart
    split
    next hfound => simpa [hfound, lacksView] using hrun
    next d hfound =>
      split
      next error herror =>
        rw [results] at herror
        split at herror
        next => simp at herror
        next => exact placeAll_error herror
      next => rfl

end Compilation

/-! ## 3. A whole program

What `copy` makes of a program that fails under `reject` for want of a view is not said here; see
`Program.compile_mirrors`. -/

section Program

open Compilation

variable {held : List Nat} {pool : Pool} {program : Program}

/-- **Where compilation under `reject` does not lack a view, `copy` gives the same**: the same
program and the same pool. -/
theorem Program.compile_copy_eq
    (h : lacksView (program.compile .reject held pool).result = false) :
    program.compile .copy held pool = program.compile .reject held pool := by
  rw [Program.compile_result] at h
  rw [Program.compile, Program.compile, compileProgram_copy_eq h]

/-- **Inserting copies only helps.**  For every program:

* if it compiles under `reject`, then under `copy` the outcome is the same, with the same
  instructions, shapes, aliases and results, and no copy was inserted;
* if it fails under `reject`, but not for want of a view, then under `copy` the outcome is the same,
  with the same error at the same instruction;
* it never fails under `copy` for want of a view, because wherever compilation stands when a view is
  wanting, the operator is resolved with one copy in place of its operand, and resolving it again at
  that copy asks for no other. -/
theorem Program.compile_copy_extends (held : List Nat) (pool : Pool) (program : Program) :
    (∀ compiled, (program.compile .reject held pool).result = .ok compiled →
      program.compile .copy held pool = program.compile .reject held pool ∧
        compiled.size = program.size) ∧
    (∀ error, (program.compile .reject held pool).result = .error error →
      error.isAliasing = false →
        program.compile .copy held pool = program.compile .reject held pool) ∧
    (∀ error, (program.compile .copy held pool).result = .error error → error.isAliasing = false) ∧
    ∀ source c, source <+: program.instructions →
      (start pool).compileFrom .copy held 0 source = (c, .ok ()) →
        ∀ (index : Nat) (op : Operator) (inputs operands : List Nat),
          c.placeAll index inputs = .ok operands →
          lacksView (c.resolve .reject index op operands).2 = true →
            ∃ operand actual shape, operands = [operand] ∧
              c.resolve .copy index op operands
                = (c.pushCopy operand actual, .ok ([c.entries.length], shape)) ∧
              (c.pushCopy operand actual).resolve .copy index op [c.entries.length]
                = (c.pushCopy operand actual, .ok ([c.entries.length], shape)) := by
  refine ⟨fun compiled hcompile => ⟨?_, ?_⟩, fun error herror hother => ?_, ?_,
    fun source c _ hrun index op inputs operands hplaces hlacks => ?_⟩
  · exact Program.compile_copy_eq (by rw [hcompile]; rfl)
  · obtain ⟨c, hc⟩ := Program.compile_result_eq_ok hcompile
    exact (compiles_of_compileProgram hc).1.length_entries_of_reject
  · exact Program.compile_copy_eq (by rw [herror]; exact hother)
  · rw [Program.compile_result, ← lacksView_eq_false_iff]
    exact lacksView_compileProgram_copy
  · have hstart : Compiles .copy [] (start pool).entries (start pool).places := .nil
    have hcompiles := compiles_of_compileFrom hstart hrun
    exact exists_resolve_copy (hcompiles.operands_lt (placeAll_ok hplaces)) hlacks

/-- A parameter that is reshaped. -/
def reshaping (shape : StaticShape) (dims : List Int) : Program :=
  ⟨[.param "x" (.static shape), .apply (.reshape dims) [0]], []⟩

/-- A transposed layout cannot be flattened without a copy. -/
def transposed : StaticShape :=
  ⟨.float32, [3, 2], [1, 3], rfl⟩

/-- Where compilation stands before the reshape. -/
def beforeReshape : Compilation :=
  (Compilation.start .empty).push ⟨.param "x" (.static transposed), .static transposed, none⟩

/-- What compiles, what has too few elements, and what a copy mends. -/
theorem reshaping_copy_extends :
    ((reshaping (.standard .float32 [3, 2]) [6]).compile .copy [] .empty
      = (reshaping (.standard .float32 [3, 2]) [6]).compile .reject [] .empty) ∧
    ((reshaping transposed [5]).compile .copy [] .empty
      = (reshaping transposed [5]).compile .reject [] .empty) ∧
    ((reshaping transposed [6]).compile .reject [] .empty).result
      = .error (.instruction 1 "reshape[dims={6}]"
          (.aliasing "reshape" transposed [6] (.squeezeConsumesAll 0 1 6))) ∧
    ∃ operand actual shape, [0] = [operand] ∧
      beforeReshape.resolve .copy 1 (.reshape [6]) [0]
        = (beforeReshape.pushCopy operand actual, .ok ([1], shape)) ∧
      (beforeReshape.pushCopy operand actual).resolve .copy 1 (.reshape [6]) [1]
        = (beforeReshape.pushCopy operand actual, .ok ([1], shape)) := by
  have hviewed : ((reshaping (.standard .float32 [3, 2]) [6]).compile .reject [] .empty).result
      = .ok ⟨[⟨.param "x" (.static (.standard .float32 [3, 2])),
            .static (.standard .float32 [3, 2]), none⟩,
          ⟨.apply (.reshape [6]) [0], .static (.standard .float32 [6]), none⟩], [1]⟩ := by
    decide +kernel
  have hfew : ((reshaping transposed [5]).compile .reject [] .empty).result
      = .error (.instruction 1 "reshape[dims={5}]" (.shapeMismatch "reshape" .elements 6 5)) := by
    decide +kernel
  have hrefused : ((reshaping transposed [6]).compile .reject [] .empty).result
      = .error (.instruction 1 "reshape[dims={6}]"
          (.aliasing "reshape" transposed [6] (.squeezeConsumesAll 0 1 6))) := by
    decide +kernel
  refine ⟨((Program.compile_copy_extends [] .empty _).1 _ hviewed).1,
    (Program.compile_copy_extends [] .empty _).2.1 _ hfew rfl, hrefused, ?_⟩
  exact (Program.compile_copy_extends [] .empty (reshaping transposed [6])).2.2.2
    [.param "x" (.static transposed)] beforeReshape ⟨[_], rfl⟩ rfl 1 (.reshape [6]) [0] [0] rfl
    (by decide +kernel)

end Program

end Strided
