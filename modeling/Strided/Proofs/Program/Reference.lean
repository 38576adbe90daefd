import Strided.Number.Series
import Strided.Proofs.Program.Structure
import Strided.Proofs.Program.WellFormed
/-!
# References of a program

`Program.compile_wellTyped`: what a program refers to is settled when it is compiled.

* In a compiled program every instruction refers to instructions before it, and what is recorded for
  it is what its operator says of the shapes recorded for these (`CompiledProgram.WellTyped`).  So
  an evaluation finds all values it asks for, and every output has a shape.
* A program is refused for a reference exactly if there is one to something not before it and
  nothing else is refused earlier (`Program.Undefined`).

For the first part an instruction has to be typed by the shapes of all instructions, and `Follows`
types it by those before it; the two agree since operands are among these (`forall₂_shape?`).  Why
an instruction fails when it is evaluated is listed once (`CompiledProgram.Faults`).  For the second
part a compilation is cut at the instruction that fails (`Compilation.compileFrom_error_iff`).
-/

namespace Strided

/-! ## 1. Compiled programs are well typed

An instruction is typed by the shapes of all instructions.  A program is built up from the front,
where only those before it are there, and they are enough because its operands are among them. -/

/-- **The instruction at `p` is typed** by the shapes recorded for the operands it has. -/
inductive CompiledProgram.TypedAt (compiled : CompiledProgram) (p : Nat) :
    CompiledInstruction → Prop
  | param (name : String) (shape : Shape) : compiled.TypedAt p ⟨.param name shape, shape, none⟩
  | apply {op : Operator} {operands : List Nat} {shapes : List Shape} {shape : Shape}
      (hlt : ∀ operand ∈ operands, operand < p)
      (hshapes : List.Forall₂ (fun operand shape => compiled.shape? operand = some shape)
        operands shapes)
      (hshape : op.outputShape shapes = .ok shape) (hfinalized : op.isFinalized = true) :
      compiled.TypedAt p ⟨.apply op operands, shape, op.outputAlias shapes⟩

/-- **A compiled program is well typed**, inserted copies included. -/
structure CompiledProgram.WellTyped (compiled : CompiledProgram) : Prop where
  typed : ∀ (p : Nat) (entry : CompiledInstruction), compiled.instructions[p]? = some entry →
    compiled.TypedAt p entry
  outputs_lt : ∀ output ∈ compiled.outputs, output < compiled.size

/-- Whether the instruction's operator, if it has one, is finalized. -/
def Instruction.isFinalized : Instruction → Bool
  | .param .. => true
  | .apply op _ => op.isFinalized

/-- Every compiled instruction has its descriptor. -/
theorem Compiles.isFinalized {policy : AliasPolicy} {source : List Instruction}
    {entries : List CompiledInstruction} {places : List Nat}
    (h : Compiles policy source entries places) :
    ∀ entry ∈ entries, entry.instruction.isFinalized = true := by
  induction h with
  | nil => exact List.forall_mem_nil _
  | param _ _ _ ih => exact List.forall_mem_append.mpr ⟨ih, List.forall_mem_singleton.mpr rfl⟩
  | apply _ _ _ hfinal ih =>
    exact List.forall_mem_append.mpr ⟨ih, List.forall_mem_singleton.mpr hfinal.finalized⟩
  | copied _ _ _ _ _ _ _ _ ih =>
    refine List.forall_mem_append.mpr ⟨ih, List.forall_mem_cons.mpr ⟨rfl, ?_⟩⟩
    exact List.forall_mem_singleton.mpr rfl

/-- The shapes before an instruction are those of the whole program. -/
theorem forall₂_shape? {compiled : CompiledProgram} {before : List CompiledInstruction}
    (hbefore : before <+: compiled.instructions) {operands : List Nat}
    (hlt : ∀ operand ∈ operands, operand < before.length) :
    List.Forall₂ (fun operand shape => compiled.shape? operand = some shape) operands
      (shapesAt before operands) := by
  induction operands with
  | nil => exact .nil
  | cons operand operands ih =>
    obtain ⟨hhead, htail⟩ := List.forall_mem_cons.mp hlt
    have hentry := List.getElem?_eq_getElem hhead
    rw [shapesAt, List.filterMap_cons_some (by rw [hentry]; rfl)]
    refine .cons ?_ (ih htail)
    rw [CompiledProgram.shape?, getElem?_of_isPrefix hbefore hentry]
    rfl

/-- At every index the entry follows what stands before it. -/
theorem WellFormed.follows_take {entries : List CompiledInstruction} (h : WellFormed entries)
    {p : Nat}
    (hlt : p < entries.length) : Follows (entries.take p) entries[p] := by
  refine h _ _ ?_
  rw [List.take_append_getElem]
  exact List.take_prefix (p + 1) entries

/-- **Whatever compiles is well typed.** -/
theorem Program.typed_of_compile {policy : AliasPolicy} {held : List Nat} {pool : Pool}
    {program : Program} {compiled : CompiledProgram}
    (h : (program.compile policy held pool).result = .ok compiled) : compiled.WellTyped := by
  obtain ⟨hwell, houtputs⟩ := Program.wellFormed_of_compile h
  obtain ⟨c, hc⟩ := Program.compile_result_eq_ok h
  have hcompiles := (Compilation.compiles_of_compileProgram hc).1
  refine ⟨fun p entry hentry => ?_, houtputs⟩
  obtain ⟨hlt, rfl⟩ := List.getElem?_eq_some_iff.mp hentry
  have hfollows := hwell.follows_take hlt
  have hfinal := hcompiles.isFinalized _ (List.getElem_mem hlt)
  have hbefore : compiled.instructions.take p <+: compiled.instructions := List.take_prefix p _
  have hlength : (compiled.instructions.take p).length = p := List.length_take_of_le hlt.le
  generalize compiled.instructions[p] = entry at hfollows hfinal
  cases hfollows with
  | param name shape => exact .param name shape
  | apply hoperands hresolves =>
    exact .apply (hlength ▸ hoperands) (forall₂_shape? hbefore hoperands)
      (Operator.outputShape_eq_ok_iff.mpr hresolves) hfinal

/-! ## 2. Why an evaluation fails

`Faults` lists the errors of an evaluation with what each of them needs.  An unknown instruction
would need an operand that is not before its instruction. -/

namespace CompiledProgram

variable {values : List Argument} {index : Nat} {error : ProgramError}

/-- Operands can only fail to be fetched by having no value yet. -/
theorem fetch_error {ids : List Nat} (h : fetch values index ids = .error error) :
    ∃ id ∈ ids, values[id]? = none ∧ error = .unknownInstruction index id := by
  induction ids with
  | nil => simp [fetch] at h
  | cons id ids ih =>
    rw [fetch] at h
    split at h
    next hnone => exact ⟨id, List.mem_cons_self, hnone, (Except.error.inj h).symm⟩
    next =>
      split at h
      next hrest =>
        obtain rfl := Except.error.inj h
        obtain ⟨id', hmem, hnone, herror⟩ := ih hrest
        exact ⟨id', List.mem_cons_of_mem id hmem, hnone, herror⟩
      next => simp at h

/-- **Why an instruction fails.** -/
inductive Faults (validate : Bool) (values : List Argument) (index : Nat)
    (entry : CompiledInstruction) : ProgramError → Prop
  | missing (name : String) : Faults validate values index entry (.missingParameter name)
  | bound (name : String) (expected : Shape) (actual : StaticShape) :
      Faults validate values index entry (.parameterShape name expected actual)
  | unknown {input : Nat} (hoperand : input ∈ entry.instruction.operands)
      (hnone : values[input]? = none) :
      Faults validate values index entry (.unknownInstruction index input)
  | refused (op : Operator) (source : OperatorError) :
      Faults validate values index entry (.instruction index op.render source)
  | checked {expected actual : StaticShape} (hvalidate : validate = true)
      (hne : actual ≠ expected) :
      Faults validate values index entry (.outputShape index expected actual)

/-- **The step**: an instruction that fails does so with a fault of its own. -/
theorem faults_of_evalInstruction [Exponential] {validate : Bool} {bindings : Bindings}
    {entry : CompiledInstruction} {store : Store}
    (h : (evalInstruction validate bindings values index entry store).2 = .error error) :
    Faults validate values index entry error := by
  obtain ⟨instruction, shape, aliasOf⟩ := entry
  cases instruction with
  | param name declared =>
    simp only [evalInstruction, bind] at h
    split at h
    next =>
      obtain rfl := Except.error.inj h
      exact .missing name
    next =>
      split at h
      next => simp at h
      next =>
        obtain rfl := Except.error.inj h
        exact .bound name declared _
  | apply op inputs =>
    simp only [evalInstruction] at h
    split at h
    next hargs =>
      obtain rfl := Except.error.inj h
      obtain ⟨id, hmem, hnone, rfl⟩ := fetch_error hargs
      exact .unknown hmem hnone
    next =>
      -- a call is settled, then computed, then checked
      unfold applyOperator at h
      split at h
      next source _ =>
        obtain rfl := Except.error.inj h
        exact .refused op source
      next =>
        split at h
        next source _ =>
          obtain rfl := Except.error.inj h
          exact .refused op source
        next =>
          split at h
          next hcheck =>
            obtain rfl := Except.error.inj h
            obtain ⟨hvalidate, hne⟩ := Bool.and_eq_true_iff.mp hcheck
            exact .checked hvalidate (bne_iff_ne.mp hne)
          next => simp at h

end CompiledProgram

/-- An instruction that follows others has its operands among them. -/
theorem Follows.operands_lt {before : List CompiledInstruction} {entry : CompiledInstruction}
    (h : Follows before entry) :
    ∀ operand ∈ entry.instruction.operands, operand < before.length := by
  cases h with
  | param name shape => exact List.forall_mem_nil _
  | apply hlt _ => exact hlt

/-- **An evaluation finds every value it asks for.** -/
theorem CompiledProgram.eval_ne_unknownInstruction [Exponential] {compiled : CompiledProgram}
    (hwell : WellFormed compiled.instructions)
    (houtputs : ∀ output ∈ compiled.outputs, output < compiled.size) (options : Options)
    (bindings : Bindings) (store : Store) (index input : Nat) :
    (compiled.eval options bindings store).2 ≠ .error (.unknownInstruction index input) := by
  intro herror
  obtain ⟨executed, entry, values, now, hentries, hexecutes, hfails⟩ :=
    executes_of_eval_error houtputs (Prod.ext rfl herror)
  have hlength := length_evalFrom hexecutes.run
  rw [List.length_nil, Nat.zero_add] at hlength
  cases faults_of_evalInstruction (congrArg Prod.snd hfails) with
  | unknown hoperand hnone =>
    have hlt := (hwell _ _ hentries).operands_lt input hoperand
    exact absurd (List.getElem?_eq_none_iff.mp hnone) (Nat.not_le.mpr (hlength ▸ hlt))

/-! ## 3. References that are not defined

A compilation is cut into the instructions before the one that fails, which are compiled, and that
one.  The error has the index of the instruction that refers, and the results are looked at after
all instructions, with the number of these as the index. -/

namespace Compilation

variable {policy : AliasPolicy} {outer : List Nat} {source : List Instruction}
  {c c' : Compilation} {index : Nat}

/-- Operands are refused for the first that is not compiled yet. -/
theorem placeAll_error_iff {inputs : List Nat} {error : ProgramError} :
    c.placeAll index inputs = .error error
      ↔ ∃ input, inputs.find? (c.places.length ≤ ·) = some input ∧
          error = .unknownInstruction index input := by
  induction inputs with
  | nil => simp [placeAll]
  | cons input inputs ih =>
    rw [placeAll, place]
    rcases Nat.lt_or_ge input c.places.length with hlt | hge
    · rw [List.getElem?_eq_getElem hlt, List.find?_cons_of_neg (by simpa using hlt), ← ih]
      cases hrest : c.placeAll index inputs with
      | error found => simp
      | ok operands => simp
    · rw [List.getElem?_eq_none hge, List.find?_cons_of_pos (by simpa using hge)]
      simp [eq_comm]

/-- A shape that is not settled is the error of its operator, under either policy. -/
theorem resolve_error {op : Operator} {operands : List Nat} {error : ProgramError}
    (h : c.resolve policy index op operands = (c', .error error)) :
    ∃ source, error = .instruction index op.render source := by
  rw [resolve] at h
  split at h
  next => simp at h
  next found _ =>
    split at h
    next =>
      dsimp only at h
      split at h
      next => simp at h
      next refusal _ => exact ⟨refusal, (Except.error.inj (Prod.mk.inj h).2).symm⟩
    next => exact ⟨found, (Except.error.inj (Prod.mk.inj h).2).symm⟩

/-- An instruction is refused for a reference exactly if an operand is not compiled yet. -/
theorem compileInstruction_unknown_iff {instruction : Instruction} {at' input : Nat} :
    (c.compileInstruction policy outer index instruction).2
        = .error (.unknownInstruction at' input)
      ↔ at' = index ∧ instruction.operands.find? (c.places.length ≤ ·) = some input := by
  cases instruction with
  | param name shape => simp [compileInstruction, Instruction.operands]
  | apply op inputs =>
    rw [compileInstruction, Instruction.operands]
    cases hplaces : c.placeAll index inputs with
    | error error =>
      obtain ⟨found, hfound, rfl⟩ := placeAll_error_iff.mp hplaces
      simp [hfound, eq_comm]
    | ok operands =>
      have hnone : inputs.find? (c.places.length ≤ ·) = none := by
        cases hfind : inputs.find? (c.places.length ≤ ·) with
        | none => rfl
        | some found => simp [placeAll_error_iff.mpr ⟨found, hfind, rfl⟩] at hplaces
      rw [hnone]
      cases hresolve : c.resolve policy index op operands with
      | mk d outcome =>
        cases outcome with
        | error error =>
          obtain ⟨refusal, rfl⟩ := resolve_error hresolve
          simp [hresolve]
        | ok found => simp [hresolve]

/-- A compilation in two parts: the second starts from what the first has left, unless the first
fails. -/
theorem compileFrom_append (first second : List Instruction) :
    c.compileFrom policy outer index (first ++ second)
      = match c.compileFrom policy outer index first with
        | (d, .error error) => (d, .error error)
        | (d, .ok ()) => d.compileFrom policy outer (index + first.length) second := by
  induction first generalizing c index with
  | nil => rfl
  | cons instruction first ih =>
    rw [List.cons_append, compileFrom, compileFrom]
    cases c.compileInstruction policy outer index instruction with
    | mk d outcome =>
      cases outcome with
      | error error => rfl
      | ok done =>
        simp only [ih, List.length_cons]
        rw [Nat.add_assoc, Nat.add_comm 1]

/-- **A compilation that fails is cut** at the instruction that fails: those before it compile. -/
theorem compileFrom_error_iff {instructions : List Instruction} {error : ProgramError} :
    (c.compileFrom policy outer index instructions).2 = .error error
      ↔ ∃ before instruction rest d, instructions = before ++ instruction :: rest ∧
          c.compileFrom policy outer index before = (d, .ok ()) ∧
          (d.compileInstruction policy outer (index + before.length) instruction).2
            = .error error := by
  constructor
  · intro h
    induction instructions generalizing c index with
    | nil => simp [compileFrom] at h
    | cons instruction instructions ih =>
      rw [compileFrom] at h
      cases hfirst : c.compileInstruction policy outer index instruction with
      | mk d outcome =>
        rw [hfirst] at h
        cases outcome with
        -- the first instruction fails, or one of the others does after it
        | error found => exact ⟨[], instruction, instructions, c, rfl, rfl, hfirst ▸ h⟩
        | ok done =>
          obtain ⟨before, failing, rest, e, rfl, hbefore, hfailing⟩ := ih h
          refine ⟨instruction :: before, failing, rest, e, rfl, ?_, ?_⟩
          · rw [compileFrom, hfirst]
            exact hbefore
          · rwa [List.length_cons, Nat.add_comm before.length, ← Nat.add_assoc]
  · rintro ⟨before, failing, rest, d, rfl, hbefore, hfailing⟩
    rw [compileFrom_append, hbefore]
    simp only [compileFrom]
    cases hfound : d.compileInstruction policy outer (index + before.length) failing with
    | mk e outcome =>
      rw [hfound] at hfailing
      obtain rfl : outcome = .error error := hfailing
      rfl

end Compilation

/-- **A reference that is not defined**, as compilation comes upon it.  All instructions before
`index` compile; there, `input` is the first operand that is not before it.  The outputs are looked
at last, as if they were the operands of one more instruction. -/
inductive Program.Undefined (policy : AliasPolicy) (held : List Nat) (pool : Pool)
    (program : Program) : Nat → Nat → Prop
  | operand {before rest : List Instruction} {instruction : Instruction} {c : Compilation}
      {input : Nat} (hprogram : program.instructions = before ++ instruction :: rest)
      (hbefore : (Compilation.start pool).compileFrom policy held 0 before = (c, .ok ()))
      (hinput : instruction.operands.find? (before.length ≤ ·) = some input) :
      program.Undefined policy held pool before.length input
  | output {c : Compilation} {input : Nat} (hne : program.instructions ≠ [])
      (hall : (Compilation.start pool).compileFrom policy held 0 program.instructions
        = (c, .ok ()))
      (hinput : program.outputs.find? (program.size ≤ ·) = some input) :
      program.Undefined policy held pool program.size input

namespace Compilation

variable {policy : AliasPolicy} {held : List Nat} {pool : Pool} {c : Compilation}

/-- There are as many places as instructions were compiled. -/
theorem length_places_of_compileFrom {instructions : List Instruction}
    (h : (start pool).compileFrom policy held 0 instructions = (c, .ok ())) :
    c.places.length = instructions.length := by
  have hstart : Compiles policy [] (start pool).entries (start pool).places := .nil
  exact (compiles_of_compileFrom hstart h).length_places

/-- The outputs are refused for the first that is not an instruction. -/
theorem results_error_iff {program : Program} {error : ProgramError}
    (hlength : c.places.length = program.size) :
    c.results program = .error error
      ↔ ∃ input, program.outputs.find? (program.size ≤ ·) = some input ∧
          error = .unknownInstruction program.size input := by
  rw [results]
  split
  next hnone => simp [hnone]
  next => rw [placeAll_error_iff, hlength]

/-- An unknown instruction that is reported is one that the program refers to and does not have
there. -/
theorem undefined_of_compileProgram {program : Program} {index input : Nat}
    (h : (compileProgram policy held pool program).2 = .error (.unknownInstruction index input)) :
    program.Undefined policy held pool index input := by
  rw [compileProgram] at h
  split at h
  next => simp at h
  next hne =>
    split at h
    next c error hrun =>
      obtain rfl := Except.error.inj h
      obtain ⟨before, instruction, rest, d, hprogram, hbefore, hfails⟩ :=
        compileFrom_error_iff.mp (congrArg Prod.snd hrun)
      obtain ⟨rfl, hinput⟩ := compileInstruction_unknown_iff.mp hfails
      rw [length_places_of_compileFrom hbefore] at hinput
      rw [Nat.zero_add]
      exact .operand hprogram hbefore hinput
    next c hrun =>
      split at h
      next error herror =>
        obtain rfl := Except.error.inj h
        obtain ⟨found, hinput, herror⟩ :=
          (results_error_iff (length_places_of_compileFrom hrun)).mp herror
        obtain ⟨rfl, rfl⟩ := ProgramError.unknownInstruction.inj herror
        exact .output hne hrun hinput
      next => simp at h

/-- The first such reference is reported, whatever follows it. -/
theorem compileProgram_of_undefined {program : Program} {index input : Nat}
    (h : program.Undefined policy held pool index input) :
    (compileProgram policy held pool program).2 = .error (.unknownInstruction index input) := by
  cases h with
  | @operand before rest instruction c input hprogram hbefore hinput =>
    have hne : program.instructions ≠ [] := by simp [hprogram]
    rw [← length_places_of_compileFrom hbefore] at hinput
    have hfails := compileFrom_error_iff.mpr ⟨before, instruction, rest, c, hprogram, hbefore,
      compileInstruction_unknown_iff.mpr ⟨rfl, hinput⟩⟩
    rw [compileProgram, if_neg hne]
    cases hrun : (start pool).compileFrom policy held 0 program.instructions with
    | mk d outcome =>
      rw [hrun] at hfails
      obtain rfl : outcome = .error _ := hfails
      rw [Nat.zero_add]
  | output hne hall hinput =>
    have herror := (results_error_iff (length_places_of_compileFrom hall)).mpr ⟨_, hinput, rfl⟩
    rw [compileProgram, if_neg hne]
    simp only [hall, herror]

end Compilation

/-! ## 4. The whole of it

Both parts are about the outcome of a compilation, whichever policy it was under. -/

/-- **References are settled at compile time.**  Whatever compiles is well typed, so that no
evaluation lacks a value and every output has a shape; and what is refused for a reference is what
has one that is not defined. -/
theorem Program.compile_wellTyped [Exponential] (policy : AliasPolicy) (held : List Nat)
    (pool : Pool) (program : Program) :
    (∀ compiled, (program.compile policy held pool).result = .ok compiled →
      compiled.WellTyped ∧
      (∀ options bindings store index input,
        (compiled.eval options bindings store).2 ≠ .error (.unknownInstruction index input)) ∧
      List.Forall₂ (fun output shape => compiled.shape? output = some shape) compiled.outputs
        compiled.outputShapes) ∧
    ∀ index input,
      (program.compile policy held pool).result = .error (.unknownInstruction index input)
        ↔ program.Undefined policy held pool index input := by
  refine ⟨fun compiled hcompile => ⟨Program.typed_of_compile hcompile, ?_, ?_⟩, ?_⟩
  · intro options bindings store index input
    obtain ⟨hwell, houtputs⟩ := Program.wellFormed_of_compile hcompile
    exact compiled.eval_ne_unknownInstruction hwell houtputs options bindings store index input
  · exact forall₂_shape? (List.prefix_refl _) (Program.wellFormed_of_compile hcompile).2
  · intro index input
    rw [Program.compile_result]
    exact ⟨Compilation.undefined_of_compileProgram, Compilation.compileProgram_of_undefined⟩

/-- The second operand of the activation is itself, and the third is not there. -/
def dangling : Program :=
  ⟨[.param "x" (.static (.standard .float32 [6])),
    .apply (.elu ⟨.ofPattern 0x3ff0000000000000, none⟩) [0, 1, 7]], [9]⟩

/-- A program with copies in it, and one that is refused for the first thing wrong with it. -/
theorem twiceCopied_wellTyped :
    (twiceCopied.compile .copy [] .empty).result = .ok twiceCopiedCompiled ∧
      twiceCopiedCompiled.WellTyped ∧
      (dangling.compile .copy [] .empty).result = .error (.unknownInstruction 1 1) ∧
      dangling.Undefined .copy [] .empty 1 1 := by
  have hdangling : (dangling.compile .copy [] .empty).result
      = .error (.unknownInstruction 1 1) := by
    decide +kernel
  exact ⟨twiceCopied_compile,
    ((Program.compile_wellTyped .copy [] .empty twiceCopied).1 _ twiceCopied_compile).1,
    hdangling, ((Program.compile_wellTyped .copy [] .empty dangling).2 1 1).mp hdangling⟩

end Strided
