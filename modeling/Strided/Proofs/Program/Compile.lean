import Mathlib.Data.List.Forall2
import Strided.Program.Compile
import Strided.Proofs.Activation.Pool
import Strided.Proofs.Operator
import Strided.Proofs.Operator.Aliasing
/-!
# What compilation yields

`Compiles` relates source instructions to the compiled ones and to the places the source
instructions went, one instruction after the other.  There are three ways to go on: a parameter is
taken over, an operator is taken over with its operands renumbered, and a reshape that cannot view
its operand is applied to a copy inserted just before it.

`Compilation.compiles_of_compileProgram` says that every compiled program comes about in this way.
What is true of all compiled programs is then shown by induction on `Compiles`.
-/

namespace Strided

/-! ## 1. Operators that are finalized

Finalizing an activation gives it a descriptor.  It changes nothing that shapes or values depend
on. -/

namespace Operator

/-- The operator by its attributes alone. -/
def unfinalized : Operator → Operator
  | .elu unit => .elu { unit with descriptor := none }
  | op => op

/-- The second operator is the first with a descriptor of its own activation. -/
structure Finalizes (op op' : Operator) : Prop where
  faithful : op'.Faithful
  finalized : op'.isFinalized = true
  unfinalized_eq : op'.unfinalized = op.unfinalized
  outputShape_eq : ∀ inputs, op'.outputShape inputs = op.outputShape inputs
  overwrites_eq : op'.overwrites = op.overwrites
  outputAlias_eq : ∀ inputs, op'.outputAlias inputs = op.outputAlias inputs

/-- An operator keeps its resolved shapes when its descriptor is put in. -/
theorem Finalizes.resolves {op op' : Operator} (h : op.Finalizes op') {shapes : List Shape}
    {shape : Shape} (hresolves : Resolves op shapes shape) : Resolves op' shapes shape := by
  rw [← outputShape_eq_ok_iff, h.outputShape_eq]
  exact outputShape_eq_ok_iff.mpr hresolves

/-- The image is a matter of the attributes alone. -/
theorem image_unfinalized [Exponential] (op : Operator) (x : Content) :
    op.unfinalized.image x = op.image x := by
  cases op <;> rfl

/-- Its meaning stays the same as well. -/
theorem Finalizes.image_eq [Exponential] {op op' : Operator} (h : op.Finalizes op') (x : Content) :
    op'.image x = op.image x := by
  rw [← image_unfinalized, h.unfinalized_eq, image_unfinalized]

/-- What the pool gives back is the operator, with a descriptor or without. -/
theorem finalizes_finalize (pool : Pool) (held : List Nat) (op : Operator) :
    op.Finalizes (op.finalize pool held).1 := by
  cases op with
  | reshape dims => exact ⟨trivial, rfl, rfl, fun _ => rfl, rfl, fun _ => rfl⟩
  | contiguous => exact ⟨trivial, rfl, rfl, fun _ => rfl, rfl, fun _ => rfl⟩
  | elu unit =>
    refine ⟨?_, rfl, rfl, fun _ => rfl, rfl, fun _ => rfl⟩
    intro descriptor hdescriptor
    obtain rfl := Option.some.inj hdescriptor
    exact Pool.activation_request pool held unit.activation

end Operator

/-! ## 2. The relation

Compilation carries events, a pool and an index for its errors.  None of them decides what the
compiled program is, and the relation has none.  Each constructor adds one source instruction at the
end, as compilation does, so an induction on it is one along the program. -/

/-- The shapes of the compiled instructions at the given positions. -/
def shapesAt (entries : List CompiledInstruction) (operands : List Nat) : List Shape :=
  operands.filterMap fun id => entries[id]?.map CompiledInstruction.shape

/-- **How a program is compiled**, one source instruction after the other: the source so far, the
compiled instructions, and the place of each source instruction among them. -/
inductive Compiles (policy : AliasPolicy) :
    List Instruction → List CompiledInstruction → List Nat → Prop
  | nil : Compiles policy [] [] []
  | param {source : List Instruction} {entries : List CompiledInstruction} {places : List Nat}
      (h : Compiles policy source entries places) (name : String) (shape : Shape) :
      Compiles policy (source ++ [.param name shape])
        (entries ++ [⟨.param name shape, shape, none⟩]) (places ++ [entries.length])
  | apply {source : List Instruction} {entries : List CompiledInstruction} {places : List Nat}
      (h : Compiles policy source entries places) {op op' : Operator} {inputs operands : List Nat}
      {shape : Shape}
      (hplaces : List.Forall₂ (fun input operand => places[input]? = some operand) inputs operands)
      (hresolves : op.Resolves (shapesAt entries operands) shape) (hfinal : op.Finalizes op') :
      Compiles policy (source ++ [.apply op inputs])
        (entries ++ [⟨.apply op' operands, shape, op.outputAlias (shapesAt entries operands)⟩])
        (places ++ [entries.length])
  | copied {source : List Instruction} {entries : List CompiledInstruction} {places : List Nat}
      (h : Compiles policy source entries places) {dims : List Int} {input operand : Nat}
      {shape output : StaticShape} {error : OperatorError} (hpolicy : policy = .copy)
      (hplace : places[input]? = some operand)
      (hshape : entries[operand]?.map CompiledInstruction.shape = some (.static shape))
      (hstandard : shape.isStandard = false)
      (hrefused : Reshape.ofStatic dims shape = .error error) (haliasing : error.isAliasing = true)
      (hresolves : Operator.Resolves (.reshape dims) [.static shape.toStandard] (.static output)) :
      Compiles policy (source ++ [.apply (.reshape dims) [input]])
        (entries ++ [⟨.apply .contiguous [operand], .static shape.toStandard, none⟩,
          ⟨.apply (.reshape dims) [entries.length], .static output, none⟩])
        (places ++ [entries.length + 1])

namespace Compiles

variable {policy : AliasPolicy} {source : List Instruction} {entries : List CompiledInstruction}
  {places : List Nat}

/-- There is a place for each instruction of the source. -/
theorem length_places (h : Compiles policy source entries places) :
    places.length = source.length := by
  induction h with
  | nil => rfl
  | param _ _ _ ih => simp [ih]
  | apply _ _ _ _ ih => simp [ih]
  | copied _ _ _ _ _ _ _ _ ih => simp [ih]

/-- Each place is one of the entries so far, copies included. -/
theorem lt_of_mem_places (h : Compiles policy source entries places) :
    ∀ place ∈ places, place < entries.length := by
  induction h with
  | nil => simp
  | param _ _ _ ih | apply _ _ _ _ ih | copied _ _ _ _ _ _ _ _ ih =>
    intro place hplace
    simp only [List.length_append, List.length_cons, List.length_nil]
    rcases List.mem_append.mp hplace with hplace | hplace
    · have := ih place hplace
      omega
    · have := List.mem_singleton.mp hplace
      omega

/-- So the operands of an instruction stand before it. -/
theorem lt_of_place (h : Compiles policy source entries places) {input operand : Nat}
    (hplace : places[input]? = some operand) : operand < entries.length :=
  h.lt_of_mem_places _ (List.mem_of_getElem? hplace)

/-- Renumbered operands are before the instruction. -/
theorem operands_lt (h : Compiles policy source entries places) {inputs operands : List Nat}
    (hplaces : List.Forall₂ (fun input operand => places[input]? = some operand) inputs operands) :
    ∀ operand ∈ operands, operand < entries.length := by
  induction hplaces with
  | nil => simp
  | cons hplace _ ih => exact List.forall_mem_cons.mpr ⟨h.lt_of_place hplace, ih⟩

/-- The shape of one operand. -/
theorem shapesAt_singleton {entries : List CompiledInstruction} {operand : Nat} {shape : Shape}
    (h : entries[operand]?.map CompiledInstruction.shape = some shape) :
    shapesAt entries [operand] = [shape] := by
  simp [shapesAt, h]

/-- A copy that was just pushed is found behind all others, with the shape it was given. -/
theorem shapesAt_length (entries : List CompiledInstruction) (entry : CompiledInstruction) :
    shapesAt (entries ++ [entry]) [entries.length] = [entry.shape] := by
  simp [shapesAt]

/-- **Induction over the compiled instructions.**  Each is a parameter of the source or an operator
applied to earlier instructions, whose recorded shape and alias are what it says of their shapes.
An inserted copy is just such an operator, and so is the reshape of it. -/
theorem induction_entries (h : Compiles policy source entries places)
    {motive : List CompiledInstruction → Prop} (nil : motive [])
    (param : ∀ entries name shape, .param name shape ∈ source → motive entries →
      motive (entries ++ [⟨.param name shape, shape, none⟩]))
    (apply : ∀ entries op operands shape, (∀ operand ∈ operands, operand < entries.length) →
      Operator.Faithful op → op.Resolves (shapesAt entries operands) shape → motive entries →
      motive (entries ++
        [⟨.apply op operands, shape, op.outputAlias (shapesAt entries operands)⟩])) :
    motive entries := by
  induction h with
  | nil => exact nil
  | param h name shape ih =>
    refine param _ name shape (by simp) (ih fun entries name shape hmem => ?_)
    exact param entries name shape (List.mem_append_left _ hmem)
  | apply h hplaces hresolves hfinal ih =>
    rw [← hfinal.outputAlias_eq]
    refine apply _ _ _ _ (h.operands_lt hplaces) hfinal.faithful (hfinal.resolves hresolves)
      (ih fun entries name shape hmem => ?_)
    exact param entries name shape (List.mem_append_left _ hmem)
  | @copied source entries places h dims input operand shape output error _ hplace hshape _ _ _
      hresolves ih =>
    have hoperand := shapesAt_singleton hshape
    have hcopy := apply entries .contiguous [operand] (.static shape.toStandard)
      (by simpa using h.lt_of_place hplace) trivial
      (by rw [hoperand]; exact .contiguousStatic shape)
      (ih fun entries name shape hmem => param entries name shape (List.mem_append_left _ hmem))
    have hcopied := shapesAt_length entries ⟨.apply .contiguous [operand], .static shape.toStandard,
      Operator.outputAlias .contiguous (shapesAt entries [operand])⟩
    have hreshape := apply _ (.reshape dims) [entries.length] (.static output)
      (by simp) trivial (by rw [hcopied]; exact hresolves) hcopy
    rw [hcopied] at hreshape
    simpa [Operator.outputAlias, StaticShape.toStandard] using hreshape

/-- The last source instruction went last. -/
theorem getElem?_places_last (h : Compiles policy source entries places) (hne : source ≠ []) :
    places[source.length - 1]? = some (entries.length - 1) := by
  cases h with
  | nil => exact absurd rfl hne
  | param h | apply h | copied h => simp [← h.length_places]

end Compiles

/-! ## 3. Every compiled program comes about so

A copy is made by two steps of the compilation, one that inserts it and one that asks the operator
again.  Only a reshape of a single static operand can get there (`insertCopies_of_aliasing`), and
that is the third way to go on. -/

namespace Compilation

variable {policy : AliasPolicy} {outer : List Nat} {source : List Instruction} {c c' : Compilation}

/-- Inputs are placed one by one, each at the entry that computes it. -/
theorem placeAll_ok {index : Nat} {inputs operands : List Nat}
    (h : c.placeAll index inputs = .ok operands) :
    List.Forall₂ (fun input operand => c.places[input]? = some operand) inputs operands := by
  induction inputs generalizing operands with
  | nil =>
    obtain rfl := Except.ok.inj h
    exact .nil
  | cons input inputs ih =>
    rw [placeAll] at h
    split at h
    next => simp at h
    next id hid =>
      split at h
      next => simp at h
      next ids hids =>
        obtain rfl := Except.ok.inj h
        refine .cons ?_ (ih hids)
        unfold place at hid
        split at hid
        next hplace => rw [hplace, Except.ok.inj hid]
        next => simp at hid

/-- The shape at an operand that is there. -/
theorem shapesAt_eq_singleton {entries : List CompiledInstruction} {operands : List Nat}
    {shape : Shape} (hlt : ∀ operand ∈ operands, operand < entries.length)
    (h : shapesAt entries operands = [shape]) :
    ∃ operand, operands = [operand] ∧
      entries[operand]?.map CompiledInstruction.shape = some shape := by
  match operands with
  | [] => simp [shapesAt] at h
  | [operand] =>
    refine ⟨operand, rfl, ?_⟩
    have hat := List.getElem?_eq_getElem (hlt operand List.mem_cons_self)
    simpa [shapesAt, hat] using h
  | operand :: operand' :: rest =>
    have hat := List.getElem?_eq_getElem (hlt operand (by simp))
    have hat' := List.getElem?_eq_getElem (hlt operand' (by simp))
    simp [shapesAt, hat, hat'] at h

/-- Where a view is wanting, one copy is inserted, and the reshape is applied to that next. -/
theorem insertCopies_of_aliasing {op : Operator} {operands : List Nat} {error : OperatorError}
    (hlt : ∀ operand ∈ operands, operand < c.entries.length)
    (herror : op.outputShape (c.shapes operands) = .error error)
    (haliasing : error.isAliasing = true) :
    ∃ dims operand actual, op = .reshape dims ∧ operands = [operand] ∧
      c.entries[operand]?.map CompiledInstruction.shape = some (.static actual) ∧
      actual.isStandard = false ∧ Reshape.ofStatic dims actual = .error error ∧
      c.insertCopies operands = (c.pushCopy operand actual, [c.entries.length]) ∧
      (c.pushCopy operand actual).shapes [c.entries.length] = [.static actual.toStandard] := by
  obtain ⟨dims, actual, rfl, hactual, hrefused, hstandard⟩ :=
    Operator.exists_of_aliasing herror haliasing
  obtain ⟨operand, rfl, hat⟩ := shapesAt_eq_singleton hlt hactual
  refine ⟨dims, operand, actual, rfl, rfl, hat, hstandard, hrefused, ?_, ?_⟩
  · simp [insertCopies, hat, hstandard]
  · simp [shapes, pushCopy]

/-- **What resolving an operator comes to**: the operands as they are, or, for a reshape that cannot
view its operand, a copy of it. -/
theorem resolve_ok {index : Nat} {op : Operator} {operands operands' : List Nat} {shape : Shape}
    (hlt : ∀ operand ∈ operands, operand < c.entries.length)
    (h : c.resolve policy index op operands = (c', .ok (operands', shape))) :
    (c' = c ∧ operands' = operands ∧ op.Resolves (shapesAt c.entries operands) shape) ∨
      ∃ dims operand actual output error, op = .reshape dims ∧ operands = [operand] ∧
        policy = .copy ∧
        c.entries[operand]?.map CompiledInstruction.shape = some (.static actual) ∧
        actual.isStandard = false ∧ Reshape.ofStatic dims actual = .error error ∧
        error.isAliasing = true ∧ shape = .static output ∧
        op.Resolves [.static actual.toStandard] (.static output) ∧
        c' = c.pushCopy operand actual ∧ operands' = [c.entries.length] := by
  rw [resolve] at h
  split at h
  next found hfound =>
    obtain ⟨rfl, hok⟩ := Prod.mk.inj h
    obtain ⟨rfl, rfl⟩ := Prod.mk.inj (Except.ok.inj hok)
    exact Or.inl ⟨rfl, rfl, Operator.outputShape_eq_ok_iff.mp hfound⟩
  next error herror =>
    split at h
    next hcopy =>
      obtain ⟨haliasing, hpolicy⟩ := Bool.and_eq_true_iff.mp hcopy
      obtain ⟨dims, operand, actual, rfl, rfl, hat, hstandard, hrefused, hinsert, hcopied⟩ :=
        insertCopies_of_aliasing hlt herror haliasing
      simp only [hinsert, hcopied] at h
      split at h
      next found hfound =>
        obtain ⟨rfl, hok⟩ := Prod.mk.inj h
        obtain ⟨rfl, rfl⟩ := Prod.mk.inj (Except.ok.inj hok)
        have hresolves := Operator.outputShape_eq_ok_iff.mp hfound
        obtain ⟨output, rfl⟩ : ∃ output, found = .static output := by
          cases hresolves
          exact ⟨_, rfl⟩
        exact Or.inr ⟨dims, operand, actual, output, error, rfl, rfl, eq_of_beq hpolicy, hat,
          hstandard, hrefused, haliasing, rfl, hresolves, rfl, rfl⟩
      next => simp at h
    next => simp at h

/-- Compiling one more instruction. -/
theorem compiles_of_compileInstruction {index : Nat} {instruction : Instruction}
    (hinv : Compiles policy source c.entries c.places)
    (h : c.compileInstruction policy outer index instruction = (c', .ok ())) :
    Compiles policy (source ++ [instruction]) c'.entries c'.places := by
  cases instruction with
  | param name shape =>
    obtain ⟨rfl, -⟩ := Prod.mk.inj h
    exact hinv.param name shape
  | apply op inputs =>
    rw [compileInstruction] at h
    split at h
    next => simp at h
    next operands hoperands =>
      have hplaces := placeAll_ok hoperands
      have hlt := hinv.operands_lt hplaces
      split at h
      next => simp at h
      next d operands' shape hresolve =>
        obtain ⟨rfl, -⟩ := Prod.mk.inj h
        rcases resolve_ok hlt hresolve with ⟨rfl, rfl, hresolves⟩ |
          ⟨dims, operand, actual, output, error, rfl, rfl, hpolicy, hat, hstandard, hrefused,
            haliasing, rfl, hresolves, rfl, rfl⟩
        · exact hinv.apply hplaces hresolves (Operator.finalizes_finalize _ _ op)
        · obtain ⟨input, _, hplace, hnil, rfl⟩ := List.forall₂_cons_right_iff.mp hplaces
          obtain rfl := List.forall₂_nil_right_iff.mp hnil
          have hcompiles := hinv.copied hpolicy hplace hat hstandard hrefused haliasing hresolves
          simpa [push, pushCopy, Operator.finalize, shapes, Operator.outputAlias,
            StaticShape.toStandard] using hcompiles

/-- **The run**: `compiles_compileInstruction` for each of the instructions that are left. -/
theorem compiles_of_compileFrom {index : Nat} {rest : List Instruction}
    (hinv : Compiles policy source c.entries c.places)
    (h : c.compileFrom policy outer index rest = (c', .ok ())) :
    Compiles policy (source ++ rest) c'.entries c'.places := by
  induction rest generalizing c source index with
  | nil =>
    obtain ⟨rfl, -⟩ := Prod.mk.inj h
    rw [List.append_nil]
    exact hinv
  | cons instruction rest ih =>
    rw [compileFrom] at h
    split at h
    next => simp at h
    next d hd =>
      have hcompiles := ih (compiles_of_compileInstruction hinv hd) h
      rwa [List.append_assoc, List.singleton_append] at hcompiles

end Compilation

/-- The positions of the results in the source: those declared, or that of the last instruction. -/
def Program.results (program : Program) : List Nat :=
  if program.outputs = [] then [program.size - 1] else program.outputs

/-- **What a compiled program is.** -/
theorem Compilation.compiles_of_compileProgram {policy : AliasPolicy} {outer : List Nat}
    {pool : Pool} {program : Program} {c : Compilation} {compiled : CompiledProgram}
    (h : compileProgram policy outer pool program = (c, .ok compiled)) :
    Compiles policy program.instructions compiled.instructions c.places ∧
      List.Forall₂ (fun result output => c.places[result]? = some output)
        program.results compiled.outputs := by
  rw [compileProgram] at h
  split at h
  next => simp at h
  next hne =>
    split at h
    next => simp at h
    next d hd =>
      have hstart : Compiles policy [] (start pool).entries (start pool).places := .nil
      have hcompiles := compiles_of_compileFrom hstart hd
      split at h
      next => simp at h
      next outputs houtputs =>
        obtain ⟨rfl, hok⟩ := Prod.mk.inj h
        obtain rfl := Except.ok.inj hok
        refine ⟨hcompiles, ?_⟩
        rw [Compilation.results] at houtputs
        rw [Program.results]
        split at houtputs
        next hnone =>
          obtain rfl := Except.ok.inj houtputs
          rw [if_pos hnone]
          exact .cons (hcompiles.getElem?_places_last hne) .nil
        next hsome =>
          rw [if_neg hsome]
          exact placeAll_ok houtputs

/-- The public face of a compilation. -/
theorem Program.compile_result (policy : AliasPolicy) (held : List Nat) (pool : Pool)
    (program : Program) :
    (program.compile policy held pool).result
      = (Compilation.compileProgram policy held pool program).2 := by
  rw [Program.compile]
  cases Compilation.compileProgram policy held pool program with
  | mk c outcome => cases outcome <;> rfl

/-- A program compiles if the loop does; the pool that it leaves is not part of the result. -/
theorem Program.compile_result_eq_ok {policy : AliasPolicy} {held : List Nat} {pool : Pool}
    {program : Program} {compiled : CompiledProgram}
    (h : (program.compile policy held pool).result = .ok compiled) :
    ∃ c, Compilation.compileProgram policy held pool program = (c, .ok compiled) := by
  rw [Program.compile_result] at h
  exact ⟨_, Prod.ext rfl h⟩

end Strided
