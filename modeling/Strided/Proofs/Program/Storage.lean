import Strided.Number.Series
import Strided.Proofs.Program.Meaning
import Strided.Proofs.Program.WellFormed
/-!
# What an evaluation does to storage

* `Program.eval_frame`: a byte that was there before differs afterwards only where an activation
  that was executed wrote an element of its destination, whether the evaluation goes through or not.
* `Program.eval_error_frame`: the same for an evaluation that fails, and the instruction that fails
  writes nothing.  What was written before it is not undone.
* `Program.aliasOf_exact`: the alias recorded for an instruction tells whose storage its value
  shares, or that it shares none.

All three rest on one invariant of a run, `Tracks`, and on the three effects that a call can have
(`Operator.Effect`).
-/

namespace Strided

open CompiledProgram

/-! ## 1. What was written over

Said of a byte: that an activation which was executed has an element of its destination there. -/

/-- **What was written over**: the byte belongs to an element of the destination of an activation
among the instructions, whose values are given. -/
def Overwritten (entries : List CompiledInstruction) (values : List Argument) (buffer : BufferId)
    (i : Nat) : Prop :=
  ∃ entry ∈ entries, ∃ unit x out, entry.instruction = .apply (.elu unit) [x, out] ∧
    ∃ destination, values[out]? = some destination ∧ destination.buffer = buffer ∧
      destination.Covers i

namespace Overwritten

variable {entries : List CompiledInstruction} {values : List Argument} {buffer : BufferId} {i : Nat}

/-- It stays so. -/
theorem snoc (h : Overwritten entries values buffer i) (entry : CompiledInstruction)
    (value : Argument) : Overwritten (entries ++ [entry]) (values ++ [value]) buffer i := by
  obtain ⟨writer, hmem, unit, x, out, hwriter, destination, hout, hdestination⟩ := h
  have hlater := getElem?_of_isPrefix (List.prefix_append values [value]) hout
  exact ⟨writer, List.mem_append_left _ hmem, unit, x, out, hwriter, destination, hlater,
    hdestination⟩

/-- Nothing is, without an activation. -/
theorem not_of_pure (hpure : ∀ entry ∈ entries, entry.instruction.isElu = false) :
    ¬Overwritten entries values buffer i := by
  rintro ⟨writer, hmem, unit, x, out, hwriter, -⟩
  have hfalse := hpure writer hmem
  rw [hwriter] at hfalse
  exact Bool.noConfusion hfalse

end Overwritten

/-! ## 2. A run

`Tracks` is kept by every instruction that goes through.  Beside the frame it carries the shapes of
the values, from which the output of the next call is known, and that no buffer is lost. -/

/-- **The invariant of a run** from the first store: the values have shapes that the compiled ones
admit, no buffer is lost, and what differs from the first store was written over. -/
structure Tracks (store : Store) (entries : List CompiledInstruction) (values : List Argument)
    (now : Store) : Prop where
  admitted : Admitted entries values
  grows : store.Grows now
  frame : ∀ buffer < store.buffers.size, ∀ i,
    now.byte? buffer i ≠ store.byte? buffer i → Overwritten entries values buffer i

section Run

variable [Exponential] {store now now' : Store} {entries before : List CompiledInstruction}
  {entry : CompiledInstruction} {values args : List Argument} {result : Argument}
  {bindings : Bindings} {validate : Bool} {op : Operator} {operands : List Nat} {shape : Shape}
  {aliasOf : Option Nat}

omit [Exponential] in
/-- Before the first instruction no buffer has been written. -/
theorem Tracks.nil (store : Store) : Tracks store [] [] store :=
  ⟨.nil, Store.Grows.refl store, fun _ _ _ hne => absurd rfl hne⟩

/-- The call that an instruction makes. -/
theorem exists_compute
    (hargs : List.Forall₂ (fun operand arg => values[operand]? = some arg) operands args)
    (heval : evalInstruction validate bindings values values.length
      ⟨.apply op operands, shape, aliasOf⟩ now = (now', .ok result)) :
    ∃ output, op.settle shape args = .ok output ∧
      op.compute now output args = .ok (now', result) := by
  rw [evalInstruction_apply hargs] at heval
  exact applyOperator_ok heval

omit [Exponential] in
/-- A call writes over the elements of its destination at most. -/
theorem Tracks.frame_apply (h : Tracks store entries values now)
    (hargs : List.Forall₂ (fun operand arg => values[operand]? = some arg) operands args)
    (heffect : Operator.Effect now op args now' result) {buffer : BufferId}
    (hbuffer : buffer < store.buffers.size) {i : Nat}
    (hne : now'.byte? buffer i ≠ store.byte? buffer i) :
    Overwritten (entries ++ [⟨.apply op operands, shape, aliasOf⟩]) (values ++ [result]) buffer
      i := by
  cases heffect with
  | copied _ _ hkept =>
    rw [Store.byte?_congr (hkept buffer (Nat.lt_of_lt_of_le hbuffer h.grows.count_le))] at hne
    exact (h.frame buffer hbuffer i hne).snoc _ _
  | viewed => exact (h.frame buffer hbuffer i hne).snoc _ _
  | written unit x out hitems =>
    obtain ⟨source, _, -, hrest, rfl⟩ := List.forall₂_cons_right_iff.mp hargs
    obtain ⟨destination, _, hout, hnil, rfl⟩ := List.forall₂_cons_right_iff.mp hrest
    obtain rfl := List.forall₂_nil_right_iff.mp hnil
    by_cases hinside : result.buffer = buffer ∧ result.Covers i
    · have hlater := getElem?_of_isPrefix (List.prefix_append values [result]) hout
      exact ⟨_, List.mem_append_right _ List.mem_cons_self, unit, source, destination, rfl, result,
        hlater, hinside⟩
    · rw [Argument.byte?_scatter hitems (not_and.mp hinside)] at hne
      exact (h.frame buffer hbuffer i hne).snoc _ _

/-- One more instruction. -/
theorem Tracks.step (h : Tracks store entries values now) (hentry : Follows entries entry)
    (heval : evalInstruction validate bindings values values.length entry now
      = (now', .ok result)) :
    Tracks store (entries ++ [entry]) (values ++ [result]) now' := by
  cases hentry with
  | param name shape =>
    obtain ⟨rfl, hbind⟩ := Prod.mk.inj heval
    have hadmits := (bind_eq_ok_iff.mp hbind).2
    exact ⟨List.rel_append h.admitted (.cons hadmits .nil), h.grows,
      fun buffer hbuffer i hne => (h.frame buffer hbuffer i hne).snoc _ _⟩
  | apply hlt hresolves =>
    obtain ⟨args, hargs⟩ := h.admitted.exists_args hlt
    obtain ⟨output, hsettle, hcompute⟩ := exists_compute hargs heval
    have hadmits := (h.admitted.shape_of_call hresolves hargs hsettle hcompute).2
    exact ⟨List.rel_append h.admitted (.cons hadmits .nil),
      h.grows.trans (Operator.grows_of_compute hcompute),
      fun buffer hbuffer i hne =>
        h.frame_apply hargs (Operator.effect_of_compute hcompute) hbuffer hne⟩

/-- **A run keeps the invariant.** -/
theorem WellFormed.tracks (h : WellFormed entries)
    (heval : evalFrom validate bindings [] entries store = (now, .ok values)) :
    Tracks store entries values now := by
  induction entries using List.reverseRecOn generalizing now values with
  | nil =>
    obtain ⟨rfl, hok⟩ := Prod.mk.inj heval
    obtain rfl := Except.ok.inj hok
    exact Tracks.nil store
  | append_singleton entries entry ih =>
    obtain ⟨mid, done, hdone, hlast⟩ := evalFrom_append_ok heval
    obtain ⟨result, hentry, rfl⟩ := evalFrom_singleton_ok hlast
    exact (ih h.init hdone).step h.last hentry

/-- An instruction that fails leaves the store as it is. -/
theorem Tracks.store_of_error (h : Tracks store entries values now) (hentry : Follows entries entry)
    {error : ProgramError}
    (heval : evalInstruction validate bindings values values.length entry now
      = (now', .error error)) : now' = now := by
  cases hentry with
  | param name shape => exact (Prod.mk.inj heval).1.symm
  | apply hlt hresolves => exact h.admitted.store_of_error hlt hresolves heval

/-- Where the buffers of the bound arguments are there, so are those of all values. -/
theorem buffer_lt_of_evalFrom (h : WellFormed entries)
    (hbound : ∀ name arg, bindings.lookup name = some arg → arg.buffer < store.buffers.size)
    (heval : evalFrom validate bindings [] entries store = (now, .ok values)) :
    ∀ value ∈ values, value.buffer < now.buffers.size := by
  induction entries using List.reverseRecOn generalizing now values with
  | nil =>
    obtain rfl := Except.ok.inj (Prod.mk.inj heval).2
    simp
  | append_singleton entries entry ih =>
    obtain ⟨mid, done, hdone, hlast⟩ := evalFrom_append_ok heval
    obtain ⟨result, hentry, rfl⟩ := evalFrom_singleton_ok hlast
    have hearlier := ih h.init hdone
    have htracks := h.init.tracks hdone
    cases h.last with
    | param name shape =>
      obtain ⟨rfl, hbind⟩ := Prod.mk.inj hentry
      have hresult := Nat.lt_of_lt_of_le (hbound name result (bind_eq_ok_iff.mp hbind).1)
        htracks.grows.count_le
      exact List.forall_mem_append.mpr ⟨hearlier, List.forall_mem_singleton.mpr hresult⟩
    | apply hlt hresolves =>
      obtain ⟨args, hargs⟩ := htracks.admitted.exists_args hlt
      obtain ⟨output, -, hcompute⟩ := exists_compute hargs hentry
      have hgrows := Operator.grows_of_compute hcompute
      have hresult := Operator.buffer_lt_of_compute (forall_args hearlier hargs) hcompute
      exact List.forall_mem_append.mpr
        ⟨fun value hmem => Nat.lt_of_lt_of_le (hearlier value hmem) hgrows.count_le,
          List.forall_mem_singleton.mpr hresult⟩

end Run

/-- Without an activation the buffers of the first store are as they were. -/
theorem Tracks.bytes_eq {store now : Store} {entries : List CompiledInstruction}
    {values : List Argument} (h : Tracks store entries values now)
    (hpure : ∀ entry ∈ entries, entry.instruction.isElu = false) :
    ∀ buffer < store.buffers.size, now.bytes buffer = store.bytes buffer := by
  intro buffer hbuffer
  refine Store.bytes_eq_of_byte?_eq fun i => ?_
  by_contra hne
  exact Overwritten.not_of_pure hpure (h.frame buffer hbuffer i hne)

/-! ## 3. An example

A program whose destination has room between its elements, for the statements below. -/

/-- A padded parameter that is reshaped, written over and copied, and one more parameter at the
end. -/
def paddedProgram : Program :=
  ⟨[.param "x" (.static ⟨.float32, [2, 2], [3, 1], rfl⟩),
    .param "y" (.static (.standard .float32 [2, 1, 2])),
    .apply (.reshape [2, 1, 2]) [0],
    .apply (.elu ⟨.ofPattern 0x3ff0000000000000, none⟩) [1, 2],
    .apply .contiguous [3],
    .param "z" (.static (.standard .float32 [1]))], [4]⟩

/-- What it is compiled to. -/
def paddedCompiled : CompiledProgram :=
  ⟨[⟨.param "x" (.static ⟨.float32, [2, 2], [3, 1], rfl⟩),
      .static ⟨.float32, [2, 2], [3, 1], rfl⟩, none⟩,
    ⟨.param "y" (.static (.standard .float32 [2, 1, 2])),
      .static (.standard .float32 [2, 1, 2]), none⟩,
    ⟨.apply (.reshape [2, 1, 2]) [0], .static ⟨.float32, [2, 1, 2], [3, 2, 1], rfl⟩, some 0⟩,
    ⟨.apply (.elu ⟨.ofPattern 0x3ff0000000000000,
        some ⟨0, ⟨.elu, .ofPattern 0x3ff0000000000000⟩⟩⟩) [1, 2],
      .static ⟨.float32, [2, 1, 2], [3, 2, 1], rfl⟩, some 1⟩,
    ⟨.apply .contiguous [3], .static (.standard .float32 [2, 1, 2]), none⟩,
    ⟨.param "z" (.static (.standard .float32 [1])), .static (.standard .float32 [1]), none⟩], [4]⟩

/-- Zeros to be written over, and four ones to be written. -/
def paddedStore : Store :=
  ⟨#[zeroBytes 20, ⟨#[0, 0, 128, 63, 0, 0, 128, 63, 0, 0, 128, 63, 0, 0, 128, 63]⟩]⟩

/-- The last parameter stands first, so that it can be left out. -/
def paddedBindings : Bindings :=
  [("z", ⟨.standard .float32 [1], 1, 0⟩), ("x", ⟨⟨.float32, [2, 2], [3, 1], rfl⟩, 0, 0⟩),
    ("y", ⟨.standard .float32 [2, 1, 2], 1, 0⟩)]

/-- It compiles without a copy. -/
theorem paddedProgram_compile :
    (paddedProgram.compile .reject [] .empty).result = .ok paddedCompiled := by
  decide +kernel

/-- Whatever is bound fits, if all arguments listed do. -/
theorem Bindings.fits_of_lookup {bindings : Bindings} {store : Store}
    (h : ∀ pair ∈ bindings, pair.2.Fits store) :
    ∀ name arg, bindings.lookup name = some arg → arg.Fits store := by
  intro name arg hlookup
  obtain ⟨first, rest, rfl, -⟩ := List.lookup_eq_some_iff.mp hlookup
  exact h (name, arg) (by simp)

/-- Its arguments fit the buffers that they are bound over. -/
theorem paddedBindings_fit : ∀ pair ∈ paddedBindings, pair.2.Fits paddedStore := by
  decide +kernel

/-- So it is when the first is left out. -/
theorem paddedBindings_tail_fit : ∀ pair ∈ paddedBindings.tail, pair.2.Fits paddedStore :=
  fun pair hmem => paddedBindings_fit pair (List.mem_of_mem_tail hmem)

/-! ## 4. The frame of an evaluation

An evaluation that fails is a run of a first part of the program and one instruction that fails, and
the latter writes nothing. -/

/-- Compilation adds no activation. -/
theorem Compiles.isElu_eq_false {policy : AliasPolicy} {source : List Instruction}
    {entries : List CompiledInstruction} {places : List Nat}
    (h : Compiles policy source entries places)
    (hpure : ∀ instruction ∈ source, instruction.isElu = false) :
    ∀ entry ∈ entries, entry.instruction.isElu = false := by
  induction h with
  | nil => simp
  | param _ name shape ih =>
    obtain ⟨hsource, -⟩ := List.forall_mem_append.mp hpure
    exact List.forall_mem_append.mpr ⟨ih hsource, by simp [Instruction.isElu]⟩
  | apply _ _ _ hfinal ih =>
    obtain ⟨hsource, hlast⟩ := List.forall_mem_append.mp hpure
    have hop := hlast _ List.mem_cons_self
    exact List.forall_mem_append.mpr
      ⟨ih hsource, List.forall_mem_singleton.mpr (hfinal.overwrites_eq.trans hop)⟩
  | copied _ _ _ _ _ _ _ _ ih =>
    obtain ⟨hsource, -⟩ := List.forall_mem_append.mp hpure
    exact List.forall_mem_append.mpr
      ⟨ih hsource, by simp [Instruction.isElu, Operator.overwrites]⟩

section Frame

variable {policy : AliasPolicy} {held : List Nat} {pool : Pool} {program : Program}
  {compiled : CompiledProgram} {options : Options} {bindings : Bindings} {store store' : Store}

/-- An evaluation that fails does so at one instruction, which leaves the store as those before it
left it. -/
theorem tracks_of_eval_error [Exponential] {error : ProgramError}
    (hwell : WellFormed compiled.instructions)
    (houtputs : ∀ output ∈ compiled.outputs, output < compiled.size)
    (heval : compiled.eval options bindings store = (store', .error error)) :
    ∃ executed entry values, executed ++ [entry] <+: compiled.instructions ∧
      compiled.Executes options bindings store executed values store' ∧
      evalInstruction options.validateOutputs bindings values values.length entry store'
        = (store', .error error) ∧
      Tracks store executed values store' := by
  obtain ⟨executed, entry, values, now, hentries, hexecutes, hfails⟩ :=
    executes_of_eval_error houtputs heval
  have hfirst := hwell.of_isPrefix hentries
  have htracks := hfirst.init.tracks hexecutes.run
  obtain rfl := htracks.store_of_error hfirst.last hfails
  exact ⟨executed, entry, values, hentries, hexecutes, hfails, htracks⟩

/-- **The frame of an evaluation.**  A program compiles, and is evaluated, whatever is bound to its
parameters.  However that ends, a byte of a buffer that was there before differs afterwards only if
it belongs to an element of the destination of an activation that was executed.  If the evaluation
goes through, every instruction was executed; and if the program has no activation, every buffer is
as it was. -/
theorem Program.eval_frame [Exponential]
    (hcompile : (program.compile policy held pool).result = .ok compiled) :
    ∃ executed values,
      compiled.Executes options bindings store executed values
        (compiled.eval options bindings store).1 ∧
      (∀ results, (compiled.eval options bindings store).2 = .ok results →
        executed = compiled.instructions) ∧
      (∀ buffer < store.buffers.size, ∀ i,
        (compiled.eval options bindings store).1.byte? buffer i ≠ store.byte? buffer i →
          Overwritten executed values buffer i) ∧
      ((∀ instruction ∈ program.instructions, instruction.isElu = false) →
        ∀ buffer < store.buffers.size,
          (compiled.eval options bindings store).1.bytes buffer = store.bytes buffer) := by
  obtain ⟨c, hc⟩ := Program.compile_result_eq_ok hcompile
  obtain ⟨hcompiles, -⟩ := Compilation.compiles_of_compileProgram hc
  obtain ⟨hwell, houtputs⟩ := Program.wellFormed_of_compile hcompile
  cases heval : compiled.eval options bindings store with
  | mk store' outcome =>
    -- whatever was executed is a first part of the program
    have hpure : ∀ {executed}, executed <+: compiled.instructions →
        (∀ instruction ∈ program.instructions, instruction.isElu = false) →
        ∀ entry ∈ executed, entry.instruction.isElu = false :=
      fun hfirst hsource entry hmem => hcompiles.isElu_eq_false hsource entry (hfirst.subset hmem)
    cases outcome with
    | ok results =>
      obtain ⟨values, hexecutes⟩ := executes_of_eval_ok heval
      have htracks := hwell.tracks hexecutes.run
      exact ⟨_, values, hexecutes, fun _ _ => rfl, htracks.frame,
        fun hsource => htracks.bytes_eq (hpure hexecutes.isPrefix hsource)⟩
    | error error =>
      obtain ⟨executed, entry, values, hentries, hexecutes, -, htracks⟩ :=
        tracks_of_eval_error hwell houtputs heval
      exact ⟨executed, values, hexecutes, fun results hok => by simp at hok, htracks.frame,
        fun hsource => htracks.bytes_eq (hpure hexecutes.isPrefix hsource)⟩

/-- The padding of the example stays as it is: only elements are written over. -/
theorem paddedProgram_frame :
    ∃ executed values,
      paddedCompiled.Executes .default paddedBindings paddedStore executed values
        (paddedCompiled.eval .default paddedBindings paddedStore).1 ∧
      (∀ results, (paddedCompiled.eval .default paddedBindings paddedStore).2 = .ok results →
        executed = paddedCompiled.instructions) ∧
      (∀ buffer < paddedStore.buffers.size, ∀ i,
        (paddedCompiled.eval .default paddedBindings paddedStore).1.byte? buffer i
            ≠ paddedStore.byte? buffer i →
          Overwritten executed values buffer i) ∧
      ((∀ instruction ∈ paddedProgram.instructions, instruction.isElu = false) →
        ∀ buffer < paddedStore.buffers.size,
          (paddedCompiled.eval .default paddedBindings paddedStore).1.bytes buffer
            = paddedStore.bytes buffer) :=
  Program.eval_frame paddedProgram_compile

/-- **A failed evaluation** wrote what the activations before the failing instruction wrote, and
nothing else. -/
theorem Program.eval_error_frame [Exponential] {error : ProgramError}
    (hcompile : (program.compile policy held pool).result = .ok compiled)
    (heval : compiled.eval options bindings store = (store', .error error)) :
    ∃ executed entry values, executed ++ [entry] <+: compiled.instructions ∧
      compiled.Executes options bindings store executed values store' ∧
      evalInstruction options.validateOutputs bindings values values.length entry store'
        = (store', .error error) ∧
      (∀ buffer < store.buffers.size, ∀ i, store'.byte? buffer i ≠ store.byte? buffer i →
        Overwritten executed values buffer i) ∧
      ((∀ entry ∈ executed, entry.instruction.isElu = false) →
        ∀ buffer < store.buffers.size, store'.bytes buffer = store.bytes buffer) := by
  obtain ⟨hwell, houtputs⟩ := Program.wellFormed_of_compile hcompile
  obtain ⟨executed, entry, values, hentries, hexecutes, hfails, htracks⟩ :=
    tracks_of_eval_error hwell houtputs heval
  exact ⟨executed, entry, values, hentries, hexecutes, hfails, htracks.frame, htracks.bytes_eq⟩

/-- The last parameter of the example is not bound. -/
theorem paddedProgram_error_frame :
    ∃ store' executed entry values,
      paddedCompiled.eval .default paddedBindings.tail paddedStore
        = (store', .error (.missingParameter "z")) ∧
      executed ++ [entry] <+: paddedCompiled.instructions ∧
      paddedCompiled.Executes .default paddedBindings.tail paddedStore executed values store' ∧
      evalInstruction true paddedBindings.tail values values.length entry store'
        = (store', .error (.missingParameter "z")) ∧
      ∀ buffer < paddedStore.buffers.size, ∀ i,
        store'.byte? buffer i ≠ paddedStore.byte? buffer i →
          Overwritten executed values buffer i := by
  have herror : (paddedCompiled.eval .default paddedBindings.tail paddedStore).2
      = .error (.missingParameter "z") := by decide +kernel
  have heval : paddedCompiled.eval .default paddedBindings.tail paddedStore
      = ((paddedCompiled.eval .default paddedBindings.tail paddedStore).1,
        .error (.missingParameter "z")) := by rw [← herror]
  obtain ⟨executed, entry, values, hentries, hexecutes, hfails, hframe, -⟩ :=
    Program.eval_error_frame paddedProgram_compile heval
  exact ⟨_, executed, entry, values, heval, hentries, hexecutes, hfails, hframe⟩

/-- **A failed evaluation is not undone.**  When it turns out that the last parameter of the example
is not bound, another one has been written over. -/
theorem paddedProgram_error_written :
    (paddedProgram.compile .reject [] .empty).result = .ok paddedCompiled ∧
    (∀ name arg, paddedBindings.tail.lookup name = some arg → arg.Fits paddedStore) ∧
    (paddedCompiled.eval .default paddedBindings.tail paddedStore).2
      = .error (.missingParameter "z") ∧
    ∃ arg, paddedBindings.tail.lookup "x" = some arg ∧
      (paddedCompiled.eval .default paddedBindings.tail paddedStore).1.bytes arg.buffer
        ≠ paddedStore.bytes arg.buffer := by
  refine ⟨paddedProgram_compile, Bindings.fits_of_lookup paddedBindings_tail_fit,
    by decide +kernel, ⟨⟨.float32, [2, 2], [3, 1], rfl⟩, 0, 0⟩, by decide, fun heq => ?_⟩
  have hwritten : (paddedCompiled.eval .default paddedBindings.tail paddedStore).1.byte? 0 2
      = some 128 := by decide +kernel
  rw [Store.byte?_congr heq 2] at hwritten
  exact absurd hwritten (by decide +kernel)

end Frame

/-! ## 5. Aliases

What is recorded is one operand, whose value may in turn share the storage of another.  The
statement is about the one instruction; what shares with what across a program follows from it. -/

/-- **The recorded alias is exact.**  A program compiles, is evaluated with arguments whose buffers
are there, and executes an operator.  If the operand at `k` is recorded as its alias, the result
shares the storage of that operand's value; if none is, the result shares storage with no argument
that is bound and with no value before it. -/
theorem Program.aliasOf_exact [Exponential] {policy : AliasPolicy} {held : List Nat} {pool : Pool}
    {program : Program} {compiled : CompiledProgram} {options : Options} {bindings : Bindings}
    {store now : Store} {before : List CompiledInstruction} {entry : CompiledInstruction}
    {values : List Argument} {result : Argument} {op : Operator} {operands : List Nat}
    (hcompile : (program.compile policy held pool).result = .ok compiled)
    (hbound : ∀ name arg, bindings.lookup name = some arg → arg.buffer < store.buffers.size)
    (hexecutes : compiled.Executes options bindings store (before ++ [entry]) (values ++ [result])
      now)
    (hentry : entry.instruction = .apply op operands) :
    (∀ k, entry.aliasOf = some k → ∃ operand arg, operands[k]? = some operand ∧
      values[operand]? = some arg ∧ result.sharesStorage arg = true) ∧
    (entry.aliasOf = none →
      (∀ name arg, bindings.lookup name = some arg → result.sharesStorage arg = false) ∧
      ∀ value ∈ values, result.sharesStorage value = false) := by
  obtain ⟨hwell, -⟩ := Program.wellFormed_of_compile hcompile
  have hfirst := hwell.of_isPrefix hexecutes.isPrefix
  obtain ⟨mid, done, hdone, hlast⟩ := evalFrom_append_ok hexecutes.run
  obtain ⟨value, heval, hvalues⟩ := evalFrom_singleton_ok hlast
  obtain ⟨rfl, rfl⟩ := List.append_singleton_inj.mp hvalues
  have htracks := hfirst.init.tracks hdone
  cases hfirst.last with
  | param name shape => simp at hentry
  | apply hlt hresolves =>
    obtain ⟨rfl, rfl⟩ := Instruction.apply.inj hentry
    obtain ⟨args, hargs⟩ := htracks.admitted.exists_args hlt
    obtain ⟨output, -, hcompute⟩ := exists_compute hargs heval
    have heffect := Operator.effect_of_compute hcompute
    -- what was recorded is what would be declared of this call
    have halias := Operator.outputAlias_callShapes hresolves (htracks.admitted.admits_args hargs)
    rw [← halias]
    refine ⟨fun k hk => ?_, fun hnone => ⟨fun name arg hlookup => ?_, fun arg hmem => ?_⟩⟩
    · obtain ⟨arg, harg, hshares⟩ := heffect.shares hk
      obtain ⟨operand, hoperand, hvalue⟩ := forall₂_getElem? hargs.flip harg
      exact ⟨operand, arg, hoperand, hvalue, hshares⟩
    · exact heffect.fresh hnone
        (Nat.lt_of_lt_of_le (hbound name arg hlookup) htracks.grows.count_le)
    · exact heffect.fresh hnone (buffer_lt_of_evalFrom hfirst.init hbound hdone arg hmem)

/-- The copy in the example shares storage with nothing before it. -/
theorem paddedProgram_copy_fresh :
    ∃ now copy values,
      paddedCompiled.Executes .default paddedBindings paddedStore
        (paddedCompiled.instructions.take 4 ++
          [⟨.apply .contiguous [3], .static (.standard .float32 [2, 1, 2]), none⟩])
        (values ++ [copy]) now ∧
      (∀ name arg, paddedBindings.lookup name = some arg → copy.sharesStorage arg = false) ∧
      ∀ value ∈ values, copy.sharesStorage value = false := by
  have hvalues : (evalFrom true paddedBindings [] (paddedCompiled.instructions.take 4 ++
        [⟨.apply .contiguous [3], .static (.standard .float32 [2, 1, 2]), none⟩]) paddedStore).2
      = .ok ([⟨⟨.float32, [2, 2], [3, 1], rfl⟩, 0, 0⟩, ⟨.standard .float32 [2, 1, 2], 1, 0⟩,
          ⟨⟨.float32, [2, 1, 2], [3, 2, 1], rfl⟩, 0, 0⟩,
          ⟨⟨.float32, [2, 1, 2], [3, 2, 1], rfl⟩, 0, 0⟩]
        ++ [⟨.standard .float32 [2, 1, 2], 2, 0⟩]) := by
    decide +kernel
  have hexecutes : paddedCompiled.Executes .default paddedBindings paddedStore _ _ _ :=
    ⟨⟨[_], rfl⟩, Prod.ext rfl hvalues⟩
  obtain ⟨hbound, hbefore⟩ := (Program.aliasOf_exact paddedProgram_compile
    (fun name arg hlookup =>
      (Bindings.fits_of_lookup paddedBindings_fit name arg hlookup).buffer_lt)
    hexecutes rfl).2 rfl
  exact ⟨_, _, _, hexecutes, hbound, hbefore⟩

end Strided
