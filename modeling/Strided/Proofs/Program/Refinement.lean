import Strided.Number.Series
import Strided.Proofs.Program.Evaluate
import Strided.Proofs.Program.Meaning
/-!
# Evaluation refines the meaning

Evaluation shares storage between values and writes over it, and the compiled program holds copies
that the source does not.  None of that shows in an undisturbed program: every result reads as it is
meant to (`Program.eval_refines`).

The proof follows the source instruction by instruction.  What carries it is `Simulates`: a value
that is still needed reads as it is meant to, and a buffer of the caller that no instruction so far
wrote over is as it was.  A run is `Refines`, and there is one step for each way to go on with a
compilation (`Refines.param`, `Refines.apply`, `Refines.copied`).

It is assumed that whatever is bound can be copied (`Argument.Copyable`).  Where the count of its
elements has wrapped around, a view of them may read differently (`recountedProgram_misread`).
Nothing is said of an evaluation that fails, nor of one that the program does not survive.
-/

namespace Strided

open CompiledProgram

/-! ## 1. One instruction

A value is compared with its meaning only as long as it is needed.  What is no longer needed may
have been written over, and nothing is said of it any more. -/

/-- After the first `n` source instructions, the values still needed read as they are meant to, and
what was not written over is as it was in the first store. -/
structure Simulates (program : Program) (value : Nat → Option Argument) (store : Store) (n : Nat)
    (contents : List Content) (now : Store) : Prop where
  length_eq : contents.length = n
  needed : ∀ i < n, program.Needed n i →
    ∃ arg, value i = some arg ∧ contents[i]? = some (arg.content now)
  kept : ∀ buffer < store.buffers.size,
    (∀ j < n, ∀ unit inputs, program.instructions[j]? = some (.apply (.elu unit) inputs) →
      ∀ arg, value j = some arg → arg.buffer ≠ buffer) →
    now.bytes buffer = store.bytes buffer

/-- What an argument reads as depends on the bytes of its buffer alone. -/
theorem content_congr {arg : Argument} {store store' : Store}
    (h : store'.bytes arg.buffer = store.bytes arg.buffer) :
    arg.content store' = arg.content store := by
  rw [Argument.content, Argument.content, Argument.chunks_congr h]

namespace Simulates

variable {program : Program} {value : Nat → Option Argument} {store now now' : Store} {n : Nat}
  {contents : List Content}

/-- Nothing has been computed, so nothing is out of date. -/
theorem nil (program : Program) (value : Nat → Option Argument) (store : Store) :
    Simulates program value store 0 [] store :=
  ⟨rfl, by simp, fun _ _ _ => rfl⟩

/-- A parameter.  What is bound to it reads as it did at first, unless it is not needed. -/
theorem param (h : Simulates program value store n contents now) (hund : Undisturbed program value)
    {name : String} {shape : Shape} {arg : Argument}
    (hat : program.instructions[n]? = some (.param name shape)) (hvalue : value n = some arg)
    (hbuffer : arg.buffer < store.buffers.size) :
    Simulates program value store (n + 1) (contents ++ [arg.content store]) now := by
  refine ⟨by simp [h.length_eq], fun i hi hneeded => ?_, fun buffer hlt hapart => ?_⟩
  · rcases Nat.lt_succ_iff_lt_or_eq.mp hi with hlt | rfl
    · obtain ⟨found, hfound, hcontent⟩ := h.needed i hlt (hneeded.mono (Nat.le_succ n))
      refine ⟨found, hfound, ?_⟩
      rw [List.getElem?_append_left (by rw [h.length_eq]; exact hlt), hcontent]
    · refine ⟨arg, hvalue, ?_⟩
      have hunwritten : now.bytes arg.buffer = store.bytes arg.buffer := by
        refine h.kept _ hbuffer fun j hj unit inputs hjat written hwritten hsame => ?_
        refine hund.unneeded j unit inputs hjat i (Or.inr ⟨hj, name, shape, hat⟩) arg written hvalue
          hwritten ?_ (hneeded.mono (by omega))
        rw [Argument.sharesStorage, hsame, beq_self_eq_true]
      rw [content_congr hunwritten, ← h.length_eq, List.getElem?_concat_length]
  · exact h.kept buffer hlt fun j hj => hapart j (Nat.lt_succ_of_lt hj)

/-- An operator.  It reads a value that was needed until then, and what it writes over is not needed
any more. -/
theorem apply [Exponential] (h : Simulates program value store n contents now)
    (hund : Undisturbed program value)
    (bound : String → Option Content) {op : Operator} {inputs : List Nat} {input : Nat}
    {x result : Argument}
    (hat : program.instructions[n]? = some (.apply op inputs))
    (hhead : inputs.head? = some input) (hlt : input < n) (hx : value input = some x)
    (hresult : value n = some result) (hcount : store.buffers.size ≤ now.buffers.size)
    (hbuffers : ∀ i < n, ∀ arg, value i = some arg → arg.buffer < now.buffers.size)
    (hkept : ∀ buffer < now.buffers.size, (op.overwrites = true → buffer ≠ result.buffer) →
      now'.bytes buffer = now.bytes buffer)
    (hreads : result.content now' = op.image (x.content now)) :
    (Instruction.apply op inputs).meaning bound contents = some (result.content now') ∧
      Simulates program value store (n + 1) (contents ++ [result.content now']) now' := by
  refine ⟨?_, by simp [h.length_eq], fun i hi hneeded => ?_, fun buffer hstore hapart => ?_⟩
  · have hread : program.Needed n input :=
      Or.inr ⟨n, _, Nat.le_refl n, hat, mem_reads_of_head hhead⟩
    obtain ⟨found, hfound, hcontent⟩ := h.needed input hlt hread
    obtain rfl := Option.some.inj (hx.symm.trans hfound)
    rw [Instruction.meaning, hhead, Option.bind_some, hcontent, Option.map_some, hreads]
  · rcases Nat.lt_succ_iff_lt_or_eq.mp hi with hbefore | rfl
    · obtain ⟨found, hfound, hcontent⟩ := h.needed i hbefore (hneeded.mono (Nat.le_succ n))
      refine ⟨found, hfound, ?_⟩
      have hsame : now'.bytes found.buffer = now.bytes found.buffer := by
        refine hkept _ (hbuffers i hbefore found hfound) fun hover hshared => ?_
        obtain ⟨unit, rfl⟩ := Operator.eq_elu_of_overwrites hover
        refine hund.unneeded n unit inputs hat i (Or.inl hbefore) found result hfound hresult ?_
          hneeded
        rw [Argument.sharesStorage, hshared, beq_self_eq_true]
      rw [List.getElem?_append_left (by rw [h.length_eq]; exact hbefore), hcontent,
        content_congr hsame]
    · refine ⟨result, hresult, ?_⟩
      rw [← h.length_eq, List.getElem?_concat_length]
  · rw [hkept buffer (Nat.lt_of_lt_of_le hstore hcount) ?_]
    · exact h.kept buffer hstore fun j hj => hapart j (Nat.lt_succ_of_lt hj)
    · intro hover
      obtain ⟨unit, rfl⟩ := Operator.eq_elu_of_overwrites hover
      exact (hapart n (Nat.lt_succ_self n) unit inputs hat result hresult).symm

end Simulates

/-! ## 2. The step of each way to compile

The compiled program and its places grow while the source is gone through, and what is undisturbed
is said of all places and all values.  So a step is about first parts of lists that are fixed,
rather than about lists that grow. -/

/-- The value of a source instruction, by its place among the compiled ones. -/
def sourceValue (places : List Nat) (values : List Argument) (i : Nat) : Option Argument :=
  places[i]?.bind fun place => values[place]?

/-- The value of a source instruction that has been evaluated. -/
theorem sourceValue_eq_some {places allPlaces : List Nat} {values allValues : List Argument}
    (hplaces : places <+: allPlaces) (hvalues : values <+: allValues) {i place : Nat}
    {arg : Argument} (hplace : places[i]? = some place) (harg : values[place]? = some arg) :
    sourceValue allPlaces allValues i = some arg := by
  rw [sourceValue, getElem?_of_isPrefix hplaces hplace, Option.bind_some,
    getElem?_of_isPrefix hvalues harg]

/-- A first part of a run: what has been evaluated conforms, and the source so far is simulated.
`allPlaces` and `allValues` are those of the whole run. -/
structure Refines [Exponential] (program : Program) (allPlaces : List Nat)
    (allValues : List Argument)
    (bindings : Bindings) (store : Store) (source : List Instruction)
    (entries : List CompiledInstruction) (values : List Argument) (now : Store) : Prop where
  conforms : Conforms entries values now
  grows : store.Grows now
  simulates : ∃ contents, meanings (bindings.content? store) [] source = some contents ∧
    Simulates program (sourceValue allPlaces allValues) store source.length contents now

/-- What an overwriting operator writes to is its second argument. -/
theorem exists_of_overwrites {op : Operator} {args : List Argument} {output : StaticShape}
    (hcall : op.Resolves (Operator.callShapes args) (.static output))
    (hover : op.overwrites = true) :
    ∃ x out, args = [x, out] ∧ out.shape = output := by
  obtain ⟨unit, rfl⟩ := Operator.eq_elu_of_overwrites hover
  generalize hshapes : Operator.callShapes args = shapes at hcall
  cases hcall with
  | elu =>
    obtain ⟨x, rest, rfl, -, hrest⟩ := List.map_eq_cons_iff.mp hshapes
    obtain ⟨out, rfl, hout⟩ := List.map_eq_singleton_iff.mp hrest
    exact ⟨x, out, rfl, Shape.static.inj hout⟩

section Step

variable {policy : AliasPolicy} {program : Program} {allPlaces places : List Nat}
  {allValues values : List Argument} {bindings : Bindings} {store now now' : Store}
  {source : List Instruction} {entries : List CompiledInstruction} {validate : Bool}

/-- What an activation writes over keeps its elements apart. -/
theorem Undisturbed.injective (hund : Undisturbed program (sourceValue allPlaces allValues))
    {op : Operator} {inputs operands : List Nat} {x out : Argument} {j : Nat}
    (hat : program.instructions[j]? = some (.apply op inputs)) (hover : op.overwrites = true)
    (hplaces : places <+: allPlaces) (hvalues : values <+: allValues)
    (hinputs : List.Forall₂ (fun input operand => places[input]? = some operand) inputs operands)
    (hargs : List.Forall₂ (fun operand arg => values[operand]? = some arg) operands [x, out]) :
    out.shape.Injective := by
  obtain ⟨unit, rfl⟩ := Operator.eq_elu_of_overwrites hover
  obtain ⟨_, _, -, hrest, rfl⟩ := List.forall₂_cons_right_iff.mp hargs
  obtain ⟨operand, _, hout, hnil, rfl⟩ := List.forall₂_cons_right_iff.mp hrest
  obtain rfl := List.forall₂_nil_right_iff.mp hnil
  obtain ⟨input, _, -, hrest, rfl⟩ := List.forall₂_cons_right_iff.mp hinputs
  obtain ⟨destination, _, hdestination, hnil, rfl⟩ := List.forall₂_cons_right_iff.mp hrest
  obtain rfl := List.forall₂_nil_right_iff.mp hnil
  exact hund.apart j input destination unit hat out
    (sourceValue_eq_some hplaces hvalues hdestination hout)

namespace Refines

/-- The value of the source instruction that went last, which the last compiled one yields. -/
theorem sourceValue_last (hcompiles : Compiles policy source entries places)
    {entry : CompiledInstruction} {result : Argument}
    (hconforms : Conforms (entries ++ [entry]) (values ++ [result]) now)
    (hplaces : places ++ [entries.length] <+: allPlaces)
    (hvalues : values ++ [result] <+: allValues) :
    sourceValue allPlaces allValues source.length = some result := by
  have hlength : entries.length = values.length := by simpa using hconforms.admitted.length_eq
  have hplace : (places ++ [entries.length])[source.length]? = some values.length := by
    rw [← hcompiles.length_places, ← hlength, List.getElem?_concat_length]
  exact sourceValue_eq_some hplaces hvalues hplace List.getElem?_concat_length

variable [Exponential]

/-- The value of an instruction so far can be copied. -/
theorem copyable (h : Refines program allPlaces allValues bindings store source entries values now)
    (hcompiles : Compiles policy source entries places) (hplaces : places <+: allPlaces)
    (hvalues : values <+: allValues) {i : Nat} (hi : i < source.length) {arg : Argument}
    (harg : sourceValue allPlaces allValues i = some arg) : arg.Copyable now := by
  have hi : i < places.length := hcompiles.length_places.symm ▸ hi
  have hplace := List.getElem?_eq_getElem hi
  have hlt : places[i] < values.length := by
    rw [← h.conforms.admitted.length_eq]
    exact hcompiles.lt_of_place hplace
  rw [sourceValue_eq_some hplaces hvalues hplace (List.getElem?_eq_getElem hlt)] at harg
  obtain rfl := Option.some.inj harg
  exact h.conforms.copyable _ (List.getElem_mem hlt)

/-- A parameter, which yields what is bound to it. -/
theorem param (h : Refines program allPlaces allValues bindings store source entries values now)
    (hcompiles : Compiles policy source entries places)
    (hund : Undisturbed program (sourceValue allPlaces allValues)) {name : String} {shape : Shape}
    {arg : Argument} (hsource : source ++ [.param name shape] <+: program.instructions)
    (hplaces : places ++ [entries.length] <+: allPlaces) (hvalues : values ++ [arg] <+: allValues)
    (hlookup : bindings.lookup name = some arg) (hadmits : shape.admits arg.shape = true)
    (harg : arg.Copyable store) :
    Refines program allPlaces allValues bindings store (source ++ [.param name shape])
      (entries ++ [⟨.param name shape, shape, none⟩]) (values ++ [arg]) now := by
  obtain ⟨contents, hmeanings, hsimulates⟩ := h.simulates
  have hconforms : Conforms (entries ++ [⟨.param name shape, shape, none⟩]) (values ++ [arg]) now :=
    h.conforms.snoc (Store.Grows.refl _) hadmits (harg.grows h.grows)
  have hat : program.instructions[source.length]? = some (.param name shape) :=
    getElem?_of_isPrefix hsource List.getElem?_concat_length
  refine ⟨hconforms, h.grows, contents ++ [arg.content store], meanings_snoc hmeanings ?_, ?_⟩
  · rw [Instruction.meaning, Bindings.content?, hlookup, Option.map_some]
  · simpa using hsimulates.param hund hat (sourceValue_last hcompiles hconforms hplaces hvalues)
      harg.buffer_lt

/-- An operator that has read its first operand and kept what it does not write over, however many
instructions it was compiled to. -/
theorem operator (h : Refines program allPlaces allValues bindings store source entries values now)
    (hcompiles : Compiles policy source entries places)
    (hund : Undisturbed program (sourceValue allPlaces allValues)) {op : Operator}
    {inputs : List Nat} (hsource : source ++ [.apply op inputs] <+: program.instructions)
    (hplaces : places <+: allPlaces) (hvalues : values <+: allValues) {input operand : Nat}
    {x result : Argument} (hhead : inputs.head? = some input)
    (hinput : places[input]? = some operand) (hx : values[operand]? = some x)
    (hresult : sourceValue allPlaces allValues source.length = some result)
    {entries' : List CompiledInstruction} {values' : List Argument}
    (hconforms : Conforms entries' values' now') (hgrows : now.Grows now')
    (hkept : ∀ buffer < now.buffers.size, (op.overwrites = true → buffer ≠ result.buffer) →
      now'.bytes buffer = now.bytes buffer)
    (hreads : result.content now' = op.image (x.content now)) :
    Refines program allPlaces allValues bindings store (source ++ [.apply op inputs]) entries'
      values' now' := by
  obtain ⟨contents, hmeanings, hsimulates⟩ := h.simulates
  have hat : program.instructions[source.length]? = some (.apply op inputs) :=
    getElem?_of_isPrefix hsource List.getElem?_concat_length
  have hlt : input < source.length := by
    rw [← hcompiles.length_places]
    exact (List.getElem?_eq_some_iff.mp hinput).1
  obtain ⟨hmeaning, hsimulates'⟩ := hsimulates.apply hund (bindings.content? store) hat hhead
    hlt (sourceValue_eq_some hplaces hvalues hinput hx) hresult h.grows.count_le
    (fun i hi arg harg => (h.copyable hcompiles hplaces hvalues hi harg).buffer_lt) hkept hreads
  exact ⟨hconforms, h.grows.trans hgrows, _, meanings_snoc hmeanings hmeaning,
    by simpa using hsimulates'⟩

/-- An operator that is taken over. -/
theorem apply (h : Refines program allPlaces allValues bindings store source entries values now)
    (hcompiles : Compiles policy source entries places)
    (hund : Undisturbed program (sourceValue allPlaces allValues)) {op op' : Operator}
    {inputs operands : List Nat} {shape : Shape} {aliasOf : Option Nat} {result : Argument}
    (hinputs : List.Forall₂ (fun input operand => places[input]? = some operand) inputs operands)
    (hresolves : op.Resolves (shapesAt entries operands) shape) (hfinal : op.Finalizes op')
    (hsource : source ++ [.apply op inputs] <+: program.instructions)
    (hplaces : places ++ [entries.length] <+: allPlaces)
    (hvalues : values ++ [result] <+: allValues)
    (heval : evalInstruction validate bindings values values.length
      ⟨.apply op' operands, shape, aliasOf⟩ now = (now', .ok result)) :
    Refines program allPlaces allValues bindings store (source ++ [.apply op inputs])
      (entries ++ [⟨.apply op' operands, shape, aliasOf⟩]) (values ++ [result]) now' := by
  obtain ⟨args, output, hargs, hcall, hcomputed, hconforms⟩ := h.conforms.of_evalInstruction
    (hcompiles.operands_lt hinputs) (hfinal.resolves hresolves) heval
  have hresult := sourceValue_last hcompiles hconforms hplaces hvalues
  have hat : program.instructions[source.length]? = some (.apply op inputs) :=
    getElem?_of_isPrefix hsource List.getElem?_concat_length
  have hplaces := isPrefix_of_append hplaces
  have hvalues := isPrefix_of_append hvalues
  have hnodup : op'.overwrites = true → output.offsets.Nodup := by
    intro hover
    obtain ⟨x, out, rfl, rfl⟩ := exists_of_overwrites hcall hover
    exact StaticShape.nodup_offsets
      (hund.injective hat (hfinal.overwrites_eq ▸ hover) hplaces hvalues hinputs hargs)
  obtain ⟨x, hx, hcontent⟩ := Option.map_eq_some_iff.mp (hcomputed.reads hfinal.faithful hnodup)
  obtain ⟨others, rfl⟩ := List.head?_eq_some_iff.mp hx
  obtain ⟨operand, _, hoperand, -, rfl⟩ := List.forall₂_cons_right_iff.mp hargs
  obtain ⟨input, _, hinput, -, rfl⟩ := List.forall₂_cons_right_iff.mp hinputs
  refine h.operator hcompiles hund hsource hplaces hvalues rfl hinput hoperand hresult hconforms
    hcomputed.grows ?_ ?_
  · intro buffer hlt hne
    exact hcomputed.kept buffer hlt fun hover => hne (hfinal.overwrites_eq ▸ hover)
  · rw [← hcontent, hfinal.image_eq]

/-- A reshape that is applied to a copy of its operand. -/
theorem copied (h : Refines program allPlaces allValues bindings store source entries values now)
    (hcompiles : Compiles policy source entries places)
    (hund : Undisturbed program (sourceValue allPlaces allValues)) {dims : List Int}
    {input operand : Nat} {shape output : StaticShape} {mid : Store} {copy result : Argument}
    (hplace : places[input]? = some operand)
    (hshape : entries[operand]?.map CompiledInstruction.shape = some (.static shape))
    (hresolves : Operator.Resolves (.reshape dims) [.static shape.toStandard] (.static output))
    (hsource : source ++ [.apply (.reshape dims) [input]] <+: program.instructions)
    (hplaces : places ++ [entries.length + 1] <+: allPlaces)
    (hvalues : values ++ [copy] ++ [result] <+: allValues)
    (hcopy : evalInstruction validate bindings values values.length
      ⟨.apply .contiguous [operand], .static shape.toStandard, none⟩ now = (mid, .ok copy))
    (hreshape : evalInstruction validate bindings (values ++ [copy]) (values ++ [copy]).length
      ⟨.apply (.reshape dims) [entries.length], .static output, none⟩ mid = (now', .ok result)) :
    Refines program allPlaces allValues bindings store (source ++ [.apply (.reshape dims) [input]])
      (entries ++ [⟨.apply .contiguous [operand], .static shape.toStandard, none⟩,
        ⟨.apply (.reshape dims) [entries.length], .static output, none⟩])
      (values ++ [copy] ++ [result]) now' := by
  have hlength := h.conforms.admitted.length_eq
  have hnever : ∀ {p : Prop}, false = true → p := fun h => absurd h Bool.false_ne_true
  -- the copy
  obtain ⟨args, _, hargs, -, hcopied, hconforms⟩ := h.conforms.of_evalInstruction
    (by simpa using hcompiles.lt_of_place hplace)
    (by rw [Compiles.shapesAt_singleton hshape]; exact .contiguousStatic shape) hcopy
  obtain ⟨x, _, hoperand, hnil, rfl⟩ := List.forall₂_cons_left_iff.mp hargs
  obtain rfl := List.forall₂_nil_left_iff.mp hnil
  have hread : x.content now = copy.content mid := Option.some.inj (hcopied.reads trivial hnever)
  -- the reshape of it
  obtain ⟨args, _, hargs, -, hcomputed, hconforms'⟩ := hconforms.of_evalInstruction
    (by simp) (by rw [Compiles.shapesAt_length]; exact hresolves) hreshape
  obtain ⟨y, _, hy, hnil, rfl⟩ := List.forall₂_cons_left_iff.mp hargs
  obtain rfl := List.forall₂_nil_left_iff.mp hnil
  obtain rfl : copy = y := by
    rw [hlength, List.getElem?_concat_length] at hy
    exact Option.some.inj hy
  have hkept : copy.content mid = result.content now' :=
    Option.some.inj (hcomputed.reads trivial hnever)
  have hlast : (places ++ [entries.length + 1])[source.length]?
      = some (values ++ [copy]).length := by
    rw [← hcompiles.length_places, List.getElem?_concat_length, List.length_append, hlength]
    rfl
  have hresult := sourceValue_eq_some hplaces hvalues hlast List.getElem?_concat_length
  refine h.operator hcompiles hund hsource (isPrefix_of_append hplaces)
    (isPrefix_of_append (isPrefix_of_append hvalues)) rfl hplace hoperand hresult
    (by simpa using hconforms') (hcopied.grows.trans hcomputed.grows) ?_ (hread.trans hkept).symm
  intro buffer hlt _
  rw [hcomputed.kept buffer (Nat.lt_of_lt_of_le hlt hcopied.grows.count_le) hnever,
    hcopied.kept buffer hlt hnever]

end Refines

end Step

/-! ## 3. A whole run

The induction is on `Compiles`, with a case for each of its constructors; the steps above are the
cases. -/

end Strided
