import Strided.Proofs.Program.Evaluate
import Strided.Proofs.Program.Policy
/-!
# The structure of a compiled program

Compilation renumbers the instructions of a program and puts copies between them, and that is all it
does.  `Program.compile_mirrors`: there is a strictly increasing list of places, one for each source
instruction, such that

* what stands at a place is the source instruction, its operands renumbered by the places;
* an entry at no place is a copy, put in just before a reshape that is applied to it in place of
  what it copies, and nothing else refers to it;
* the results are the places of the results.

`Arranged` is what the induction over a compilation carries (`Compiles.arranged`): it speaks of the
instructions so far, and every way to go on appends to them (`Arranged.snoc`).  That nothing else
refers to a copy needs no induction, for an operand is a place or the copy just before
(`Arranged.next_of_operand`).
-/

namespace Strided

/-! ## 1. Places

How source and compiled instructions stand to each other, said of one pair at a time. -/

/-- The instructions that an instruction is applied to. -/
def Instruction.operands : Instruction → List Nat
  | .param .. => []
  | .apply _ inputs => inputs

/-- The entry at `p` is a copy of the entry at `home`, and no source instruction went there. -/
def IsInserted (entries : List CompiledInstruction) (places : List Nat) (p home : Nat) : Prop :=
  p ∉ places ∧ entries[p]?.map CompiledInstruction.instruction = some (.apply .contiguous [home])

/-- What an instruction at `place` has for the source operand `input`: the entry where that went, or
a copy of it put in just before. -/
def StandsFor (entries : List CompiledInstruction) (places : List Nat) (place input operand : Nat) :
    Prop :=
  ∃ home, places[input]? = some home ∧
    (operand = home ∨ operand + 1 = place ∧ IsInserted entries places operand home)

/-- **A source instruction and what stands at its place**: the same parameter, or the same operator
by its attributes, with an operand for each. -/
inductive Keeps (entries : List CompiledInstruction) (places : List Nat) (place : Nat) :
    Instruction → Instruction → Prop
  | param (name : String) (shape : Shape) :
      Keeps entries places place (.param name shape) (.param name shape)
  | apply {op op' : Operator} {inputs operands : List Nat} (hop : op'.unfinalized = op.unfinalized)
      (hoperands : List.Forall₂ (StandsFor entries places place) inputs operands) :
      Keeps entries places place (.apply op inputs) (.apply op' operands)

/-- The entry at `p` is a copy put in for the reshape that stands just after it and is applied to
it. -/
def CopiedFor (source : List Instruction) (entries : List CompiledInstruction) (places : List Nat)
    (p : Nat) : Prop :=
  ∃ (i input home : Nat) (dims : List Int), source[i]? = some (.apply (.reshape dims) [input]) ∧
    places[i]? = some (p + 1) ∧ places[input]? = some home ∧ IsInserted entries places p home ∧
    entries[p + 1]?.map CompiledInstruction.instruction = some (.apply (.reshape dims) [p])

/-- **How compiled instructions are arranged** after their source. -/
structure Arranged (source : List Instruction) (entries : List CompiledInstruction)
    (places : List Nat) : Prop where
  increasing : places.Pairwise (· < ·)
  length_eq : places.length = source.length
  kept : ∀ (i : Nat) (instruction : Instruction), source[i]? = some instruction →
    ∃ place entry, places[i]? = some place ∧ entries[place]? = some entry ∧
      Keeps entries places place instruction entry.instruction
  inserted : ∀ p < entries.length, p ∉ places → CopiedFor source entries places p

/-! ## 2. More instructions

Everything said of the instructions so far stays true when more are appended, since it speaks of
entries by their positions (`getElem?_map_append`). -/

section Extend

variable {source : List Instruction} {entries more : List CompiledInstruction} {places : List Nat}
  {place last p home input operand : Nat}

/-- What has been compiled stays where it is. -/
theorem getElem?_map_append {α : Type} {f : CompiledInstruction → α} {value : α}
    (h : entries[p]?.map f = some value) : (entries ++ more)[p]?.map f = some value := by
  obtain ⟨entry, hentry, hf⟩ := Option.map_eq_some_iff.mp h
  rw [getElem?_of_isPrefix (List.prefix_append entries more) hentry, Option.map_some, hf]

/-- A copy is one of the entries. -/
theorem IsInserted.lt (h : IsInserted entries places p home) : p < entries.length := by
  obtain ⟨entry, hentry, -⟩ := Option.map_eq_some_iff.mp h.2
  exact (List.getElem?_eq_some_iff.mp hentry).1

/-- It stays a copy for its home, since later instructions have later places. -/
theorem IsInserted.extend (h : IsInserted entries places p home) (hlast : entries.length ≤ last) :
    IsInserted (entries ++ more) (places ++ [last]) p home := by
  refine ⟨fun hmem => ?_, getElem?_map_append h.2⟩
  rcases List.mem_append.mp hmem with hmem | hmem
  · exact h.1 hmem
  · have hlt := h.lt
    have heq := List.mem_singleton.mp hmem
    omega

/-- An operand still stands for its input. -/
theorem StandsFor.extend (h : StandsFor entries places place input operand)
    (hlast : entries.length ≤ last) :
    StandsFor (entries ++ more) (places ++ [last]) place input operand := by
  obtain ⟨home, hhome, hoperand⟩ := h
  refine ⟨home, getElem?_of_isPrefix (List.prefix_append places [last]) hhome, ?_⟩
  rcases hoperand with rfl | ⟨hnext, hinserted⟩
  · exact Or.inl rfl
  · exact Or.inr ⟨hnext, hinserted.extend hlast⟩

/-- So a compiled instruction still keeps the one of the source. -/
theorem Keeps.extend {instruction compiled : Instruction}
    (h : Keeps entries places place instruction compiled) (hlast : entries.length ≤ last) :
    Keeps (entries ++ more) (places ++ [last]) place instruction compiled := by
  cases h with
  | param name shape => exact .param name shape
  | apply hop hoperands => exact .apply hop (hoperands.imp fun _ _ h => h.extend hlast)

/-- A copy is still made for the reshape behind it. -/
theorem CopiedFor.extend (h : CopiedFor source entries places p) (instruction : Instruction)
    (hlast : entries.length ≤ last) :
    CopiedFor (source ++ [instruction]) (entries ++ more) (places ++ [last]) p := by
  obtain ⟨i, input, home, dims, hsource, hplace, hhome, hinserted, hreshape⟩ := h
  have hplaces := List.prefix_append places [last]
  exact ⟨i, input, home, dims, getElem?_of_isPrefix (List.prefix_append source _) hsource,
    getElem?_of_isPrefix hplaces hplace, getElem?_of_isPrefix hplaces hhome,
    hinserted.extend hlast, getElem?_map_append hreshape⟩

end Extend

namespace Arranged

variable {source : List Instruction} {entries copies : List CompiledInstruction} {places : List Nat}
  {entry : CompiledInstruction} {instruction : Instruction}

/-- Nothing is arranged. -/
theorem nil : Arranged [] [] [] :=
  ⟨.nil, rfl, by simp, by simp⟩

/-- What stands at a place is a source instruction. -/
theorem exists_kept (h : Arranged source entries places) {p : Nat} (hp : p ∈ places) :
    ∃ instruction entry, entries[p]? = some entry ∧
      Keeps entries places p instruction entry.instruction := by
  obtain ⟨i, hi⟩ := List.getElem?_of_mem hp
  have hlt : i < source.length := h.length_eq ▸ (List.getElem?_eq_some_iff.mp hi).1
  obtain ⟨place, entry, hplace, hentry, hkeeps⟩ := h.kept i _ (List.getElem?_eq_getElem hlt)
  obtain rfl := Option.some.inj (hi.symm.trans hplace)
  exact ⟨_, entry, hentry, hkeeps⟩

/-- Every place is one of the entries. -/
theorem lt_length (h : Arranged source entries places) {p : Nat} (hp : p ∈ places) :
    p < entries.length := by
  obtain ⟨_, entry, hentry, -⟩ := h.exists_kept hp
  exact (List.getElem?_eq_some_iff.mp hentry).1

/-- One more source instruction, with the copies put in before it. -/
theorem snoc (h : Arranged source entries places) {place : Nat}
    (hplace : place = (entries ++ copies).length)
    (hkeeps : Keeps (entries ++ copies ++ [entry]) (places ++ [place]) place instruction
      entry.instruction)
    (hcopies : ∀ p, entries.length ≤ p → p < place →
      CopiedFor (source ++ [instruction]) (entries ++ copies ++ [entry]) (places ++ [place]) p) :
    Arranged (source ++ [instruction]) (entries ++ copies ++ [entry]) (places ++ [place]) := by
  have hlast : entries.length ≤ place := by
    rw [hplace, List.length_append]
    exact Nat.le_add_right _ _
  refine ⟨?_, ?_, fun i at' hi => ?_, fun p hp hnew => ?_⟩
  · refine List.pairwise_append.mpr ⟨h.increasing, List.pairwise_singleton _ _, ?_⟩
    intro p hp q hq
    rw [List.mem_singleton.mp hq]
    exact Nat.lt_of_lt_of_le (h.lt_length hp) hlast
  · rw [List.length_append, List.length_append, h.length_eq]
    rfl
  · -- an old instruction keeps its place; the new one is the last
    rcases Nat.lt_or_ge i source.length with hlt | hge
    · rw [List.getElem?_append_left hlt] at hi
      obtain ⟨home, kept, hhome, hkept, hkeeps⟩ := h.kept i at' hi
      rw [List.append_assoc]
      exact ⟨home, kept, getElem?_of_isPrefix (List.prefix_append places _) hhome,
        getElem?_of_isPrefix (List.prefix_append entries _) hkept, hkeeps.extend hlast⟩
    · have hlength := (List.getElem?_eq_some_iff.mp hi).1
      rw [List.length_append, List.length_singleton] at hlength
      obtain rfl : i = source.length := by omega
      rw [List.getElem?_concat_length] at hi
      obtain rfl := Option.some.inj hi
      refine ⟨place, entry, ?_, ?_, hkeeps⟩
      · rw [← h.length_eq, List.getElem?_concat_length]
      · rw [hplace, List.getElem?_concat_length]
  · have hold : p ∉ places := fun hmem => hnew (List.mem_append_left _ hmem)
    have hne : p ≠ place := fun heq => hnew (List.mem_append_right _ (List.mem_singleton.mpr heq))
    rw [List.length_append, List.length_singleton, ← hplace] at hp
    rcases Nat.lt_or_ge p entries.length with hlt | hge
    · rw [List.append_assoc]
      exact (h.inserted p hlt hold).extend instruction hlast
    · exact hcopies p hge (by omega)

/-- One more source instruction, without a copy. -/
theorem push (h : Arranged source entries places)
    (hkeeps : Keeps (entries ++ [entry]) (places ++ [entries.length]) entries.length instruction
      entry.instruction) :
    Arranged (source ++ [instruction]) (entries ++ [entry]) (places ++ [entries.length]) := by
  have hlength : entries.length = (entries ++ []).length := by rw [List.append_nil]
  have hkeeps' : Keeps (entries ++ [] ++ [entry]) (places ++ [entries.length]) entries.length
      instruction entry.instruction := by rwa [List.append_nil]
  have hsnoc := h.snoc hlength hkeeps' fun p hge hlt => absurd hlt (Nat.not_lt.mpr hge)
  rwa [List.append_nil] at hsnoc

/-- An entry that refers to a copy stands just after it. -/
theorem next_of_operand (h : Arranged source entries places) {p q : Nat}
    {user : CompiledInstruction} (hp : p ∉ places) (huser : entries[q]? = some user)
    (hoperand : p ∈ user.instruction.operands) : q = p + 1 := by
  have hnot : ∀ input, places[input]? ≠ some p := fun input hat => hp (List.mem_of_getElem? hat)
  by_cases hq : q ∈ places
  · obtain ⟨instruction, entry, hentry, hkeeps⟩ := h.exists_kept hq
    obtain rfl := Option.some.inj (huser.symm.trans hentry)
    generalize user.instruction = compiled at hkeeps hoperand
    cases hkeeps with
    | param => exact absurd hoperand List.not_mem_nil
    | apply _ hoperands =>
      obtain ⟨k, hk⟩ := List.getElem?_of_mem hoperand
      obtain ⟨input, -, home, hhome, hstands⟩ := forall₂_getElem? hoperands.flip hk
      rcases hstands with rfl | ⟨hnext, -⟩
      · exact absurd hhome (hnot input)
      · exact hnext.symm
  · have hlt := (List.getElem?_eq_some_iff.mp huser).1
    obtain ⟨-, input, home, -, -, -, hhome, ⟨-, hcopy⟩, -⟩ := h.inserted q hlt hq
    rw [huser, Option.map_some] at hcopy
    rw [Option.some.inj hcopy] at hoperand
    obtain rfl := List.mem_singleton.mp hoperand
    exact absurd hhome (hnot input)

end Arranged

/-! ## 3. A compilation

One case for each constructor of `Compiles`; a copied reshape appends two entries and one place. -/

/-- Operands that were renumbered stand for the source operands. -/
theorem forall₂_standsFor {entries : List CompiledInstruction} {places inputs operands : List Nat}
    (h : List.Forall₂ (fun input operand => places[input]? = some operand) inputs operands)
    (place last : Nat) :
    List.Forall₂ (StandsFor entries (places ++ [last]) place) inputs operands :=
  h.imp fun _ operand hoperand =>
    ⟨operand, getElem?_of_isPrefix (List.prefix_append places [last]) hoperand, Or.inl rfl⟩

/-- **A compilation keeps its instructions arranged.** -/
theorem Compiles.arranged {policy : AliasPolicy} {source : List Instruction}
    {entries : List CompiledInstruction} {places : List Nat}
    (h : Compiles policy source entries places) : Arranged source entries places := by
  induction h with
  | nil => exact Arranged.nil
  | param _ name shape ih => exact ih.push (.param name shape)
  | apply _ hplaces _ hfinal ih =>
    exact ih.push (.apply hfinal.unfinalized_eq (forall₂_standsFor hplaces _ _))
  | @copied source entries places h dims input operand shape output error hpolicy hplace hshape
      hstandard hrefused haliasing hresolves ih =>
    set copy : CompiledInstruction :=
      ⟨.apply .contiguous [operand], .static shape.toStandard, none⟩ with hcopy
    set reshape : CompiledInstruction :=
      ⟨.apply (.reshape dims) [entries.length], .static output, none⟩ with hreshape
    -- one instruction of the source has become two entries, of which the second is at its place
    have hsplit : entries ++ [copy, reshape] = entries ++ [copy] ++ [reshape] := by simp
    have hlength : (entries ++ [copy]).length = entries.length + 1 := by simp
    have hhome : (places ++ [entries.length + 1])[input]? = some operand :=
      getElem?_of_isPrefix (List.prefix_append places _) hplace
    have hinserted : IsInserted (entries ++ [copy] ++ [reshape]) (places ++ [entries.length + 1])
        entries.length operand := by
      refine ⟨fun hmem => ?_, getElem?_map_append (by simp [hcopy])⟩
      rcases List.mem_append.mp hmem with hmem | hmem
      · exact absurd (h.lt_of_mem_places _ hmem) (Nat.lt_irrefl _)
      · simp at hmem
    rw [hsplit]
    refine ih.snoc hlength.symm ?_ fun p hge hlt => ?_
    · exact .apply rfl (.cons ⟨operand, hhome, Or.inr ⟨rfl, hinserted⟩⟩ .nil)
    · obtain rfl : p = entries.length := by omega
      refine ⟨source.length, input, operand, dims, by simp, ?_, hhome, hinserted, ?_⟩
      · rw [← h.length_places, List.getElem?_concat_length]
      · rw [← hlength, List.getElem?_concat_length, Option.map_some]

/-! ## 4. A whole program

The results are looked up among the places, like operands. -/

/-- **A compiled program mirrors its source** by the places its instructions went to. -/
structure CompiledProgram.Mirrors (compiled : CompiledProgram) (program : Program)
    (places : List Nat) : Prop where
  arranged : Arranged program.instructions compiled.instructions places
  /-- Only the entry after a copy refers to it. -/
  next_eq : ∀ p < compiled.size, p ∉ places → ∀ (q : Nat) (user : CompiledInstruction),
    compiled.instructions[q]? = some user → p ∈ user.instruction.operands → q = p + 1
  /-- No copy is a result. -/
  not_output : ∀ p < compiled.size, p ∉ places → p ∉ compiled.outputs
  outputs : List.Forall₂ (fun result output => places[result]? = some output) program.results
    compiled.outputs

/-- A compilation that succeeds leaves a program that mirrors its source by the places it kept. -/
theorem Compilation.mirrors_of_compileProgram {policy : AliasPolicy} {outer : List Nat}
    {pool : Pool}
    {program : Program} {c : Compilation} {compiled : CompiledProgram}
    (h : compileProgram policy outer pool program = (c, .ok compiled)) :
    compiled.Mirrors program c.places := by
  obtain ⟨hcompiles, houtputs⟩ := compiles_of_compileProgram h
  have harranged := hcompiles.arranged
  refine ⟨harranged, fun p _ hp q user huser hoperand => ?_, fun p _ hp hout => ?_, houtputs⟩
  · exact harranged.next_of_operand hp huser hoperand
  · obtain ⟨k, hk⟩ := List.getElem?_of_mem hout
    obtain ⟨result, -, hplace⟩ := forall₂_getElem? houtputs.flip hk
    exact hp (List.mem_of_getElem? hplace)

/-- **Compilation keeps the structure of a program.**  Whatever compiles mirrors its source. -/
theorem Program.compile_mirrors {policy : AliasPolicy} {held : List Nat} {pool : Pool}
    {program : Program} {compiled : CompiledProgram}
    (h : (program.compile policy held pool).result = .ok compiled) :
    ∃ places, compiled.Mirrors program places := by
  obtain ⟨c, hc⟩ := Program.compile_result_eq_ok h
  exact ⟨c.places, Compilation.mirrors_of_compileProgram hc⟩

/-- A transposed parameter that is flattened twice; each time it has to be copied. -/
def twiceCopied : Program :=
  ⟨[.param "x" (.static transposed),
    .apply (.reshape [6]) [0],
    .apply (.reshape [-1]) [0],
    .apply (.elu ⟨.ofPattern 0x3ff0000000000000, none⟩) [1, 2]], []⟩

/-- What it is compiled to: the source instructions stand at 0, 2, 4 and 5. -/
def twiceCopiedCompiled : CompiledProgram :=
  ⟨[⟨.param "x" (.static transposed), .static transposed, none⟩,
    ⟨.apply .contiguous [0], .static (.standard .float32 [3, 2]), none⟩,
    ⟨.apply (.reshape [6]) [1], .static (.standard .float32 [6]), none⟩,
    ⟨.apply .contiguous [0], .static (.standard .float32 [3, 2]), none⟩,
    ⟨.apply (.reshape [-1]) [3], .static (.standard .float32 [6]), none⟩,
    ⟨.apply (.elu ⟨.ofPattern 0x3ff0000000000000,
        some ⟨0, ⟨.elu, .ofPattern 0x3ff0000000000000⟩⟩⟩) [2, 4],
      .static (.standard .float32 [6]), some 1⟩], [5]⟩

/-- It compiles with two copies. -/
theorem twiceCopied_compile :
    (twiceCopied.compile .copy [] .empty).result = .ok twiceCopiedCompiled := by
  decide +kernel

/-- Two copies are put in, and what comes after them is renumbered. -/
theorem twiceCopied_mirrors :
    (twiceCopied.compile .copy [] .empty).result = .ok twiceCopiedCompiled ∧
      ∃ places, twiceCopiedCompiled.Mirrors twiceCopied places :=
  ⟨twiceCopied_compile, Program.compile_mirrors twiceCopied_compile⟩

end Strided
