import Strided.Proofs.Program.Structure
/-!
# The events of a compilation

`Program.compile_traced`: whoever listens to a compilation can number the compiled instructions by
counting events.

* Event after event is about the next instruction, copies included, and about no other.
* When the program compiles, what is reported as a copy is what was put in between the source
  instructions, and the resolved shapes are those of the source instructions, in their order, as the
  compiled program records them.  No error is reported.
* When it does not, the error that is returned is reported once, as the last event.

`Compilation.Traced` is what every step keeps, also one that fails.  Nothing need be known of the
instructions themselves for it, so the induction is over the whole run and not over those that
compile.
-/

namespace Strided

/-! ## 1. What an event is about

Of an event, the number of the instruction it is about, and the shape if one is reported. -/

namespace CompileEvent

/-- The compiled instruction that an event is about. -/
def id? : CompileEvent → Option Nat
  | .resolved id _ | .copied id => some id
  | .failed _ => none

/-- The instruction whose shape is reported, with the shape. -/
def resolved? : CompileEvent → Option (Nat × Shape)
  | .resolved id shape => some (id, shape)
  | _ => none

/-- The copy that is reported. -/
def copied? : CompileEvent → Option Nat
  | .copied id => some id
  | _ => none

end CompileEvent

/-- The shape that is reported is the one recorded at a place. -/
def IsResolution (entries : List CompiledInstruction) (place : Nat) (found : Nat × Shape) : Prop :=
  found.1 = place ∧ entries[place]?.map CompiledInstruction.shape = some found.2

/-- **The events tell the compiled instructions**, of which the source instructions stand at the
given places. -/
structure Tells (events : List CompileEvent) (entries : List CompiledInstruction)
    (places : List Nat) : Prop where
  /-- Each event is about the next entry; so none of them is an error. -/
  ids : events.map CompileEvent.id? = (List.range entries.length).map some
  /-- The copies are the entries at no place. -/
  copies : events.filterMap CompileEvent.copied?
    = (List.range entries.length).filter (· ∉ places)
  /-- The resolved shapes are those at the places, in order. -/
  resolutions : List.Forall₂ (IsResolution entries) places
    (events.filterMap CompileEvent.resolved?)

/-! ## 2. However far a compilation has come

There is one lemma for each function of the compilation, from the two that append an entry up to the
whole run. -/

namespace Compilation

/-- What happened so far tells what is compiled so far. -/
structure Traced (c : Compilation) : Prop where
  below : ∀ place ∈ c.places, place < c.entries.length
  tells : Tells c.events c.entries c.places

/-- Nothing has been announced yet, and nothing compiled. -/
theorem traced_start (pool : Pool) : (start pool).Traced :=
  ⟨by simp [start], rfl, rfl, .nil⟩

namespace Traced

variable {c : Compilation}

/-- Shapes at places stay what they are when more is appended. -/
theorem resolutions_append (h : c.Traced) (entry : CompiledInstruction) :
    List.Forall₂ (IsResolution (c.entries ++ [entry])) c.places
      (c.events.filterMap CompileEvent.resolved?) :=
  h.tells.resolutions.imp fun _ _ hfound => ⟨hfound.1, getElem?_map_append hfound.2⟩

/-- An instruction is announced as it is pushed. -/
theorem push (h : c.Traced) (entry : CompiledInstruction) : (c.push entry).Traced := by
  refine ⟨fun place hplace => ?_, ?_, ?_, ?_⟩
  · simp only [Compilation.push, List.length_append, List.length_singleton] at hplace ⊢
    rcases List.mem_append.mp hplace with hold | hnew
    · exact Nat.lt_succ_of_lt (h.below place hold)
    · exact List.mem_singleton.mp hnew ▸ Nat.lt_succ_self _
  · simp [Compilation.push, h.tells.ids, List.range_succ, CompileEvent.id?]
  · have hold : (List.range c.entries.length).filter (· ∉ c.places ++ [c.entries.length])
        = (List.range c.entries.length).filter (· ∉ c.places) := by
      refine List.filter_congr fun p hp => ?_
      have hne : p ≠ c.entries.length := Nat.ne_of_lt (List.mem_range.mp hp)
      simp [hne]
    have hlast : [c.entries.length].filter (· ∉ c.places ++ [c.entries.length]) = [] := by simp
    rw [Compilation.push, List.filterMap_append, List.length_append, List.length_singleton,
      List.range_succ, List.filter_append, hold, hlast, h.tells.copies]
    rfl
  · have hlast : IsResolution (c.entries ++ [entry]) c.entries.length
        (c.entries.length, entry.shape) := ⟨rfl, by simp⟩
    rw [Compilation.push, List.filterMap_append]
    exact List.rel_append (h.resolutions_append entry) (.cons hlast .nil)

/-- A copy is announced as a copy alone, since it has no place in the source. -/
theorem pushCopy (h : c.Traced) (operand : Nat) (shape : StaticShape) :
    (c.pushCopy operand shape).Traced := by
  have hnew : c.entries.length ∉ c.places := fun hmem => Nat.lt_irrefl _ (h.below _ hmem)
  refine ⟨fun place hplace => ?_, ?_, ?_, ?_⟩
  · simp only [Compilation.pushCopy, List.length_append, List.length_singleton]
    exact Nat.lt_succ_of_lt (h.below place hplace)
  · simp [Compilation.pushCopy, h.tells.ids, List.range_succ, CompileEvent.id?]
  · have hlast : [c.entries.length].filter (· ∉ c.places) = [c.entries.length] := by simp [hnew]
    rw [Compilation.pushCopy, List.filterMap_append, List.length_append, List.length_singleton,
      List.range_succ, List.filter_append, hlast, h.tells.copies]
    rfl
  · have hnone : (c.events ++ [CompileEvent.copied c.entries.length]).filterMap
        CompileEvent.resolved? = c.events.filterMap CompileEvent.resolved? := by
      simp [List.filterMap_cons, CompileEvent.resolved?]
    rw [Compilation.pushCopy, hnone]
    exact h.resolutions_append _

/-- Copies are inserted one after another. -/
theorem insertCopies (h : c.Traced) (operands : List Nat) :
    (c.insertCopies operands).1.Traced := by
  induction operands generalizing c with
  | nil => exact h
  | cons operand operands ih =>
    rw [Compilation.insertCopies]
    split
    next shape _ =>
      split
      next => exact ih h
      next => exact ih (h.pushCopy operand shape)
    next => exact ih h

/-- The shapes of an instruction are settled without an announcement, except of the copies. -/
theorem resolve (h : c.Traced) (policy : AliasPolicy) (index : Nat) (op : Operator)
    (operands : List Nat) :
    (c.resolve policy index op operands).1.Traced := by
  rw [Compilation.resolve]
  split
  next => exact h
  next =>
    split
    next =>
      dsimp only
      split <;> exact h.insertCopies operands
    next => exact h

/-- Compiling one instruction, whether or not that succeeds. -/
theorem compileInstruction (h : c.Traced) (policy : AliasPolicy) (outer : List Nat) (index : Nat)
    (instruction : Instruction) :
    (c.compileInstruction policy outer index instruction).1.Traced := by
  cases instruction with
  | param name shape => exact h.push _
  | apply op inputs =>
    rw [Compilation.compileInstruction]
    split
    next => exact h
    next operands _ =>
      have hresolve := h.resolve policy index op operands
      split
      next d error hd =>
        rw [hd] at hresolve
        exact hresolve
      next d operands shape hd =>
        rw [hd] at hresolve
        -- finalizing changes the pool alone, of which no event tells
        have hpool :
            Compilation.Traced { d with pool := (op.finalize d.pool (outer ++ d.held)).2 } :=
          ⟨hresolve.below, hresolve.tells⟩
        exact hpool.push _

/-- **A compilation is traced all the way**, up to its end or its first error. -/
theorem compileFrom (h : c.Traced) (policy : AliasPolicy) (outer : List Nat) (index : Nat)
    (rest : List Instruction) :
    (c.compileFrom policy outer index rest).1.Traced := by
  induction rest generalizing c index with
  | nil => exact h
  | cons instruction rest ih =>
    have hstep := h.compileInstruction policy outer index instruction
    rw [Compilation.compileFrom]
    split
    next d error hd =>
      rw [hd] at hstep
      exact hstep
    next d hd =>
      rw [hd] at hstep
      exact ih hstep (index + 1)

/-- **Whatever was announced is what was compiled**, whether or not compilation goes through. -/
theorem compileProgram (policy : AliasPolicy) (outer : List Nat) (pool : Pool)
    (program : Program) : (compileProgram policy outer pool program).1.Traced := by
  have hrun := (traced_start pool).compileFrom policy outer 0 program.instructions
  rw [Compilation.compileProgram]
  split
  next => exact traced_start pool
  next =>
    split
    next d error hd =>
      rw [hd] at hrun
      exact hrun
    next d hd =>
      rw [hd] at hrun
      split <;> exact hrun

end Traced

/-- A compiled program is the instructions that were compiled. -/
theorem instructions_of_compileProgram {policy : AliasPolicy} {outer : List Nat} {pool : Pool}
    {program : Program} {c : Compilation} {compiled : CompiledProgram}
    (h : compileProgram policy outer pool program = (c, .ok compiled)) :
    compiled.instructions = c.entries := by
  rw [compileProgram] at h
  split at h
  next => simp at h
  next =>
    split at h
    next => simp at h
    next =>
      split at h
      next => simp at h
      next =>
        obtain ⟨rfl, hok⟩ := Prod.mk.inj h
        rw [← Except.ok.inj hok]

end Compilation

/-! ## 3. A whole program

The error is appended last, by the caller of the run. -/

/-- **What a compilation reports.**  A program that compiles is told by the events, with the places
by which it mirrors its source; one that does not has its error reported last, after events about
the instructions that were compiled until then. -/
theorem Program.compile_traced (policy : AliasPolicy) (held : List Nat) (pool : Pool)
    (program : Program) :
    (∀ compiled, (program.compile policy held pool).result = .ok compiled →
      ∃ places, compiled.Mirrors program places ∧
        Tells (program.compile policy held pool).events compiled.instructions places) ∧
    ∀ error, (program.compile policy held pool).result = .error error →
      ∃ before n, (program.compile policy held pool).events = before ++ [.failed error] ∧
        before.map CompileEvent.id? = (List.range n).map some := by
  have htraced := Compilation.Traced.compileProgram policy held pool program
  rw [Program.compile]
  cases hc : Compilation.compileProgram policy held pool program with
  | mk c outcome =>
    rw [hc] at htraced
    cases outcome with
    | ok compiled =>
      refine ⟨fun found hfound => ?_, fun error herror => absurd herror (by simp)⟩
      obtain rfl := Except.ok.inj hfound
      refine ⟨c.places, Compilation.mirrors_of_compileProgram hc, ?_⟩
      rw [Compilation.instructions_of_compileProgram hc]
      exact htraced.tells
    | error error =>
      refine ⟨fun compiled hok => absurd hok (by simp), fun found hfound => ?_⟩
      obtain rfl := Except.error.inj hfound
      exact ⟨c.events, c.entries.length, rfl, htraced.tells.ids⟩

/-- Two copies are put in and reported, each before the reshape for which it was made. -/
theorem twiceCopied_traced :
    (twiceCopied.compile .copy [] .empty).events
      = [.resolved 0 (.static transposed), .copied 1,
          .resolved 2 (.static (.standard .float32 [6])), .copied 3,
          .resolved 4 (.static (.standard .float32 [6])),
          .resolved 5 (.static (.standard .float32 [6]))] ∧
      ∃ places, twiceCopiedCompiled.Mirrors twiceCopied places ∧
        Tells (twiceCopied.compile .copy [] .empty).events twiceCopiedCompiled.instructions
          places :=
  ⟨by decide +kernel,
    (Program.compile_traced .copy [] .empty twiceCopied).1 twiceCopiedCompiled twiceCopied_compile⟩

end Strided
