import Strided.Proofs.Program.Descriptors
import Strided.Session.Run
/-!
# What a session keeps alive

`Session.live_calls`: in a session that keeps compiled programs, as many descriptors are live as
there are different scales among the activations of the programs that are kept, after any calls in
any order.  What is compiled and not kept leaves nothing behind, wherever the compilation fails, and
neither does an evaluation.

The descriptors that the names hold are served all the time (`Session.Served`), and the count is
`Pool.Serves.live_eq`.  A compilation keeps the pool serving (`Program.serves_compile`), and an
evaluation asks for nothing, because what is kept holds what it computes with
(`CompiledProgram.evalIn_fst`).  Every other step of a session changes storage, or the names.

Operators and descriptors are not kept under names here: whoever keeps one keeps it alive.
-/

namespace Strided

/-! ## 1. What the names hold

Names are registers, and a register may hold other things than programs; of what it holds only
descriptors matter here.  A name that is set gives up what it held before. -/

namespace Register

/-- The scales of the activations, if it is a compiled program. -/
def alphas : Register → List Binary64
  | .program compiled => compiled.alphas
  | _ => []

/-- It is no operator and no descriptor, and a compiled program holds what it computes with. -/
def IsEquipped : Register → Prop
  | .program compiled => compiled.IsEquipped
  | .argument _ | .output _ => True
  | .operator _ | .descriptor _ => False

/-- A register of a compiled program holds a descriptor for each of its scales. -/
theorem map_activation_descriptors {register : Register} (h : register.IsEquipped) :
    register.descriptors.map Descriptor.activation = register.alphas.map (Activation.mk .elu) := by
  cases register with
  | program compiled => exact CompiledProgram.map_activation_descriptors h
  | argument _ | output _ => rfl
  | operator _ | descriptor _ => exact h.elim

end Register

namespace Session

/-- The descriptors that the names hold. -/
def descriptors (session : Session) : List Descriptor :=
  session.registers.flatMap fun entry => entry.2.descriptors

/-- The scales of the activations of the programs that are kept. -/
def alphas (session : Session) : List Binary64 :=
  session.registers.flatMap fun entry => entry.2.alphas

/-- What a session holds are the numbers of its descriptors. -/
theorem held_eq (session : Session) : session.held = session.descriptors.map Descriptor.id :=
  (List.map_flatMap ..).symm

/-- **The pool serves what the names hold**, which are programs with all they compute with, and
things that hold no descriptor. -/
structure Served (session : Session) : Prop where
  serves : session.pool.Serves session.descriptors
  equipped : ∀ entry ∈ session.registers, entry.2.IsEquipped

/-- A session starts with a new pool and no registers. -/
theorem served_start (options : Options) : (start options).Served :=
  ⟨Pool.serves_empty, by simp [start]⟩

/-- A register is found among the registers. -/
theorem mem_registers {session : Session} {name : String} {register : Register}
    (h : session.find? name = some register) : (name, register) ∈ session.registers := by
  obtain ⟨before, after, hregisters, -⟩ := List.lookup_eq_some_iff.mp h
  simp [hregisters]

/-- To run a program once keeps nothing of it. -/
theorem registers_run (session : Session) (program : Program) (bindings : Bindings) :
    (session.run program bindings).1.registers = session.registers := by
  rw [run]
  split
  next d error events hd => exact congrArg (·.1.registers) hd.symm
  next d compiled events hd => exact congrArg (·.1.registers) hd.symm

namespace Served

variable {session : Session}

/-- So do all registers together. -/
theorem map_activation_descriptors (h : session.Served) :
    session.descriptors.map Descriptor.activation = session.alphas.map (Activation.mk .elu) := by
  rw [descriptors, alphas, List.map_flatMap, List.map_flatMap]
  exact List.flatMap_congr fun entry hentry =>
    Register.map_activation_descriptors (h.equipped entry hentry)

/-- **As many descriptors are live as the kept programs have scales.** -/
theorem live_eq (h : session.Served) : session.live = session.alphas.toFinset.card := by
  have hinjective : Function.Injective (Activation.mk .elu) := fun _ _ hsame =>
    (Activation.mk.inj hsame).2
  have himage : (session.alphas.map (Activation.mk .elu)).toFinset
      = session.alphas.toFinset.image (Activation.mk .elu) := by
    ext activation
    simp
  rw [live, held_eq, h.serves.live_eq, h.map_activation_descriptors, himage,
    Finset.card_image_of_injective _ hinjective]

/-- Something else is kept under a name. -/
theorem set (h : session.Served) {register : Register} (hequipped : register.IsEquipped)
    (hserves : session.pool.Serves (session.descriptors ++ register.descriptors)) (name : String) :
    (session.set name register).Served := by
  refine ⟨hserves.subset fun d hd => ?_, fun entry hentry => ?_⟩
  · simp only [descriptors, Session.set, List.flatMap_append, List.flatMap_singleton] at hd
    rcases List.mem_append.mp hd with hold | hnew
    · obtain ⟨entry, hentry, hd⟩ := List.mem_flatMap.mp hold
      exact List.mem_append_left _ (List.mem_flatMap.mpr ⟨entry, List.mem_of_mem_filter hentry, hd⟩)
    · exact List.mem_append_right _ hnew
  · rcases List.mem_append.mp hentry with hold | hnew
    · exact h.equipped entry (List.mem_of_mem_filter hold)
    · obtain rfl := List.mem_singleton.mp hnew
      exact hequipped

/-- What is kept may be kept under one more name. -/
theorem clone (h : session.Served) {source : String} {register : Register}
    (hsource : session.find? source = some register) (target : String) :
    (session.set target register).Served := by
  have hmem := mem_registers hsource
  refine h.set (h.equipped _ hmem) (h.serves.subset fun d hd => ?_) target
  rcases List.mem_append.mp hd with hold | hnew
  · exact hold
  · exact List.mem_flatMap.mpr ⟨_, hmem, hnew⟩

/-- What is dropped is no longer held, which asks for less. -/
theorem drop (h : session.Served) (name : String) : (session.drop name).Served := by
  refine ⟨h.serves.subset fun d hd => ?_, fun entry hentry => ?_⟩
  · obtain ⟨entry, hentry, hd⟩ := List.mem_flatMap.mp hd
    exact List.mem_flatMap.mpr ⟨entry, List.mem_of_mem_filter hentry, hd⟩
  · exact h.equipped entry (List.mem_of_mem_filter hentry)

/-- A compilation, as long as its result is not kept. -/
theorem compile (h : session.Served) (program : Program) : (session.compile program).1.Served := by
  refine ⟨?_, h.equipped⟩
  rw [Session.compile, held_eq]
  exact (Program.serves_compile h.serves _ program).1

/-- A compilation, with its result. -/
theorem compile_ok (h : session.Served) (program : Program) (compiled : CompiledProgram)
    (hok : (session.compile program).2.1 = .ok compiled) :
    compiled.IsEquipped ∧
      (session.compile program).1.pool.Serves (session.descriptors ++ compiled.descriptors) := by
  rw [Session.compile, held_eq] at hok ⊢
  exact (Program.serves_compile h.serves _ program).2 compiled hok

/-- Evaluating something that holds what it computes with asks for nothing more. -/
theorem eval (h : session.Served) {program : CompiledProgram} (hequipped : program.IsEquipped)
    (bindings : Bindings) : (session.eval program bindings).1.Served := by
  have hfinalized : ∀ entry ∈ program.instructions, entry.instruction.isFinalized = true :=
    fun entry hentry => (hequipped entry hentry).isFinalized
  have hpool : (session.eval program bindings).1.pool = session.pool :=
    CompiledProgram.evalIn_fst hfinalized
  refine ⟨?_, h.equipped⟩
  rw [hpool]
  exact h.serves

/-- A run compiles with what is held, and forgets its own descriptors. -/
theorem run (h : session.Served) (program : Program) (bindings : Bindings) :
    (session.run program bindings).1.Served := by
  have hcompile := h.compile program
  have hok := h.compile_ok program
  rw [Session.run]
  split
  next d error events hd =>
    rw [hd] at hcompile
    exact hcompile
  next d compiled events hd =>
    rw [hd] at hcompile hok
    exact hcompile.eval (hok compiled rfl).1 bindings

/-- The program of a name holds what it computes with. -/
theorem isEquipped (h : session.Served) {name : String} {program : CompiledProgram}
    (hname : session.program? name = some program) : program.IsEquipped := by
  rw [program?] at hname
  split at hname
  next found hfound =>
    obtain rfl := Option.some.inj hname
    exact h.equipped _ (mem_registers hfound)
  next => simp at hname

/-- Storage is of no concern. -/
theorem store (h : session.Served) (store : Store) : Served { session with store := store } :=
  ⟨h.serves, h.equipped⟩

/-- Keeping something that holds no descriptor. -/
theorem keep_inert (h : session.Served) {register : Register} (hequipped : register.IsEquipped)
    (hinert : register.descriptors = []) (target : Option String) :
    (session.keep target register).Served := by
  cases target with
  | none => exact h
  | some name => exact h.set hequipped (by rw [hinert, List.append_nil]; exact h.serves) name

/-- Results are arguments, which hold no descriptor. -/
theorem keepAll (h : session.Served) (results : List (String × Argument)) :
    (session.keepAll results).Served := by
  induction results generalizing session with
  | nil => exact h
  | cons result results ih =>
    obtain ⟨name, argument⟩ := result
    have hkept : (Register.argument argument).IsEquipped := trivial
    exact ih (h.keep_inert hkept rfl (some name))

/-- Nobody can ask for an operator or a descriptor by name. -/
theorem operator?_eq_none (h : session.Served) (name : String) : session.operator? name = none := by
  rw [operator?]
  split
  next found hfound => exact (h.equipped _ (mem_registers hfound)).elim
  next => rfl

end Served

end Session

/-! ## 2. Calls

`Step` is any step of a session.  The plain ones are those that keep no operator and no descriptor
under a name; among them are all that evaluate. -/

/-- Whether the step keeps no operator and no descriptor under a name. -/
def Step.isPlain : Step → Bool
  | .operator (some _) _ | .descriptor (some _) _ => false
  | _ => true

/-- What may be asked of a session: a step, or something about a program or arguments from outside,
of which no text and no name need tell. -/
inductive SessionCall where
  | step (step : Step)
  /-- Compiles a program, which is kept if it compiles. -/
  | compile (target : Option String) (program : Program)
  | eval (name : String) (bindings : Bindings)
  | run (program : Program) (bindings : Bindings)

/-- The call keeps programs, arguments and shapes, and nothing else. -/
def SessionCall.IsPlain : SessionCall → Prop
  | .step asked => asked.isPlain = true
  | _ => True

namespace Session

/-- One call. -/
def call (session : Session) : SessionCall → Session
  | .step step => (session.step step).1
  | .compile target program =>
    match session.compile program with
    | (session, .error _, _) => session
    | (session, .ok compiled, _) => session.keep target (.program compiled)
  | .eval name bindings =>
    match session.program? name with
    | some program => (session.eval program bindings).1
    | none => session
  | .run program bindings => (session.run program bindings).1

/-- Calls, one after the other. -/
def calls (session : Session) (calls : List SessionCall) : Session :=
  calls.foldl call session

namespace Served

variable {session : Session}

/-- A compilation whose result is kept, if there is one. -/
theorem keep_compiled (h : session.Served) {program : Program} {after : Session}
    {compiled : CompiledProgram} {events : List CompileEvent}
    (hcompile : session.compile program = (after, .ok compiled, events)) (target : Option String) :
    (after.keep target (.program compiled)).Served := by
  have hafter := h.compile program
  have hok := h.compile_ok program
  -- the names are those from before the compilation
  have hregisters : after.registers = session.registers := congrArg (·.1.registers) hcompile.symm
  rw [hcompile] at hafter hok
  obtain ⟨hequipped, hserves⟩ := hok compiled rfl
  have hkept : (Register.program compiled).IsEquipped := hequipped
  cases target with
  | none => exact hafter
  | some name =>
    refine hafter.set hkept ?_ name
    rw [descriptors, hregisters]
    exact hserves

/-- An argument that was made is kept, or an error is told. -/
theorem made (h : session.Served) (target : Option String)
    (result : Except OperatorError (Store × Argument)) : (session.made target result).1.Served := by
  cases result with
  | error error => exact h
  | ok result =>
    have hkept : (Register.argument result.2).IsEquipped := trivial
    exact (h.store result.1).keep_inert hkept rfl target

/-- Writing changes the storage alone. -/
theorem written (h : session.Served) (argument : Argument) (result : Except OperatorError Store) :
    (session.written argument result).1.Served := by
  cases result with
  | error error => exact h
  | ok store => exact h.store store

/-- A shape that was settled is kept, and holds nothing. -/
theorem settled (h : session.Served) (target : Option String)
    (result : Except OperatorError StaticShape) : (session.settled target result).1.Served := by
  cases result with
  | error error => exact h
  | ok shape =>
    have hkept : (Register.output shape).IsEquipped := trivial
    exact h.keep_inert hkept rfl target

/-- An evaluation has its descriptors from compilation. -/
theorem evaluated (h : session.Served) (targets : List String) (bindings : Bindings)
    (result : Except ProgramError (List Argument)) :
    (session.evaluated targets bindings result).1.Served := by
  cases result with
  | error error => exact h
  | ok outputs => exact h.keepAll (targets.zip outputs)

/-- A text is compiled if it can be read. -/
theorem compileText (h : session.Served) (target : Option String) (text : String) :
    (session.compileText target text).1.Served := by
  rw [Session.compileText]
  split
  next => exact h
  next program _ =>
    have hcompile := h.compile program
    split
    next d error events hd =>
      rw [hd] at hcompile
      exact hcompile
    next d compiled events hd => exact h.keep_compiled hd target

/-- **Every step keeps the names served.** -/
theorem step (h : session.Served) {step : Step} (hplain : step.isPlain = true) :
    (session.step step).1.Served := by
  cases step with
  | zeroed target shape => exact h.made target _
  | ofBytes target shape bytes => exact h.made target _
  | ofElements target shape dtype elements => exact h.made target _
  | ofList target lens dtype elements => exact h.made target _
  | view target argument shape =>
    rw [Session.step]
    split
    next => exact h
    next => exact h.made target _
  | materialize target shape source =>
    rw [Session.step]
    split
    next => exact h
    next => exact h.made target _
  | copyFrom argument source =>
    rw [Session.step]
    split
    next argument _ _ _ => exact h.written argument _
    next => exact h
  | mapFrom argument source dtype f =>
    rw [Session.step]
    split
    next argument _ _ _ => exact h.written argument _
    next => exact h
  | toBytes argument =>
    rw [Session.step]
    split
    next => exact h
    next => split <;> exact h
  | toList argument dtype =>
    rw [Session.step]
    split
    next => exact h
    next => split <;> exact h
  | sharesStorage a b =>
    rw [Session.step]
    split <;> exact h
  | clone target source =>
    rw [Session.step]
    split
    next => exact h
    next register hsource =>
      cases target with
      | none => exact h
      | some name => exact h.clone hsource name
  | drop name =>
    rw [Session.step]
    split
    next => exact h
    next => exact h.drop name
  | operator target op =>
    cases target with
    | none => exact h
    | some name => exact absurd hplain Bool.false_ne_true
  | finalize operator =>
    rw [Session.step, finalizeNamed, h.operator?_eq_none]
    exact h
  | settle target operator shape args =>
    rw [Session.step, h.operator?_eq_none]
    exact h
  | fixedOutput target shape => exact h.settled target (.ok shape)
  | compute target operator output args =>
    rw [Session.step, computeNamed, h.operator?_eq_none]
    exact h
  | descriptor target alpha =>
    cases target with
    | none =>
      -- a handle that nobody keeps is given up at once
      have hrequest := h.serves.request ⟨.elu, alpha⟩
      rw [← held_eq] at hrequest
      exact ⟨hrequest.subset fun _ => List.mem_append_left _, h.equipped⟩
    | some name => exact absurd hplain Bool.false_ne_true
  | applyDescriptor descriptor xs =>
    rw [Session.step]
    split <;> exact h
  | sameDescriptor a b =>
    rw [Session.step]
    split <;> exact h
  | live => exact h
  | compile target text => exact h.compileText target text
  | eval targets program params =>
    rw [Session.step]
    split
    next program bindings hprogram _ =>
      exact (h.eval (h.isEquipped hprogram) bindings).evaluated targets bindings _
    next => exact h
  | run targets text params =>
    rw [Session.step]
    split
    next => exact h
    next program _ =>
      split
      next => exact h
      next bindings _ => exact (h.run program bindings).evaluated targets bindings _

/-- **Every call keeps the names served.** -/
theorem call (h : session.Served) {call : SessionCall} (hplain : call.IsPlain) :
    (session.call call).Served := by
  cases call with
  | step step => exact h.step hplain
  | compile target program =>
    have hcompile := h.compile program
    rw [Session.call]
    split
    next d error events hd =>
      rw [hd] at hcompile
      exact hcompile
    next d compiled events hd => exact h.keep_compiled hd target
  | eval name bindings =>
    rw [Session.call]
    split
    next program hname => exact h.eval (h.isEquipped hname) bindings
    next => exact h
  | run program bindings => exact h.run program bindings

/-- **So do all calls together.** -/
theorem calls (h : session.Served) {calls : List SessionCall}
    (hplain : ∀ call ∈ calls, call.IsPlain) : (session.calls calls).Served := by
  induction calls generalizing session with
  | nil => exact h
  | cons call calls ih =>
    obtain ⟨hcall, hcalls⟩ := List.forall_mem_cons.mp hplain
    exact ih (h.call hcall) hcalls

end Served

/-- **No descriptor is left behind.**  After any calls on a session that keep no operator and no
descriptor:

* as many descriptors are live as there are different scales, by their bits, among the activations
  of the programs that are kept;
* a compilation whose result is not kept leaves their number as it is, whether or not it succeeds;
* so does evaluating a program that is kept, and so does compiling and evaluating one in one go. -/
theorem live_calls (options : Options) {calls : List SessionCall}
    (hplain : ∀ call ∈ calls, call.IsPlain) :
    ((start options).calls calls).live = ((start options).calls calls).alphas.toFinset.card ∧
    (∀ program, (((start options).calls calls).compile program).1.live
      = ((start options).calls calls).live) ∧
    (∀ name program bindings, ((start options).calls calls).program? name = some program →
      (((start options).calls calls).eval program bindings).1.live
        = ((start options).calls calls).live) ∧
    ∀ program bindings, (((start options).calls calls).run program bindings).1.live
      = ((start options).calls calls).live := by
  have h := (served_start options).calls hplain
  refine ⟨h.live_eq, fun program => ?_, fun name program bindings hname => ?_,
    fun program bindings => ?_⟩
  · rw [(h.compile program).live_eq, h.live_eq]
    rfl
  · rw [(h.eval (h.isEquipped hname) bindings).live_eq, h.live_eq]
    rfl
  · rw [(h.run program bindings).live_eq, h.live_eq, alphas, alphas, registers_run]

/-- Two activations of one scale after one of another, and a shape that a reshape cannot have. -/
def leaky : Program :=
  ⟨[.param "x" (.static (.standard .float32 [6])),
    .apply (.elu ⟨.ofPattern 0x3ff0000000000000, none⟩) [0, 0],
    .apply (.elu ⟨.ofPattern 0x4000000000000000, none⟩) [1, 1],
    .apply (.elu ⟨.ofPattern 0x4000000000000000, none⟩) [2, 2],
    .apply (.reshape [5]) [3]], []⟩

/-- What compiles is kept twice and dropped once; what does not leaves its own descriptors to the
next request. -/
def leakyCalls : List SessionCall :=
  [.compile (some "p") twiceCopied, .compile (some "q") leaky, .step (.clone (some "q") "p"),
    .step (.drop "p")]

/-- One descriptor is live for the copy that is kept, and a compilation that fails adds none to
it. -/
theorem live_leakyCalls :
    (∀ call ∈ leakyCalls, call.IsPlain) ∧
      ((start ⟨.copy, true, false⟩).calls leakyCalls).live = 1 ∧
      ((start ⟨.copy, true, false⟩).calls leakyCalls).alphas = [.ofPattern 0x3ff0000000000000] ∧
      (((start ⟨.copy, true, false⟩).calls leakyCalls).compile leaky).1.live = 1 := by
  have hplain : ∀ call ∈ leakyCalls, call.IsPlain := by
    simp [leakyCalls, SessionCall.IsPlain, Step.isPlain]
  have halphas : ((start ⟨.copy, true, false⟩).calls leakyCalls).alphas
      = [.ofPattern 0x3ff0000000000000] := by
    decide +kernel
  obtain ⟨hlive, hcompile, -, -⟩ := live_calls ⟨.copy, true, false⟩ hplain
  have hone : ((start ⟨.copy, true, false⟩).calls leakyCalls).live = 1 := by
    rw [hlive, halphas]
    rfl
  exact ⟨hplain, hone, halphas, (hcompile leaky).trans hone⟩

end Session

end Strided
