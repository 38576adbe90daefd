import Strided.Program.Json
import Strided.Session.Step
/-!
# Running a session

`Session.step` answers one step.  Names are looked up before anything is done; a step that is
refused sets no name, though what an evaluation has written until its error stays written.
-/

namespace Strided

namespace Session

/-! ## 1. Looking names up and setting them -/

/-- The arguments of the given names. -/
def arguments? (session : Session) (names : List String) : Option (List Argument) :=
  names.mapM session.argument?

/-- The arguments bound to parameters, given by name. -/
def bindings? (session : Session) (params : List (String × String)) : Option Bindings :=
  params.mapM fun param => (session.argument? param.2).map fun argument => (param.1, argument)

/-- Sets a name, if there is one to be set. -/
def keep (session : Session) (target : Option String) (register : Register) : Session :=
  match target with
  | some name => session.set name register
  | none => session

/-- Sets names to arguments, as far as there are both. -/
def keepAll (session : Session) : List (String × Argument) → Session
  | [] => session
  | (name, argument) :: rest => (session.set name (.argument argument)).keepAll rest

/-- The contents of an argument as storage stands, as far as they lie within it. -/
def contents (session : Session) (argument : Argument) : Contents :=
  ⟨argument.shape.dtype, argument.chunks session.store⟩

/-- The bound parameters whose storage an argument shares, in order of their names. -/
def sharing (bindings : Bindings) (argument : Argument) : List String :=
  ((bindings.filter fun binding => argument.sharesStorage binding.2).map Prod.fst).mergeSort
    fun a b => a ≤ b

/-! ## 2. Answers -/

/-- A refusal that changes nothing. -/
def refuse (session : Session) (error : StepError) : Session × Except StepError Answer :=
  (session, .error error)

/-- Keeps a new argument and shows it. -/
def made (session : Session) (target : Option String) :
    Except OperatorError (Store × Argument) → Session × Except StepError Answer
  | .error error => session.refuse (.operator error)
  | .ok (store, argument) =>
    let session := { session with store := store }
    (session.keep target (.argument argument), .ok (.text (argument.render session.store)))

/-- Keeps the store after a write and shows what the argument holds. -/
def written (session : Session) (argument : Argument) :
    Except OperatorError Store → Session × Except StepError Answer
  | .error error => session.refuse (.operator error)
  | .ok store => ({ session with store := store }, .ok (.bytes (argument.toBytes store)))

/-- Keeps the results of an evaluation and shows them beside the parameters. -/
def evaluated (session : Session) (targets : List String) (bindings : Bindings) :
    Except ProgramError (List Argument) → Session × Except StepError Answer
  | .error error => session.refuse (.program error)
  | .ok outputs =>
    let shown := outputs.map fun output =>
      ⟨output.shape, session.contents output, sharing bindings output⟩
    let params := bindings.map fun binding => (binding.1, session.contents binding.2)
    (session.keepAll (targets.zip outputs), .ok (.evaluated shown params))

/-! ## 3. Steps -/

/-- Keeps an output shape and shows it. -/
def settled (session : Session) (target : Option String) :
    Except OperatorError StaticShape → Session × Except StepError Answer
  | .error error => session.refuse (.operator error)
  | .ok shape => (session.keep target (.output shape), .ok (.text shape.render))

/-- Finalizes the operator of the given name where it is kept. -/
def finalizeNamed (session : Session) (name : String) : Session × Except StepError Answer :=
  match session.operator? name with
  | none => session.refuse .noSuchName
  | some op =>
    let (finalized, pool) := op.finalize session.pool session.held
    let session := { session with pool := pool }.set name (.operator finalized)
    match finalized with
    | .elu _ => (session, .ok (.finalized finalized.isFinalized))
    | _ => (session, .ok .done)

/-- Computes the operator of the given name. -/
def computeNamed [Exponential] (session : Session) (target : Option String)
    (operator output : String)
    (args : List String) : Session × Except StepError Answer :=
  match session.operator? operator, session.output? output, session.arguments? args with
  | some op, some shape, some args =>
    let (op, pool) := op.consult session.held session.pool args
    let session := { session with pool := pool }
    match op.compute session.store shape args with
    | .error error => session.refuse (.operator error)
    | .ok (store, result) =>
      let session := { session with store := store }
      (session.keep target (.argument result),
        .ok (.computed (result.render session.store) (session.contents result)))
  | _, _, _ => session.refuse .noSuchName

/-- Compiles the program that a text spells. -/
def compileText (session : Session) (target : Option String) (text : String) :
    Session × Except StepError Answer :=
  match Program.ofText? text with
  | none => session.refuse .malformed
  | some program =>
    match session.compile program with
    | (session, .error error, events) => session.refuse (.compile error events)
    | (session, .ok compiled, events) =>
      (session.keep target (.program compiled), .ok (.compiled compiled events))

/-- Answers one step. -/
def step [Exponential] (session : Session) : Step → Session × Except StepError Answer
  | .zeroed target shape => session.made target (.ok (Argument.zeroed session.store shape))
  | .ofBytes target shape bytes =>
    session.made target (Argument.ofBytes session.store shape bytes)
  | .ofElements target shape dtype elements =>
    session.made target (Argument.ofElements session.store shape dtype elements)
  | .ofList target lens dtype elements =>
    session.made target (Argument.ofList session.store lens dtype elements)
  | .view target argument shape =>
    match session.argument? argument with
    | none => session.refuse .noSuchName
    | some argument =>
      session.made target
        ((argument.view session.store shape).map fun view => (session.store, view))
  | .materialize target shape source =>
    match session.argument? source with
    | none => session.refuse .noSuchName
    | some source => session.made target (Argument.materialize session.store shape source)
  | .copyFrom argument source =>
    match session.argument? argument, session.argument? source with
    | some argument, some source =>
      session.written argument (argument.copyFrom session.store source)
    | _, _ => session.refuse .noSuchName
  | .mapFrom argument source dtype f =>
    match session.argument? argument, session.argument? source with
    | some argument, some source =>
      session.written argument (argument.mapFrom session.store source dtype f.apply)
    | _, _ => session.refuse .noSuchName
  | .toBytes argument =>
    match session.argument? argument with
    | none => session.refuse .noSuchName
    | some argument =>
      match argument.readBytes session.store with
      | .error error => session.refuse (.operator error)
      | .ok bytes => (session, .ok (.bytes bytes))
  | .toList argument dtype =>
    match session.argument? argument with
    | none => session.refuse .noSuchName
    | some argument =>
      match argument.toList session.store dtype with
      | .error error => session.refuse (.operator error)
      | .ok elements => (session, .ok (.elements elements))
  | .sharesStorage a b =>
    match session.argument? a, session.argument? b with
    | some a, some b => (session, .ok (.truth (a.sharesStorage b)))
    | _, _ => session.refuse .noSuchName
  | .clone target source =>
    match session.find? source with
    | none => session.refuse .noSuchName
    | some register => (session.keep target register, .ok .done)
  | .drop name =>
    match session.find? name with
    | none => session.refuse .noSuchName
    | some _ => (session.drop name, .ok .done)
  | .operator target op => (session.keep target (.operator op), .ok (.text op.render))
  | .finalize operator => session.finalizeNamed operator
  | .settle target operator shape args =>
    match session.operator? operator, session.arguments? args with
    | some op, some args => session.settled target (op.settle shape args)
    | _, _ => session.refuse .noSuchName
  | .fixedOutput target shape => session.settled target (.ok shape)
  | .compute target operator output args => session.computeNamed target operator output args
  | .descriptor target alpha =>
    let (descriptor, pool) := session.pool.request session.held ⟨.elu, alpha⟩
    ({ session with pool := pool }.keep target (.descriptor descriptor),
      .ok (.activation descriptor.activation))
  | .applyDescriptor descriptor xs =>
    match session.descriptor? descriptor with
    | none => session.refuse .noSuchName
    | some descriptor => (session, .ok (.reals (xs.map descriptor.activation.apply)))
  | .sameDescriptor a b =>
    match session.descriptor? a, session.descriptor? b with
    | some a, some b => (session, .ok (.truth (a.id == b.id)))
    | _, _ => session.refuse .noSuchName
  | .live => (session, .ok (.count session.live))
  | .compile target text => session.compileText target text
  | .eval targets program params =>
    match session.program? program, session.bindings? params with
    | some program, some bindings =>
      let (session, result) := session.eval program bindings
      session.evaluated targets bindings result
    | _, _ => session.refuse .noSuchName
  | .run targets text params =>
    match Program.ofText? text with
    | none => session.refuse .malformed
    | some program =>
      match session.bindings? params with
      | none => session.refuse .noSuchName
      | some bindings =>
        let (session, result) := session.run program bindings
        session.evaluated targets bindings result

end Session

end Strided
