import Mathlib.Data.List.Forall2
import Strided.Program.Evaluate
import Strided.Proofs.Operator.Effect
import Strided.Proofs.Program.Compile
/-!
# One step of an evaluation

The values of the instructions so far have shapes that the compiled ones admit (`Admitted`).  From
there the next instruction does one of a few things.  A parameter yields what is bound to it
(`CompiledProgram.bind_eq_ok_iff`).  An operator finds its arguments, and yields the shape that was
settled for them or is an error; an error leaves the store as it is (`Admitted.exists_args`,
`Admitted.shape_of_call`, `Admitted.store_of_error`).

Whether a call whose output is settled goes through is a matter of storage.  If all values can be
copied (`Conforms`) it does, and its result can be copied again (`Conforms.evalInstruction`).
-/

namespace Strided

/-! ## 1. First parts of a list

An evaluation goes from one first part of the program to the next. -/

/-- What a prefix has at an index, the whole has there. -/
theorem getElem?_of_isPrefix {α : Type} {first all : List α} (h : first <+: all) {i : Nat} {a : α}
    (hi : first[i]? = some a) : all[i]? = some a := by
  obtain ⟨rest, rfl⟩ := h
  rw [List.getElem?_append_left (List.getElem?_eq_some_iff.mp hi).1, hi]

/-- The first part of a prefix is one. -/
theorem isPrefix_of_append {α : Type} {first second all : List α} (h : first ++ second <+: all) :
    first <+: all :=
  (List.prefix_append first second).trans h

namespace CompiledProgram

/-! ## 2. Fetching and binding

Both are lists of checks in a fixed order, and go through exactly if all of them do. -/

/-- Operands are fetched one by one, each from the values so far. -/
theorem fetch_eq_ok_iff {values : List Argument} {index : Nat} {ids : List Nat}
    {args : List Argument} :
    fetch values index ids = .ok args
      ↔ List.Forall₂ (fun id arg => values[id]? = some arg) ids args := by
  induction ids generalizing args with
  | nil => cases args <;> simp [fetch]
  | cons id ids ih =>
    rw [fetch]
    cases hvalue : values[id]? with
    | none => cases args <;> simp [hvalue]
    | some value =>
      cases hrest : fetch values index ids with
      | error error => cases args <;> simp [← ih, hrest]
      | ok rest =>
        rw [hrest] at ih
        cases args <;> simp [← ih, hvalue]

/-- A parameter is bound if its name is, to an argument that its shape admits. -/
theorem bind_eq_ok_iff {bindings : Bindings} {name : String} {shape : Shape} {arg : Argument} :
    bind bindings name shape = .ok arg
      ↔ bindings.lookup name = some arg ∧ shape.admits arg.shape = true := by
  rw [bind]
  cases hlookup : bindings.lookup name with
  | none => simp
  | some bound =>
    by_cases hadmits : shape.admits bound.shape = true
    · simp only [hadmits, if_true, Except.ok.injEq, Option.some.injEq]
      exact ⟨fun h => ⟨h, h ▸ hadmits⟩, And.left⟩
    · simp only [hadmits, Bool.false_eq_true, if_false, reduceCtorEq, Option.some.injEq, false_iff,
        not_and]
      exact fun h => h ▸ hadmits

/-! ## 3. Runs

The values found so far are a parameter of a run, so a run over two lists is two runs, the second
from the values of the first (`evalFrom_append`).  A run that fails does so at one instruction, and
all before it went through (`evalFrom_error`). -/

variable [Exponential]

/-- An evaluation in two parts: the second is run on what the first has left, unless the first
fails. -/
theorem evalFrom_append (validate : Bool) (bindings : Bindings) (values : List Argument)
    (first second : List CompiledInstruction) (store : Store) :
    evalFrom validate bindings values (first ++ second) store
      = match evalFrom validate bindings values first store with
        | (store, .error error) => (store, .error error)
        | (store, .ok values) => evalFrom validate bindings values second store := by
  induction first generalizing values store with
  | nil => rfl
  | cons entry first ih =>
    rw [List.cons_append, evalFrom, evalFrom]
    cases evalInstruction validate bindings values values.length entry store with
    | mk store outcome =>
      cases outcome with
      | error error => rfl
      | ok value => exact ih _ _

/-- An evaluation that goes through does so for every first part of the instructions. -/
theorem evalFrom_append_ok {validate : Bool} {bindings : Bindings} {values results : List Argument}
    {first second : List CompiledInstruction} {store store' : Store}
    (h : evalFrom validate bindings values (first ++ second) store = (store', .ok results)) :
    ∃ now done, evalFrom validate bindings values first store = (now, .ok done) ∧
      evalFrom validate bindings done second now = (store', .ok results) := by
  rw [evalFrom_append] at h
  cases hfirst : evalFrom validate bindings values first store with
  | mk now outcome =>
    rw [hfirst] at h
    cases outcome with
    | error error => simp at h
    | ok done => exact ⟨now, done, rfl, h⟩

/-- The last instruction of an evaluation that goes through. -/
theorem evalFrom_singleton_ok {validate : Bool} {bindings : Bindings}
    {values results : List Argument} {entry : CompiledInstruction} {store store' : Store}
    (h : evalFrom validate bindings values [entry] store = (store', .ok results)) :
    ∃ value, evalInstruction validate bindings values values.length entry store
        = (store', .ok value) ∧ results = values ++ [value] := by
  rw [evalFrom] at h
  cases hentry : evalInstruction validate bindings values values.length entry store with
  | mk now outcome =>
    rw [hentry] at h
    cases outcome with
    | error error => simp at h
    | ok value =>
      obtain ⟨rfl, hok⟩ := Prod.mk.inj h
      exact ⟨value, rfl, (Except.ok.inj hok).symm⟩

/-- One instruction that goes through is an evaluation of its own. -/
theorem evalFrom_singleton {validate : Bool} {bindings : Bindings} {values : List Argument}
    {value : Argument} {entry : CompiledInstruction} {store store' : Store}
    (h : evalInstruction validate bindings values values.length entry store
      = (store', .ok value)) :
    evalFrom validate bindings values [entry] store = (store', .ok (values ++ [value])) := by
  rw [evalFrom, h]
  rfl

/-- One value for each instruction. -/
theorem length_evalFrom {validate : Bool} {bindings : Bindings} {values results : List Argument}
    {entries : List CompiledInstruction} {store store' : Store}
    (h : evalFrom validate bindings values entries store = (store', .ok results)) :
    results.length = values.length + entries.length := by
  induction entries generalizing values store with
  | nil =>
    obtain ⟨-, hok⟩ := Prod.mk.inj h
    rw [← Except.ok.inj hok, List.length_nil, Nat.add_zero]
  | cons entry entries ih =>
    rw [← List.singleton_append] at h
    obtain ⟨now, done, hfirst, hrest⟩ := evalFrom_append_ok h
    obtain ⟨value, -, rfl⟩ := evalFrom_singleton_ok hfirst
    rw [ih hrest, List.length_append, List.length_singleton, List.length_cons]
    omega

/-- An evaluation that fails does so at one instruction, and those before it have gone through. -/
theorem evalFrom_error {validate : Bool} {bindings : Bindings} {values : List Argument}
    {entries : List CompiledInstruction} {store store' : Store} {error : ProgramError}
    (h : evalFrom validate bindings values entries store = (store', .error error)) :
    ∃ first entry rest now done, entries = first ++ entry :: rest ∧
      evalFrom validate bindings values first store = (now, .ok done) ∧
      evalInstruction validate bindings done done.length entry now = (store', .error error) := by
  induction entries generalizing values store with
  | nil => simp [evalFrom] at h
  | cons entry entries ih =>
    rw [evalFrom] at h
    cases hentry : evalInstruction validate bindings values values.length entry store with
    | mk now outcome =>
      rw [hentry] at h
      cases outcome with
      | error found =>
        obtain ⟨rfl, hfound⟩ := Prod.mk.inj h
        obtain rfl := Except.error.inj hfound
        exact ⟨[], entry, entries, store, values, rfl, rfl, hentry⟩
      | ok value =>
        obtain ⟨first, failing, rest, mid, done, rfl, hfirst, hfailing⟩ := ih h
        refine ⟨entry :: first, failing, rest, mid, done, rfl, ?_, hfailing⟩
        rw [evalFrom, hentry]
        exact hfirst

/-- An evaluation that goes through: all instructions have values, the outputs among them. -/
theorem eval_eq_ok_iff {program : CompiledProgram} {options : Options} {bindings : Bindings}
    {store store' : Store} {results : List Argument} :
    program.eval options bindings store = (store', .ok results)
      ↔ ∃ values, evalFrom options.validateOutputs bindings [] program.instructions store
            = (store', .ok values) ∧
          List.Forall₂ (fun id arg => values[id]? = some arg) program.outputs results := by
  rw [eval]
  cases hrun : evalFrom options.validateOutputs bindings [] program.instructions store with
  | mk now outcome =>
    cases outcome with
    | error error => simp
    | ok values =>
      simp only [Prod.mk.injEq, Except.ok.injEq, fetch_eq_ok_iff]
      constructor
      · rintro ⟨rfl, hresults⟩
        exact ⟨values, ⟨rfl, rfl⟩, hresults⟩
      · rintro ⟨_, ⟨rfl, rfl⟩, hresults⟩
        exact ⟨rfl, hresults⟩

end CompiledProgram

/-! ## 4. Values that conform

`Admitted` is about shapes alone and holds of every run.  `Conforms` asks of storage too, and holds
of those whose bound arguments can be copied. -/

/-- Lists that correspond have corresponding entries at every index. -/
theorem forall₂_getElem? {α β : Type} {R : α → β → Prop} {as : List α} {bs : List β}
    (h : List.Forall₂ R as bs) {i : Nat} {a : α} (ha : as[i]? = some a) :
    ∃ b, bs[i]? = some b ∧ R a b := by
  induction h generalizing i with
  | nil => simp at ha
  | cons hab _ ih =>
    cases i with
    | zero =>
      obtain rfl := Option.some.inj ha
      exact ⟨_, rfl, hab⟩
    | succ i => exact ih ha

/-- Every operand that is there has a value. -/
theorem exists_args {values : List Argument} {operands : List Nat}
    (hlt : ∀ operand ∈ operands, operand < values.length) :
    ∃ args, List.Forall₂ (fun operand arg => values[operand]? = some arg) operands args := by
  induction operands with
  | nil => exact ⟨[], .nil⟩
  | cons operand operands ih =>
    obtain ⟨hhead, htail⟩ := List.forall_mem_cons.mp hlt
    obtain ⟨args, hargs⟩ := ih htail
    exact ⟨values[operand] :: args, .cons (List.getElem?_eq_getElem hhead) hargs⟩

/-- What relates the compiled shapes to the values relates those of the operands to the
arguments. -/
theorem forall₂_shapesAt {R : Shape → Argument → Prop} {entries : List CompiledInstruction}
    {values : List Argument}
    (h : List.Forall₂ (fun entry value => R entry.shape value) entries values)
    {operands : List Nat} {args : List Argument}
    (hargs : List.Forall₂ (fun operand arg => values[operand]? = some arg) operands args) :
    List.Forall₂ R (shapesAt entries operands) args := by
  induction hargs with
  | nil => exact .nil
  | cons hvalue _ ih =>
    obtain ⟨entry, hentry, hrelated⟩ := forall₂_getElem? h.flip hvalue
    rw [shapesAt, List.filterMap_cons_some (by rw [hentry]; rfl)]
    exact .cons hrelated ih

/-- The values of the instructions so far have shapes that the compiled ones admit. -/
def Admitted (entries : List CompiledInstruction) (values : List Argument) : Prop :=
  List.Forall₂ (fun entry value => entry.shape.admits value.shape = true) entries values

/-- The values of the instructions so far conform to what was compiled, and can be copied. -/
structure Conforms (entries : List CompiledInstruction) (values : List Argument)
    (store : Store) : Prop where
  admitted : Admitted entries values
  copyable : ∀ value ∈ values, value.Copyable store

section Values

variable {entries : List CompiledInstruction} {values args : List Argument} {store store' : Store}
  {operands : List Nat}

/-- Operands that stand before an instruction have values by then. -/
theorem Admitted.exists_args (h : Admitted entries values)
    (hlt : ∀ operand ∈ operands, operand < entries.length) :
    ∃ args, List.Forall₂ (fun operand arg => values[operand]? = some arg) operands args :=
  Strided.exists_args fun operand hmem => h.length_eq ▸ hlt operand hmem

/-- The arguments have shapes that those of the operands admit. -/
theorem Admitted.admits_args (h : Admitted entries values)
    (hargs : List.Forall₂ (fun operand arg => values[operand]? = some arg) operands args) :
    List.Forall₂ (fun shape arg => shape.admits arg.shape = true) (shapesAt entries operands)
      args :=
  forall₂_shapesAt (R := fun shape arg => shape.admits arg.shape = true) h hargs

/-- What holds of all values holds of the arguments. -/
theorem forall_args {P : Argument → Prop} (h : ∀ value ∈ values, P value)
    (hargs : List.Forall₂ (fun operand arg => values[operand]? = some arg) operands args) :
    ∀ arg ∈ args, P arg := by
  induction hargs with
  | nil => simp
  | cons hvalue _ ih =>
    exact List.forall_mem_cons.mpr ⟨h _ (List.mem_of_getElem? hvalue), ih⟩

/-- Before the first instruction there is nothing to conform to. -/
theorem Conforms.nil (store : Store) : Conforms [] [] store :=
  ⟨.nil, by simp⟩

/-- One more value. -/
theorem Conforms.snoc (h : Conforms entries values store) (hgrows : store.Grows store')
    {entry : CompiledInstruction} {value : Argument}
    (hadmits : entry.shape.admits value.shape = true) (hvalue : value.Copyable store') :
    Conforms (entries ++ [entry]) (values ++ [value]) store' := by
  refine ⟨List.rel_append h.admitted (.cons hadmits .nil), ?_⟩
  intro arg harg
  rcases List.mem_append.mp harg with harg | harg
  · exact (h.copyable arg harg).grows hgrows
  · rw [List.mem_singleton.mp harg]
    exact hvalue

end Values

/-! ## 5. An operator

The shapes recorded for the operands admit those of the arguments, so that a call is settled as it
was compiled.  Where it fails it fails before it writes. -/

section Apply

variable [Exponential] {entries : List CompiledInstruction} {values args : List Argument}
  {store store' : Store} {operands : List Nat} {op : Operator} {shape : Shape}
  {aliasOf : Option Nat}

open CompiledProgram

/-- With its operands at hand, an instruction is its operator applied to them. -/
theorem evalInstruction_apply
    (hargs : List.Forall₂ (fun operand arg => values[operand]? = some arg) operands args)
    (validate : Bool) (bindings : Bindings) (index : Nat) (store : Store) :
    evalInstruction validate bindings values index ⟨.apply op operands, shape, aliasOf⟩ store
      = applyOperator validate index op shape args store := by
  simp only [evalInstruction, fetch_eq_ok_iff.mpr hargs]

/-- A call that goes through was computed for the output that was settled. -/
theorem applyOperator_ok {validate : Bool} {index : Nat} {result : Argument}
    (h : applyOperator validate index op shape args store = (store', .ok result)) :
    ∃ output, op.settle shape args = .ok output ∧
      op.compute store output args = .ok (store', result) := by
  rw [applyOperator] at h
  split at h
  next => simp at h
  next output hsettle =>
    split at h
    next => simp at h
    next now found hcompute =>
      split at h
      next => simp at h
      next =>
        obtain ⟨rfl, hok⟩ := Prod.mk.inj h
        obtain rfl := Except.ok.inj hok
        exact ⟨output, hsettle, hcompute⟩

/-- A call on admitted values yields what was settled for it, and that is admitted. -/
theorem Admitted.shape_of_call (h : Admitted entries values)
    (hresolves : op.Resolves (shapesAt entries operands) shape)
    (hargs : List.Forall₂ (fun operand arg => values[operand]? = some arg) operands args)
    {output : StaticShape} (hsettle : op.settle shape args = .ok output) {result : Argument}
    (hcompute : op.compute store output args = .ok (store', result)) :
    result.shape = output ∧ shape.admits result.shape = true := by
  obtain ⟨hcall, hadmits⟩ := Operator.settle_ok hresolves (h.admits_args hargs) hsettle
  have hshape := Operator.shape_of_compute hcall hcompute
  exact ⟨hshape, hshape ▸ hadmits⟩

/-- **A call that fails leaves the store as it is.**  It fails before anything is written, or
because its output is checked, and then the check would have to fail. -/
theorem Admitted.store_of_error (h : Admitted entries values)
    (hlt : ∀ operand ∈ operands, operand < entries.length)
    (hresolves : op.Resolves (shapesAt entries operands) shape) {validate : Bool}
    {bindings : Bindings} {index : Nat} {error : ProgramError}
    (heval : evalInstruction validate bindings values index
      ⟨.apply op operands, shape, aliasOf⟩ store = (store', .error error)) :
    store' = store := by
  obtain ⟨args, hargs⟩ := h.exists_args hlt
  rw [evalInstruction_apply hargs, applyOperator] at heval
  split at heval
  next => exact (Prod.mk.inj heval).1.symm
  next output hsettle =>
    split at heval
    next => exact (Prod.mk.inj heval).1.symm
    next now result hcompute =>
      have hshape := (h.shape_of_call hresolves hargs hsettle hcompute).1
      simp [hshape] at heval

/-- **A call whose output is settled goes through**, and its result conforms. -/
theorem Conforms.evalInstruction (h : Conforms entries values store)
    (hargs : List.Forall₂ (fun operand arg => values[operand]? = some arg) operands args)
    (hresolves : op.Resolves (shapesAt entries operands) shape) {output : StaticShape}
    (hsettle : op.settle shape args = .ok output) (aliasOf : Option Nat) (validate : Bool)
    (bindings : Bindings) :
    ∃ store' result,
      CompiledProgram.evalInstruction validate bindings values values.length
        ⟨.apply op operands, shape, aliasOf⟩ store = (store', .ok result) ∧
      op.Computed store args output store' result ∧
      Conforms (entries ++ [⟨.apply op operands, shape, aliasOf⟩]) (values ++ [result]) store' := by
  obtain ⟨hcall, hadmits⟩ :=
    Operator.settle_ok hresolves (h.admitted.admits_args hargs) hsettle
  obtain ⟨store', result, hcompute, hcomputed⟩ :=
    Operator.compute_spec (forall_args h.copyable hargs) hcall
  refine ⟨store', result, ?_, hcomputed, h.snoc hcomputed.grows ?_ hcomputed.copyable⟩
  · rw [evalInstruction_apply hargs, applyOperator]
    simp only [hsettle, hcompute, hcomputed.shape_eq, bne_self_eq_false, Bool.and_false,
      Bool.false_eq_true, if_false]
  · rw [hcomputed.shape_eq]
    exact hadmits

/-- A call that goes through had its output settled. -/
theorem Conforms.of_evalInstruction (h : Conforms entries values store)
    (hlt : ∀ operand ∈ operands, operand < entries.length)
    (hresolves : op.Resolves (shapesAt entries operands) shape) {validate : Bool}
    {bindings : Bindings} {result : Argument}
    (heval : CompiledProgram.evalInstruction validate bindings values values.length
      ⟨.apply op operands, shape, aliasOf⟩ store = (store', .ok result)) :
    ∃ args output,
      List.Forall₂ (fun operand arg => values[operand]? = some arg) operands args ∧
      op.Resolves (Operator.callShapes args) (.static output) ∧
      op.Computed store args output store' result ∧
      Conforms (entries ++ [⟨.apply op operands, shape, aliasOf⟩]) (values ++ [result]) store' := by
  obtain ⟨args, hargs⟩ := h.admitted.exists_args hlt
  have hcall := heval
  rw [evalInstruction_apply hargs] at hcall
  obtain ⟨output, hsettle, -⟩ := applyOperator_ok hcall
  obtain ⟨now, found, hfound, hcomputed, hconforms⟩ :=
    h.evalInstruction hargs hresolves hsettle aliasOf validate bindings
  rw [hfound] at heval
  obtain ⟨rfl, hok⟩ := Prod.mk.inj heval
  obtain rfl := Except.ok.inj hok
  exact ⟨args, output, hargs,
    (Operator.settle_ok hresolves (h.admitted.admits_args hargs) hsettle).1, hcomputed, hconforms⟩

end Apply

end Strided
