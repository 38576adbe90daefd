import Strided.Number.Series
import Strided.Proofs.Program.Evaluate
/-!
# Compiled shapes are sound

A program whose dynamic parameters have no axis that may be empty runs through for all arguments it
admits, and every value then has the shape that was compiled for it (`Program.eval_of_admitted`).

The run is built up instruction by instruction.  What carries it, beside the shapes, is that every
dynamic value has elements (`Populated`): then an entry of a reshape can be inferred in every call.

It is assumed that an argument which is bound can be copied (`Argument.Copyable`): it fits its
buffer, and a word counts its elements and their bytes.  The size of a new buffer may have wrapped
around, and an argument over it is admitted but does not fit: the evaluation then fails
(`sparseProgram_fails`).  No bound on the elements of other values is assumed, as no instruction
adds any.  That buffers of any size can be had is part of the model.
-/

namespace Strided

open CompiledProgram

/-! ## 1. What a shape says of a value

A static shape says what the shape of a value is.  A dynamic one says that it is in standard layout,
of the type, and of lens within the ranges. -/

/-- Lens within ranges that are not empty are not zero. -/
theorem DynamicShape.product_ne_zero_of_accepts {shape : DynamicShape} {lens : List Nat}
    (h : shape.accepts lens = true) (hmin : ∀ axis ∈ shape.dims, 1 ≤ axis.min) :
    product lens ≠ 0 := by
  obtain ⟨hlength, hwithin⟩ := accepts_iff.mp h
  have hlens : (shape.dims.zip lens).map Prod.snd = lens := List.map_snd_zip (Nat.le_of_eq hlength)
  rw [product_ne_zero_iff, ← hlens]
  intro len hlen
  obtain ⟨⟨axis, _⟩, hpair, rfl⟩ := List.mem_map.mp hlen
  exact Nat.le_trans (hmin axis (List.of_mem_zip hpair).1) (hwithin _ hpair).1

/-- The values of dynamic shapes have elements. -/
def Populated (entries : List CompiledInstruction) (values : List Argument) : Prop :=
  List.Forall₂ (fun entry value => entry.shape.Populated value.shape) entries values

/-- An argument that may be bound to a parameter of the given shape. -/
structure Bindable (shape : Shape) (arg : Argument) (store : Store) : Prop where
  admitted : shape.admits arg.shape = true
  copyable : arg.Copyable store

/-! ## 2. A whole run

A dynamic operator is settled for each call, and that can fail only where a ranged axis is empty or
a count wraps around.  No parameter has such an axis, and every operator passes that on, as it
conserves the elements. -/

section Run

variable [Exponential] {validate : Bool} {bindings : Bindings} {store : Store}
  {entries : List CompiledInstruction}

/-- The instructions run through, and the values conform. -/
def Runs (validate : Bool) (bindings : Bindings) (store : Store)
    (entries : List CompiledInstruction) : Prop :=
  ∃ now values, evalFrom validate bindings [] entries store = (now, .ok values) ∧
    store.Grows now ∧ Conforms entries values now ∧ Populated entries values

namespace Runs

/-- An empty run is sound. -/
theorem nil : Runs validate bindings store [] :=
  ⟨store, [], rfl, Store.Grows.refl store, Conforms.nil store, .nil⟩

/-- A parameter keeps a run sound if its argument is bound, fits and has elements where the shape
says so. -/
theorem param (h : Runs validate bindings store entries) {name : String} {shape : Shape}
    {arg : Argument} (hlookup : bindings.lookup name = some arg) (harg : Bindable shape arg store)
    (hpopulated : shape.Populated arg.shape) :
    Runs validate bindings store (entries ++ [⟨.param name shape, shape, none⟩]) := by
  obtain ⟨now, values, heval, hgrows, hconforms, hvalues⟩ := h
  have hbind : evalInstruction validate bindings values values.length
      ⟨.param name shape, shape, none⟩ now = (now, .ok arg) := by
    simp only [evalInstruction, bind_eq_ok_iff.mpr ⟨hlookup, harg.admitted⟩]
  refine ⟨now, values ++ [arg], ?_, hgrows,
    hconforms.snoc (Store.Grows.refl now) harg.admitted (harg.copyable.grows hgrows),
    List.rel_append hvalues (.cons hpopulated .nil)⟩
  rw [evalFrom_append, heval]
  exact evalFrom_singleton hbind

/-- **An instruction keeps a run sound**: the shapes were resolved from those of its operands, which
by now have arguments of these shapes. -/
theorem apply (h : Runs validate bindings store entries) {op : Operator} {operands : List Nat}
    {shape : Shape} {aliasOf : Option Nat} (hlt : ∀ operand ∈ operands, operand < entries.length)
    (hresolves : op.Resolves (shapesAt entries operands) shape) :
    Runs validate bindings store (entries ++ [⟨.apply op operands, shape, aliasOf⟩]) := by
  obtain ⟨now, values, heval, hgrows, hconforms, hvalues⟩ := h
  obtain ⟨args, hargs⟩ := hconforms.admitted.exists_args hlt
  have hcount : ∀ arg ∈ args, product arg.shape.lens < sizeLimit := fun arg harg =>
    (forall_args hconforms.copyable hargs arg harg).count_lt
  have hpopulated :=
    forall₂_shapesAt (R := fun shape arg => shape.Populated arg.shape) hvalues hargs
  obtain ⟨output, hsettle, houtput⟩ :=
    Operator.exists_settle hresolves (hconforms.admitted.admits_args hargs) hcount hpopulated
  obtain ⟨store', result, hstep, hcomputed, hconforms'⟩ :=
    hconforms.evalInstruction hargs hresolves hsettle aliasOf validate bindings
  refine ⟨store', values ++ [result], ?_, hgrows.trans hcomputed.grows, hconforms',
    List.rel_append hvalues (.cons (hcomputed.shape_eq ▸ houtput) .nil)⟩
  rw [evalFrom_append, heval]
  exact evalFrom_singleton hstep

end Runs

/-- Every compiled program runs through. -/
theorem Compiles.runs {policy : AliasPolicy} {source : List Instruction} {places : List Nat}
    (h : Compiles policy source entries places)
    (hranged : ∀ name shape, .param name (.dynamic shape) ∈ source →
      ∀ axis ∈ shape.dims, 1 ≤ axis.min)
    (hbound : ∀ name shape, .param name shape ∈ source →
      ∃ arg, bindings.lookup name = some arg ∧ Bindable shape arg store) (validate : Bool) :
    Runs validate bindings store entries := by
  refine h.induction_entries .nil ?_ ?_
  · intro entries name shape hmem hruns
    obtain ⟨arg, hlookup, harg⟩ := hbound name shape hmem
    refine hruns.param hlookup harg ?_
    cases shape with
    | static shape => exact nofun
    | dynamic shape =>
      obtain ⟨-, haccepts, -⟩ := Shape.admits_dynamic_iff.mp harg.admitted
      exact fun _ => DynamicShape.product_ne_zero_of_accepts haccepts (hranged name shape hmem)
  · intro entries op operands shape hlt _ hresolves hruns
    exact hruns.apply hlt hresolves

end Run

end Strided
