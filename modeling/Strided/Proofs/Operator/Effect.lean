import Strided.Proofs.Buffer.Frame
import Strided.Proofs.Operator
/-!
# What a call does to storage

A call does one of three things to the store, and `Operator.Effect` lists them: it copies its input
into a new buffer, it views its input, or it writes over its second input.  Each has its own
declaration of the storage that the output takes over, so the declaration tells which one it was.

The declaration is made at compile time, of the compiled shapes, and the choice between a copy and a
view falls at run time, by the layout of the argument.  They agree because a dynamic shape admits
none but standard layouts (`Operator.outputAlias_callShapes`).
-/

namespace Strided

namespace Operator

variable {op : Operator} {store store' : Store} {args : List Argument} {result : Argument}

/-- **What a call does to storage.** -/
inductive Effect (store : Store) : Operator → List Argument → Store → Argument → Prop
  /-- The output is in a new buffer, and no other changes. -/
  | copied {op : Operator} {args : List Argument} {store' : Store} {result : Argument}
      (halias : op.outputAlias (callShapes args) = none)
      (hnew : result.buffer = store.buffers.size)
      (hkept : ∀ buffer < store.buffers.size, store'.bytes buffer = store.bytes buffer) :
      Effect store op args store' result
  /-- The output is a view of the input, and nothing changes. -/
  | viewed {op : Operator} {input : Argument} (shape : StaticShape)
      (halias : op.outputAlias (callShapes [input]) = some 0) :
      Effect store op [input] store { input with shape := shape }
  /-- The output is the second input, after a chunk was written to each of its elements. -/
  | written (unit : Elu) (x out : Argument) {items : List (List UInt8)}
      (hitems : ∀ chunk ∈ items, chunk.length = out.shape.dtype.width) :
      Effect store (.elu unit) [x, out] (out.scatter store items) out

section Compute

variable [Exponential]

/-- The three ways in which a call goes through, by what it does with its arguments. -/
theorem compute_cases {output : StaticShape}
    (h : op.compute store output args = .ok (store', result)) :
    (op.outputAlias (callShapes args) = none ∧ ∃ input, args = [input] ∧
      Argument.materialize store output input = .ok (store', result)) ∨
    (op.outputAlias (callShapes args) = some 0 ∧ store' = store ∧ ∃ input, args = [input] ∧
      input.view store output = .ok result) ∨
    ∃ unit x dtype f, op = .elu unit ∧ args = [x, result] ∧
      result.mapFrom store x dtype f = .ok store' := by
  match op, args with
  | .reshape dims, [input] =>
    rw [compute] at h
    split at h
    next hstandard =>
      exact Or.inl ⟨by simp [outputAlias, callShapes, hstandard], input, rfl, h⟩
    next hstandard =>
      cases hview : input.view store output with
      | error error => simp [hview, Except.map] at h
      | ok view =>
        rw [hview] at h
        obtain ⟨rfl, rfl⟩ := Prod.mk.inj (Except.ok.inj h)
        exact Or.inr (Or.inl ⟨by simp [outputAlias, callShapes, hstandard], rfl, input, rfl, hview⟩)
  | .contiguous, [input] => exact Or.inl ⟨rfl, input, rfl, h⟩
  | .elu unit, [x, out] =>
    simp only [compute, computeElu] at h
    split at h
    next =>
      split at h
      next => simp at h
      next hmap =>
        obtain ⟨rfl, rfl⟩ := Prod.mk.inj (Except.ok.inj h)
        exact Or.inr (Or.inr ⟨unit, x, _, _, rfl, rfl, hmap⟩)
    next => simp at h
  | .reshape _, [] | .reshape _, _ :: _ :: _ => simp [compute] at h
  | .contiguous, [] | .contiguous, _ :: _ :: _ => simp [compute] at h
  | .elu _, [] | .elu _, [_] | .elu _, _ :: _ :: _ :: _ => simp [compute] at h

/-- **Every call that goes through** has one of the three effects. -/
theorem effect_of_compute {output : StaticShape}
    (h : op.compute store output args = .ok (store', result)) :
    Effect store op args store' result := by
  rcases compute_cases h with ⟨halias, input, rfl, hcopy⟩ | ⟨halias, rfl, input, rfl, hview⟩ |
    ⟨unit, x, dtype, f, rfl, rfl, hmap⟩
  · obtain ⟨hnew, hkept⟩ := Argument.materialize_ok hcopy
    exact .copied halias hnew hkept
  · obtain rfl := Argument.view_ok hview
    exact .viewed output halias
  · obtain ⟨items, hitems, rfl⟩ := Argument.mapFrom_ok hmap
    exact .written unit x result hitems

/-- **What an operator yields has the shape that was settled.** -/
theorem shape_of_compute {output : StaticShape}
    (hresolves : op.Resolves (callShapes args) (.static output))
    (h : op.compute store output args = .ok (store', result)) : result.shape = output := by
  rcases compute_cases h with ⟨-, input, rfl, hcopy⟩ | ⟨-, -, input, rfl, hview⟩ |
    ⟨unit, x, -, -, rfl, rfl, -⟩
  · exact (Argument.grows_materialize hcopy).1
  · rw [Argument.view_ok hview]
  · rw [callShapes, List.map_cons, List.map_singleton] at hresolves
    cases hresolves
    rfl

/-- No call takes a buffer away. -/
theorem grows_of_compute {output : StaticShape}
    (h : op.compute store output args = .ok (store', result)) : store.Grows store' := by
  rcases compute_cases h with ⟨-, input, rfl, hcopy⟩ | ⟨-, rfl, -⟩ |
    ⟨unit, x, dtype, f, -, -, hmap⟩
  · exact (Argument.grows_materialize hcopy).2.1
  · exact Store.Grows.refl _
  · exact Argument.grows_mapFrom hmap

/-- The buffer of the output is there, if those of the arguments are. -/
theorem buffer_lt_of_compute {output : StaticShape}
    (hargs : ∀ arg ∈ args, arg.buffer < store.buffers.size)
    (h : op.compute store output args = .ok (store', result)) :
    result.buffer < store'.buffers.size := by
  rcases compute_cases h with ⟨-, input, rfl, hcopy⟩ | ⟨-, rfl, input, rfl, hview⟩ |
    ⟨unit, x, dtype, f, -, rfl, hmap⟩
  · exact (Argument.grows_materialize hcopy).2.2
  · rw [Argument.view_ok hview]
    exact hargs input List.mem_cons_self
  · exact Nat.lt_of_lt_of_le (hargs result (by simp)) (Argument.grows_mapFrom hmap).count_le

end Compute

/-- A declared operand is the one whose storage the output takes over. -/
theorem Effect.shares (h : Effect store op args store' result) {k : Nat}
    (halias : op.outputAlias (callShapes args) = some k) :
    ∃ arg, args[k]? = some arg ∧ result.sharesStorage arg = true := by
  cases h with
  | copied hnone => simp [hnone] at halias
  | @viewed _ input shape hview =>
    obtain rfl : 0 = k := Option.some.inj (hview.symm.trans halias)
    exact ⟨input, rfl, beq_self_eq_true _⟩
  | written unit x =>
    obtain rfl : 1 = k := Option.some.inj halias
    exact ⟨result, rfl, beq_self_eq_true _⟩

/-- Without a declaration the output is in a buffer that was not there before. -/
theorem Effect.fresh (h : Effect store op args store' result)
    (halias : op.outputAlias (callShapes args) = none) {arg : Argument}
    (harg : arg.buffer < store.buffers.size) : result.sharesStorage arg = false := by
  cases h with
  | copied _ hnew =>
    rw [Argument.sharesStorage, hnew, beq_eq_false_iff_ne]
    exact Nat.ne_of_gt harg
  | viewed shape hview => simp [hview] at halias
  | written => simp [outputAlias, callShapes] at halias

/-- **The declaration holds of every call**: what is declared of the compiled shapes is what would
be declared of the shapes of the arguments. -/
theorem outputAlias_callShapes {shapes : List Shape} {shape : Shape} (h : Resolves op shapes shape)
    (hargs : List.Forall₂ (fun shape arg => shape.admits arg.shape = true) shapes args) :
    op.outputAlias (callShapes args) = op.outputAlias shapes := by
  cases h with
  | reshapeStatic =>
    obtain ⟨arg, _, harg, ⟨⟩, rfl⟩ := List.forall₂_cons_left_iff.mp hargs
    rw [callShapes, List.map_singleton, Shape.admits_static_iff.mp harg]
  | reshapeDynamic =>
    obtain ⟨arg, _, harg, ⟨⟩, rfl⟩ := List.forall₂_cons_left_iff.mp hargs
    obtain ⟨-, -, hstandard⟩ := Shape.admits_dynamic_iff.mp harg
    simp [callShapes, outputAlias, hstandard]
  | contiguousStatic | contiguousDynamic => rfl
  | elu =>
    obtain ⟨x, rest, -, hrest, rfl⟩ := List.forall₂_cons_left_iff.mp hargs
    obtain ⟨out, _, -, ⟨⟩, rfl⟩ := List.forall₂_cons_left_iff.mp hrest
    rfl

end Operator

end Strided
