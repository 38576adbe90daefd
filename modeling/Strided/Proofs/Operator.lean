import Mathlib.Data.List.Forall2
import Strided.Program.Evaluate
import Strided.Proofs.Buffer.Argument
import Strided.Proofs.Reshape.Call
/-!
# What operators do

`Operator.Resolves` lists all the ways in which an operator accepts its inputs, so that a proof
about compilation or about a call takes the cases from there (`Operator.outputShape_eq_ok_iff`).

For arguments that conform to the shapes an operator was compiled for,

* what is settled for a call is the output for the concrete shapes and conforms to the compiled
  output (`Operator.settle_ok`), and settling goes through where no argument of a dynamic shape is
  empty and none has too many elements for a word (`Operator.exists_settle`);
* computing goes through once the output is settled and the arguments can be copied, and the result
  reads as the image of the first argument (`Operator.compute_spec`).
-/

namespace Strided

/-! ## 1. Conforming shapes

An argument conforms to a dynamic shape only in standard layout, which is why a call of a dynamic
operator never has to look for a view. -/

namespace Shape

/-- A static shape is met by itself alone, strides included. -/
theorem admits_static_iff {shape actual : StaticShape} :
    (Shape.static shape).admits actual = true ↔ actual = shape := by
  rw [admits, beq_iff_eq]
  exact eq_comm

/-- A dynamic shape is met by lens in its ranges, but only in standard layout. -/
theorem admits_dynamic_iff {shape : DynamicShape} {actual : StaticShape} :
    (Shape.dynamic shape).admits actual = true ↔
      actual.dtype = shape.dtype ∧ shape.accepts actual.lens = true ∧ actual.isStandard = true := by
  simp only [admits, Bool.and_eq_true, beq_iff_eq, and_assoc]
  exact and_congr_left fun _ => eq_comm

/-- An instance of a dynamic shape has elements. -/
def Populated (shape : Shape) (actual : StaticShape) : Prop :=
  shape.isDynamic = true → product actual.lens ≠ 0

end Shape

namespace Operator

/-! ## 2. Accepted inputs

Each constructor is one way in which an operator accepts its inputs, with the conditions that it
checks.  The converse, that nothing else is accepted, is what later proofs use. -/

/-- The ways in which an operator accepts its inputs. -/
inductive Resolves : Operator → List Shape → Shape → Prop
  | reshapeStatic {dims : List Int} {input output : StaticShape} (hone : dims.count (-1) ≤ 1)
      (h : Reshape.ofStatic dims input = .ok output) :
      Resolves (.reshape dims) [.static input] (.static output)
  | reshapeDynamic {dims : List Int} {input output : DynamicShape} (hone : dims.count (-1) ≤ 1)
      (h : Reshape.ofDynamic dims input = .ok output) :
      Resolves (.reshape dims) [.dynamic input] (.dynamic output)
  | contiguousStatic (input : StaticShape) :
      Resolves .contiguous [.static input] (.static input.toStandard)
  | contiguousDynamic (input : DynamicShape) :
      Resolves .contiguous [.dynamic input] (.dynamic input)
  | elu {unit : Elu} {x output : StaticShape} (hfloat : x.dtype = .float32 ∨ x.dtype = .float64)
      (hdtype : output.dtype = x.dtype) (hlens : output.lens = x.lens) :
      Resolves (.elu unit) [.static x, .static output] (.static output)

/-- Any one input will do; the output is its standard form. -/
theorem contiguousShape_ok_iff {inputs : List Shape} {output : Shape} :
    contiguousShape inputs = .ok output ↔ Resolves .contiguous inputs output := by
  constructor
  · intro h
    match inputs with
    | [] => simp [contiguousShape, InputCheck.start, InputCheck.allowDynamic, InputCheck.has] at h
    | _ :: _ :: _ =>
      simp [contiguousShape, InputCheck.start, InputCheck.allowDynamic, InputCheck.has] at h
    | [.static input] =>
      simp [contiguousShape, InputCheck.start, InputCheck.allowDynamic, InputCheck.has] at h
      exact h ▸ .contiguousStatic input
    | [.dynamic input] =>
      simp [contiguousShape, InputCheck.start, InputCheck.allowDynamic, InputCheck.has] at h
      exact h ▸ .contiguousDynamic input
  · rintro (_ | _) <;>
      simp [contiguousShape, InputCheck.start, InputCheck.allowDynamic, InputCheck.has]

/-- One input, static or dynamic, and the resolver of its kind. -/
theorem reshapeShape_ok_iff {dims : List Int} {inputs : List Shape} {output : Shape} :
    reshapeShape dims inputs = .ok output ↔ Resolves (.reshape dims) inputs output := by
  constructor
  · intro h
    obtain ⟨hone, input, rfl⟩ := reshapeShape_ok h
    cases input with
    | static input =>
      rw [reshapeShape_static hone] at h
      cases hshape : Reshape.ofStatic dims input with
      | error error => simp [hshape, Except.map] at h
      | ok shape =>
        rw [hshape] at h
        exact Except.ok.inj h ▸ .reshapeStatic hone hshape
    | dynamic input =>
      rw [reshapeShape_dynamic hone] at h
      cases hshape : Reshape.ofDynamic dims input with
      | error error => simp [hshape, Except.map] at h
      | ok shape =>
        rw [hshape] at h
        exact Except.ok.inj h ▸ .reshapeDynamic hone hshape
  · rintro (⟨hone, h⟩ | ⟨hone, h⟩)
    · rw [reshapeShape_static hone, h]
      rfl
    · rw [reshapeShape_dynamic hone, h]
      rfl

/-- Fixed axes say no less than their sizes. -/
theorem map_fixed_inj {a b : List Nat} (h : a.map Axis.fixed = b.map Axis.fixed) : a = b :=
  List.map_injective_iff.mpr (fun _ _ heq => congrArg Axis.min heq) h

/-- Two static inputs of one type, single or double precision, and of one size; the output has the
layout of the second, into which it is written. -/
theorem eluShape_ok_iff {unit : Elu} {inputs : List Shape} {output : Shape} :
    eluShape inputs = .ok output ↔ Resolves (.elu unit) inputs output := by
  constructor
  · intro h
    match inputs with
    | [] => simp [eluShape, InputCheck.start, InputCheck.has] at h
    | [_] => simp [eluShape, InputCheck.start, InputCheck.has] at h
    | _ :: _ :: _ :: _ => simp [eluShape, InputCheck.start, InputCheck.has] at h
    | [.dynamic _, _] => simp [eluShape, InputCheck.start, InputCheck.has, Shape.isDynamic] at h
    | [.static _, .dynamic _] =>
      simp [eluShape, InputCheck.start, InputCheck.has, Shape.isDynamic] at h
    | [.static x, .static out] =>
      -- two static inputs are left, and only their types and lens to be compared
      have hcheck : (InputCheck.start "elu" [.static x, .static out]).has 2 = .ok () := by
        simp [InputCheck.start, InputCheck.has, Shape.isDynamic]
      simp only [eluShape, hcheck] at h
      split at h
      next => simp_all
      next => simp_all
      next => simp_all
      next hdtype hdims =>
        split at h
        next hfloat =>
          obtain rfl := Except.ok.inj h
          refine .elu hfloat ?_ ?_
          · by_contra hne
            simp [InputCheck.sameType, InputCheck.start, Shape.dtype, hne] at hdtype
          · by_contra hne
            have hne' : ¬out.lens.map Axis.fixed = x.lens.map Axis.fixed :=
              fun heq => hne (map_fixed_inj heq)
            simp [InputCheck.sameDims, InputCheck.start, InputCheck.firstUnlike?, Shape.dims, hne']
              at hdims
        next => simp at h
  · rintro (_ | _ | _ | _ | ⟨hfloat, hdtype, hlens⟩)
    simp [eluShape, InputCheck.start, InputCheck.has, InputCheck.sameType, InputCheck.sameDims,
      InputCheck.firstUnlike?, Shape.isDynamic, Shape.dtype, Shape.dims, hdtype, hlens, hfloat]

/-- **Every operator resolves exactly as `Resolves` says**, by the lemma of its own above. -/
theorem outputShape_eq_ok_iff {op : Operator} {inputs : List Shape} {output : Shape} :
    op.outputShape inputs = .ok output ↔ Resolves op inputs output := by
  cases op with
  | reshape dims => exact reshapeShape_ok_iff
  | contiguous => exact contiguousShape_ok_iff
  | elu unit => exact eluShape_ok_iff

/-! ## 3. Settling a call

A dynamic output is settled by asking the operator again for the concrete shapes, and comparing with
what was compiled.  The comparison never fails for arguments that conform; the asking may, so that
it is a hypothesis here that no ranged argument is empty. -/

section Settle

variable {op : Operator} {shapes : List Shape} {shape : Shape} {args : List Argument}
  {output : StaticShape}

/-- The shapes of the arguments, as the operator sees them in a call. -/
def callShapes (args : List Argument) : List Shape :=
  args.map fun arg => .static arg.shape

/-- **What is settled for a call** is the output for the concrete shapes, and conforms to the
compiled output. -/
theorem settle_ok (h : Resolves op shapes shape)
    (hargs : List.Forall₂ (fun shape arg => shape.admits arg.shape = true) shapes args)
    (hsettle : op.settle shape args = .ok output) :
    Resolves op (callShapes args) (.static output) ∧ shape.admits output = true := by
  cases h with
  | reshapeStatic hone h =>
    obtain ⟨arg, _, harg, ⟨⟩, rfl⟩ := List.forall₂_cons_left_iff.mp hargs
    obtain rfl := Except.ok.inj hsettle
    rw [callShapes, List.map_singleton, Shape.admits_static_iff.mp harg]
    exact ⟨.reshapeStatic hone h, Shape.admits_static_iff.mpr rfl⟩
  | reshapeDynamic hone h =>
    obtain ⟨arg, _, harg, ⟨⟩, rfl⟩ := List.forall₂_cons_left_iff.mp hargs
    obtain ⟨hdtype, -, hstandard⟩ := Shape.admits_dynamic_iff.mp harg
    -- the output of the call is static, as its inputs are
    obtain ⟨hcall, haccepts⟩ := settle_dynamic_ok_iff.mp hsettle
    have hcall := outputShape_eq_ok_iff.mp hcall
    refine ⟨hcall, Shape.admits_dynamic_iff.mpr ⟨?_, haccepts, ?_⟩⟩
    · cases hcall with
      | reshapeStatic _ hconcrete =>
        rw [Reshape.dtype_of_ofStatic hconcrete, hdtype, (Reshape.ofDynamic_ok hone h).2.2.2.1]
    · cases hcall with
      | reshapeStatic _ hconcrete => exact Reshape.isStandard_of_ofStatic hconcrete hstandard
  | contiguousStatic input =>
    obtain ⟨arg, _, harg, ⟨⟩, rfl⟩ := List.forall₂_cons_left_iff.mp hargs
    obtain rfl := Except.ok.inj hsettle
    rw [callShapes, List.map_singleton, Shape.admits_static_iff.mp harg]
    exact ⟨.contiguousStatic input, Shape.admits_static_iff.mpr rfl⟩
  | contiguousDynamic input =>
    obtain ⟨arg, _, harg, ⟨⟩, rfl⟩ := List.forall₂_cons_left_iff.mp hargs
    obtain ⟨hdtype, -, -⟩ := Shape.admits_dynamic_iff.mp harg
    obtain ⟨hcall, haccepts⟩ := settle_dynamic_ok_iff.mp hsettle
    have hcall := outputShape_eq_ok_iff.mp hcall
    refine ⟨hcall, Shape.admits_dynamic_iff.mpr ⟨?_, haccepts, ?_⟩⟩
    · cases hcall with
      | contiguousStatic => exact hdtype
    · cases hcall with
      | contiguousStatic => exact StaticShape.isStandard_standard _ _
  | elu hfloat hdtype hlens =>
    obtain ⟨x, rest, hx, hrest, rfl⟩ := List.forall₂_cons_left_iff.mp hargs
    obtain ⟨out, _, hout, ⟨⟩, rfl⟩ := List.forall₂_cons_left_iff.mp hrest
    obtain rfl := Except.ok.inj hsettle
    rw [callShapes, List.map_cons, List.map_singleton, Shape.admits_static_iff.mp hx,
      Shape.admits_static_iff.mp hout]
    exact ⟨.elu hfloat hdtype hlens, Shape.admits_static_iff.mpr rfl⟩

/-- **Settling goes through** where the arguments of dynamic shapes have elements and a word counts
them, and the output has elements again. -/
theorem exists_settle (h : Resolves op shapes shape)
    (hargs : List.Forall₂ (fun shape arg => shape.admits arg.shape = true) shapes args)
    (hfits : ∀ arg ∈ args, product arg.shape.lens < sizeLimit)
    (hpopulated : List.Forall₂ (fun shape arg => shape.Populated arg.shape) shapes args) :
    ∃ output, op.settle shape args = .ok output ∧ shape.Populated output := by
  cases h with
  | reshapeStatic => exact ⟨_, rfl, nofun⟩
  | contiguousStatic => exact ⟨_, rfl, nofun⟩
  | elu => exact ⟨_, rfl, nofun⟩
  | @reshapeDynamic dims input out hone h =>
    obtain ⟨arg, _, harg, ⟨⟩, rfl⟩ := List.forall₂_cons_left_iff.mp hargs
    obtain ⟨_, _, hsome, ⟨⟩, ⟨⟩⟩ := List.forall₂_cons_left_iff.mp hpopulated
    obtain ⟨hdtype, haccepts, hstandard⟩ := Shape.admits_dynamic_iff.mp harg
    have hfit := hfits arg List.mem_cons_self
    have hpos : ∀ len ∈ arg.shape.lens, 0 < len := product_ne_zero_iff.mp (hsome rfl)
    have hresolvable := Reshape.resolvable_of_pos hone h haccepts hfit hpos
    obtain ⟨hwithin, hproduct⟩ := Reshape.accepts_sizesFor hone h haccepts hfit hresolvable
    have hcall := (Reshape.ofStatic_of_ofDynamic hone h haccepts hfit).mpr ⟨hresolvable, rfl⟩
    rw [← hdtype, ← StaticShape.eq_standard hstandard] at hcall
    refine ⟨_, settle_dynamic_ok_iff.mpr
      ⟨outputShape_eq_ok_iff.mpr (.reshapeStatic hone hcall), hwithin⟩, fun _ => ?_⟩
    exact hproduct.trans_ne (hsome rfl)
  | contiguousDynamic input =>
    obtain ⟨arg, _, harg, ⟨⟩, rfl⟩ := List.forall₂_cons_left_iff.mp hargs
    obtain ⟨_, _, hsome, ⟨⟩, ⟨⟩⟩ := List.forall₂_cons_left_iff.mp hpopulated
    obtain ⟨-, haccepts, -⟩ := Shape.admits_dynamic_iff.mp harg
    exact ⟨_, settle_dynamic_ok_iff.mpr
      ⟨outputShape_eq_ok_iff.mpr (.contiguousStatic arg.shape), haccepts⟩, hsome⟩

end Settle

end Operator

/-! ## 4. Computing a call

`Content` is what an argument reads as, together with its type, without its layout; `image` is what
an operator makes of it.  `Computed` says what is known after a call, and the three operators have
it for different reasons: a new buffer, the same bytes under another shape, and a write. -/

/-- What an argument reads as: the type and the bytes of each element, in row-major order. -/
structure Content where
  dtype : DType
  chunks : List (List UInt8)

/-- What an argument reads as. -/
def Argument.content (argument : Argument) (store : Store) : Content :=
  ⟨argument.shape.dtype, argument.chunks store⟩

namespace Operator

/-- Whether the operator writes its output over an input. -/
def overwrites : Operator → Bool
  | .elu _ => true
  | _ => false

/-- Only an activation overwrites. -/
theorem eq_elu_of_overwrites {op : Operator} (h : op.overwrites = true) :
    ∃ unit, op = .elu unit := by
  cases op with
  | elu unit => exact ⟨unit, rfl⟩
  | reshape | contiguous => exact absurd h Bool.false_ne_true

/-- The descriptor of the operator, if it holds one, is that of its own activation. -/
def Faithful : Operator → Prop
  | .elu unit => ∀ descriptor, unit.descriptor = some descriptor →
      descriptor.activation = unit.activation
  | _ => True

variable [Exponential]

/-- What the output reads as, by the first input: an activation maps the elements, and any other
operator leaves them as they are. -/
def image : Operator → Content → Content
  | .elu unit, x => ⟨x.dtype, x.chunks.map fun chunk =>
      x.dtype.encode (Element.activate unit.activation.apply (x.dtype.decode chunk))⟩
  | _, x => x

/-- What computing a call leaves behind: an argument that can be copied, every buffer there with its
size, none changed that existed but the one an overwriting operator writes to, and a result that
reads as the image of the first argument.  What is written over must keep its elements apart for
that. -/
structure Computed (op : Operator) (store : Store) (args : List Argument) (output : StaticShape)
    (store' : Store) (result : Argument) : Prop where
  shape_eq : result.shape = output
  copyable : result.Copyable store'
  grows : store.Grows store'
  kept : ∀ buffer < store.buffers.size, (op.overwrites = true → buffer ≠ result.buffer) →
    store'.bytes buffer = store.bytes buffer
  reads : op.Faithful → (op.overwrites = true → output.offsets.Nodup) →
    args.head?.map (fun x => op.image (x.content store)) = some (result.content store')

/-- A copy into standard layout. -/
theorem computed_materialize {op : Operator} {store : Store} {input : Argument}
    {output : StaticShape} (himage : ∀ x, op.image x = x) (hinput : input.Copyable store)
    (hstandard : output.isStandard = true) (hdtype : output.dtype = input.shape.dtype)
    (hcount : product output.lens = product input.shape.lens) :
    ∃ store' result, Argument.materialize store output input = .ok (store', result) ∧
      Computed op store [input] output store' result := by
  have hpacked : product output.lens * output.dtype.width < sizeLimit := by
    rw [hcount, hdtype]
    exact hinput.packed_lt
  have hbytes : output.elementSpace * output.dtype.width < sizeLimit := by
    rw [StaticShape.elementSpace_of_isStandard hstandard]
    exact Nat.lt_of_le_of_lt (Nat.mul_le_mul_right _ output.elements_le_product) hpacked
  obtain ⟨store', result, hcopy, hshape, hresult, hgrows, hkept, hreads⟩ :=
    Argument.materialize_spec hinput.toFits (StaticShape.room_of_isStandard hstandard) hbytes hdtype
      (congrArg wrap hcount)
  refine ⟨store', result, hcopy, hshape, ⟨hresult, hshape ▸ hpacked⟩, hgrows,
    fun buffer hlt _ => hkept buffer hlt, ?_⟩
  intro _ _
  simp only [List.head?_cons, Option.map_some, himage, Argument.content, hshape, hdtype,
    hreads (StaticShape.nodup_offsets_of_isStandard hstandard)]

/-- The same bytes under another shape. -/
theorem computed_view {op : Operator} {store : Store} {input : Argument} {output : StaticShape}
    (himage : ∀ x, op.image x = x) (hinput : input.Copyable store)
    (hdtype : output.dtype = input.shape.dtype)
    (hcount : product output.lens = product input.shape.lens)
    (hoffsets : output.offsets = input.shape.offsets) :
    ∃ result, input.view store output = .ok result ∧
      Computed op store [input] output store result := by
  refine ⟨{ input with shape := output }, Argument.view_spec hinput.toFits hdtype
    (hcount ▸ hinput.count_lt) hoffsets, rfl, hinput.withShape hdtype hcount hoffsets,
    Store.Grows.refl store, fun _ _ _ => rfl, fun _ _ => ?_⟩
  simp only [List.head?_cons, Option.map_some, himage, Argument.content,
    Argument.chunks_withShape hdtype hoffsets, hdtype]

omit [Exponential] in
/-- The descriptor of a faithful activation applies the activation itself. -/
theorem activation_of_faithful {unit : Elu} (h : (elu unit).Faithful) :
    (unit.descriptor.map Descriptor.activation).getD unit.activation = unit.activation := by
  cases hdescriptor : unit.descriptor with
  | none => rfl
  | some descriptor => exact h descriptor hdescriptor

/-- A write of the images over the second argument. -/
theorem computed_map {unit : Elu} {store : Store} {x out : Argument}
    (hx : x.Copyable store) (hout : out.Copyable store)
    (hfloat : x.shape.dtype = .float32 ∨ x.shape.dtype = .float64)
    (hdtype : out.shape.dtype = x.shape.dtype) (hlens : out.shape.lens = x.shape.lens) :
    ∃ store' result, (elu unit).compute store out.shape [x, out] = .ok (store', result) ∧
      Computed (elu unit) store [x, out] out.shape store' result := by
  have hcount : out.shape.elements = x.shape.elements := by
    rw [StaticShape.elements, StaticShape.elements, hlens]
  obtain ⟨store', hmap, hgrows, hkept, hreads⟩ := Argument.mapFrom_spec
    (f := Element.activate
      ((unit.descriptor.map Descriptor.activation).getD unit.activation).apply)
    hout.toFits hx.toFits rfl hdtype hcount
  refine ⟨store', out, ?_, rfl, hout.grows hgrows, hgrows,
    fun buffer _ hne => hkept buffer (hne rfl), fun hfaithful hnodup => ?_⟩
  · simp only [compute, computeElu, if_pos hfloat, hmap]
  · simp only [List.head?_cons, Option.map_some, image, Argument.content, hdtype,
      hreads (hnodup rfl), activation_of_faithful hfaithful]

/-- **What computing a call comes to.**  Once the output is settled it always goes through. -/
theorem compute_spec {op : Operator} {store : Store} {args : List Argument} {output : StaticShape}
    (hargs : ∀ arg ∈ args, arg.Copyable store)
    (h : Resolves op (callShapes args) (.static output)) :
    ∃ store' result, op.compute store output args = .ok (store', result) ∧
      Computed op store args output store' result := by
  generalize hshapes : callShapes args = shapes at h
  generalize hout : Shape.static output = shape at h
  cases h with
  | reshapeDynamic => simp at hout
  | contiguousDynamic => simp at hout
  | @reshapeStatic dims _ _ hone h =>
    obtain rfl := Shape.static.inj hout
    obtain ⟨input, rfl, hinput⟩ := List.map_eq_singleton_iff.mp hshapes
    obtain rfl := Shape.static.inj hinput
    have himage : ∀ x, (reshape dims).image x = x := fun _ => rfl
    have hcopyable := hargs input List.mem_cons_self
    obtain ⟨hdtype, hoffsets⟩ := Reshape.ofStatic_ok hcopyable.count_lt h
    have hcount : product _ = product input.shape.lens :=
      (Reshape.product_lens_of_ofStatic h).1.trans
        (StaticShape.elements_eq_product hcopyable.count_lt)
    -- the layout of the input alone decides whether the reshape copies or views
    rw [compute]
    by_cases hstandard : input.shape.isStandard = true
    · rw [if_pos hstandard]
      exact computed_materialize himage hcopyable
        (Reshape.isStandard_of_ofStatic h hstandard) hdtype hcount
    · obtain ⟨result, hview, hcomputed⟩ :=
        computed_view himage hcopyable hdtype hcount hoffsets
      rw [if_neg hstandard, hview]
      exact ⟨store, result, rfl, hcomputed⟩
  | contiguousStatic input' =>
    obtain ⟨input, rfl, hinput⟩ := List.map_eq_singleton_iff.mp hshapes
    obtain rfl := Shape.static.inj hinput
    obtain rfl := Shape.static.inj hout
    exact computed_materialize (fun _ => rfl) (hargs input List.mem_cons_self)
      (StaticShape.isStandard_standard _ _) rfl rfl
  | @elu unit x' out' hfloat hdtype hlens =>
    obtain rfl := Shape.static.inj hout
    obtain ⟨x, rest, rfl, hx, hrest⟩ := List.map_eq_cons_iff.mp hshapes
    obtain ⟨out, rfl, hout⟩ := List.map_eq_singleton_iff.mp hrest
    obtain rfl := Shape.static.inj hx
    obtain rfl := Shape.static.inj hout
    exact computed_map (hargs x List.mem_cons_self) (hargs out (by simp)) hfloat hdtype hlens

end Operator

end Strided
