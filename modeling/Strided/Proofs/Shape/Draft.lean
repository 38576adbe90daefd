import Strided.Proofs.Json.Access
import Strided.Shape.Json
/-!
# Shapes that are written

A `ShapeDraft` is a shape as it may be spelled, whether or not there is such a shape.  Every shape
has a draft, and its document is that of its draft (`Shape.toJson_draft`).

`Shape.ofJson?_draft`: what is read of a draft is the shape it is the draft of, so nothing if there
is none.  For a static shape that is a matter of the number of strides, for a dynamic one of the
order of bounds (`ShapeDraft.isSound_draft`).

The other way around, any document that is read as a shape spells a draft, and is read exactly if
that draft is sound (`Shape.ofJson?_eq`, `ShapeDraft.exists_check?`).
-/

namespace Strided

/-- A shape as it may be spelled. -/
inductive ShapeDraft where
  | static (dtype : DType) (lens strides : List Nat)
  /-- Each axis as its bounds. -/
  | dynamic (dtype : DType) (bounds : List (Nat × Nat))
  deriving DecidableEq, Repr

/-- The shape as it is spelled. -/
def Shape.draft : Shape → ShapeDraft
  | .static shape => .static shape.dtype shape.lens shape.strides
  | .dynamic shape => .dynamic shape.dtype (shape.dims.map fun axis => (axis.min, axis.max))

namespace ShapeDraft

/-- There is such a shape: it has a stride for every len, and its bounds are in order. -/
def IsSound : ShapeDraft → Prop
  | .static _ lens strides => strides.length = lens.length
  | .dynamic _ bounds => ∀ pair ∈ bounds, pair.1 ≤ pair.2

/-- All numbers are sizes. -/
def IsSized : ShapeDraft → Prop
  | .static _ lens strides => (∀ n ∈ lens, n < sizeLimit) ∧ ∀ n ∈ strides, n < sizeLimit
  | .dynamic _ bounds => ∀ pair ∈ bounds, pair.1 < sizeLimit ∧ pair.2 < sizeLimit

instance : DecidablePred IsSized
  | .static _ lens strides =>
    inferInstanceAs (Decidable ((∀ n ∈ lens, n < sizeLimit) ∧ ∀ n ∈ strides, n < sizeLimit))
  | .dynamic _ bounds =>
    inferInstanceAs (Decidable (∀ pair ∈ bounds, pair.1 < sizeLimit ∧ pair.2 < sizeLimit))

/-- The shape that is spelled, if there is one. -/
def check? : ShapeDraft → Option Shape
  | .static dtype lens strides => (StaticShape.withStrides dtype lens strides).toOption.map .static
  | .dynamic dtype bounds =>
    (bounds.mapM fun pair => (Axis.ofBounds pair.1 pair.2).toOption).map fun dims =>
      .dynamic ⟨dtype, dims⟩

/-- Bounds as a record. -/
def boundsJson (pair : Nat × Nat) : Json :=
  .record [("min", .ofNat pair.1), ("max", .ofNat pair.2)]

/-- The draft as a document. -/
def toJson : ShapeDraft → Json
  | .static dtype lens strides =>
    .record [("static", .record
      [("dtype", dtype.toJson), ("lens", .array (lens.map .ofNat)),
        ("strides", .array (strides.map .ofNat))])]
  | .dynamic dtype bounds =>
    .record [("dynamic", .record
      [("dtype", dtype.toJson), ("dims", .array (bounds.map boundsJson))])]

/-! ## 1. Which shapes there are

A draft is checked as a shape is built, by the same functions. -/

/-- Bounds make the axis that has them, if they are in order. -/
theorem axis_eq_some_iff {pair : Nat × Nat} {axis : Axis} :
    (Axis.ofBounds pair.1 pair.2).toOption = some axis ↔ (axis.min, axis.max) = pair := by
  obtain ⟨min, max⟩ := pair
  obtain ⟨low, high, hle⟩ := axis
  rw [Axis.ofBounds]
  split
  next => simp [Except.toOption, eq_comm]
  next hnot =>
    simp only [Except.toOption, reduceCtorEq, Prod.mk.injEq, false_iff]
    rintro ⟨rfl, rfl⟩
    exact hnot hle

/-- **What is spelled is the shape of which it is the draft.** -/
theorem check?_eq_some_iff {draft : ShapeDraft} {shape : Shape} :
    draft.check? = some shape ↔ shape.draft = draft := by
  cases draft with
  | static dtype lens strides =>
    rw [check?, StaticShape.withStrides]
    split
    next hlength =>
      rw [Except.toOption, Option.map_some, Option.some.injEq]
      constructor
      · rintro rfl
        rfl
      · intro hdraft
        obtain ⟨⟨dtype', lens', strides', _⟩⟩ | ⟨_⟩ := shape
        · obtain ⟨rfl, rfl, rfl⟩ := ShapeDraft.static.inj hdraft
          rfl
        · simp [Shape.draft] at hdraft
    next hlength =>
      -- a shape with these strides would have as many as it has lens
      refine iff_of_false (by simp [Except.toOption]) fun hdraft => ?_
      obtain ⟨⟨dtype', lens', strides', hsame⟩⟩ | ⟨_⟩ := shape
      · obtain ⟨-, rfl, rfl⟩ := ShapeDraft.static.inj hdraft
        exact hlength hsame
      · simp [Shape.draft] at hdraft
  | dynamic dtype bounds =>
    have hbounds {dims : List Axis} :
        (bounds.mapM fun pair => (Axis.ofBounds pair.1 pair.2).toOption) = some dims
          ↔ dims.map (fun axis => (axis.min, axis.max)) = bounds :=
      mapM_eq_some_iff fun pair _ axis => axis_eq_some_iff
    simp only [check?, Option.map_eq_some_iff, hbounds]
    constructor
    · rintro ⟨dims, rfl, rfl⟩
      rfl
    · intro hdraft
      obtain ⟨_⟩ | ⟨dtype', dims⟩ := shape
      · simp [Shape.draft] at hdraft
      · obtain ⟨rfl, hdims⟩ := ShapeDraft.dynamic.inj hdraft
        exact ⟨dims, hdims, rfl⟩

/-- Every shape there is passed its check when it was made. -/
theorem isSound_draft (shape : Shape) : shape.draft.IsSound := by
  cases shape with
  | static shape => exact shape.length_strides
  | dynamic shape => exact List.forall_mem_map.mpr fun axis _ => axis.min_le_max

end ShapeDraft

/-! ## 2. What is read of a draft

What is not a size is not read as a number, so the drafts here are those of sizes (`IsSized`). -/

/-- What is written of a shape is what its draft says. -/
theorem Shape.toJson_draft (shape : Shape) : shape.toJson = shape.draft.toJson := by
  cases shape with
  | static shape => rfl
  | dynamic shape =>
    rw [draft, ShapeDraft.toJson, List.map_map]
    rfl

/-- A type is read back from its name. -/
theorem DType.ofJson?_toJson (intake : Intake) (dtype : DType) :
    ofJson? intake dtype.toJson = some dtype := by
  rw [toJson, Json.ofText, ofJson?, Glyph.text?_ofText, Option.bind_some, ofTag?_tag]

/-- An axis is read back if its bounds are in order. -/
theorem Axis.ofJson?_boundsJson {pair : Nat × Nat} (hmin : pair.1 < sizeLimit)
    (hmax : pair.2 < sizeLimit) :
    ofJson? (ShapeDraft.boundsJson pair) = (ofBounds pair.1 pair.2).toOption := by
  have hfields : (ShapeDraft.boundsJson pair).record? ["min", "max"]
      = some [.ofNat pair.1, .ofNat pair.2] := Json.record?_record (by simp)
  simp only [ofJson?, hfields, Json.natural?_ofNat hmin, Json.natural?_ofNat hmax]

/-- A static shape is read back if it has as many strides as lens. -/
theorem StaticShape.ofJson?_record (intake : Intake) (dtype : DType) {lens strides : List Nat}
    (hlens : ∀ n ∈ lens, n < sizeLimit) (hstrides : ∀ n ∈ strides, n < sizeLimit) :
    ofJson? intake (.record [("dtype", dtype.toJson), ("lens", .array (lens.map .ofNat)),
        ("strides", .array (strides.map .ofNat))])
      = (withStrides dtype lens strides).toOption := by
  have hfields : (Json.record [("dtype", dtype.toJson), ("lens", .array (lens.map .ofNat)),
      ("strides", .array (strides.map .ofNat))]).record? ["dtype", "lens", "strides"]
      = some [dtype.toJson, .array (lens.map .ofNat), .array (strides.map .ofNat)] :=
    Json.record?_record (by simp)
  simp only [ofJson?, hfields, DType.ofJson?_toJson, Json.list?_ofNat hlens,
    Json.list?_ofNat hstrides]

/-- A dynamic shape is read back if the bounds of all its axes are in order. -/
theorem DynamicShape.ofJson?_record (intake : Intake) (dtype : DType) {bounds : List (Nat × Nat)}
    (hbounds : ∀ pair ∈ bounds, pair.1 < sizeLimit ∧ pair.2 < sizeLimit) :
    ofJson? intake (.record [("dtype", dtype.toJson),
        ("dims", .array (bounds.map ShapeDraft.boundsJson))])
      = (bounds.mapM fun pair => (Axis.ofBounds pair.1 pair.2).toOption).map
          fun dims => ⟨dtype, dims⟩ := by
  have hfields : (Json.record [("dtype", dtype.toJson),
      ("dims", .array (bounds.map ShapeDraft.boundsJson))]).record? ["dtype", "dims"]
      = some [dtype.toJson, .array (bounds.map ShapeDraft.boundsJson)] :=
    Json.record?_record (by simp)
  have hdims : (Json.array (bounds.map ShapeDraft.boundsJson)).list? Axis.ofJson?
      = bounds.mapM fun pair => (Axis.ofBounds pair.1 pair.2).toOption := by
    rw [Json.list?_map]
    exact mapM_congr fun pair hpair =>
      Axis.ofJson?_boundsJson (hbounds pair hpair).1 (hbounds pair hpair).2
  simp only [ofJson?, hfields, DType.ofJson?_toJson, hdims]
  cases bounds.mapM fun pair => (Axis.ofBounds pair.1 pair.2).toOption <;> rfl

/-- **What is read of a draft is the shape it spells**, whatever intake there was. -/
theorem Shape.ofJson?_draft (intake : Intake) {draft : ShapeDraft} (hsized : draft.IsSized) :
    ofJson? intake draft.toJson = draft.check? := by
  cases draft with
  | static dtype lens strides =>
    rw [ofJson?, ShapeDraft.toJson, Json.single?_record]
    exact congrArg (Option.map Shape.static)
      (StaticShape.ofJson?_record intake dtype hsized.1 hsized.2)
  | dynamic dtype bounds =>
    rw [ofJson?, ShapeDraft.toJson, Json.single?_record]
    refine (congrArg (Option.map Shape.dynamic)
      (DynamicShape.ofJson?_record intake dtype hsized)).trans ?_
    rw [Option.map_map]
    rfl

/-! ## 3. Drafts can be spelled and gathered

A shape stands inside an instruction, which is gathered before it is read. -/

namespace ShapeDraft

/-- Bounds are spelled as two numbers. -/
theorem spelled_boundsJson (pair : Nat × Nat) : (boundsJson pair).Spelled :=
  Json.spelled_record (by simp [Json.spelled_ofNat])

/-- A shape is spelled in its type and sizes. -/
theorem spelled (draft : ShapeDraft) : draft.toJson.Spelled := by
  cases draft with
  | static dtype lens strides =>
    refine Json.spelled_record (List.forall_mem_singleton.mpr (Json.spelled_record ?_))
    simp [DType.toJson, Json.Spelled.string, Json.spelled_map, Json.spelled_ofNat]
  | dynamic dtype bounds =>
    refine Json.spelled_record (List.forall_mem_singleton.mpr (Json.spelled_record ?_))
    simp [DType.toJson, Json.Spelled.string, Json.spelled_map, spelled_boundsJson]

/-- Bounds are gathered, being sizes. -/
theorem gatherable_boundsJson {pair : Nat × Nat} (hmin : pair.1 < sizeLimit)
    (hmax : pair.2 < sizeLimit) (depth : Nat) :
    (boundsJson pair).gatherable (depth + 1) = true := by
  simp [boundsJson, Json.gatherable_record, Json.gatherable_ofNat depth hmin,
    Json.gatherable_ofNat depth hmax]

/-- **Whatever is sized is gathered**: all numbers in it are words. -/
theorem gatherable {draft : ShapeDraft} (hsized : draft.IsSized) (depth : Nat) :
    draft.toJson.gatherable (depth + 4) = true := by
  cases draft with
  | static dtype lens strides =>
    have hlens := Json.gatherable_map (depth + 1) fun n hn =>
      Json.gatherable_ofNat (depth + 1) (hsized.1 n hn)
    have hstrides := Json.gatherable_map (depth + 1) fun n hn =>
      Json.gatherable_ofNat (depth + 1) (hsized.2 n hn)
    simp [toJson, Json.gatherable_record, DType.toJson, Json.gatherable_ofText, hlens, hstrides]
  | dynamic dtype bounds =>
    have hbounds := Json.gatherable_map (depth + 1) fun pair hpair =>
      gatherable_boundsJson (hsized pair hpair).1 (hsized pair hpair).2 depth
    simp [toJson, Json.gatherable_record, DType.toJson, Json.gatherable_ofText, hbounds]

end ShapeDraft

/-! ## 4. Which draft a document spells

Reading a shape is reading a draft of it, with nothing asked of it, and then the check. -/

/-- The bounds that a document spells. -/
def ShapeDraft.boundsOfJson? (document : Json) : Option (Nat × Nat) :=
  match document.record? ["min", "max"] with
  | some [min, max] =>
    match min.natural?, max.natural? with
    | some min, some max => some (min, max)
    | _, _ => none
  | _ => none

/-- The type, lens and strides that a document spells. -/
def ShapeDraft.staticOfJson? (intake : Intake) (document : Json) : Option ShapeDraft :=
  match document.record? ["dtype", "lens", "strides"] with
  | some [dtype, lens, strides] =>
    match DType.ofJson? intake dtype, lens.list? Json.natural?, strides.list? Json.natural? with
    | some dtype, some lens, some strides => some (.static dtype lens strides)
    | _, _, _ => none
  | _ => none

/-- The type and bounds that a document spells. -/
def ShapeDraft.dynamicOfJson? (intake : Intake) (document : Json) : Option ShapeDraft :=
  match document.record? ["dtype", "dims"] with
  | some [dtype, dims] =>
    match DType.ofJson? intake dtype, dims.list? boundsOfJson? with
    | some dtype, some bounds => some (.dynamic dtype bounds)
    | _, _ => none
  | _ => none

/-- The shape that a document spells, whether or not there is such a shape. -/
def ShapeDraft.ofJson? (intake : Intake) (document : Json) : Option ShapeDraft :=
  match document.single? with
  | some ("static", shape) => staticOfJson? intake shape
  | some ("dynamic", shape) => dynamicOfJson? intake shape
  | _ => none

/-- The reader of an axis reads bounds and puts them in order. -/
theorem Axis.ofJson?_eq (document : Json) :
    ofJson? document
      = (ShapeDraft.boundsOfJson? document).bind fun pair => (ofBounds pair.1 pair.2).toOption := by
  unfold ofJson? ShapeDraft.boundsOfJson?
  rcases document.record? ["min", "max"] with _ | ⟨_ | ⟨min, _ | ⟨max, _ | ⟨_, _⟩⟩⟩⟩
  · rfl
  · rfl
  · rfl
  · dsimp only
    cases min.natural? <;> cases max.natural? <;> rfl
  · rfl

/-- The reader of a static shape reads a draft and checks it. -/
theorem StaticShape.ofJson?_eq (intake : Intake) (document : Json) :
    (ofJson? intake document).map Shape.static
      = (ShapeDraft.staticOfJson? intake document).bind ShapeDraft.check? := by
  unfold ofJson? ShapeDraft.staticOfJson?
  rcases document.record? ["dtype", "lens", "strides"] with
    _ | ⟨_ | ⟨dtype, _ | ⟨lens, _ | ⟨strides, _ | ⟨_, _⟩⟩⟩⟩⟩
  · rfl
  · rfl
  · rfl
  · rfl
  · dsimp only
    cases DType.ofJson? intake dtype <;> cases lens.list? Json.natural? <;>
      cases strides.list? Json.natural? <;> rfl
  · rfl

/-- So does that of a dynamic shape. -/
theorem DynamicShape.ofJson?_eq (intake : Intake) (document : Json) :
    (ofJson? intake document).map Shape.dynamic
      = (ShapeDraft.dynamicOfJson? intake document).bind ShapeDraft.check? := by
  unfold ofJson? ShapeDraft.dynamicOfJson?
  rcases document.record? ["dtype", "dims"] with _ | ⟨_ | ⟨dtype, _ | ⟨dims, _ | ⟨_, _⟩⟩⟩⟩
  · rfl
  · rfl
  · rfl
  · -- the axes are checked one by one as they are read, or all of them afterwards
    dsimp only
    rw [funext Axis.ofJson?_eq, Json.list?_bind]
    cases DType.ofJson? intake dtype with
    | none => rfl
    | some dtype =>
      cases dims.list? ShapeDraft.boundsOfJson? with
      | none => rfl
      | some bounds =>
        simp only [Option.bind_some, ShapeDraft.check?]
        cases bounds.mapM fun pair => (Axis.ofBounds pair.1 pair.2).toOption <;> rfl
  · rfl

/-- **A shape is read by its draft.** -/
theorem Shape.ofJson?_eq (intake : Intake) (document : Json) :
    ofJson? intake document = (ShapeDraft.ofJson? intake document).bind ShapeDraft.check? := by
  unfold ofJson? ShapeDraft.ofJson?
  simp only [StaticShape.ofJson?_eq, DynamicShape.ofJson?_eq]
  rcases document.single? with _ | ⟨tag, shape⟩
  · rfl
  · split <;> simp_all

/-- Of a sound draft there is a shape. -/
theorem ShapeDraft.exists_check? {draft : ShapeDraft} (h : draft.IsSound) :
    ∃ shape, draft.check? = some shape := by
  cases draft with
  | static dtype lens strides =>
    exact ⟨.static ⟨dtype, lens, strides, h⟩, check?_eq_some_iff.mpr rfl⟩
  | dynamic dtype bounds =>
    have haxes : ∀ pair ∈ bounds, ∃ axis, (Axis.ofBounds pair.1 pair.2).toOption = some axis :=
      fun pair hpair => ⟨⟨pair.1, pair.2, h pair hpair⟩, axis_eq_some_iff.mpr rfl⟩
    obtain ⟨dims, hdims⟩ := exists_mapM haxes
    exact ⟨.dynamic ⟨dtype, dims⟩, by rw [check?, hdims, Option.map_some]⟩

end Strided
