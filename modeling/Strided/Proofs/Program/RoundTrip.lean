import Strided.Program.Json
import Strided.Proofs.Operator
import Strided.Proofs.Shape.Draft
/-!
# Programs that are written and read

`Program.text_roundTrip`: a program reads from its text as it was, a text is refused if the program
has a scale that is not finite, and whatever is read has a stride for every len and bounds in order,
which is checked: of parameters whose shapes are spelled at will, only such are accepted.

A draft is a program whose parameters have shapes as they may be spelled (`ShapeDraft`), and the
statements come from two facts about it.  `ProgramDraft.ofText?_toText`: the text of a draft reads
as the program it spells, if it spells one; the numbers in it are sizes and signed numbers of 64
bits (`IsSized`), and no more than that is asked of it.  `Program.ofText?_eq`: any text at all, also
one that was never written here, is read as a draft and then checked.

Texts and whole numbers read back exactly.  Scales need not: their digits are scaled by a power of
ten with a rounding step, so that a text may spell a neighbour of the number that was written
(`Strided.Json.Numeral`).  That a scale reads back is a hypothesis on that scale
(`Binary64.ReadsBack`); where it fails, the program that is read has what the digits come to in its
place (`Operator.reread?`), and no program is read if they come to nothing.
-/

namespace Strided

/-- The number is read as it was written. -/
def Binary64.ReadsBack (x : Binary64) : Prop :=
  (Json.ofReal x).real? = some x

instance (x : Binary64) : Decidable x.ReadsBack :=
  inferInstanceAs (Decidable (_ = _))

/-! ## 1. Operators

Operators are read through gathered documents.  The digits of a scale may be too large to be
gathered, and then they could not be read either (`reread?_of_not_gatherable`), so that gathering
refuses no operator that would have been read. -/

namespace Operator

/-- The numbers to be spelled are signed numbers of 64 bits. -/
def IsSized : Operator → Prop
  | .reshape dims => ∀ n ∈ dims, -signedLimit ≤ n ∧ n < signedLimit
  | _ => True

instance : DecidablePred IsSized
  | .reshape dims =>
    inferInstanceAs (Decidable (∀ n ∈ dims, -(signedLimit : Int) ≤ n ∧ n < signedLimit))
  | .contiguous | .elu _ => isTrue trivial

/-- The operator that is read where this one was written: a descriptor is not spelled, and of a
scale its digits. -/
def reread? : Operator → Option Operator
  | .elu unit => (Json.ofReal unit.alpha).real?.map fun alpha => .elu ⟨alpha, none⟩
  | op => some op

/-- An operator is read from what was gathered of it, scale and all. -/
theorem ofGathered?_toJson (intake : Intake) {op : Operator} (h : op.IsSized) :
    ofGathered? intake op.toJson = op.reread? := by
  cases op with
  | reshape dims =>
    have htag : (toJson (.reshape dims)).tagged? "name"
        = some (.ofText "reshape", .record [("dims", .array (dims.map .ofInt))]) :=
      Json.tagged?_record (by simp)
    have hfields : (Json.record [("dims", .array (dims.map .ofInt))]).record? ["dims"]
        = some [.array (dims.map .ofInt)] := Json.record?_record (by simp)
    have hchoice : (Json.ofText "reshape").choice? intake names = some 0 := by
      rw [Json.choice?_ofText]
      decide
    have hdims : (Json.array (dims.map .ofInt)).list? Json.integer? = some dims := by
      rw [Json.list?_map]
      exact mapM_eq_some_self fun n hn => Json.integer?_ofInt (h n hn).1 (h n hn).2
    simp only [ofGathered?, htag, hchoice, hfields, hdims]
    rfl
  | contiguous =>
    have htag : (toJson .contiguous).tagged? "name" = some (.ofText "contiguous", .record []) :=
      Json.tagged?_record (by simp)
    have hchoice : (Json.ofText "contiguous").choice? intake names = some 1 := by
      rw [Json.choice?_ofText]
      decide
    simp only [ofGathered?, htag, hchoice]
    rfl
  | elu unit =>
    have htag : (toJson (.elu unit)).tagged? "name"
        = some (.ofText "elu", .record [("alpha", .ofReal unit.alpha)]) :=
      Json.tagged?_record (by simp)
    have hfields : (Json.record [("alpha", .ofReal unit.alpha)]).record? ["alpha"]
        = some [.ofReal unit.alpha] := Json.record?_record (by simp)
    have hchoice : (Json.ofText "elu").choice? intake names = some 2 := by
      rw [Json.choice?_ofText]
      decide
    simp only [ofGathered?, htag, hchoice, hfields]
    rfl

/-- An operator is spelled in its name and attributes. -/
theorem spelled (op : Operator) : op.toJson.Spelled := by
  cases op with
  | reshape dims =>
    exact Json.spelled_record (by simp [Json.Spelled.string, Json.spelled_map, Json.spelled_ofInt])
  | contiguous => exact Json.spelled_record (by simp [Json.Spelled.string])
  | elu unit => exact Json.spelled_record (by simp [Json.Spelled.string, Json.spelled_ofReal])

/-- What cannot be gathered cannot be read either. -/
theorem reread?_of_not_gatherable {op : Operator} (h : op.IsSized) {depth : Nat}
    (hgather : op.toJson.gatherable (depth + 2) = false) : op.reread? = none := by
  cases op with
  | reshape dims =>
    have hdims := Json.gatherable_map depth fun n hn =>
      Json.gatherable_ofInt depth (h n hn).1 (h n hn).2
    simp [toJson, Json.gatherable_record, Json.gatherable_ofText, hdims] at hgather
  | contiguous => simp [toJson, Json.gatherable_record, Json.gatherable_ofText] at hgather
  | elu unit =>
    have halpha : (Json.ofReal unit.alpha).gatherable (depth + 1) = false := by
      simpa [toJson, Json.gatherable_record, Json.gatherable_ofText] using hgather
    rw [reread?, Json.real?_of_not_gatherable halpha, Option.map_none]

end Operator

/-! ## 2. Instructions

An instruction may have only so many containers open in it, and a draft never has as many. -/

/-- An instruction, its shape as it may be spelled. -/
inductive InstructionDraft where
  | param (name : String) (shape : ShapeDraft)
  | apply (op : Operator) (inputs : List Nat)
  deriving DecidableEq, Repr

/-- The instruction as it is spelled. -/
def Instruction.draft : Instruction → InstructionDraft
  | .param name shape => .param name shape.draft
  | .apply op inputs => .apply op inputs

namespace InstructionDraft

/-- All numbers but scales are sizes, or signed numbers of 64 bits. -/
def IsSized : InstructionDraft → Prop
  | .param _ shape => shape.IsSized
  | .apply op inputs => op.IsSized ∧ ∀ n ∈ inputs, n < sizeLimit

instance : DecidablePred IsSized
  | .param _ shape => inferInstanceAs (Decidable shape.IsSized)
  | .apply op inputs => inferInstanceAs (Decidable (op.IsSized ∧ ∀ n ∈ inputs, n < sizeLimit))

/-- The draft as a record of its kind and contents. -/
def toJson : InstructionDraft → Json
  | .param name shape =>
    .record [("kind", .ofText "param"), ("name", .ofText name), ("shape", shape.toJson)]
  | .apply op inputs => (Instruction.apply op inputs).toJson

/-- The instruction that is read. -/
def check? : InstructionDraft → Option Instruction
  | .param name shape => shape.check?.map (.param name)
  | .apply op inputs => op.reread?.map fun op => .apply op inputs

/-- So is an instruction. -/
theorem spelled (draft : InstructionDraft) : draft.toJson.Spelled := by
  cases draft with
  | param name shape => exact Json.spelled_record (by simp [Json.Spelled.string, shape.spelled])
  | apply op inputs =>
    refine Json.spelled_record ?_
    simp [Json.Spelled.string, op.spelled, Json.spelled_map, Json.spelled_ofNat]

/-- A parameter is read back if its shape passes the check. -/
theorem ofJson?_param (name : String) {shape : ShapeDraft} (h : shape.IsSized) (depth : Nat) :
    Instruction.ofJson? (depth + 5) (toJson (.param name shape))
      = shape.check?.map (.param name) := by
  have hgather : (toJson (.param name shape)).gatherable (depth + 5) = true := by
    simp [toJson, Json.gatherable_record, Json.gatherable_ofText, ShapeDraft.gatherable h]
  have htag : (toJson (.param name shape)).tagged? "kind" = some (.ofText "param",
      .record [("name", .ofText name), ("shape", shape.toJson)]) :=
    Json.tagged?_record (by simp)
  have hchoice : (Json.ofText "param").choice? .direct ["param", "apply"] = some 0 := by
    rw [Json.choice?_ofText]
    decide
  have hfields : (Json.record [("name", .ofText name), ("shape", shape.toJson)]).record?
      ["name", "shape"] = some [.ofText name, shape.toJson] := Json.record?_record (by simp)
  rw [Instruction.ofJson?, if_pos hgather]
  simp only [htag, hchoice, hfields, Json.text?_ofText, Shape.ofJson?_draft .gathered h]
  cases shape.check? <;> rfl

/-- An operator that is applied is read back if its scale is. -/
theorem ofJson?_apply {op : Operator} {inputs : List Nat} (hop : op.IsSized)
    (hinputs : ∀ n ∈ inputs, n < sizeLimit) (depth : Nat) :
    Instruction.ofJson? (depth + 5) (toJson (.apply op inputs))
      = op.reread?.map fun op => .apply op inputs := by
  have hlist := Json.gatherable_map (depth + 3) fun n hn =>
    Json.gatherable_ofNat (depth + 3) (hinputs n hn)
  have hgather : (toJson (.apply op inputs)).gatherable (depth + 5)
      = op.toJson.gatherable (depth + 4) := by
    simp [toJson, Instruction.toJson, Json.gatherable_record, Json.gatherable_ofText, hlist]
  have htag : (toJson (.apply op inputs)).tagged? "kind" = some (.ofText "apply",
      .record [("op", op.toJson), ("inputs", .array (inputs.map .ofNat))]) :=
    Json.tagged?_record (by simp)
  have hchoice : (Json.ofText "apply").choice? .direct ["param", "apply"] = some 1 := by
    rw [Json.choice?_ofText]
    decide
  have hfields : (Json.record [("op", op.toJson), ("inputs", .array (inputs.map .ofNat))]).record?
      ["op", "inputs"] = some [op.toJson, .array (inputs.map .ofNat)] :=
    Json.record?_record (by simp)
  rw [Instruction.ofJson?, hgather]
  cases hread : op.toJson.gatherable (depth + 4) with
  | false =>
    rw [Operator.reread?_of_not_gatherable hop hread]
    rfl
  | true =>
    simp only [if_true, htag, hchoice, hfields, Operator.ofGathered?_toJson .gathered hop,
      Json.list?_ofNat hinputs]
    cases op.reread? <;> rfl

/-- **An instruction is read back exactly as it is checked.** -/
theorem ofJson?_toJson {draft : InstructionDraft} (h : draft.IsSized) (depth : Nat) :
    Instruction.ofJson? (depth + 5) draft.toJson = draft.check? := by
  cases draft with
  | param name shape => exact ofJson?_param name h depth
  | apply op inputs => exact ofJson?_apply h.1 h.2 depth

end InstructionDraft

/-- What is written of an instruction is what its draft says. -/
theorem Instruction.toJson_draft (instruction : Instruction) :
    instruction.toJson = instruction.draft.toJson := by
  cases instruction with
  | param name shape =>
    rw [toJson, Shape.toJson_draft]
    rfl
  | apply op inputs => rfl

/-! ## 3. Programs

The results are written only if there are any, so that there are two documents to be read. -/

/-- A program, its shapes as they may be spelled. -/
structure ProgramDraft where
  instructions : List InstructionDraft
  outputs : List Nat
  deriving DecidableEq, Repr

/-- The program as it is spelled. -/
def Program.draft (program : Program) : ProgramDraft :=
  ⟨program.instructions.map Instruction.draft, program.outputs⟩

namespace ProgramDraft

/-- All numbers but scales are sizes, or signed numbers of 64 bits. -/
structure IsSized (draft : ProgramDraft) : Prop where
  instructions : ∀ instruction ∈ draft.instructions, instruction.IsSized
  outputs : ∀ n ∈ draft.outputs, n < sizeLimit

/-- The draft as a record of its instructions and, if there are any, its declared results. -/
def toJson (draft : ProgramDraft) : Json :=
  .record
    (("instructions", .array (draft.instructions.map InstructionDraft.toJson)) ::
      if draft.outputs = [] then [] else [("outputs", .array (draft.outputs.map .ofNat))])

/-- The draft as a text. -/
def toText (draft : ProgramDraft) : String :=
  draft.toJson.pretty

/-- The program that is read. -/
def check? (draft : ProgramDraft) : Option Program :=
  (draft.instructions.mapM InstructionDraft.check?).map fun instructions =>
    ⟨instructions, draft.outputs⟩

/-- A program is spelled as its instructions are. -/
theorem spelled (draft : ProgramDraft) : draft.toJson.Spelled := by
  have hinstructions := Json.spelled_map fun instruction (_ : instruction ∈ draft.instructions) =>
    instruction.spelled
  refine Json.spelled_record (List.forall_mem_cons.mpr ⟨hinstructions, ?_⟩)
  split
  next => simp
  next => simp [Json.spelled_map, Json.spelled_ofNat]

/-- The instructions are read before the outputs, which may be left out. -/
theorem ofParts?_instructions {draft : ProgramDraft} (h : draft.IsSized) (outputs : Option Json) :
    Program.ofParts? (.array (draft.instructions.map InstructionDraft.toJson)) outputs
      = (draft.instructions.mapM InstructionDraft.check?).bind fun instructions =>
          match outputs with
          | none => some ⟨instructions, []⟩
          | some outputs => (outputs.list? Json.natural?).map fun outputs =>
            ⟨instructions, outputs⟩ := by
  have hlist : (Json.array (draft.instructions.map InstructionDraft.toJson)).list?
      (Instruction.ofJson? (Json.depthLimit - 2))
      = draft.instructions.mapM InstructionDraft.check? := by
    rw [Json.list?_map]
    exact mapM_congr fun instruction hmem =>
      InstructionDraft.ofJson?_toJson (h.instructions instruction hmem) 120
  rw [Program.ofParts?, hlist]
  cases draft.instructions.mapM InstructionDraft.check? <;> rfl

/-- **The text of a draft reads as the program it spells.** -/
theorem ofText?_toText {draft : ProgramDraft} (h : draft.IsSized) :
    Program.ofText? draft.toText = draft.check? := by
  rw [Program.ofText?, toText, Json.read?_pretty draft.spelled, Option.bind_some, toJson]
  by_cases hnone : draft.outputs = []
  · have hvalues : ∀ instructions, Json.valuesOf "instructions" [("instructions", instructions)]
        = [instructions] := fun _ => rfl
    have hothers : ∀ instructions, Json.valuesOf "outputs" [("instructions", instructions)] = [] :=
      fun _ => rfl
    rw [if_pos hnone, Json.record, Program.ofJson?, if_pos (Json.readableNames_record _),
      Json.named_record, Json.named_record, hvalues, hothers]
    simp only [ofParts?_instructions h, check?, hnone]
    cases draft.instructions.mapM InstructionDraft.check? <;> rfl
  · have hvalues : ∀ instructions outputs, Json.valuesOf "instructions"
        [("instructions", instructions), ("outputs", outputs)] = [instructions] := fun _ _ => rfl
    have hothers : ∀ instructions outputs, Json.valuesOf "outputs"
        [("instructions", instructions), ("outputs", outputs)] = [outputs] := fun _ _ => rfl
    rw [if_neg hnone, Json.record, Program.ofJson?, if_pos (Json.readableNames_record _),
      Json.named_record, Json.named_record, hvalues, hothers]
    simp only [ofParts?_instructions h, check?, Json.list?_ofNat h.outputs]
    cases draft.instructions.mapM InstructionDraft.check? <;> rfl

end ProgramDraft

/-! ## 4. What is spelled

From what the text of a draft reads as to what that says of a program: a program is a draft whose
shapes are those that it has. -/

namespace InstructionDraft

/-- The scale, if it is an activation. -/
def alpha? : InstructionDraft → Option Binary64
  | .apply (.elu unit) _ => some unit.alpha
  | _ => none

/-- The descriptor that the operator holds. -/
def descriptor? : InstructionDraft → Option Descriptor
  | .apply op _ => op.descriptor?
  | .param .. => none

/-- The shape, if it is a parameter. -/
def shape? : InstructionDraft → Option ShapeDraft
  | .param _ shape => some shape
  | .apply .. => none

variable {draft : InstructionDraft}

/-- What is read is the instruction of which it is the draft, where nothing is left unspelled. -/
theorem check?_eq_some_iff (hdescriptor : draft.descriptor? = none)
    (halpha : ∀ alpha, draft.alpha? = some alpha → alpha.ReadsBack) {instruction : Instruction} :
    draft.check? = some instruction ↔ instruction.draft = draft := by
  cases draft with
  | param name shape =>
    simp only [check?, Option.map_eq_some_iff, ShapeDraft.check?_eq_some_iff]
    constructor
    · rintro ⟨shape, rfl, rfl⟩
      rfl
    · intro hdraft
      cases instruction with
      | param name' shape' =>
        obtain ⟨rfl, rfl⟩ := InstructionDraft.param.inj hdraft
        exact ⟨shape', rfl, rfl⟩
      | apply op inputs => simp [Instruction.draft] at hdraft
  | apply op inputs =>
    have hreread : op.reread? = some op := by
      cases op with
      | reshape dims => rfl
      | contiguous => rfl
      | elu unit =>
        obtain ⟨alpha, descriptor⟩ := unit
        obtain rfl : descriptor = none := hdescriptor
        have hread : (Json.ofReal alpha).real? = some alpha := halpha alpha rfl
        rw [Operator.reread?, hread, Option.map_some]
    rw [check?, hreread, Option.map_some, Option.some.injEq]
    cases instruction with
    | param name shape => simp [Instruction.draft]
    | apply op' inputs' => simp [Instruction.draft, eq_comm]

/-- A scale that is not finite is not spelled. -/
theorem check?_of_not_finite {alpha : Binary64} (h : draft.alpha? = some alpha)
    (hfinite : alpha.isFinite = false) : draft.check? = none := by
  cases draft with
  | param name shape => simp [alpha?] at h
  | apply op inputs =>
    cases op with
    | reshape dims => simp [alpha?] at h
    | contiguous => simp [alpha?] at h
    | elu unit =>
      obtain rfl : unit.alpha = alpha := Option.some.inj h
      have hnull : Json.ofReal unit.alpha = .null := by
        rw [Json.ofReal, Numeral.ofReal?_eq_none_iff.mpr hfinite]
      rw [check?, Operator.reread?, hnull]
      rfl

/-- Nor is a shape that does not pass its check. -/
theorem isSound_of_check? {instruction : Instruction} (h : draft.check? = some instruction)
    {shape : ShapeDraft} (hshape : draft.shape? = some shape) : shape.IsSound := by
  cases draft with
  | param name declared =>
    obtain rfl : declared = shape := Option.some.inj hshape
    obtain ⟨found, hfound, -⟩ := Option.map_eq_some_iff.mp h
    rw [← ShapeDraft.check?_eq_some_iff.mp hfound]
    exact ShapeDraft.isSound_draft found
  | apply op inputs => simp [shape?] at hshape

end InstructionDraft

namespace ProgramDraft

/-- The scales of the activations. -/
def alphas (draft : ProgramDraft) : List Binary64 :=
  draft.instructions.filterMap InstructionDraft.alpha?

/-- The descriptors that the operators hold. -/
def descriptors (draft : ProgramDraft) : List Descriptor :=
  draft.instructions.filterMap InstructionDraft.descriptor?

/-- The shapes of the parameters. -/
def shapes (draft : ProgramDraft) : List ShapeDraft :=
  draft.instructions.filterMap InstructionDraft.shape?

/-- What is read is the program, where nothing is left unspelled. -/
theorem check?_draft {program : Program} (hdescriptors : program.draft.descriptors = [])
    (halphas : ∀ alpha ∈ program.draft.alphas, alpha.ReadsBack) :
    program.draft.check? = some program := by
  have hinstructions : program.draft.instructions.mapM InstructionDraft.check?
      = some program.instructions := by
    refine (mapM_eq_some_iff (g := Instruction.draft) fun instruction hmem found => ?_).mpr rfl
    refine InstructionDraft.check?_eq_some_iff ?_ fun alpha halpha => ?_
    · exact List.filterMap_eq_nil_iff.mp hdescriptors instruction hmem
    · exact halphas alpha (List.mem_filterMap.mpr ⟨instruction, hmem, halpha⟩)
  rw [check?, hinstructions, Option.map_some]
  rfl

theorem isSound_of_check? {draft : ProgramDraft} {program : Program}
    (h : draft.check? = some program) : ∀ shape ∈ draft.shapes, shape.IsSound := by
  intro shape hshape
  obtain ⟨instruction, hmem, hinstruction⟩ := List.mem_filterMap.mp hshape
  obtain ⟨instructions, hinstructions, -⟩ := Option.map_eq_some_iff.mp h
  cases hcheck : instruction.check? with
  | none => simp [mapM_eq_none hmem hcheck] at hinstructions
  | some found => exact InstructionDraft.isSound_of_check? hcheck hinstruction

end ProgramDraft

/-- A program's parameters have shapes, so these are sound. -/
theorem Program.isSound_shapes (program : Program) :
    ∀ shape ∈ program.draft.shapes, shape.IsSound := by
  intro shape hshape
  obtain ⟨instruction, hmem, hinstruction⟩ := List.mem_filterMap.mp hshape
  obtain ⟨source, -, rfl⟩ := List.mem_map.mp hmem
  cases source with
  | param name declared =>
    obtain rfl := Option.some.inj hinstruction
    exact ShapeDraft.isSound_draft declared
  | apply op inputs => simp [Instruction.draft, InstructionDraft.shape?] at hinstruction

/-! ## 5. What any text spells

A text is read in two steps: a program whose parameters have shapes as they are spelled, and then
those shapes. -/

namespace InstructionDraft

/-- The instruction that a document spells, as `Instruction.ofJson?` reads it but for the check of
its shape. -/
def ofJson? (depth : Nat) (document : Json) : Option InstructionDraft :=
  if document.gatherable depth then
    match document.tagged? "kind" with
    | none => none
    | some (tag, rest) =>
      match Json.choice? .direct ["param", "apply"] tag with
      | some 0 =>
        match rest.record? ["name", "shape"] with
        | some [name, shape] =>
          match name.text?, ShapeDraft.ofJson? .gathered shape with
          | some name, some shape => some (.param name shape)
          | _, _ => none
        | _ => none
      | some 1 =>
        match rest.record? ["op", "inputs"] with
        | some [op, inputs] =>
          match Operator.ofGathered? .gathered op, inputs.list? Json.natural? with
          | some op, some inputs => some (.apply op inputs)
          | _, _ => none
        | _ => none
      | _ => none
  else none

/-- The instruction of which it is the draft, if there is such a shape. -/
def settle? : InstructionDraft → Option Instruction
  | .param name shape => shape.check?.map (.param name)
  | .apply op inputs => some (.apply op inputs)

variable {draft : InstructionDraft}

/-- A draft settles to the one instruction that it is the draft of. -/
theorem settle?_eq_some_iff {instruction : Instruction} :
    draft.settle? = some instruction ↔ instruction.draft = draft := by
  cases draft with
  | param name shape =>
    cases instruction with
    | param name' shape' =>
      simp [settle?, Instruction.draft, ShapeDraft.check?_eq_some_iff, and_comm,
        eq_comm (a := name)]
    | apply op inputs => simp [settle?, Instruction.draft]
  | apply op inputs =>
    cases instruction with
    | param name shape => simp [settle?, Instruction.draft]
    | apply op' inputs' => simp [settle?, Instruction.draft, eq_comm]

/-- A draft whose shape is sound, if it has one, settles. -/
theorem exists_settle? (h : ∀ shape, draft.shape? = some shape → shape.IsSound) :
    ∃ instruction, draft.settle? = some instruction := by
  cases draft with
  | param name shape =>
    obtain ⟨found, hfound⟩ := ShapeDraft.exists_check? (h shape rfl)
    exact ⟨.param name found, by rw [settle?, hfound, Option.map_some]⟩
  | apply op inputs => exact ⟨.apply op inputs, rfl⟩

end InstructionDraft

/-- **The reader of an instruction reads a draft and settles it**, whatever the document. -/
theorem Instruction.ofJson?_eq (depth : Nat) (document : Json) :
    ofJson? depth document
      = (InstructionDraft.ofJson? depth document).bind InstructionDraft.settle? := by
  unfold ofJson? InstructionDraft.ofJson?
  split
  next =>
    rcases document.tagged? "kind" with _ | ⟨tag, rest⟩
    · rfl
    · dsimp only
      rcases Json.choice? .direct ["param", "apply"] tag with _ | _ | _ | _
      · rfl
      · rcases rest.record? ["name", "shape"] with _ | ⟨_ | ⟨name, _ | ⟨shape, _ | ⟨_, _⟩⟩⟩⟩
        · rfl
        · rfl
        · rfl
        · dsimp only
          rw [Shape.ofJson?_eq]
          cases name.text? with
          | none => rfl
          | some name =>
            cases ShapeDraft.ofJson? .gathered shape with
            | none => rfl
            | some draft =>
              simp only [Option.bind_some, InstructionDraft.settle?]
              cases draft.check? <;> rfl
        · rfl
      · rcases rest.record? ["op", "inputs"] with _ | ⟨_ | ⟨op, _ | ⟨inputs, _ | ⟨_, _⟩⟩⟩⟩
        · rfl
        · rfl
        · rfl
        · dsimp only
          cases Operator.ofGathered? .gathered op <;> cases inputs.list? Json.natural? <;> rfl
        · rfl
      · rfl
  next => rfl

namespace ProgramDraft

/-- The program with the given instructions and, if they are given, results, as `Program.ofParts?`
reads it but for the check of its shapes. -/
def ofParts? (instructions : Json) (outputs : Option Json) : Option ProgramDraft :=
  match instructions.list? (InstructionDraft.ofJson? (Json.depthLimit - 2)) with
  | none => none
  | some instructions =>
    match outputs with
    | none => some ⟨instructions, []⟩
    | some outputs => (outputs.list? Json.natural?).map fun outputs => ⟨instructions, outputs⟩

/-- The program that a document spells, likewise. -/
def ofJson? : Json → Option ProgramDraft
  | .object members =>
    if Json.readableNames members then
      match Json.named "instructions" members, Json.named "outputs" members with
      | [instructions], [] => ofParts? instructions none
      | [instructions], [outputs] => ofParts? instructions (some outputs)
      | _, _ => none
    else none
  | .array [instructions] => ofParts? instructions none
  | .array [instructions, outputs] => ofParts? instructions (some outputs)
  | _ => none

/-- The program that a text spells, whether or not there are such shapes. -/
def ofText? (text : String) : Option ProgramDraft :=
  (Json.read? text).bind ofJson?

/-- The program of which it is the draft, if there are such shapes. -/
def settle? (draft : ProgramDraft) : Option Program :=
  (draft.instructions.mapM InstructionDraft.settle?).map fun instructions =>
    ⟨instructions, draft.outputs⟩

variable {draft : ProgramDraft}

/-- A draft settles to the one program that it is the draft of. -/
theorem settle?_eq_some_iff {program : Program} :
    draft.settle? = some program ↔ program.draft = draft := by
  simp only [settle?, Option.map_eq_some_iff,
    mapM_eq_some_iff fun instruction _ found => InstructionDraft.settle?_eq_some_iff]
  constructor
  · rintro ⟨instructions, hinstructions, rfl⟩
    rw [Program.draft, hinstructions]
  · rintro rfl
    exact ⟨program.instructions, rfl, rfl⟩

/-- A draft is that of a program exactly if its shapes are sound. -/
theorem exists_settle?_iff :
    (∃ program, draft.settle? = some program) ↔ ∀ shape ∈ draft.shapes, shape.IsSound := by
  constructor
  · rintro ⟨program, hprogram⟩
    rw [← settle?_eq_some_iff.mp hprogram]
    exact program.isSound_shapes
  · intro hsound
    have hinstructions : ∀ instruction ∈ draft.instructions,
        ∃ found, instruction.settle? = some found := fun instruction hmem =>
      InstructionDraft.exists_settle? fun shape hshape =>
        hsound shape (List.mem_filterMap.mpr ⟨instruction, hmem, hshape⟩)
    obtain ⟨instructions, hfound⟩ := exists_mapM hinstructions
    exact ⟨⟨instructions, draft.outputs⟩, by rw [settle?, hfound, Option.map_some]⟩

end ProgramDraft

/-- The reader of a program reads a draft and settles it. -/
theorem Program.ofParts?_eq (instructions : Json) (outputs : Option Json) :
    ofParts? instructions outputs
      = (ProgramDraft.ofParts? instructions outputs).bind ProgramDraft.settle? := by
  rw [ofParts?, ProgramDraft.ofParts?, funext (Instruction.ofJson?_eq _), Json.list?_bind]
  cases instructions.list? (InstructionDraft.ofJson? (Json.depthLimit - 2)) with
  | none => rfl
  | some instructions =>
    cases outputs with
    | none =>
      simp only [Option.bind_some, ProgramDraft.settle?]
      cases instructions.mapM InstructionDraft.settle? <;> rfl
    | some outputs =>
      simp only [Option.bind_some]
      cases outputs.list? Json.natural? with
      | none => cases instructions.mapM InstructionDraft.settle? <;> rfl
      | some outputs =>
        simp only [Option.map_some, Option.bind_some, ProgramDraft.settle?]
        cases instructions.mapM InstructionDraft.settle? <;> rfl

/-- **A text is read by its draft.** -/
theorem Program.ofText?_eq (text : String) :
    ofText? text = (ProgramDraft.ofText? text).bind ProgramDraft.settle? := by
  have hdocument : ∀ document, ofJson? document
      = (ProgramDraft.ofJson? document).bind ProgramDraft.settle? := by
    intro document
    cases document with
    | object members =>
      rw [ofJson?, ProgramDraft.ofJson?]
      split
      next =>
        rcases Json.named "instructions" members with _ | ⟨instructions, _ | ⟨_, _⟩⟩
        · rfl
        · rcases Json.named "outputs" members with _ | ⟨outputs, _ | ⟨_, _⟩⟩
          · exact ofParts?_eq instructions none
          · exact ofParts?_eq instructions (some outputs)
          · rfl
        · rfl
      next => rfl
    | array items =>
      rcases items with _ | ⟨instructions, _ | ⟨outputs, _ | ⟨_, _⟩⟩⟩
      · rfl
      · exact ofParts?_eq instructions none
      · exact ofParts?_eq instructions (some outputs)
      · rfl
    | _ => rfl
  rw [ofText?, ProgramDraft.ofText?, Option.bind_assoc]
  exact congrArg (Option.bind (Json.read? text)) (funext hdocument)

namespace Program

/-- The text of a program is that of its draft. -/
theorem toText_draft (program : Program) : program.toText = program.draft.toText := by
  have hinstructions : program.instructions.map Instruction.toJson
      = program.draft.instructions.map InstructionDraft.toJson := by
    rw [draft, List.map_map]
    exact List.map_congr_left fun instruction _ => instruction.toJson_draft
  rw [toText, toJson, hinstructions]
  rfl

/-- **A program reads from its text as it was**, as far as its numbers have 64 bits.

* If no operator is finalized, and all scales are finite and read back as they are written, the text
  reads as the program.
* If a scale is not finite the text is refused.
* Whatever is read, from any text, is the program of the draft that the text spells.
* A text that spells a draft is read exactly if every shape in the draft has a stride for every len,
  or bounds in order: with any other parameter the text is refused.
* The text of a draft whose parameters are spelled at will is refused if they do not. -/
theorem text_roundTrip (program : Program) (hsized : program.draft.IsSized) :
    (program.draft.descriptors = [] → (∀ alpha ∈ program.draft.alphas, alpha.isFinite = true) →
      (∀ alpha ∈ program.draft.alphas, alpha.isFinite = true → alpha.ReadsBack) →
      ofText? program.toText = some program) ∧
    ((∃ alpha ∈ program.draft.alphas, alpha.isFinite = false) → ofText? program.toText = none) ∧
    (∀ text read, ofText? text = some read ↔ ProgramDraft.ofText? text = some read.draft) ∧
    (∀ text draft, ProgramDraft.ofText? text = some draft →
      ((∃ read, ofText? text = some read) ↔ ∀ shape ∈ draft.shapes, shape.IsSound)) ∧
    ∀ draft : ProgramDraft, draft.IsSized → ∀ read, ofText? draft.toText = some read →
      ∀ shape ∈ draft.shapes, shape.IsSound := by
  rw [toText_draft, ProgramDraft.ofText?_toText hsized]
  refine ⟨fun hplain hfinite hexact => ?_, ?_, fun text read => ?_, fun text draft hspelled => ?_,
    fun draft hdraft read hread => ?_⟩
  · have hexact' : ∀ alpha ∈ program.draft.alphas, alpha.ReadsBack := fun alpha halpha =>
      hexact alpha halpha (hfinite alpha halpha)
    exact ProgramDraft.check?_draft hplain hexact'
  · rintro ⟨alpha, halpha, hfinite⟩
    obtain ⟨instruction, hmem, hinstruction⟩ := List.mem_filterMap.mp halpha
    rw [ProgramDraft.check?, mapM_eq_none hmem
      (InstructionDraft.check?_of_not_finite hinstruction hfinite), Option.map_none]
  · rw [ofText?_eq, Option.bind_eq_some_iff]
    constructor
    · rintro ⟨draft, hspelled, hread⟩
      rw [hspelled, ProgramDraft.settle?_eq_some_iff.mp hread]
    · exact fun hspelled => ⟨read.draft, hspelled, ProgramDraft.settle?_eq_some_iff.mpr rfl⟩
  · rw [ofText?_eq, hspelled, Option.bind_some]
    exact ProgramDraft.exists_settle?_iff
  · rw [ProgramDraft.ofText?_toText hdraft] at hread
    exact ProgramDraft.isSound_of_check? hread

/-- Names to be escaped, strides that overlap, a dynamic shape with one size, and operands and
results that are not there. -/
def oddlySpelled : Program :=
  ⟨[.param "x\n\"é" (.static ⟨.float16, [2, 3], [0, 18446744073709551615], rfl⟩),
    .param "" (.dynamic ⟨.int8, [.fixed 0, ⟨1, 7, by decide⟩]⟩),
    .apply (.reshape [-1, 9223372036854775807]) [],
    .apply .contiguous [5],
    .apply (.elu ⟨.ofPattern 0x3fb999999999999a, none⟩) [0, 0, 99]], [1, 12]⟩

/-- It reads from its text as it was: the scale is a tenth. -/
theorem oddlySpelled_roundTrip :
    oddlySpelled.draft.IsSized ∧ oddlySpelled.draft.descriptors = [] ∧
      (∀ alpha ∈ oddlySpelled.draft.alphas, alpha.isFinite = true) ∧
      (∀ alpha ∈ oddlySpelled.draft.alphas, alpha.isFinite = true → alpha.ReadsBack) ∧
      ofText? oddlySpelled.toText = some oddlySpelled := by
  have hsized : oddlySpelled.draft.IsSized := ⟨by decide, by decide⟩
  have hfinite : ∀ alpha ∈ oddlySpelled.draft.alphas, alpha.isFinite = true := by decide +kernel
  have hexact : ∀ alpha ∈ oddlySpelled.draft.alphas, alpha.isFinite = true → alpha.ReadsBack := by
    decide +kernel
  exact ⟨hsized, rfl, hfinite, hexact, (text_roundTrip oddlySpelled hsized).1 rfl hfinite hexact⟩

end Program

end Strided
