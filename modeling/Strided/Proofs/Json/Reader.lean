import Strided.Json.Printer
import Strided.Proofs.Json.Numeral
/-!
# What is written is read back

`Json.read?_pretty`: a document on many lines reads as the document it was written from, if its
numerals are spelled as the grammar has them and its strings are texts (`Json.Spelled`).

The reader learns that a numeral has ended from the character after it.  So what is shown of a value
is where the reader stands once the numeral it may be in the middle of has ended (`Reader.settle`):
there it stands as if it had just finished the value, whatever containers are open
(`Reader.Reads`).  What follows a value on many lines is a comma or a line break, and both end a
numeral (`Reader.step_separator`).
-/

namespace Strided

/-- **The document can be written**: its numerals are spelled as the grammar has them, and no string
holds half of a pair. -/
inductive Json.Spelled : Json → Prop
  | null : Spelled .null
  | bool (value : Bool) : Spelled (.bool value)
  | number {n : Numeral} (h : n.Spelled) : Spelled (.number n)
  | string (text : String) : Spelled (.ofText text)
  | array {items : List Json} (h : ∀ item ∈ items, item.Spelled) : Spelled (.array items)
  | object {members : List (List Glyph × Json)}
      (hnames : ∀ member ∈ members, ∃ name, member.1 = Glyph.ofText name)
      (hvalues : ∀ member ∈ members, member.2.Spelled) : Spelled (.object members)

namespace Json

/-- A list with items stands on lines of its own, one level further in. -/
theorem prettyAt_array {items : List Json} (hne : items ≠ []) (depth : Nat) :
    prettyAt depth (.array items)
      = '[' :: (prettyItems (depth + 1) items ++ (newline depth ++ [']'])) := by
  rw [prettyAt, List.cons_append, List.cons_append, List.append_assoc]
  exact hne

/-- So does a record with members. -/
theorem prettyAt_object {members : List (List Glyph × Json)} (hne : members ≠ []) (depth : Nat) :
    prettyAt depth (.object members)
      = '\x7b' :: (prettyMembers (depth + 1) members ++ (newline depth ++ ['\x7d'])) := by
  rw [prettyAt, List.cons_append, List.cons_append, List.append_assoc]
  exact hne

/-- Items are parted by commas, of which none stands behind the last. -/
theorem prettyItems_cons (item : Json) {items : List Json} (hne : items ≠ []) (depth : Nat) :
    prettyItems depth (item :: items)
      = newline depth ++ prettyAt depth item ++ ',' :: prettyItems depth items := by
  rw [prettyItems]
  exact hne

/-- A member is its name, a colon, a blank and its value. -/
theorem prettyMembers_singleton (name : List Glyph) (value : Json) (depth : Nat) :
    prettyMembers depth [(name, value)]
      = newline depth ++ Glyph.quoted name ++ ([':', ' '] ++ prettyAt depth value) := by
  rw [prettyMembers, List.append_assoc, List.append_assoc]
  rfl

/-- Members are parted as items are. -/
theorem prettyMembers_cons (name : List Glyph) (value : Json) {members : List (List Glyph × Json)}
    (hne : members ≠ []) (depth : Nat) :
    prettyMembers depth ((name, value) :: members)
      = newline depth ++ Glyph.quoted name ++ ([':', ' '] ++ prettyAt depth value)
        ++ ',' :: prettyMembers depth members := by
  rw [prettyMembers]
  · simp
  · exact hne

end Json

namespace Reader

variable {frames : List Frame} {root : Option Json}

/-! ## 1. Between tokens

The reader is a machine that is fed one character at a time.  Composition is that of `List.foldl`
with failure, so what is shown of a text is the state it leaves. -/

/-- A run over nothing stays where it is. -/
@[simp] theorem run_nil (state : State) : run state [] = some state :=
  rfl

/-- A run is a step and a run over what is left. -/
theorem run_cons (state : State) (c : Char) (text : List Char) :
    run state (c :: text) = (step state c).bind fun mid => run mid text :=
  List.foldlM_cons

/-- So one step is a run. -/
theorem run_singleton (state : State) (c : Char) : run state [c] = step state c := by
  rw [run_cons]
  exact Option.bind_fun_some _

/-- Where the reader stands once the numeral it may be in the middle of has ended. -/
def settle (state : State) : Option State :=
  match state.mode with
  | .numeral part n =>
    (endNumeral? part n).bind fun n => finish (.number n) state.root state.frames
  | _ => some state

/-- Once a value is finished the reader waits for what may follow it. -/
theorem mode_of_finish {value : Json} {after : State} (h : finish value root frames = some after) :
    after.mode = .ended := by
  unfold finish at h
  split at h
  next => exact Option.some.inj h ▸ rfl
  next => exact Option.some.inj h ▸ rfl
  next => exact Option.some.inj h ▸ rfl
  next => simp at h

/-- Once a value is finished nothing is left to settle. -/
theorem bind_settle_finish (value : Json) (frames : List Frame) (root : Option Json) :
    (finish value root frames).bind settle = finish value root frames := by
  cases hfinish : finish value root frames with
  | none => rfl
  | some after => rw [Option.bind_some, settle, mode_of_finish hfinish]

/-- A comma and a line break end a numeral. -/
theorem step_separator {c : Char} (hc : c = ',' ∨ c = '\n') (state : State) :
    step state c = (settle state).bind fun after => step after c := by
  obtain ⟨mode, frames, root⟩ := state
  cases mode with
  | numeral part n =>
    have hnone : stepNumeral? part n c = none := by
      rcases hc with rfl | rfl <;> cases part <;> rfl
    simp only [step, hnone, settle]
    cases hafter : (endNumeral? part n).bind fun n => finish (.number n) root frames with
    | none => rfl
    | some after =>
      obtain ⟨n, -, hfinish⟩ := Option.bind_eq_some_iff.mp hafter
      simp only [Option.bind_some, mode_of_finish hfinish]
  | _ => rfl

/-- Nothing is lost when the reader settles before a separator. -/
theorem run_separator {state after : State} {text : List Char}
    (h : (run state text).bind settle = some after) {c : Char} (hc : c = ',' ∨ c = '\n')
    (rest : List Char) : run state (text ++ c :: rest) = run after (c :: rest) := by
  obtain ⟨mid, hmid, hsettle⟩ := Option.bind_eq_some_iff.mp h
  rw [run_append, hmid, Option.bind_some, run_cons, run_cons, step_separator hc, hsettle]
  rfl

/-- A text may end where the reader has settled. -/
theorem result?_settle (state : State) : (settle state).bind result? = result? state := by
  obtain ⟨mode, frames, root⟩ := state
  cases mode with
  | numeral part n =>
    cases hend : endNumeral? part n with
    | none => cases frames <;> simp [settle, result?, hend]
    | some whole =>
      cases frames with
      | nil => simp [settle, result?, hend, finish]
      | cons frame frames => cases frame <;> simp [settle, result?, hend, finish]
  | _ => rfl

/-- Whether blanks are skipped. -/
def Mode.skips : Mode → Bool
  | .value | .firstItem | .firstName | .name | .colon | .ended => true
  | _ => false

/-- Between tokens a blank changes nothing. -/
theorem step_blank {state : State} (h : state.mode.skips = true) {c : Char}
    (hc : isBlank c = true) : step state c = some state := by
  obtain ⟨mode, frames, root⟩ := state
  cases mode <;> first | exact absurd h Bool.false_ne_true | simp [step, hc]

/-- Neither does a line break with its indentation, however deep. -/
theorem run_newline {state : State} (h : state.mode.skips = true) (depth : Nat) :
    run state (Json.newline depth) = some state := by
  have hblanks : ∀ count, run state (List.replicate count ' ') = some state := by
    intro count
    induction count with
    | zero => rfl
    | succ count ih => rw [List.replicate_succ, run_cons, step_blank h rfl, Option.bind_some, ih]
  rw [Json.newline, run_cons, step_blank h rfl, Option.bind_some, hblanks]

/-! ## 2. Numerals

A numeral is whole, then may have a fraction, then may have an exponent; the machine has a state for
each. -/

/-- Digits are none of the other characters that a state looks for. -/
theorem ne_of_isDigit {c d : Char} (hc : isDigit c = true) (hd : isDigit d = false) : c ≠ d := by
  rintro rfl
  exact Bool.false_ne_true (hd.symm.trans hc)

/-- A digit is no blank. -/
theorem not_isBlank_of_isDigit {c : Char} (hc : isDigit c = true) : isBlank c = false := by
  have hne : ∀ d, isDigit d = false → c ≠ d := fun d => ne_of_isDigit hc
  simp [isBlank, hne ' ' rfl, hne '\n' rfl, hne '\t' rfl, hne '\r' rfl]

/-- A digit other than 0 begins a numeral with more digits to come. -/
theorem stepValue_digit {c : Char} (hc : isDigit c = true) (hzero : c ≠ '0') (state : State) :
    stepValue state c
      = some { state with mode := .numeral .whole ⟨false, [c], [], none⟩ } := by
  have hne : ∀ d, isDigit d = false → c ≠ d := fun d => ne_of_isDigit hc
  simp only [stepValue, if_neg (hne '"' rfl), if_neg (hne '[' rfl), if_neg (hne '\x7b' rfl),
    if_neg (hne 't' rfl), if_neg (hne 'f' rfl), if_neg (hne 'n' rfl), if_neg (hne '-' rfl),
    if_neg hzero, if_pos hc]

/-- Digits that go on with the same part of a numeral. -/
theorem run_digits {part : NumeralPart} (extended : List Char → Numeral)
    (hstep : ∀ c digits, isDigit c = true →
      stepNumeral? part (extended digits) c = some (part, extended (c :: digits)))
    {text : List Char} (htext : AreDigits text) (digits : List Char) :
    run ⟨.numeral part (extended digits), frames, root⟩ text
      = some ⟨.numeral part (extended (text.reverse ++ digits)), frames, root⟩ := by
  induction text generalizing digits with
  | nil => rfl
  | cons c text ih =>
    obtain ⟨hc, htext⟩ := List.forall_mem_cons.mp htext
    rw [run_cons, step]
    simp only [hstep c digits hc, Option.bind_some]
    rw [ih htext, List.reverse_cons, List.append_assoc]
    rfl

/-- The sign and the digits before the point. -/
theorem run_whole (negative : Bool) {whole : List Char} (hdigits : AreDigits whole)
    (hleading : IsLeading whole) :
    ∃ part, (part = .zero ∨ part = .whole) ∧
      run ⟨.value, frames, root⟩ ((if negative then ['-'] else []) ++ whole)
        = some ⟨.numeral part ⟨negative, whole.reverse, [], none⟩, frames, root⟩ := by
  rcases hleading with rfl | ⟨c, rest, rfl, hzero⟩
  · exact ⟨.zero, Or.inl rfl, by cases negative <;> rfl⟩
  · obtain ⟨hc, hrest⟩ := List.forall_mem_cons.mp hdigits
    refine ⟨.whole, Or.inr rfl, ?_⟩
    have hcont : run ⟨.numeral .whole ⟨negative, [c], [], none⟩, frames, root⟩ rest
        = some ⟨.numeral .whole ⟨negative, rest.reverse ++ [c], [], none⟩, frames, root⟩ :=
      run_digits (fun digits => ⟨negative, digits, [], none⟩)
        (fun c digits hc => by simp [stepNumeral?, hc]) hrest [c]
    rw [List.reverse_cons, ← hcont]
    cases negative with
    | false =>
      rw [if_neg Bool.false_ne_true, List.nil_append, run_cons, step]
      simp only [not_isBlank_of_isDigit hc, stepValue_digit hc hzero]
      rfl
    | true =>
      have hstep : stepNumeral? .minus ⟨true, [], [], none⟩ c
          = some (.whole, ⟨true, [c], [], none⟩) := by
        simp [stepNumeral?, hc, hzero]
      rw [if_pos rfl, List.cons_append, List.nil_append, run_cons]
      show run ⟨.numeral .minus ⟨true, [], [], none⟩, frames, root⟩ (c :: rest) = _
      rw [run_cons, step]
      simp only [hstep]
      rfl

/-- The digits after the point, if there are any. -/
theorem run_fraction {part : NumeralPart} (hpart : part = .zero ∨ part = .whole) (negative : Bool)
    (whole : List Char) {fraction : List Char} (h : AreDigits fraction) :
    ∃ part', (part' = .zero ∨ part' = .whole ∨ part' = .fraction) ∧
      run ⟨.numeral part ⟨negative, whole, [], none⟩, frames, root⟩
          (if fraction = [] then [] else '.' :: fraction)
        = some ⟨.numeral part' ⟨negative, whole, fraction.reverse, none⟩, frames, root⟩ := by
  cases fraction with
  | nil => exact ⟨part, by tauto, rfl⟩
  | cons c rest =>
    obtain ⟨hc, hrest⟩ := List.forall_mem_cons.mp h
    refine ⟨.fraction, by simp, ?_⟩
    have hcont : run ⟨.numeral .fraction ⟨negative, whole, [c], none⟩, frames, root⟩ rest
        = some ⟨.numeral .fraction ⟨negative, whole, rest.reverse ++ [c], none⟩, frames, root⟩ :=
      run_digits (fun digits => ⟨negative, whole, digits, none⟩)
        (fun c digits hc => by simp [stepNumeral?, hc]) hrest [c]
    have hpoint : stepNumeral? part ⟨negative, whole, [], none⟩ '.'
        = some (.point, ⟨negative, whole, [], none⟩) := by
      rcases hpart with rfl | rfl <;> rfl
    have hstep : stepNumeral? .point ⟨negative, whole, [], none⟩ c
        = some (.fraction, ⟨negative, whole, [c], none⟩) := by
      simp [stepNumeral?, hc]
    rw [if_neg (List.cons_ne_nil c rest), List.reverse_cons, ← hcont, run_cons, step]
    simp only [hpoint, Option.bind_some]
    rw [run_cons, step]
    simp only [hstep, Option.bind_some]

/-- The exponent, if there is one. -/
theorem run_exponent {part : NumeralPart}
    (hpart : part = .zero ∨ part = .whole ∨ part = .fraction) (negative : Bool)
    (whole fraction : List Char) {exponent : Option (Bool × List Char)}
    (h : ∀ below digits, exponent = some (below, digits) → digits ≠ [] ∧ AreDigits digits) :
    ∃ part', (part' = .zero ∨ part' = .whole ∨ part' = .fraction ∨ part' = .exponent) ∧
      run ⟨.numeral part ⟨negative, whole, fraction, none⟩, frames, root⟩
          (match exponent with
          | none => []
          | some (below, digits) => 'e' :: (if below then '-' else '+') :: digits)
        = some ⟨.numeral part'
            ⟨negative, whole, fraction, exponent.map fun e => (e.1, e.2.reverse)⟩,
            frames, root⟩ := by
  cases exponent with
  | none => exact ⟨part, by tauto, rfl⟩
  | some exponent =>
    obtain ⟨below, digits⟩ := exponent
    obtain ⟨hne, hdigits⟩ := h below digits rfl
    obtain ⟨c, rest, rfl⟩ := List.exists_cons_of_ne_nil hne
    obtain ⟨hc, hrest⟩ := List.forall_mem_cons.mp hdigits
    refine ⟨.exponent, by simp, ?_⟩
    -- the first digit decides the state, and the others keep it
    have hcont : run ⟨.numeral .exponent ⟨negative, whole, fraction, some (below, [c])⟩, frames,
          root⟩ rest
        = some ⟨.numeral .exponent ⟨negative, whole, fraction, some (below, rest.reverse ++ [c])⟩,
          frames, root⟩ :=
      run_digits (fun digits => ⟨negative, whole, fraction, some (below, digits)⟩)
        (fun c digits hc => by simp [stepNumeral?, hc]) hrest [c]
    have hmark : stepNumeral? part ⟨negative, whole, fraction, none⟩ 'e'
        = some (.mark, ⟨negative, whole, fraction, none⟩) := by
      rcases hpart with rfl | rfl | rfl <;> rfl
    have hsign : stepNumeral? .mark ⟨negative, whole, fraction, none⟩ (if below then '-' else '+')
        = some (.sign, ⟨negative, whole, fraction, some (below, [])⟩) := by
      cases below <;> rfl
    have hstep : stepNumeral? .sign ⟨negative, whole, fraction, some (below, [])⟩ c
        = some (.exponent, ⟨negative, whole, fraction, some (below, [c])⟩) := by
      simp [stepNumeral?, hc]
    rw [Option.map_some, List.reverse_cons, ← hcont, run_cons, step]
    simp only [hmark, Option.bind_some]
    rw [run_cons, step]
    simp only [hsign, Option.bind_some]
    rw [run_cons, step]
    simp only [hstep, Option.bind_some]

/-- **A numeral is read as it is spelled.** -/
theorem run_render {n : Numeral} (h : n.Spelled) (frames : List Frame) (root : Option Json) :
    (run ⟨.value, frames, root⟩ n.render).bind settle = finish (.number n) root frames := by
  obtain ⟨negative, whole, fraction, exponent⟩ := n
  obtain ⟨part, hpart, hwhole⟩ :
      ∃ part, (part = .zero ∨ part = .whole) ∧
        run ⟨.value, frames, root⟩ ((if negative then ['-'] else []) ++ whole)
          = some ⟨.numeral part ⟨negative, whole.reverse, [], none⟩, frames, root⟩ :=
    run_whole negative h.whole h.leading
  obtain ⟨part', hpart', hfraction⟩ := run_fraction hpart negative whole.reverse h.fraction
  obtain ⟨part'', hpart'', hexponent⟩ :=
    run_exponent hpart' negative whole.reverse fraction.reverse h.exponent
  have hend : endNumeral? part'' ⟨negative, whole.reverse, fraction.reverse,
      exponent.map fun e => (e.1, e.2.reverse)⟩ = some ⟨negative, whole, fraction, exponent⟩ := by
    rcases hpart'' with rfl | rfl | rfl | rfl <;> simp [endNumeral?, Function.comp_def]
  rw [Numeral.render, run_append, run_append, hwhole, Option.bind_some, hfraction,
    Option.bind_some]
  refine (congrArg (Option.bind · settle) hexponent).trans ?_
  rw [Option.bind_some, settle]
  simp only [hend, Option.bind_some]

/-! ## 3. Strings

A character is written as it is, by a letter after a backslash, or by its code in four digits, and
read back from each (`run_char`). -/

/-- Each digit of an escaped unit but the last is kept for later. -/
theorem step_unit (isName : Bool) (text : List Glyph) (count code : Nat) {digit : Nat}
    (h : digit < 16) :
    step ⟨.unit isName text (count + 2) code, frames, root⟩ (Text.hexDigit digit)
      = some ⟨.unit isName text (count + 1) (code * 16 + digit), frames, root⟩ := by
  simp [step, Text.hexValue?_hexDigit h]

/-- The last digit completes the unit. -/
theorem step_lastUnit (isName : Bool) (text : List Glyph) (code : Nat) {digit : Nat}
    (h : digit < 16) :
    step ⟨.unit isName text 1 code, frames, root⟩ (Text.hexDigit digit)
      = some ⟨.string isName (addUnit text (code * 16 + digit)), frames, root⟩ := by
  simp [step, Text.hexValue?_hexDigit h]

/-- A code unit that is written as an escape. -/
theorem run_unitEscape (isName : Bool) (text : List Glyph) {unit : Nat} (h : unit < 0x10000) :
    run ⟨.string isName text, frames, root⟩ (unitEscape unit)
      = some ⟨.string isName (addUnit text unit), frames, root⟩ := by
  have hsmall : ∀ n, n % 16 < 16 := fun n => Nat.mod_lt n (by decide)
  have hunit : (((0 * 16 + unit / 0x1000 % 16) * 16 + unit / 0x100 % 16) * 16
      + unit / 0x10 % 16) * 16 + unit % 16 = unit := by omega
  show run ⟨.unit isName text 4 0, frames, root⟩ [Text.hexDigit (unit / 0x1000 % 16),
    Text.hexDigit (unit / 0x100 % 16), Text.hexDigit (unit / 0x10 % 16),
    Text.hexDigit (unit % 16)] = _
  rw [run_cons, step_unit isName text 2 _ (hsmall _), Option.bind_some, run_cons,
    step_unit isName text 1 _ (hsmall _), Option.bind_some, run_cons,
    step_unit isName text 0 _ (hsmall _), Option.bind_some, run_cons,
    step_lastUnit isName text _ (hsmall _), Option.bind_some, run_nil, hunit]

/-- A control character is a unit by itself, no half of a pair. -/
theorem addUnit_control (text : List Glyph) {c : Char} (h : c.toNat < 0x20) :
    addUnit text c.toNat = .char c :: text := by
  unfold addUnit
  rw [if_neg (by omega), if_neg (by omega), Char.ofNat_toNat]

/-- A character, as it is or escaped. -/
theorem run_char (isName : Bool) (text : List Glyph) (c : Char) :
    run ⟨.string isName text, frames, root⟩ (Glyph.render (.char c))
      = some ⟨.string isName (.char c :: text), frames, root⟩ := by
  rw [Glyph.render]
  split_ifs with hquote hbackslash hbackspace hfeed hline hreturn htab hcontrol
  · subst hquote
    rfl
  · subst hbackslash
    rfl
  · subst hbackspace
    rfl
  · subst hfeed
    rfl
  · subst hline
    rfl
  · subst hreturn
    rfl
  · subst htab
    rfl
  · rw [run_unitEscape isName text (by omega), addUnit_control text hcontrol]
  · rw [run_cons, step]
    simp [hquote, hbackslash, hcontrol]

/-- The characters of a string. -/
theorem run_chars (isName : Bool) (text : List Glyph) (chars : List Char) :
    run ⟨.string isName text, frames, root⟩ ((chars.map Glyph.char).flatMap Glyph.render)
      = some ⟨.string isName ((chars.map Glyph.char).reverse ++ text), frames, root⟩ := by
  induction chars generalizing text with
  | nil => rfl
  | cons c chars ih =>
    rw [List.map_cons, List.flatMap_cons, run_append, run_char, Option.bind_some, ih,
      List.reverse_cons, List.append_assoc]
    rfl

/-- A string, from its first quote to its last. -/
theorem run_quoted {state : State} {isName : Bool} (text : String)
    (hquote : step state '"' = some ⟨.string isName [], frames, root⟩) :
    run state (Glyph.quoted (Glyph.ofText text))
      = finishString isName (Glyph.ofText text).reverse
          ⟨.string isName (Glyph.ofText text).reverse, frames, root⟩ := by
  rw [Glyph.quoted, List.cons_append, run_cons, hquote, Option.bind_some, run_append,
    Glyph.ofText, run_chars, Option.bind_some, List.append_nil, run_cons, step]
  simp

/-- **A quoted text is read back**, whatever it is followed by. -/
theorem run_string (text : String) (frames : List Frame) (root : Option Json) :
    run ⟨.value, frames, root⟩ (Glyph.quoted (Glyph.ofText text))
      = finish (.ofText text) root frames := by
  rw [run_quoted text rfl, finishString, if_neg Bool.false_ne_true, List.reverse_reverse]
  rfl

/-- A name is read where one may stand. -/
theorem run_name {mode : Mode} (hmode : mode = .firstName ∨ mode = .name) (name : String)
    (members : List (List Glyph × Json)) (frames : List Frame) (root : Option Json) :
    run ⟨mode, .object members :: frames, root⟩ (Glyph.quoted (Glyph.ofText name))
      = some ⟨.colon, .member members (Glyph.ofText name) :: frames, root⟩ := by
  have hquote : step ⟨mode, .object members :: frames, root⟩ '"'
      = some ⟨.string true [], .object members :: frames, root⟩ := by
    rcases hmode with rfl | rfl <;> rfl
  rw [run_quoted name hquote, finishString, if_pos rfl, List.reverse_reverse]

/-! ## 4. Documents

The induction is on the document, with items and members beside it.  The indentation is a parameter
of what is written and makes no difference to what is read. -/

/-- **The document is read wherever it stands**, in whatever containers. -/
def Reads (document : Json) : Prop :=
  ∀ depth frames root, (run ⟨.value, frames, root⟩ (document.prettyAt depth)).bind settle
    = finish document root frames

/-- What is written begins with a character that is no blank and does not end an array. -/
theorem exists_prettyAt {document : Json} (h : document.Spelled) (depth : Nat) :
    ∃ c rest, document.prettyAt depth = c :: rest ∧ isBlank c = false ∧ c ≠ ']' := by
  cases h with
  | null => exact ⟨_, _, by rw [Json.prettyAt, Json.nullWord], rfl, by decide⟩
  | bool value =>
    rw [Json.prettyAt, Json.boolWord]
    cases value
    · exact ⟨_, _, rfl, rfl, by decide⟩
    · exact ⟨_, _, rfl, rfl, by decide⟩
  | @number n h =>
    -- a numeral has a digit, and begins with it or with its sign
    obtain ⟨c, rest, hwhole⟩ : ∃ c rest, n.whole = c :: rest := by
      rcases h.leading with hzero | ⟨c, rest, hwhole, -⟩
      · exact ⟨_, _, hzero⟩
      · exact ⟨_, _, hwhole⟩
    have hc : isDigit c = true := h.whole c (hwhole ▸ List.mem_cons_self)
    rw [Json.prettyAt, Numeral.render, hwhole]
    cases n.negative
    · exact ⟨c, _, rfl, not_isBlank_of_isDigit hc, ne_of_isDigit hc rfl⟩
    · exact ⟨'-', _, rfl, rfl, by decide⟩
  | string text =>
    rw [Json.ofText, Json.prettyAt, Glyph.quoted]
    exact ⟨_, _, rfl, rfl, by decide⟩
  | @array items _ =>
    cases items with
    | nil => exact ⟨_, _, by rw [Json.prettyAt], rfl, by decide⟩
    | cons item items =>
      rw [Json.prettyAt_array (List.cons_ne_nil _ _)]
      exact ⟨_, _, rfl, rfl, by decide⟩
  | @object members _ _ =>
    cases members with
    | nil => exact ⟨_, _, by rw [Json.prettyAt], rfl, by decide⟩
    | cons member members =>
      rw [Json.prettyAt_object (List.cons_ne_nil _ _)]
      exact ⟨_, _, rfl, rfl, by decide⟩

/-- An item, at the beginning of its line, before or after others. -/
theorem run_item {mode : Mode} (hmode : mode = .firstItem ∨ mode = .value) {item : Json}
    (hspelled : item.Spelled) (hreads : Reads item) (depth : Nat) (frames : List Frame)
    (root : Option Json) :
    (run ⟨mode, frames, root⟩ (Json.newline depth ++ item.prettyAt depth)).bind settle
      = finish item root frames := by
  have hskips : mode.skips = true := by rcases hmode with rfl | rfl <;> rfl
  obtain ⟨c, rest, htext, hblank, hend⟩ := exists_prettyAt hspelled depth
  have hstep : step ⟨mode, frames, root⟩ c = step ⟨.value, frames, root⟩ c := by
    rcases hmode with rfl | rfl
    · simp [step, hblank, hend, stepValue]
    · rfl
  rw [run_append, run_newline hskips, Option.bind_some, ← hreads depth frames root, htext, run_cons,
    run_cons, hstep]

/-- The items of an array, after those that are done. -/
theorem run_prettyItems {items : List Json} (hne : items ≠ [])
    (hspelled : ∀ item ∈ items, item.Spelled) (hreads : ∀ item ∈ items, Reads item) {mode : Mode}
    (hmode : mode = .firstItem ∨ mode = .value) (depth : Nat) (done : List Json)
    (frames : List Frame) (root : Option Json) :
    (run ⟨mode, .array done :: frames, root⟩ (Json.prettyItems depth items)).bind settle
      = some ⟨.ended, .array (items.reverse ++ done) :: frames, root⟩ := by
  induction items generalizing mode done with
  | nil => exact absurd rfl hne
  | cons item items ih =>
    obtain ⟨hitem, hitems⟩ := List.forall_mem_cons.mp hspelled
    obtain ⟨hread, hrest⟩ := List.forall_mem_cons.mp hreads
    have hfirst := run_item hmode hitem hread depth (.array done :: frames) root
    cases items with
    | nil =>
      rw [Json.prettyItems, hfirst]
      rfl
    | cons next items =>
      have hmore := List.cons_ne_nil next items
      rw [Json.prettyItems_cons item hmore, run_separator hfirst (Or.inl rfl), run_cons]
      refine (ih hmore hitems hrest (Or.inr rfl) (item :: done)).trans ?_
      simp

/-- A member, at the beginning of its line, before or after others. -/
theorem run_member {mode : Mode} (hmode : mode = .firstName ∨ mode = .name) (name : String)
    {value : Json} (hreads : Reads value) (depth : Nat) (members : List (List Glyph × Json))
    (frames : List Frame) (root : Option Json) :
    (run ⟨mode, .object members :: frames, root⟩ (Json.newline depth
        ++ Glyph.quoted (Glyph.ofText name) ++ ([':', ' '] ++ value.prettyAt depth))).bind settle
      = some ⟨.ended, .object ((Glyph.ofText name, value) :: members) :: frames, root⟩ := by
  have hskips : mode.skips = true := by rcases hmode with rfl | rfl <;> rfl
  have hcolon : ∀ frames, run ⟨.colon, frames, root⟩ [':', ' '] = some ⟨.value, frames, root⟩ :=
    fun _ => rfl
  rw [run_append, run_append, run_newline hskips, Option.bind_some, run_name hmode,
    Option.bind_some, run_append, hcolon, Option.bind_some, hreads]
  rfl

/-- The members of an object, after those that are done. -/
theorem run_prettyMembers {members : List (List Glyph × Json)} (hne : members ≠ [])
    (hnames : ∀ member ∈ members, ∃ name, member.1 = Glyph.ofText name)
    (hreads : ∀ member ∈ members, Reads member.2) {mode : Mode}
    (hmode : mode = .firstName ∨ mode = .name) (depth : Nat) (done : List (List Glyph × Json))
    (frames : List Frame) (root : Option Json) :
    (run ⟨mode, .object done :: frames, root⟩ (Json.prettyMembers depth members)).bind settle
      = some ⟨.ended, .object (members.reverse ++ done) :: frames, root⟩ := by
  induction members generalizing mode done with
  | nil => exact absurd rfl hne
  | cons member members ih =>
    obtain ⟨glyphs, value⟩ := member
    obtain ⟨⟨name, rfl⟩, hothers⟩ := List.forall_mem_cons.mp hnames
    obtain ⟨hread, hrest⟩ := List.forall_mem_cons.mp hreads
    have hfirst := run_member hmode name hread depth done frames root
    cases members with
    | nil =>
      rw [Json.prettyMembers_singleton, hfirst]
      rfl
    | cons next members =>
      have hmore := List.cons_ne_nil next members
      rw [Json.prettyMembers_cons _ _ hmore, run_separator hfirst (Or.inl rfl), run_cons]
      refine (ih hmore hothers hrest (Or.inr rfl) ((Glyph.ofText name, value) :: done)).trans ?_
      simp

/-- The end of a container, on its own line. -/
theorem run_close {state : State} {text : List Char} {frame : Frame}
    (h : (run state text).bind settle = some ⟨.ended, frame :: frames, root⟩) (depth : Nat)
    (c : Char) :
    run state (text ++ (Json.newline depth ++ [c])) = step ⟨.ended, frame :: frames, root⟩ c := by
  have hnewline : Json.newline depth ++ [c] = '\n' :: (List.replicate (2 * depth) ' ' ++ [c]) := rfl
  rw [hnewline, run_separator h (Or.inr rfl), ← hnewline, run_append, run_newline rfl,
    Option.bind_some, run_singleton]

/-- The three words are read letter by letter, and finish as any value does. -/
theorem run_nullWord (frames : List Frame) (root : Option Json) :
    run ⟨.value, frames, root⟩ Json.nullWord = finish .null root frames :=
  run_singleton ⟨.word ['l'] .null, frames, root⟩ 'l'

/-- So are the truth values. -/
theorem run_boolWord (value : Bool) (frames : List Frame) (root : Option Json) :
    run ⟨.value, frames, root⟩ (Json.boolWord value) = finish (.bool value) root frames := by
  cases value
  · exact run_singleton ⟨.word ['e'] (.bool false), frames, root⟩ 'e'
  · exact run_singleton ⟨.word ['e'] (.bool true), frames, root⟩ 'e'

/-- **Whatever is written is read**, wherever it stands. -/
theorem reads_of_spelled {document : Json} (h : document.Spelled) : Reads document := by
  induction h with
  | null =>
    intro depth frames root
    rw [Json.prettyAt, run_nullWord, bind_settle_finish]
  | bool value =>
    intro depth frames root
    rw [Json.prettyAt, run_boolWord, bind_settle_finish]
  | number h =>
    intro depth frames root
    rw [Json.prettyAt]
    exact run_render h frames root
  | string text =>
    intro depth frames root
    rw [Json.ofText, Json.prettyAt, run_string]
    exact bind_settle_finish (.ofText text) frames root
  | @array items hspelled ih =>
    intro depth frames root
    by_cases hne : items = []
    · subst hne
      -- an empty array is on one line, so its second bracket comes at once
      have hclose : run ⟨.value, frames, root⟩ ['[', ']'] = finish (.array []) root frames :=
        run_singleton ⟨.firstItem, .array [] :: frames, root⟩ ']'
      rw [Json.prettyAt, hclose, bind_settle_finish]
    · have hitems := run_prettyItems hne hspelled ih (Or.inl rfl) (depth + 1) [] frames root
      have hopen : step ⟨.value, frames, root⟩ '[' = some ⟨.firstItem, .array [] :: frames, root⟩ :=
        rfl
      have hclose : step ⟨.ended, .array (items.reverse ++ []) :: frames, root⟩ ']'
          = finish (.array items) root frames := by
        rw [List.append_nil]
        exact congrArg (fun items => finish (.array items) root frames) items.reverse_reverse
      rw [Json.prettyAt_array hne, run_cons, hopen, Option.bind_some, run_close hitems, hclose,
        bind_settle_finish]
  | @object members hnames _ ih =>
    intro depth frames root
    by_cases hne : members = []
    · subst hne
      have hclose : run ⟨.value, frames, root⟩ ['\x7b', '\x7d'] = finish (.object []) root frames :=
        run_singleton ⟨.firstName, .object [] :: frames, root⟩ '\x7d'
      rw [Json.prettyAt, hclose, bind_settle_finish]
    · have hmembers := run_prettyMembers hne hnames ih (Or.inl rfl) (depth + 1) [] frames root
      have hopen : step ⟨.value, frames, root⟩ '\x7b'
          = some ⟨.firstName, .object [] :: frames, root⟩ := rfl
      have hclose : step ⟨.ended, .object (members.reverse ++ []) :: frames, root⟩ '\x7d'
          = finish (.object members) root frames := by
        rw [List.append_nil]
        exact congrArg (fun members => finish (.object members) root frames)
          members.reverse_reverse
      rw [Json.prettyAt_object hne, run_cons, hopen, Option.bind_some, run_close hmembers, hclose,
        bind_settle_finish]

end Reader

/-- **A document on many lines reads as the document it was written from.** -/
theorem Json.read?_pretty {document : Json} (h : document.Spelled) :
    Json.read? document.pretty = some document := by
  have hreads := Reader.reads_of_spelled h 0 [] none
  rw [Json.read?, Json.pretty, String.toList_ofList, Json.ofChars?]
  have hresult : Reader.result? = fun state => (Reader.settle state).bind Reader.result? :=
    funext fun state => (Reader.result?_settle state).symm
  rw [hresult, ← Option.bind_assoc, Reader.start, hreads]
  rfl

end Strided
