import Strided.Proofs.Json.Reader
import Strided.Proofs.Traversal
/-!
# Reading what a record was written from

What the readers of `Strided.Json.Access` find in a document that was written: the text of a string,
the items of an array, and in a record the value of each field.  A record with one tag more or less
is again a record, so nothing is said of members as such.

Everything written is spelled (`spelled_record`, `spelled_ofReal`), and can be gathered where its
numbers can be read (`gatherable_record`).
-/

namespace Strided

/-! ## 1. Texts

A text is written as its characters, none of them half of a pair, so it can be read. -/

namespace Glyph

/-- A text is read back from its glyphs. -/
theorem text?_ofText (text : String) : text? (ofText text) = some text := by
  have hchars : (text.toList.map char).mapM char? = some text.toList := by
    rw [List.mapM_map]
    exact mapM_eq_some_self fun _ _ => rfl
  rw [text?, ofText, hchars, Option.map_some, String.ofList_toList]

/-- So no two texts are spelled alike. -/
theorem ofText_inj {a b : String} : ofText a = ofText b ↔ a = b := by
  refine ⟨fun h => ?_, congrArg ofText⟩
  have htext := congrArg text? h
  rw [text?_ofText, text?_ofText] at htext
  exact Option.some.inj htext

theorem ofText_beq (a b : String) : (ofText a == ofText b) = (a == b) := by
  rw [Bool.eq_iff_iff, beq_iff_eq, beq_iff_eq, ofText_inj]

end Glyph

namespace Json

theorem text?_ofText (text : String) : (ofText text).text? = some text :=
  Glyph.text?_ofText text

/-! ## 2. Records

A record is written with each name once, so that its fields are found whatever is beside them. -/

/-- The values of the fields of the given name. -/
def valuesOf (name : String) (members : List (String × Json)) : List Json :=
  (members.filter fun member => member.1 == name).map Prod.snd

/-- Members of a record are found by the names they were given. -/
theorem named_record (name : String) (members : List (String × Json)) :
    named name (members.map fun member => (Glyph.ofText member.1, member.2))
      = valuesOf name members := by
  rw [named, List.filter_map, List.map_map, valuesOf]
  simp only [Function.comp_def, Glyph.ofText_beq]

/-- All of whose names are texts. -/
theorem readableNames_record (members : List (String × Json)) :
    readableNames (members.map fun member => (Glyph.ofText member.1, member.2)) = true := by
  simp [readableNames, Glyph.text?_ofText]

/-- Where no name stands twice, each has one value, so no repeated member is refused. -/
theorem valuesOf_eq_singleton {members : List (String × Json)} (h : (members.map Prod.fst).Nodup)
    {member : String × Json} (hmember : member ∈ members) :
    valuesOf member.1 members = [member.2] := by
  induction members with
  | nil => simp at hmember
  | cons first members ih =>
    obtain ⟨hfirst, hrest⟩ := List.nodup_cons.mp h
    rw [valuesOf]
    rcases List.mem_cons.mp hmember with rfl | hlater
    · have hnone : members.filter (fun other => other.1 == member.1) = [] := by
        refine List.filter_eq_nil_iff.mpr fun other hother hsame => hfirst ?_
        exact beq_iff_eq.mp hsame ▸ List.mem_map_of_mem hother
      rw [List.filter_cons, if_pos (beq_self_eq_true _), hnone]
      rfl
    · have hne : ¬(first.1 == member.1) = true := fun hsame =>
        hfirst (beq_iff_eq.mp hsame ▸ List.mem_map_of_mem hlater)
      rw [List.filter_cons, if_neg hne]
      exact ih hrest hlater

/-- **A record reads as the values of its fields**, in the order of the names asked for. -/
theorem record?_record {members : List (String × Json)} (h : (members.map Prod.fst).Nodup) :
    (record members).record? (members.map Prod.fst) = some (members.map Prod.snd) := by
  rw [record, record?, if_pos (readableNames_record members), List.mapM_map]
  refine mapM_eq_some_map fun member hmember => ?_
  simp only [Function.comp_apply, named_record, valuesOf_eq_singleton h hmember]

/-- A record with a tag in front is the record under its tag. -/
theorem tagged?_record {tag : String} {value : Json} {members : List (String × Json)}
    (h : tag ∉ members.map Prod.fst) :
    (record ((tag, value) :: members)).tagged? tag = some (value, record members) := by
  have hother : ∀ member ∈ members, (member.1 == tag) = false := by
    intro member hmember
    exact beq_eq_false_iff_ne.mpr fun hsame => h (hsame ▸ List.mem_map_of_mem hmember)
  have hvalues : valuesOf tag ((tag, value) :: members) = [value] := by
    rw [valuesOf, List.filter_cons, if_pos (beq_self_eq_true tag),
      List.filter_eq_nil_iff.mpr fun member hmember => by simp [hother member hmember]]
    rfl
  have hrest : ((tag, value) :: members).filter (fun member => member.1 != tag) = members := by
    rw [List.filter_cons, if_neg (by simp), List.filter_eq_self]
    exact fun member hmember => by rw [bne, hother member hmember, Bool.not_false]
  rw [record, tagged?, named_record, hvalues, List.filter_map]
  simp only [Function.comp_def, bne, Glyph.ofText_beq] at hrest ⊢
  rw [hrest, record]

/-- A text chooses the first of the names that it is equal to. -/
theorem choice?_ofText (intake : Intake) (names : List String) (text : String) :
    (ofText text).choice? intake names = names.findIdx? (· == text) := by
  rw [ofText, choice?, Glyph.text?_ofText, Option.bind_some]

/-- A record of one member is what a tagged value is written as. -/
theorem single?_record (name : String) (value : Json) :
    (record [(name, value)]).single? = some (name, value) := by
  rw [record, List.map_singleton, single?, Glyph.text?_ofText, Option.map_some]

/-- A list is read item by item. -/
theorem list?_map {α β : Type} (item? : Json → Option β) (f : α → Json) (items : List α) :
    (array (items.map f)).list? item? = items.mapM fun item => item? (f item) := by
  rw [list?, List.mapM_map]
  rfl

/-- Two readings, one after the other, can be made of all values at once. -/
theorem list?_bind {α β : Type} (f : Json → Option α) (g : α → Option β) (document : Json) :
    document.list? (fun value => (f value).bind g) = (document.list? f).bind (List.mapM g) := by
  cases document with
  | array items => exact mapM_bind f g items
  | _ => rfl

/-- Sizes come back if the machine has them. -/
theorem list?_ofNat {sizes : List Nat} (h : ∀ n ∈ sizes, n < sizeLimit) :
    (array (sizes.map ofNat)).list? natural? = some sizes := by
  rw [list?_map]
  exact mapM_eq_some_self fun n hn => natural?_ofNat (h n hn)

/-! ## 3. What is written can be gathered and spelled

What is tagged is read twice, first as any document and then as what its tag says.  The first
reading decodes everything, and can fail at a number that is read no more the second time;
`gatherable_record` says of which parts that has to be known. -/

/-- A natural number is spelled in its digits. -/
theorem spelled_ofNat (n : Nat) : (ofNat n).Spelled :=
  .number (Numeral.spelled_ofNat n)

/-- An integer is spelled with its sign. -/
theorem spelled_ofInt (n : Int) : (ofInt n).Spelled :=
  .number (Numeral.spelled_ofInt n)

/-- A finite number is spelled in its decimal digits, and one that is not finite as null. -/
theorem spelled_ofReal (x : Binary64) : (ofReal x).Spelled := by
  rw [ofReal]
  split
  next n hn => exact .number (Numeral.spelled_ofReal? hn)
  next => exact .null

/-- A list is spelled as its items are. -/
theorem spelled_map {α : Type} {f : α → Json} {items : List α}
    (h : ∀ item ∈ items, (f item).Spelled) : (array (items.map f)).Spelled :=
  .array (List.forall_mem_map.mpr h)

/-- So is a record, whose names are always texts. -/
theorem spelled_record {members : List (String × Json)}
    (h : ∀ member ∈ members, member.2.Spelled) : (record members).Spelled :=
  .object (List.forall_mem_map.mpr fun member _ => ⟨member.1, rfl⟩) (List.forall_mem_map.mpr h)

/-- A text has no parts, so any depth is enough for it. -/
theorem gatherable_ofText (depth : Nat) (text : String) :
    (ofText text).gatherable depth = true := by
  rw [ofText, gatherable, Glyph.text?_ofText, Option.isSome_some]

theorem gatherable_ofNat (depth : Nat) {n : Nat} (h : n < sizeLimit) :
    (ofNat n).gatherable depth = true := by
  rw [ofNat, gatherable, Numeral.value?_ofNat h, Option.isSome_some]

theorem gatherable_ofInt (depth : Nat) {n : Int} (hlow : -signedLimit ≤ n)
    (hhigh : n < signedLimit) :
    (ofInt n).gatherable depth = true := by
  have hread := integer?_ofInt hlow hhigh
  rw [ofInt, gatherable]
  rw [ofInt, integer?] at hread
  cases hvalue : (Numeral.ofInt n).value? with
  | none => simp [hvalue] at hread
  | some value => rfl

theorem gatherable_map {α : Type} (depth : Nat) {f : α → Json} {items : List α}
    (h : ∀ item ∈ items, (f item).gatherable depth = true) :
    (array (items.map f)).gatherable (depth + 1) = true := by
  rw [gatherable, List.all_eq_true]
  exact List.forall_mem_map.mpr h

theorem gatherable_record (depth : Nat) (members : List (String × Json)) :
    (record members).gatherable (depth + 1)
      = members.all fun member => member.2.gatherable depth := by
  rw [record, gatherable, List.all_map]
  simp [Function.comp_def, Glyph.text?_ofText]

/-- A number that cannot be gathered cannot be read. -/
theorem real?_of_not_gatherable {x : Binary64} {depth : Nat}
    (h : (ofReal x).gatherable depth = false) : (ofReal x).real? = none := by
  rw [ofReal] at h ⊢
  split at h
  next n hn =>
    rw [gatherable, Option.isSome_eq_false_iff, Option.isNone_iff_eq_none] at h
    simp only [real?, h]
  next => simp [gatherable] at h

end Json

end Strided
