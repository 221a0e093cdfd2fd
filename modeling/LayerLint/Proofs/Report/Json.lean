import LayerLint.Command.Run
import LayerLint.Proofs.Json.Printed

/-!
# Reports read back

A report is the same after it was printed as JSON and read again. What a violation lacks is left out
when it is written and filled in when it is read.
-/

namespace LayerLint

/-! ## Records -/

namespace Json

variable {slots : List (String × Option Json)}

/-- The fields of a record for which there is a value. -/
def written (slots : List (String × Option Json)) : List (String × Json) :=
  slots.filterMap fun slot => slot.2.map (slot.1, ·)

theorem written_cons (slot : String × Option Json) (slots : List (String × Option Json)) :
    written (slot :: slots) = (slot.2.map (slot.1, ·)).toList ++ written slots := by
  obtain ⟨name, value⟩ := slot
  cases value <;> rfl

theorem filter_own (slot : String × Option Json) (name : String) :
    (slot.2.map (slot.1, ·)).toList.filter (·.1 == name) =
      if slot.1 = name then (slot.2.map (slot.1, ·)).toList else [] := by
  obtain ⟨own, value⟩ := slot
  cases value with
  | none => simp
  | some value => by_cases h : own = name <;> simp [h]

theorem filter_written_of_notMem {name : String} (h : name ∉ slots.map Prod.fst) :
    (written slots).filter (·.1 == name) = [] := by
  induction slots with
  | nil => rfl
  | cons slot slots ih =>
      rw [List.map_cons, List.mem_cons, not_or] at h
      rw [written_cons, List.filter_append, filter_own, if_neg (Ne.symm h.1), ih h.2,
        List.nil_append]

theorem filter_written (h : (slots.map Prod.fst).Nodup) {slot : String × Option Json}
    (hslot : slot ∈ slots) :
    (written slots).filter (·.1 == slot.1) = (slot.2.map (slot.1, ·)).toList := by
  induction slots with
  | nil => cases hslot
  | cons first slots ih =>
      rw [List.map_cons, List.nodup_cons] at h
      rw [written_cons, List.filter_append, filter_own]
      rcases List.mem_cons.1 hslot with rfl | hslot
      · rw [if_pos rfl, filter_written_of_notMem h.1, List.append_nil]
      · have hne : first.1 ≠ slot.1 := fun heq => h.1 (heq ▸ List.mem_map_of_mem hslot)
        rw [if_neg hne, ih h.2 hslot, List.nil_append]

theorem field?_written (h : (slots.map Prod.fst).Nodup) {slot : String × Option Json}
    (hslot : slot ∈ slots) : field? slot.1 (written slots) = some slot.2 := by
  rw [field?, filter_written h hslot]
  cases slot.2 <;> rfl

theorem record?_written (h : (slots.map Prod.fst).Nodup) :
    record? (slots.map Prod.fst) (.obj (written slots)) = some (slots.map Prod.snd) := by
  have hall : ∀ part ⊆ slots, (part.map Prod.fst).mapM (field? · (written slots)) =
      some (part.map Prod.snd) := by
    intro part hpart
    induction part with
    | nil => rfl
    | cons slot part ih =>
        obtain ⟨hslot, hpart⟩ := List.cons_subset.1 hpart
        simp [field?_written h hslot, ih hpart]
  exact hall slots (List.Subset.refl _)

theorem texts?_strings (texts : List String) : texts? (.arr (texts.map .str)) = some texts := by
  have hmap : (texts.map Json.str).mapM text? = some texts := by
    induction texts with
    | nil => rfl
    | cons text texts ih => simp [text?, ih]
  exact hmap

theorem count?_ofNat {n : Nat} (h : n < countLimit) : count? (.ofNat n) = some n := by
  have hdigits : (Nat.toDigits 10 n).all Char.isDigit = true :=
    List.all_eq_true.2 fun c => Nat.isDigit_of_mem_toDigits (by decide) (by decide)
  simp only [count?, ofNat, Nat.toString_eq_ofList_toDigits, String.toList_ofList, hdigits,
    Text.decimal, Nat.ofDigitChars_ten_toDigits, h, decide_true, Bool.and_self, if_true]

/-! ## Values that may be left out -/

theorem defaulted_text (text : Option String) :
    defaulted (nullable text?) none (text.map .str) = some text := by
  cases text <;> rfl

theorem isPlain_text {text : Option String} : ∀ value ∈ text.map Json.str, value.IsPlain := by
  intro value hvalue
  obtain ⟨text, _, rfl⟩ := Option.map_eq_some_iff.1 hvalue
  exact .str text

/-- Texts as a value; there is none for no texts. -/
def listValue (texts : List String) : Option Json :=
  if texts = [] then none else some (.arr (texts.map .str))

theorem defaulted_listValue (texts : List String) :
    defaulted texts? [] (listValue texts) = some texts := by
  unfold listValue
  split
  · rename_i hempty
    rw [hempty]
    rfl
  · exact texts?_strings texts

theorem isPlain_listValue {texts : List String} : ∀ value ∈ listValue texts, value.IsPlain := by
  intro value hvalue
  unfold listValue at hvalue
  split at hvalue
  · cases hvalue
  · obtain rfl := Option.some.inj hvalue
    refine .arr fun item hitem => ?_
    obtain ⟨text, _, rfl⟩ := List.mem_map.1 hitem
    exact .str text

end Json

/-! ## Violations -/

theorem Severity.ofName?_name (severity : Severity) : ofName? severity.name = some severity := by
  cases severity <;> rfl

namespace Violation

/-- The fields of a violation, with the value of each that is written. -/
def slots (v : Violation) : List (String × Option Json) :=
  [("code", some (.str v.code)), ("rule", some (.str v.rule)),
    ("severity", some (.str v.severity.name)), ("path", some (.str v.path)),
    ("message", some (.str v.message)), ("context", v.context.map .str),
    ("expected", v.expected.map .str), ("actual", v.actual.map .str),
    ("suggestions", Json.listValue v.suggestions)]

theorem toJson_eq (v : Violation) : v.toJson = .obj (Json.written v.slots) := by
  have htext : ∀ (name : String) (text : Option String),
      ((text.map Json.str).map (name, ·)).toList = optionalField name text := by
    intro name text
    cases text <;> rfl
  have hlist : ∀ (name : String) (texts : List String),
      ((Json.listValue texts).map (name, ·)).toList =
        if texts.isEmpty then [] else [(name, Json.arr (texts.map .str))] := by
    intro name texts
    cases texts <;> rfl
  simp only [slots, Json.written_cons, htext, hlist, Option.map_some, Option.toList_some]
  simp only [toJson, List.append_assoc, List.cons_append, List.nil_append, Json.written,
    List.filterMap_nil, List.append_nil]

theorem ofJson?_toJson (v : Violation) : ofJson? v.toJson = some v := by
  have hnodup : fieldNames.Nodup := by decide
  have hrecord : v.toJson.record? fieldNames = some (v.slots.map Prod.snd) := by
    rw [toJson_eq]
    exact Json.record?_written hnodup
  unfold ofJson?
  rw [hrecord]
  simp only [slots, List.map_cons, List.map_nil, Option.bind_eq_bind, Option.bind_some, Json.text?,
    Severity.ofJson?, Severity.ofName?_name, Json.defaulted_text, Json.defaulted_listValue,
    Option.pure_def]

theorem isPlain_toJson (v : Violation) : v.toJson.IsPlain := by
  have hstr : ∀ text, ∀ value ∈ some (Json.str text), value.IsPlain := by
    intro text value hvalue
    obtain rfl := Option.some.inj hvalue
    exact .str text
  have hslots : ∀ slot ∈ v.slots, ∀ value ∈ slot.2, value.IsPlain := by
    simp only [slots, List.forall_mem_cons]
    exact ⟨hstr _, hstr _, hstr _, hstr _, hstr _, Json.isPlain_text, Json.isPlain_text,
      Json.isPlain_text, Json.isPlain_listValue, List.forall_mem_nil _⟩
  rw [toJson_eq]
  refine .obj fun field hfield => ?_
  obtain ⟨slot, hslot, hfield⟩ := List.mem_filterMap.1 hfield
  obtain ⟨value, hvalue, rfl⟩ := Option.map_eq_some_iff.1 hfield
  exact hslots slot hslot value hvalue

end Violation

/-! ## Reports -/

namespace Report

theorem ofJson?_toJson (report : Report) (h : report.filesChecked < countLimit) :
    ofJson? report.toJson = some report := by
  have hrecord : report.toJson.record? ["violations", "files_checked"] =
      some [some (.arr (report.violations.map Violation.toJson)),
        some (.ofNat report.filesChecked)] := rfl
  have hviolations : (report.violations.map Violation.toJson).mapM Violation.ofJson? =
      some report.violations := by
    induction report.violations with
    | nil => rfl
    | cons v violations ih => simp [Violation.ofJson?_toJson, ih]
  unfold ofJson?
  rw [hrecord]
  simp only [Option.bind_eq_bind, Option.bind_some, Json.items?, hviolations,
    Json.count?_ofNat h, Option.pure_def]

theorem isPlain_toJson (report : Report) : report.toJson.IsPlain := by
  refine .obj (List.forall_mem_cons.2 ⟨.arr fun item hitem => ?_,
    List.forall_mem_singleton.2 (.count _)⟩)
  obtain ⟨v, _, rfl⟩ := List.mem_map.1 hitem
  exact v.isPlain_toJson

/-- A report is read back from the value it is written as, from the text of that value, and from
what the check prints. -/
theorem report_survives_json (report : Report) (h : report.filesChecked < countLimit) :
    ofJson? report.toJson = some report ∧
    (Json.parse? report.json).bind ofJson? = some report ∧
    (Json.parse? (report.print .json)).bind ofJson? = some report := by
  have hplain := report.isPlain_toJson
  have hvalue := report.ofJson?_toJson h
  refine ⟨hvalue, ?_, ?_⟩
  · have hparse := hplain.parse?_pretty "" (by simp)
    rw [String.append_empty] at hparse
    rw [json, hparse, Option.bind_some, hvalue]
  · rw [print, json, hplain.parse?_pretty "\n" (by simp [Json.isSpace]), Option.bind_some, hvalue]

/-- An example: the greatest count, texts with quotes, backslashes and control characters, an empty
text next to one that is missing, and no suggestions. -/
def oddTexts : Report :=
  { violations :=
      [{ code := "AG004", rule := "", severity := .info, path := "lib\\\"a\".go"
         message := "tab\tand\x01 bell\x07", expected := some "", actual := some "é\n" },
        { code := "", rule := "no-cycles", severity := .error, path := "", message := ""
          context := some "", suggestions := ["", "\\"] }]
    filesChecked := countLimit - 1 }

theorem report_survives_json_oddTexts :
    oddTexts.filesChecked < countLimit ∧ ofJson? oddTexts.toJson = some oddTexts ∧
      (Json.parse? (oddTexts.print .json)).bind ofJson? = some oddTexts := by
  have hcount : oddTexts.filesChecked < countLimit := by decide
  obtain ⟨hvalue, _, hprinted⟩ := report_survives_json oddTexts hcount
  exact ⟨hcount, hvalue, hprinted⟩

end Report

end LayerLint
