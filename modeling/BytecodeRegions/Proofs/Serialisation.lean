import BytecodeRegions.Diagnostic
import BytecodeRegions.Proofs.Json.RoundTrip
import Mathlib.Data.List.Nodup

/-!
# Findings survive being written

A finding is handed on as one line of text, which leaves out what is empty. The line is read back as
the value of the finding, and no two findings that differ in a field, in the positions of the other
instructions or in the evidence share a line.

## Main definitions

* `Json.Meaning.member?`: the member of a value at a key.
* `Diagnostic.Agree`: findings that have the same fields.

## Main results

* `Diagnostic.meaning_eq_of_mem`: findings with one line have the same value at each key.
* `Diagnostic.jsonText_faithful`: the line is plain, is read back, and determines the finding.
-/

namespace BytecodeRegions

namespace Json

/-- The member at a key of a value that is a map. -/
def Meaning.member? : Meaning → String → Option Meaning
  | .obj member?, key => member? key
  | _, _ => none

variable {members : List (String × Json)} {key : String}

theorem member?_meaning_obj (members : List (String × Json)) (key : String) :
    (obj members).meaning.member? key = (asMap members key).map meaning :=
  asMap_memberMeanings members key

theorem member?_meaning_obj_eq_none_iff :
    (obj members).meaning.member? key = none ↔ key ∉ members.map Prod.fst := by
  rw [member?_meaning_obj, asMap, Option.map_eq_none_iff, Option.map_eq_none_iff,
    List.getLast?_eq_none_iff, List.filter_eq_nil_iff]
  simp only [List.mem_map, not_exists, not_and, decide_eq_true_eq]

/-- Where no key is repeated, a member is found at its key. -/
theorem member?_meaning_obj_of_mem {v : Json} (hkeys : (members.map Prod.fst).Nodup)
    (hv : (key, v) ∈ members) : (obj members).meaning.member? key = some v.meaning := by
  have hmem : (key, v) ∈ members.filter (·.1 = key) := List.mem_filter.2 ⟨hv, by simp⟩
  have hlast := List.getLast?_eq_some_getLast (List.ne_nil_of_mem hmem)
  generalize List.getLast _ _ = m at hlast
  obtain ⟨hm, hkey⟩ := List.mem_filter.1 (List.mem_of_getLast? hlast)
  have heq : m = (key, v) := List.inj_on_of_nodup_map hkeys hm hv (of_decide_eq_true hkey)
  rw [member?_meaning_obj, asMap, hlast, heq]
  rfl

end Json

namespace Diagnostic

open Json

variable {d e : Diagnostic} {key : String} {v w : Json}

theorem nodup_keys_members (d : Diagnostic) : (d.members.map Prod.fst).Nodup := by
  rw [members]
  split <;> split <;> simp

theorem member?_secondary_eq_none_iff (d : Diagnostic) :
    d.json.meaning.member? "secondary" = none ↔ d.secondary = [] := by
  rw [json, member?_meaning_obj_eq_none_iff, members]
  split <;> split <;> simp_all

theorem member?_evidence_eq_none_iff (d : Diagnostic) :
    d.json.meaning.member? "evidence" = none ↔ d.evidence = [] := by
  rw [json, member?_meaning_obj_eq_none_iff, members]
  split <;> split <;> simp_all

/-- Findings with one line have the same value at each key. -/
theorem meaning_eq_of_mem (h : d.jsonText = e.jsonText) (hv : (key, v) ∈ d.members)
    (hw : (key, w) ∈ e.members) : v.meaning = w.meaning := by
  have hmeaning : d.json.meaning = e.json.meaning := meaning_eq_of_text_eq h
  refine Option.some.inj ?_
  rw [← member?_meaning_obj_of_mem d.nodup_keys_members hv,
    ← member?_meaning_obj_of_mem e.nodup_keys_members hw]
  exact congrArg (·.member? key) hmeaning

/-! ### What a line determines -/

theorem severity_name_injective : Function.Injective Severity.name := by
  intro a b h
  cases a <;> cases b <;> first | rfl | (revert h; decide)

/-- Findings that have the same fields: of the other instructions the positions count, and of the
evidence the map that it makes. -/
structure Agree (d e : Diagnostic) : Prop where
  /-- The names of the methods. -/
  method : d.location.method = e.location.method
  /-- The positions. -/
  position : d.location.position = e.location.position
  /-- How grave they are. -/
  severity : d.severity = e.severity
  /-- The words. -/
  message : d.message = e.message
  /-- The identifiers. -/
  errorId : d.errorId = e.errorId
  /-- The codes. -/
  code : d.code = e.code
  /-- The positions of the other instructions. -/
  secondary : d.secondary.map Location.position = e.secondary.map Location.position
  /-- Whether other instructions take part. -/
  noSecondary : d.secondary = [] ↔ e.secondary = []
  /-- The evidence. -/
  evidence : (obj d.evidence).meaning = (obj e.evidence).meaning
  /-- Whether there is evidence. -/
  noEvidence : d.evidence = [] ↔ e.evidence = []

theorem mem_members_secondary (h : d.secondary ≠ []) :
    ("secondary", arr (d.secondary.map fun l => int l.position)) ∈ d.members := by
  simp [members, h]

theorem mem_members_evidence (h : d.evidence ≠ []) : ("evidence", obj d.evidence) ∈ d.members := by
  simp [members, h]

theorem secondary_eq_nil_iff (h : d.jsonText = e.jsonText) :
    d.secondary = [] ↔ e.secondary = [] := by
  have hmeaning : d.json.meaning = e.json.meaning := meaning_eq_of_text_eq h
  rw [← d.member?_secondary_eq_none_iff, ← e.member?_secondary_eq_none_iff, hmeaning]

theorem evidence_eq_nil_iff (h : d.jsonText = e.jsonText) :
    d.evidence = [] ↔ e.evidence = [] := by
  have hmeaning : d.json.meaning = e.json.meaning := meaning_eq_of_text_eq h
  rw [← d.member?_evidence_eq_none_iff, ← e.member?_evidence_eq_none_iff, hmeaning]

theorem secondary_positions_eq (h : d.jsonText = e.jsonText) :
    d.secondary.map Location.position = e.secondary.map Location.position := by
  by_cases hd : d.secondary = []
  · rw [hd, (secondary_eq_nil_iff h).1 hd]
  · have he : e.secondary ≠ [] := fun he => hd ((secondary_eq_nil_iff h).2 he)
    have hmeaning := meaning_eq_of_mem h (mem_members_secondary hd) (mem_members_secondary he)
    rw [meaning, meaning, itemMeanings_eq_map, itemMeanings_eq_map, List.map_map, List.map_map,
      Meaning.arr.injEq] at hmeaning
    have hinj : Function.Injective Meaning.int := fun _ _ hn => Meaning.int.inj hn
    refine hinj.list_map ?_
    rw [List.map_map, List.map_map]
    exact hmeaning

theorem evidence_meaning_eq (h : d.jsonText = e.jsonText) :
    (obj d.evidence).meaning = (obj e.evidence).meaning := by
  by_cases hd : d.evidence = []
  · rw [hd, (evidence_eq_nil_iff h).1 hd]
  · have he : e.evidence ≠ [] := fun he => hd ((evidence_eq_nil_iff h).2 he)
    exact meaning_eq_of_mem h (mem_members_evidence hd) (mem_members_evidence he)

/-- Strings at one key of two findings with one line are equal. -/
theorem str_eq_of_mem {s t : String} (h : d.jsonText = e.jsonText) (key : String)
    (hs : (key, str s) ∈ d.members) (ht : (key, str t) ∈ e.members) : s = t :=
  Meaning.str.inj (meaning_eq_of_mem h hs ht)

theorem position_eq (h : d.jsonText = e.jsonText) : d.location.position = e.location.position := by
  have hd : ("position", int d.location.position) ∈ d.members := by simp [members]
  have he : ("position", int e.location.position) ∈ e.members := by simp [members]
  exact Meaning.int.inj (meaning_eq_of_mem h hd he)

/-- A line determines the finding. -/
theorem agree_of_jsonText_eq (h : d.jsonText = e.jsonText) : d.Agree e where
  method := str_eq_of_mem h "method" (by simp [members]) (by simp [members])
  position := position_eq h
  severity := severity_name_injective
    (str_eq_of_mem h "severity" (by simp [members]) (by simp [members]))
  message := str_eq_of_mem h "message" (by simp [members]) (by simp [members])
  errorId := str_eq_of_mem h "errorId" (by simp [members]) (by simp [members])
  code := str_eq_of_mem h "code" (by simp [members]) (by simp [members])
  secondary := secondary_positions_eq h
  noSecondary := secondary_eq_nil_iff h
  evidence := evidence_meaning_eq h
  noEvidence := evidence_eq_nil_iff h

/-- A finding is written as a line of ASCII without controls; the line is read back as the value of
the finding, which lacks exactly what is empty; and findings with one line agree. -/
theorem jsonText_faithful (d : Diagnostic) :
    IsPlain d.jsonText.toList ∧
      (∃ v, read? d.jsonText = some v ∧ v.meaning = d.json.meaning ∧
        (v.meaning.member? "secondary" = none ↔ d.secondary = []) ∧
        (v.meaning.member? "evidence" = none ↔ d.evidence = [])) ∧
      ∀ e : Diagnostic, d.jsonText = e.jsonText → d.Agree e := by
  obtain ⟨v, hv, hmeaning⟩ := exists_read?_text d.json
  refine ⟨isPlain_text d.json, ⟨v, hv, hmeaning, ?_, ?_⟩, fun e => agree_of_jsonText_eq⟩
  · rw [hmeaning]
    exact d.member?_secondary_eq_none_iff
  · rw [hmeaning]
    exact d.member?_evidence_eq_none_iff

/-- Two findings whose evidence has the same members in another order share a line. -/
theorem jsonText_faithful_reordered :
    let d : Diagnostic :=
      { errorId := "subroutineProtected", message := "a \"guard\" \\ é\n😀", severity := .error,
        location := ⟨"m", 2⟩, secondary := [⟨"m", 4⟩, ⟨"", -1⟩],
        evidence := [("b", .arr [.null, .int (-7)]), ("a", .obj [])] }
    let e := { d with evidence := [("a", .obj []), ("b", .arr [.null, .int (-7)])] }
    d.jsonText = e.jsonText ∧ d.Agree e := by
  intro d e
  have hevidence : (obj d.evidence).text = (obj e.evidence).text := by
    rw [text_obj, text_obj]
    simp [d, e, List.mergeSort, List.MergeSort.Internal.splitInTwo, keyLe]
  have htexts : memberTexts d.members = memberTexts e.members := by
    rw [memberTexts_eq_map, memberTexts_eq_map]
    simpa [members, d, e] using hevidence
  have htext : d.jsonText = e.jsonText := by
    rw [jsonText, jsonText, json, json, text, text, htexts]
  exact ⟨htext, (jsonText_faithful d).2.2 e htext⟩

end Diagnostic

end BytecodeRegions
