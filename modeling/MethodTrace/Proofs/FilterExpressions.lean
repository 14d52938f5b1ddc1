import MethodTrace.Call.Filter
import MethodTrace.Proofs.TextParts
import MethodTrace.Settings.Document

/-! # What filter expressions say

An expression lists parts between commas, without the blanks around them (`Lists`). Which events are hidden is told by
the parts that are listed, and the expression that joins some parts with commas gives the filter that is made from the
parts themselves. -/

namespace MethodTrace
namespace Filter

/-- A part stands between commas, up to blanks, and is not empty. -/
def Lists (list part : String) : Prop :=
  part ≠ "" ∧ ∃ piece, Text.Piece ',' list.toList piece ∧ Text.Trims piece part.toList

theorem mem_listParts {list part : String} : part ∈ listParts list.toList ↔ Lists list part := by
  simp only [listParts, Lists, List.mem_map, List.mem_filter, Text.mem_cutAt, Text.trims_iff, decide_eq_true_eq]
  constructor
  · rintro ⟨chars, ⟨⟨piece, hpiece, rfl⟩, hne⟩, rfl⟩
    exact ⟨by simpa using hne, piece, hpiece, String.toList_ofList.symm⟩
  · rintro ⟨hne, piece, hpiece, htrim⟩
    exact ⟨part.toList, ⟨⟨piece, hpiece, htrim⟩, by simpa using hne⟩, String.ofList_toList⟩

/-! ### What is hidden -/

theorem hides_exclude {fragments : List String} {event : Event} :
    (exclude fragments).hides event = true ↔
      ∃ part ∈ fragments, part ≠ "" ∧ part.toList <:+: event.path.toList := by
  unfold exclude
  split
  next hnone =>
    rw [List.filter_eq_nil_iff] at hnone
    refine ⟨nofun, ?_⟩
    rintro ⟨part, hpart, hne, -⟩
    exact absurd (decide_eq_true hne) (hnone part hpart)
  next => simp [hides, Text.occursIn_iff]

/-- A path that is one of the fragments is hidden. -/
theorem hidesNothing_exclude {fragments : List String} :
    (exclude fragments).hidesNothing = true ↔ ∀ event, (exclude fragments).hides event = false := by
  cases hkept : fragments.filter (· ≠ "") with
  | nil =>
    rw [exclude, hkept]
    exact ⟨fun _ _ => rfl, fun _ => rfl⟩
  | cons part rest =>
    obtain ⟨hpart, hne⟩ := List.mem_filter.mp (hkept ▸ List.mem_cons_self : part ∈ fragments.filter (· ≠ ""))
    have hhides : (exclude fragments).hides { Event.root with path := part } = true :=
      hides_exclude.mpr ⟨part, hpart, by simpa using hne, List.infix_refl _⟩
    have hnot : (exclude fragments).hidesNothing = false := by
      rw [exclude, hkept]
      rfl
    constructor
    · intro hnothing
      rw [hnot] at hnothing
      cases hnothing
    · intro hnone
      rw [hnone] at hhides
      cases hhides

theorem mem_sortedDistinct {name : String} {names : List String} : name ∈ sortedDistinct names ↔ name ∈ names := by
  rw [sortedDistinct, List.mem_eraseDups, List.mem_mergeSort]

theorem hides_only {entities : List String} {event : Event} :
    (only entities).hides event = true ↔ event.method.entity ∉ entities := by
  simp [only, hides, mem_sortedDistinct]

/-! ### Expressions and lists -/

theorem ofExpression_exclude (list : String) :
    ofExpression ("exclude=" ++ list) = .ok (exclude (listParts list.toList)) := by
  unfold ofExpression
  rw [Text.behind?_eq_some.mpr String.toList_append]

theorem ofExpression_only (list : String) : ofExpression ("only=" ++ list) = .ok (only (listParts list.toList)) := by
  have hnot : Text.behind? "exclude=".toList ("only=" ++ list).toList = none := by simp [Text.behind?]
  unfold ofExpression
  rw [hnot, Text.behind?_eq_some.mpr String.toList_append]

theorem eq_append_of_behind? {start text : String} {rest : List Char}
    (h : Text.behind? start.toList text.toList = some rest) : text = start ++ String.ofList rest := by
  apply String.toList_inj.mp
  rw [String.toList_append, String.toList_ofList]
  exact Text.behind?_eq_some.mp h

theorem ofExpression_eq_ok {expression : String} {filter : Filter} (h : ofExpression expression = .ok filter) :
    ∃ list, expression = "exclude=" ++ list ∨ expression = "only=" ++ list := by
  unfold ofExpression at h
  split at h
  next list hbehind => exact ⟨_, .inl (eq_append_of_behind? hbehind)⟩
  next =>
    split at h
    next list hbehind => exact ⟨_, .inr (eq_append_of_behind? hbehind)⟩
    next => cases h

/-- A part of a list with blanks on both sides. -/
structure PaddedPart where
  before : List Char := []
  part : String
  after : List Char := []

namespace PaddedPart

def text (item : PaddedPart) : String := String.ofList item.before ++ item.part ++ String.ofList item.after

/-- The blanks are blanks, and the part is one that a list can hold as it is. -/
structure Plain (item : PaddedPart) : Prop where
  before : ∀ c ∈ item.before, Text.isBlank c = true
  after : ∀ c ∈ item.after, Text.isBlank c = true
  nonempty : item.part ≠ ""
  noComma : ',' ∉ item.part.toList
  first : ∀ c, item.part.toList.head? = some c → Text.isBlank c = false
  last : ∀ c, item.part.toList.getLast? = some c → Text.isBlank c = false

/-- Parts joined with commas. -/
def joined (items : List PaddedPart) : String := ",".intercalate (items.map text)

theorem toList_text (item : PaddedPart) : item.text.toList = item.before ++ item.part.toList ++ item.after := by
  simp [text]

theorem Plain.comma_not_mem {item : PaddedPart} (h : item.Plain) : ',' ∉ item.text.toList := by
  have hblank : ∀ cs : List Char, (∀ c ∈ cs, Text.isBlank c = true) → ',' ∉ cs := by
    intro cs hcs hmem
    exact absurd (hcs ',' hmem) (by decide)
  simp [toList_text, hblank _ h.before, hblank _ h.after, h.noComma]

theorem Plain.trimChars_text {item : PaddedPart} (h : item.Plain) : Text.trimChars item.text.toList = item.part.toList :=
  Text.trims_iff.mp ⟨⟨item.before, item.after, item.toList_text, h.before, h.after⟩, h.first, h.last⟩

theorem cutAt_joined {items : List PaddedPart} (hne : items ≠ []) (h : ∀ item ∈ items, item.Plain) :
    Text.cutAt ',' (joined items).toList = items.map (·.text.toList) := by
  rw [joined, String.toList_intercalate, List.map_map]
  refine Text.cutAt_intercalate (by simpa using hne) fun piece hpiece => ?_
  obtain ⟨item, hitem, rfl⟩ := List.mem_map.mp hpiece
  exact (h item hitem).comma_not_mem

theorem listParts_joined {items : List PaddedPart} (h : ∀ item ∈ items, item.Plain) :
    listParts (joined items).toList = items.map (·.part) := by
  by_cases hne : items = []
  · subst hne
    rfl
  · have htrim : (items.map (·.text.toList)).map Text.trimChars = items.map (·.part.toList) := by
      rw [List.map_map]
      exact List.map_congr_left fun item hitem => (h item hitem).trimChars_text
    have hfilter : (items.map (·.part.toList)).filter (· ≠ []) = items.map (·.part.toList) := by
      rw [List.filter_eq_self]
      intro chars hchars
      obtain ⟨item, hitem, rfl⟩ := List.mem_map.mp hchars
      simpa using (h item hitem).nonempty
    rw [listParts, cutAt_joined hne h, htrim, hfilter, List.map_map]
    exact List.map_congr_left fun item _ => String.ofList_toList

end PaddedPart

/-! ### Every expression -/

/-- What a filter hides that leaves out the paths a list has parts of. -/
structure HidesPaths (list : String) (filter : Filter) : Prop where
  hides : ∀ event, filter.hides event = true ↔ ∃ part, Lists list part ∧ part.toList <:+: event.path.toList
  nothing : (∀ part, ¬Lists list part) → filter = .nothing
  hidesNothing : filter.hidesNothing = true ↔ ∀ event, filter.hides event = false

/-- What a filter hides that keeps the entities of a list. -/
structure HidesOthers (list : String) (filter : Filter) : Prop where
  hides : ∀ event, filter.hides event = true ↔ ¬Lists list event.method.entity
  everything : (∀ part, ¬Lists list part) → ∀ event, filter.hides event = true
  hidesNothing : filter.hidesNothing = false

theorem hidesPaths (list : String) : HidesPaths list (exclude (listParts list.toList)) := by
  refine ⟨?_, ?_, hidesNothing_exclude⟩
  · intro event
    simp only [hides_exclude, mem_listParts]
    refine exists_congr fun part => ⟨fun ⟨hlists, _, hpath⟩ => ⟨hlists, hpath⟩, fun ⟨hlists, hpath⟩ => ?_⟩
    exact ⟨hlists, hlists.1, hpath⟩
  · intro hnone
    have hparts : listParts list.toList = [] :=
      List.eq_nil_iff_forall_not_mem.mpr fun part hpart => hnone part (mem_listParts.mp hpart)
    rw [hparts]
    rfl

theorem hidesOthers (list : String) : HidesOthers list (only (listParts list.toList)) := by
  have hhides : ∀ event, (only (listParts list.toList)).hides event = true ↔ ¬Lists list event.method.entity := by
    intro event
    rw [hides_only, mem_listParts]
  exact ⟨hhides, fun hnone event => (hhides event).mpr (hnone _), rfl⟩

/-- Just the expressions that begin with `exclude=` or `only=` are filters. The first kind hides the events whose path
holds a part that the rest lists, the second kind those whose entity the rest does not list. If the rest joins parts
with commas, the filter is the one that settings have for a list of these parts. -/
theorem hides_as_listed :
    (∀ expression, (∃ filter, ofExpression expression = .ok filter) ↔
        ∃ list, expression = "exclude=" ++ list ∨ expression = "only=" ++ list) ∧
      (∀ list, ∃ filter, ofExpression ("exclude=" ++ list) = .ok filter ∧ HidesPaths list filter) ∧
      (∀ list, ∃ filter, ofExpression ("only=" ++ list) = .ok filter ∧ HidesOthers list filter) ∧
      ∀ items : List PaddedPart, (∀ item ∈ items, item.Plain) →
        let parts := items.map (·.part)
        (ofExpression ("exclude=" ++ PaddedPart.joined items) = .ok (.exclude parts) ∧
            Settings.filterOf (some parts) none = .ok (.exclude parts)) ∧
          ofExpression ("only=" ++ PaddedPart.joined items) = .ok (.only parts) ∧
            Settings.filterOf none (some parts) = .ok (.only parts) := by
  refine ⟨fun expression => ⟨fun ⟨filter, h⟩ => ofExpression_eq_ok h, ?_⟩, fun list => ?_, fun list => ?_, ?_⟩
  · rintro ⟨list, rfl | rfl⟩
    · exact ⟨_, ofExpression_exclude list⟩
    · exact ⟨_, ofExpression_only list⟩
  · exact ⟨_, ofExpression_exclude list, hidesPaths list⟩
  · exact ⟨_, ofExpression_only list, hidesOthers list⟩
  · intro items hplain parts
    have hparts := PaddedPart.listParts_joined hplain
    refine ⟨⟨?_, rfl⟩, ?_, rfl⟩
    · rw [ofExpression_exclude, hparts]
    · rw [ofExpression_only, hparts]

/-- A tab before a comma and an ideographic space at the end are blanks. -/
theorem hides_as_listed_with_blanks :
    let items : List PaddedPart :=
      [{ part := "vendor/", after := ['\t'] }, { before := [' '], part := "a b", after := ['\u3000'] }]
    (∀ item ∈ items, item.Plain) ∧ PaddedPart.joined items = "vendor/\t, a b\u3000" ∧
      ofExpression "exclude=vendor/\t, a b\u3000" = .ok (.exclude ["vendor/", "a b"]) ∧
      Settings.filterOf (some ["vendor/", "a b"]) none = .ok (.exclude ["vendor/", "a b"]) := by
  intro items
  have hplain : ∀ item ∈ items, item.Plain := by
    intro item hitem
    rcases List.mem_pair.mp hitem with rfl | rfl <;> constructor <;> simp <;> decide
  have hjoined : PaddedPart.joined items = "vendor/\t, a b\u3000" := by decide
  obtain ⟨hexclude, -⟩ := hides_as_listed.2.2.2 items hplain
  exact ⟨hplain, hjoined, hexclude⟩

end Filter
end MethodTrace
