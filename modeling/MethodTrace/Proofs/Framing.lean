import Mathlib.Logic.Basic
import Mathlib.Logic.ExistsUnique
import MethodTrace.Proofs.Decoding

/-! # Marks between rows

A label stands in its mark as it is, so it may hold line feeds. Items of one layout are parted in one way only as long
as no label can be taken for a mark and further items (`Layout.Bounds`). Every label that can be taken so is the label
of some trace that reads in two ways. -/

namespace MethodTrace

/-! ### Items of a trace -/

/-- What stands in a trace behind its header. -/
inductive Item where
  | mark (label : String)
  | row (text : String)
  deriving DecidableEq

namespace Item

def text : Item → String
  | mark label => Row.ofMark label
  | row text => text

/-- The text of items that follow each other. -/
def textOf (items : List Item) : String := String.join (items.map text)

def chars (items : List Item) : List Char := items.flatMap fun item => item.text.toList

theorem toList_textOf (items : List Item) : (textOf items).toList = chars items := by
  rw [textOf, String.toList_join, List.flatMap_map, chars]

theorem chars_mark (label : String) (items : List Item) :
    chars (mark label :: items) = "--- ".toList ++ (label.toList ++ '\n' :: chars items) := by
  simp [chars, text, Row.ofMark]

theorem chars_row (text : String) (items : List Item) : chars (.row text :: items) = text.toList ++ chars items := rfl

end Item

/-! ### Where a line feed can stand -/

/-- The same event with its method changed. -/
def Event.withMethod (event : Event) (change : Method → Method) : Event where
  kind := event.kind
  method := change event.method
  path := event.path
  line := event.line

namespace Row

theorem doubled_append (cs ds : List Char) : doubled (cs ++ ds) = doubled cs ++ doubled ds := by
  induction cs with
  | nil => rfl
  | cons c cs ih =>
    rw [List.cons_append, doubled, doubled, ih]
    split <;> rfl

theorem cut_plain {plain u p rest : List Char} (hplain : '\n' ∉ plain) (h : plain ++ u = p ++ '\n' :: rest) :
    ∃ q, p = plain ++ q ∧ u = q ++ '\n' :: rest := by
  rcases List.append_eq_append_iff.mp h with ⟨q, hp, hu⟩ | ⟨cs, hcs, hrest⟩
  · exact ⟨q, hp, hu⟩
  · cases cs with
    | nil => exact ⟨[], by simpa using hcs.symm, by simpa using hrest.symm⟩
    | cons c cs =>
      rw [← (List.cons.inj hrest).1] at hcs
      exact absurd (hcs ▸ by simp) hplain

theorem cut_doubled {cs u p rest : List Char} (h : doubled cs ++ u = p ++ '\n' :: rest) :
    (∃ start after, cs = start ++ '\n' :: after ∧ p = doubled start) ∨
      ∃ q, p = doubled cs ++ q ∧ u = q ++ '\n' :: rest := by
  induction cs generalizing p with
  | nil => exact .inr ⟨p, rfl, h⟩
  | cons c cs ih =>
    have hcons : ∀ ds, doubled (c :: ds) = doubled [c] ++ doubled ds := doubled_append [c]
    -- What the rest of the field says of the rest of `p`, it says of both with `c` in front.
    have wrap : ∀ q, p = doubled [c] ++ q → doubled cs ++ u = q ++ '\n' :: rest →
        (∃ start after, c :: cs = start ++ '\n' :: after ∧ p = doubled start) ∨
          ∃ q, p = doubled (c :: cs) ++ q ∧ u = q ++ '\n' :: rest := by
      intro q hp hq
      rcases ih hq with ⟨start, after, hcs, hstart⟩ | ⟨more, hmore, hu⟩
      · exact .inl ⟨c :: start, after, by rw [hcs, List.cons_append], by rw [hp, hstart, hcons start]⟩
      · exact .inr ⟨more, by rw [hp, hmore, hcons cs, List.append_assoc], hu⟩
    rw [hcons cs, List.append_assoc] at h
    by_cases hc : c = '\n'
    · cases p with
      | nil => exact .inl ⟨[], cs, by rw [hc, List.nil_append], rfl⟩
      | cons d p =>
        subst hc
        obtain ⟨rfl, hq⟩ := List.cons.inj h
        exact wrap p rfl hq
    · have hplain : '\n' ∉ doubled [c] := by
        unfold doubled
        split <;> simp [doubled, Ne.symm hc]
      obtain ⟨q, hp, hq⟩ := cut_plain hplain h
      exact wrap q hp hq

theorem cut_field {text : String} {u p rest : List Char} (h : (field text).toList ++ u = p ++ '\n' :: rest) :
    (∃ start, p = '\x22' :: doubled start) ∨ ∃ q, p = (field text).toList ++ q ∧ u = q ++ '\n' :: rest := by
  have hchars : ∀ more, (field text).toList ++ more = ['\x22'] ++ (doubled text.toList ++ (['\x22'] ++ more)) := by
    simp [field]
  rw [hchars] at h
  obtain ⟨inside, hp, h⟩ := cut_plain (by decide) h
  rcases cut_doubled h with ⟨start, after, -, hstart⟩ | ⟨behind, hbehind, h⟩
  · exact .inl ⟨start, by rw [hp, hstart, List.singleton_append]⟩
  · obtain ⟨q, hq, hu⟩ := cut_plain (by decide) h
    exact .inr ⟨q, by rw [hp, hbehind, hq, hchars], hu⟩

/-- A text ends inside a field that may as well hold something else. -/
def BreaksOff (texts : String → Prop) (p : List Char) : Prop :=
  ∃ front back start, p = front.toList ++ '\x22' :: doubled start ∧ ∀ text, texts (front ++ field text ++ back)

theorem BreaksOff.within {texts rows : String → Prop} {p : List Char} (h : BreaksOff texts p) {a b : String}
    (hrow : ∀ text, texts text → rows (a ++ text ++ b)) : BreaksOff rows (a.toList ++ p) := by
  obtain ⟨front, back, start, hp, htexts⟩ := h
  refine ⟨a ++ front, back ++ b, start, by simp [hp], fun text => ?_⟩
  have heq : a ++ front ++ field text ++ (back ++ b) = a ++ (front ++ field text ++ back) ++ b := by
    simp only [String.append_assoc]
  rw [heq]
  exact hrow _ (htexts text)

theorem feed_not_mem_of_isBare {text : String} (h : Record.isBare text = true) : '\n' ∉ text.toList := by
  intro hmem
  have hgoes := List.all_eq_true.mp (Bool.and_eq_true_iff.mp h).2 _ hmem
  cases hgoes

theorem cut_place {event : Event} {u p rest : List Char} (h : (place event).toList ++ u = p ++ '\n' :: rest) :
    BreaksOff (fun text => ∃ other : Event, other.kind = event.kind ∧ text = place other) p ∨
      ∃ q, p = (place event).toList ++ q ∧ u = q ++ '\n' :: rest := by
  have hlevel := feed_not_mem_of_isBare (Record.isBare_level event.method.level)
  have hline := feed_not_mem_of_isBare (Record.isBare_number event.line.toNat)
  have hchars : ∀ more, (place event).toList ++ more =
      (field event.method.entity).toList ++ (",".toList ++ ((field event.method.name).toList ++
        (("," ++ event.method.level.word ++ ",").toList ++ ((field event.path).toList ++
          (("," ++ toString event.line.toNat).toList ++ more))))) := by
    simp [place]
  rw [hchars] at h
  rcases cut_field h with ⟨start, hp⟩ | ⟨p₁, hp, h₁⟩
  · refine .inl ⟨"", "," ++ field event.method.name ++ "," ++ event.method.level.word ++ "," ++ field event.path ++
      "," ++ toString event.line.toNat, start, hp, fun text =>
      ⟨event.withMethod fun m => { m with entity := text }, rfl, ?_⟩⟩
    simp only [place, Event.withMethod, String.append_assoc, String.empty_append]
  obtain ⟨p₂, hp₂, h₂⟩ := cut_plain (by decide) h₁
  rcases cut_field h₂ with ⟨start, hp₃⟩ | ⟨p₃, hp₃, h₃⟩
  · refine .inl ⟨field event.method.entity ++ ",", "," ++ event.method.level.word ++ "," ++ field event.path ++ "," ++
      toString event.line.toNat, start, by simp [hp, hp₂, hp₃], fun text =>
      ⟨event.withMethod fun m => { m with name := text }, rfl, ?_⟩⟩
    simp only [place, Event.withMethod, String.append_assoc]
  obtain ⟨p₄, hp₄, h₄⟩ := cut_plain (by simp [hlevel]) h₃
  rcases cut_field h₄ with ⟨start, hp₅⟩ | ⟨p₅, hp₅, h₅⟩
  · refine .inl ⟨field event.method.entity ++ "," ++ field event.method.name ++ "," ++ event.method.level.word ++ ",",
      "," ++ toString event.line.toNat, start, by simp [hp, hp₂, hp₃, hp₄, hp₅], fun text =>
      ⟨{ event with path := text }, rfl, ?_⟩⟩
    simp only [place, String.append_assoc]
  obtain ⟨q, hq, hu⟩ := cut_plain (by simpa using hline) h₅
  exact .inr ⟨q, by rw [hchars, hp, hp₂, hp₃, hp₄, hp₅, hq], hu⟩

end Row

namespace Layout
open Item

/-- The rows of a layout. -/
inductive HasRow : Layout → String → Prop
  | event (event : Event) : HasRow .events (Row.ofEvent event)
  | edge (callee : Event) (caller : Frame) : HasRow .edges (Row.ofEdge callee caller)

/-- The items of a layout: marks, and its own rows. -/
def Has (layout : Layout) : Item → Prop
  | .mark _ => True
  | .row text => layout.HasRow text

/-- Behind no line feed of the label does the rest of its mark read as the beginning of further items. -/
def Bounds (layout : Layout) (label : String) : Prop :=
  ∀ behind, '\n' :: behind <:+ label.toList →
    ∀ items, (∀ item ∈ items, layout.Has item) → ∀ rest, chars items ≠ behind ++ '\n' :: rest

/-- The items of a layout whose labels end where they seem to. -/
def Frames (layout : Layout) : Item → Prop
  | .mark label => layout.Bounds label
  | .row text => layout.HasRow text

/-- How the rows of a layout open. -/
def rowOpenings : Layout → List String
  | .events => ["call,\"", "return,\""]
  | .edges => ["\""]

variable {layout : Layout}

theorem has_of_frames {items : List Item} (h : ∀ item ∈ items, layout.Frames item) :
    ∀ item ∈ items, layout.Has item := by
  intro item hitem
  have hframes := h item hitem
  cases item with
  | mark label => trivial
  | row text => exact hframes

/-! ### How items open -/

theorem exists_place (event : Event) : ∃ rest, (Row.place event).toList = '\x22' :: rest := by
  simp [Row.place, Row.field]

theorem HasRow.opens {row : String} (h : layout.HasRow row) :
    ∃ opening ∈ layout.rowOpenings, ∃ rest, row.toList = opening.toList ++ rest := by
  cases h with
  | event event =>
    obtain ⟨rest, hplace⟩ := exists_place event
    cases hk : event.kind with
    | call =>
      refine ⟨"call,\"", by simp [rowOpenings], rest ++ ['\n'], ?_⟩
      simp [Row.ofEvent, hk, EventKind.word, hplace]
    | leave =>
      refine ⟨"return,\"", by simp [rowOpenings], rest ++ ['\n'], ?_⟩
      simp [Row.ofEvent, hk, EventKind.word, hplace]
  | edge callee caller =>
    obtain ⟨rest, hplace⟩ := exists_place callee
    refine ⟨"\"", by simp [rowOpenings], (Row.ofEdge callee caller).toList.tail, ?_⟩
    simp [Row.ofEdge, hplace]

theorem rowOpenings_spec {opening : String} (h : opening ∈ layout.rowOpenings) :
    opening.toList.head?.any (· != '-') = true ∧ '\n' ∉ opening.toList := by
  cases layout with
  | events =>
    rcases List.mem_cons.mp h with rfl | h
    · decide
    · rw [List.mem_singleton.mp h]
      decide
  | edges =>
    rw [List.mem_singleton.mp h]
    decide

/-- No row opens as a mark does. -/
theorem HasRow.head {row : String} (h : layout.HasRow row) : ∃ c rest, row.toList = c :: rest ∧ c ≠ '-' := by
  obtain ⟨opening, hmem, rest, hrow⟩ := h.opens
  obtain ⟨hhead, -⟩ := rowOpenings_spec hmem
  cases hcs : opening.toList with
  | nil => simp [hcs] at hhead
  | cons c cs =>
    rw [hcs] at hhead hrow
    exact ⟨c, cs ++ rest, hrow, by simpa using hhead⟩

theorem exists_opening {items : List Item} (h : ∀ item ∈ items, layout.Has item) {behind rest : List Char}
    (heq : chars items = behind ++ '\n' :: rest) :
    ∃ opening ∈ "--- " :: layout.rowOpenings, opening.toList <+: behind := by
  cases items with
  | nil => simp [chars] at heq
  | cons item more =>
    have hitem := h item List.mem_cons_self
    cases item with
    | mark label =>
      rw [chars_mark] at heq
      obtain ⟨q, hbehind, -⟩ := Row.cut_plain (by decide) heq
      exact ⟨"--- ", List.mem_cons_self, q, hbehind.symm⟩
    | row text =>
      obtain ⟨opening, hmem, after, hrow⟩ := HasRow.opens hitem
      rw [chars_row, hrow, List.append_assoc] at heq
      obtain ⟨q, hbehind, -⟩ := Row.cut_plain (rowOpenings_spec hmem).2 heq
      exact ⟨opening, List.mem_cons_of_mem _ hmem, q, hbehind.symm⟩

/-- A label is bounded if no line feed in it is followed by what opens an item. -/
theorem bounds_of_openings {label : String}
    (h : ∀ behind, '\n' :: behind <:+ label.toList →
      ∀ opening ∈ "--- " :: layout.rowOpenings, ¬opening.toList <+: behind) : layout.Bounds label := by
  intro behind hlabel items hitems rest heq
  obtain ⟨opening, hmem, hprefix⟩ := exists_opening hitems heq
  exact h behind hlabel opening hmem hprefix

/-! ### One reading -/

theorem HasRow.read {row : String} (h : layout.HasRow row) :
    ∃ columns, ∀ rest, Record.readRecord (row.toList ++ rest) = some (columns, rest) := by
  cases h with
  | event event => exact ⟨_, Record.readRecord_ofEvent event⟩
  | edge callee caller => exact ⟨_, Record.readRecord_ofEdge callee caller⟩

theorem HasRow.append_inj {row other : String} (h : layout.HasRow row) (h' : layout.HasRow other) {u v : List Char}
    (heq : row.toList ++ u = other.toList ++ v) : row = other ∧ u = v := by
  obtain ⟨columns, hread⟩ := h.read
  obtain ⟨columns', hread'⟩ := h'.read
  have hu := hread u
  rw [heq, hread' v] at hu
  obtain rfl : v = u := (Prod.mk.inj (Option.some.inj hu)).2
  exact ⟨String.toList_inj.mp (List.append_cancel_right heq), rfl⟩

/-- A bounded label does not go on where items could begin. -/
theorem Bounds.eq_nil {label : String} (hbounds : layout.Bounds label) {items : List Item}
    (hitems : ∀ item ∈ items, layout.Has item) {before more rest : List Char} (hlabel : label.toList = before ++ more)
    (heq : '\n' :: chars items = more ++ '\n' :: rest) : more = [] := by
  cases more with
  | nil => rfl
  | cons c behind =>
    obtain ⟨rfl, hbehind⟩ := List.cons.inj heq
    exact absurd hbehind (hbounds behind ⟨before, hlabel.symm⟩ items hitems rest)

theorem mark_inj {label other : String} (hlabel : layout.Bounds label) (hother : layout.Bounds other)
    {items others : List Item} (hitems : ∀ item ∈ items, layout.Has item) (hothers : ∀ item ∈ others, layout.Has item)
    (heq : chars (.mark label :: items) = chars (.mark other :: others)) :
    label = other ∧ chars items = chars others := by
  rw [chars_mark, chars_mark] at heq
  have hlabels := List.append_cancel_left heq
  rcases List.append_eq_append_iff.mp hlabels with ⟨more, hmore, hrest⟩ | ⟨more, hmore, hrest⟩
  · obtain rfl := hother.eq_nil hitems hmore hrest
    rw [List.append_nil, String.toList_inj] at hmore
    exact ⟨hmore.symm, (List.cons.inj hrest).2⟩
  · obtain rfl := hlabel.eq_nil hothers hmore hrest
    rw [List.append_nil, String.toList_inj] at hmore
    exact ⟨hmore, (List.cons.inj hrest).2.symm⟩

theorem mark_ne_row {label row : String} (h : layout.HasRow row) {items others : List Item} :
    chars (.mark label :: items) ≠ chars (.row row :: others) := by
  obtain ⟨c, rest, hrow, hc⟩ := h.head
  rw [chars_mark, chars_row, hrow]
  intro heq
  exact hc (List.cons.inj heq).1.symm

/-- The first item is told from all that follows it. -/
theorem first_inj {item other : Item} (hitem : layout.Frames item) (hother : layout.Frames other)
    {items others : List Item} (hitems : ∀ item ∈ items, layout.Has item) (hothers : ∀ item ∈ others, layout.Has item)
    (heq : chars (item :: items) = chars (other :: others)) : item = other ∧ chars items = chars others := by
  cases item with
  | mark label =>
    cases other with
    | mark label' =>
      obtain ⟨rfl, hrest⟩ := mark_inj hitem hother hitems hothers heq
      exact ⟨rfl, hrest⟩
    | row row => exact absurd heq (mark_ne_row hother)
  | row row =>
    cases other with
    | mark label => exact absurd heq.symm (mark_ne_row hitem)
    | row row' =>
      obtain ⟨rfl, hrest⟩ := HasRow.append_inj hitem hother heq
      exact ⟨rfl, hrest⟩

theorem chars_ne_nil {item : Item} (h : layout.Has item) (items : List Item) : chars (item :: items) ≠ [] := by
  cases item with
  | mark label => simp [chars_mark]
  | row row =>
    obtain ⟨c, rest, hrow, -⟩ := HasRow.head h
    simp [chars_row, hrow]

theorem chars_inj {items others : List Item} (hitems : ∀ item ∈ items, layout.Frames item)
    (hothers : ∀ item ∈ others, layout.Frames item) (heq : chars items = chars others) : items = others := by
  induction items generalizing others with
  | nil =>
    cases others with
    | nil => rfl
    | cons other others =>
      exact absurd heq.symm (chars_ne_nil (has_of_frames hothers _ List.mem_cons_self) others)
  | cons item items ih =>
    cases others with
    | nil => exact absurd heq (chars_ne_nil (has_of_frames hitems _ List.mem_cons_self) items)
    | cons other others =>
      obtain ⟨hfirst, hmore⟩ := List.forall_mem_cons.mp hitems
      obtain ⟨hfirst', hmore'⟩ := List.forall_mem_cons.mp hothers
      obtain ⟨rfl, hrest⟩ := first_inj hfirst hfirst' (has_of_frames hmore) (has_of_frames hmore') heq
      rw [ih hmore hmore' hrest]

/-! ### Labels that read in two ways -/

theorem cut_feed {u q rest : List Char} (h : '\n' :: u = q ++ '\n' :: rest) :
    q = [] ∨ ∃ more, q = '\n' :: more ∧ u = more ++ '\n' :: rest := by
  cases q with
  | nil => exact .inl rfl
  | cons c more =>
    obtain ⟨rfl, hu⟩ := List.cons.inj h
    exact .inr ⟨more, rfl, hu⟩

/-- A line feed in front of which a row of a layout begins stands in a field of it, ends it or is behind it. -/
theorem HasRow.cut {row : String} (h : layout.HasRow row) {u p rest : List Char}
    (heq : row.toList ++ u = p ++ '\n' :: rest) :
    Row.BreaksOff (fun text => layout.HasRow (text ++ "\n")) p ∨ row.toList = p ++ ['\n'] ∨
      ∃ q, p = row.toList ++ q ∧ u = q ++ '\n' :: rest := by
  cases h with
  | event event =>
    have hchars : ∀ more, (Row.ofEvent event).toList ++ more =
        (event.kind.word ++ ",").toList ++ ((Row.place event).toList ++ '\n' :: more) := by
      simp [Row.ofEvent]
    rw [hchars] at heq
    have hkind := Row.feed_not_mem_of_isBare (Record.isBare_kind event.kind)
    obtain ⟨p₁, hp, h₁⟩ := Row.cut_plain (by simpa using hkind) heq
    rcases Row.cut_place h₁ with hbreaks | ⟨p₂, hp₂, h₂⟩
    · rw [hp]
      refine .inl (hbreaks.within (b := "") ?_)
      rintro text ⟨other, hother, rfl⟩
      rw [String.append_empty, ← hother]
      exact .event other
    · rcases cut_feed h₂ with rfl | ⟨q, hq, hu⟩
      · exact .inr (.inl (by simpa [hp, hp₂] using hchars []))
      · exact .inr (.inr ⟨q, by rw [hchars, hp, hp₂, hq], hu⟩)
  | edge callee caller =>
    have hchars : ∀ more, (Row.ofEdge callee caller).toList ++ more =
        (Row.place callee).toList ++ (",".toList ++ ((Row.field caller.event.method.entity).toList ++ (",".toList ++
          ((Row.field caller.event.method.name).toList ++ (("," ++ Row.callerLevel caller).toList ++
            '\n' :: more))))) := by
      simp [Row.ofEdge]
    rw [hchars] at heq
    have hlevel := Row.feed_not_mem_of_isBare (Record.isBare_callerLevel caller)
    rcases Row.cut_place heq with hbreaks | ⟨p₁, hp, h₁⟩
    · refine .inl (hbreaks.within (a := "") (b := "," ++ Row.field caller.event.method.entity ++ "," ++
        Row.field caller.event.method.name ++ "," ++ Row.callerLevel caller) ?_)
      rintro text ⟨other, -, rfl⟩
      have hrow := HasRow.edge other caller
      simpa only [Row.ofEdge, String.append_assoc, String.empty_append] using hrow
    obtain ⟨p₂, hp₂, h₂⟩ := Row.cut_plain (by decide) h₁
    rcases Row.cut_field h₂ with ⟨start, hp₃⟩ | ⟨p₃, hp₃, h₃⟩
    · refine .inl ⟨Row.place callee ++ ",", "," ++ Row.field caller.event.method.name ++ "," ++ Row.callerLevel caller,
        start, by simp [hp, hp₂, hp₃], fun text => ?_⟩
      have hrow := HasRow.edge callee
        { caller with event := caller.event.withMethod fun m => { m with entity := text } }
      simpa only [Row.ofEdge, Row.callerLevel, Event.withMethod, String.append_assoc] using hrow
    obtain ⟨p₄, hp₄, h₄⟩ := Row.cut_plain (by decide) h₃
    rcases Row.cut_field h₄ with ⟨start, hp₅⟩ | ⟨p₅, hp₅, h₅⟩
    · refine .inl ⟨Row.place callee ++ "," ++ Row.field caller.event.method.entity ++ ",",
        "," ++ Row.callerLevel caller, start, by simp [hp, hp₂, hp₃, hp₄, hp₅], fun text => ?_⟩
      have hrow := HasRow.edge callee
        { caller with event := caller.event.withMethod fun m => { m with name := text } }
      simpa only [Row.ofEdge, Row.callerLevel, Event.withMethod, String.append_assoc] using hrow
    obtain ⟨p₆, hp₆, h₆⟩ := Row.cut_plain (by simpa using hlevel) h₅
    rcases cut_feed h₆ with rfl | ⟨q, hq, hu⟩
    · exact .inr (.inl (by simpa [hp, hp₂, hp₃, hp₄, hp₅, hp₆] using hchars []))
    · exact .inr (.inr ⟨q, by rw [hchars, hp, hp₂, hp₃, hp₄, hp₅, hp₆, hq], hu⟩)

/-- A row that breaks off in a field can go on there as a mark would. -/
theorem goesOn_of_breaksOff {p : List Char} (h : Row.BreaksOff (fun text => layout.HasRow (text ++ "\n")) p) :
    ∃ row label, layout.HasRow row ∧ row.toList = p ++ '\n' :: chars [.mark label] := by
  obtain ⟨front, back, start, hp, hrows⟩ := h
  refine ⟨_, String.ofList ('\x22' :: back.toList), hrows (String.ofList (start ++ "\n--- ".toList)), ?_⟩
  rw [chars_mark]
  simp [hp, Row.field, Row.doubled_append, Row.doubled, chars]

/-- Wherever items hold a line feed, there are items that begin alike and end there, or go on with another item. -/
theorem exists_parted {items : List Item} (h : ∀ item ∈ items, layout.Has item) {p rest : List Char}
    (heq : chars items = p ++ '\n' :: rest) :
    ∃ items more, (∀ item ∈ items, layout.Has item) ∧ (∀ item ∈ more, layout.Has item) ∧
      chars items = p ++ '\n' :: chars more := by
  induction items generalizing p with
  | nil => simp [chars] at heq
  | cons item items ih =>
    obtain ⟨hitem, hitems⟩ := List.forall_mem_cons.mp h
    cases item with
    | mark label =>
      rw [chars_mark] at heq
      obtain ⟨q, hp, -⟩ := Row.cut_plain (by decide) heq
      refine ⟨[.mark (String.ofList q)], [], by simp [Has], by simp, ?_⟩
      rw [chars_mark, hp]
      simp [chars]
    | row row =>
      rw [chars_row] at heq
      rcases hitem.cut heq with hbreaks | hends | ⟨q, hp, hrest⟩
      · obtain ⟨other, label, hother, hchars⟩ := goesOn_of_breaksOff hbreaks
        refine ⟨[.row other], [.mark label], by simpa [Has] using hother, by simp [Has], ?_⟩
        rw [chars_row, hchars]
        simp [chars]
      · refine ⟨[.row row], [], by simpa [Has] using hitem, by simp, ?_⟩
        rw [chars_row, hends]
        simp [chars]
      · obtain ⟨others, more, hothers, hmore, hchars⟩ := ih hitems hrest
        refine ⟨.row row :: others, more, List.forall_mem_cons.mpr ⟨hitem, hothers⟩, hmore, ?_⟩
        rw [chars_row, hchars, hp, List.append_assoc]

theorem exists_misread {label : String} (h : ¬layout.Bounds label) :
    ∃ items others, (∀ item ∈ items, layout.Has item) ∧ (∀ item ∈ others, layout.Has item) ∧
      .mark label ∈ items ∧ textOf items = textOf others ∧ items ≠ others := by
  simp only [Bounds, not_forall, not_not] at h
  obtain ⟨behind, ⟨before, hlabel⟩, items, hitems, rest, heq⟩ := h
  obtain ⟨others, more, hothers, hmore, hchars⟩ := exists_parted hitems heq
  refine ⟨.mark label :: more, .mark (String.ofList before) :: others, ?_, ?_, List.mem_cons_self, ?_, ?_⟩
  · exact List.forall_mem_cons.mpr ⟨trivial, hmore⟩
  · exact List.forall_mem_cons.mpr ⟨trivial, hothers⟩
  · rw [← String.toList_inj, toList_textOf, toList_textOf, chars_mark, chars_mark, ← hlabel, hchars]
    simp
  · intro hsame
    have hbefore : label.toList = before := by
      rw [Item.mark.inj (List.cons.inj hsame).1, String.toList_ofList]
    simp [hbefore] at hlabel

end Layout

open Layout

/-- Items whose labels are bounded are told from their bytes. A label is bounded unless a line feed in it is followed
by what opens an item, and one that is not bounded can be misread. What a writer wrote before makes no difference to a
mark. -/
theorem items_of_text (layout : Layout) :
    (∀ items others, (∀ item ∈ items, layout.Frames item) → (∀ item ∈ others, layout.Frames item) →
      (Item.textOf items).toUTF8 = (Item.textOf others).toUTF8 → items = others) ∧
    (∀ label : String, (∀ behind, '\n' :: behind <:+ label.toList →
      ∀ opening ∈ "--- " :: layout.rowOpenings, ¬opening.toList <+: behind) → layout.Bounds label) ∧
    (∀ label, ¬layout.Bounds label →
      ∃ items others, (∀ item ∈ items, layout.Has item) ∧ (∀ item ∈ others, layout.Has item) ∧
        .mark label ∈ items ∧ (Item.textOf items).toUTF8 = (Item.textOf others).toUTF8 ∧ items ≠ others) ∧
    ∀ (w : RowWriter) (labels : List String),
      RowWriter.writeAll RowWriter.writeMark w labels = labels.map fun label => (Item.mark label).text := by
  refine ⟨fun items others hitems hothers same => ?_, fun label => bounds_of_openings, fun label hlabel => ?_,
    RowWriter.writeAll_eq RowWriter.text_writeMark⟩
  · have heq := String.toByteArray_inj.mp same
    rw [← String.toList_inj, Item.toList_textOf, Item.toList_textOf] at heq
    exact chars_inj hitems hothers heq
  · obtain ⟨items, others, hitems, hothers, hmem, heq, hne⟩ := exists_misread hlabel
    exact ⟨items, others, hitems, hothers, hmem, by rw [heq], hne⟩

/-- A label of two lines, a row with a mark in its path and an empty label are the one reading of their text. -/
theorem items_of_lines_in_label :
    ∃! items : List Item, (∀ item ∈ items, Layout.events.Frames item) ∧
      (Item.textOf items).toUTF8 = "--- a\n- b\ncall,\"A\",\"f\",instance,\"\n--- p\",1\n--- \n".toUTF8 := by
  let call : Event := { kind := .call, method := ⟨"A", "f", .onInstance⟩, path := "\n--- p", line := 1 }
  let items : List Item := [.mark "a\n- b", .row (Row.ofEvent call), .mark ""]
  have hlines : Layout.events.Bounds "a\n- b" := bounds_of_openings fun behind hbehind => by
    obtain rfl : behind = "- b".toList := by simpa [List.suffix_cons_iff] using hbehind
    decide
  have hempty : Layout.events.Bounds "" := bounds_of_openings fun behind hbehind => by simp at hbehind
  have hitems : ∀ item ∈ items, Layout.events.Frames item := by
    intro item hitem
    simp only [items, List.mem_cons, List.not_mem_nil, or_false] at hitem
    rcases hitem with rfl | rfl | rfl
    · exact hlines
    · exact .event call
    · exact hempty
  have htext : Item.textOf items = "--- a\n- b\ncall,\"A\",\"f\",instance,\"\n--- p\",1\n--- \n" := by decide +kernel
  rw [← htext]
  exact ⟨items, ⟨hitems, rfl⟩, fun others h => (items_of_text .events).1 others items h.1 hitems h.2⟩

/-- A label with a mark in it and two labels have the same text. -/
theorem mark_in_label :
    (Item.textOf [.mark "a\n--- b"]).toUTF8 = (Item.textOf [.mark "a", .mark "b"]).toUTF8 ∧
      [Item.mark "a\n--- b"] ≠ [.mark "a", .mark "b"] := by
  have htext : Item.textOf [.mark "a\n--- b"] = Item.textOf [.mark "a", .mark "b"] := by decide
  exact ⟨by rw [htext], by simp⟩

end MethodTrace
