import MethodTrace.Record.Writer

/-! # Reading rows back

A reader of records takes a quoted field up to its closing quote and a bare one up to the next comma or newline. From
the rows of a layout, one after the other, it reads what each row was made of (`Legible`). So a row is the row of
nothing else, and rows that follow each other can be parted in one way only. -/

namespace MethodTrace

/-! ### A reader of records -/

namespace Record

/-- The rest of a quoted field, and what follows its closing quote. A quote that is written twice is a part of the
field. -/
def readQuoted : List Char → Option (List Char × List Char)
  | [] => none
  | '\x22' :: '\x22' :: rest => (readQuoted rest).map fun r => ('\x22' :: r.1, r.2)
  | '\x22' :: rest => some ([], rest)
  | c :: rest => (readQuoted rest).map fun r => (c :: r.1, r.2)

/-- Whether a bare field goes on with a character. -/
def goesOn (c : Char) : Bool := c != ',' && c != '\n'

/-- A field, quoted or bare, and what follows it. -/
def readField : List Char → Option (List Char × List Char)
  | '\x22' :: rest => readQuoted rest
  | cs => some (cs.takeWhile goesOn, cs.dropWhile goesOn)

theorem readQuoted_length {cs field rest : List Char} (h : readQuoted cs = some (field, rest)) :
    rest.length ≤ cs.length := by
  fun_induction readQuoted cs generalizing field with
  | case1 => cases h
  | case2 after ih =>
    obtain ⟨r, hread, heq⟩ := Option.map_eq_some_iff.mp h
    cases heq
    have hle : r.2.length ≤ after.length := ih hread
    simp only [List.length_cons]
    omega
  | case3 after _ =>
    cases h
    simp
  | case4 c after _ _ ih =>
    obtain ⟨r, hread, heq⟩ := Option.map_eq_some_iff.mp h
    cases heq
    have hle : r.2.length ≤ after.length := ih hread
    simp only [List.length_cons]
    omega

theorem readField_length {cs field rest : List Char} (h : readField cs = some (field, rest)) :
    rest.length ≤ cs.length := by
  unfold readField at h
  split at h
  · have := readQuoted_length h
    simp only [List.length_cons]
    omega
  · cases h
    exact (List.dropWhile_sublist _).length_le

/-- The fields of a record, and what follows its newline. -/
def readRecord (cs : List Char) : Option (List String × List Char) :=
  match _h : readField cs with
  | some (field, ',' :: rest) => (readRecord rest).map fun r => (String.ofList field :: r.1, r.2)
  | some (field, '\n' :: rest) => some ([String.ofList field], rest)
  | _ => none
termination_by cs.length
decreasing_by
  have := readField_length _h
  simp only [List.length_cons] at this
  omega

end Record

/-- Read one thing after the other until nothing is left. Whatever is read has to take up some of the text. -/
def readAll {α : Type} (read : List Char → Option (α × List Char)) (cs : List Char) : Option (List α) :=
  if cs.isEmpty then some []
  else
    match read cs with
    | none => none
    | some (item, rest) => if rest.length < cs.length then (readAll read rest).map (item :: ·) else none
termination_by cs.length

/-- The records of a text. -/
def records (text : String) : Option (List (List String)) := readAll Record.readRecord text.toList

/-- What was written one after the other is read one after the other, if each is read from in front of the rest. -/
theorem readAll_flatMap {α β : Type} {read : List Char → Option (α × List Char)} {write : β → List Char} {view : β → α}
    {items : List β} (h : ∀ item rest, item :: rest <:+ items → write item ≠ [] ∧
      read (write item ++ rest.flatMap write) = some (view item, rest.flatMap write)) :
    readAll read (items.flatMap write) = some (items.map view) := by
  induction items with
  | nil =>
    unfold readAll
    rfl
  | cons item rest ih =>
    obtain ⟨hne, hread⟩ := h item rest (List.suffix_refl _)
    have hlt : (rest.flatMap write).length < (write item ++ rest.flatMap write).length := by
      have := List.length_pos_iff.mpr hne
      rw [List.length_append]
      omega
    unfold readAll
    rw [List.flatMap_cons, if_neg (by simp [hne]), hread]
    simp only [hlt, if_true]
    rw [ih fun other more hs => h other more (hs.trans (List.suffix_cons _ _))]
    rfl

/-! ### Fields -/

namespace Record

theorem readQuoted_doubled (cs : List Char) {c : Char} (hc : c ≠ '\x22') (rest : List Char) :
    readQuoted (Row.doubled cs ++ '\x22' :: c :: rest) = some (cs, c :: rest) := by
  induction cs with
  | nil =>
    rw [Row.doubled, List.nil_append, readQuoted]
    rintro rest' heq
    exact hc (List.cons.inj heq).1
  | cons d cs ih =>
    unfold Row.doubled
    split
    next hd =>
      rw [hd, List.cons_append, List.cons_append, readQuoted, ih]
      rfl
    next hd =>
      rw [List.cons_append, readQuoted, ih]
      · rfl
      · rintro rest' rfl
        exact absurd rfl hd
      · rintro rfl
        exact absurd rfl hd

/-- A text is read as a field, whatever follows behind a comma or a newline. -/
def ReadsAs (text field : String) : Prop :=
  ∀ c rest, goesOn c = false → readField (text.toList ++ c :: rest) = some (field.toList, c :: rest)

theorem ne_quote_of_goesOn {c : Char} (hc : goesOn c = false) : c ≠ '\x22' := by
  rintro rfl
  cases hc

theorem readsAs_field (text : String) : ReadsAs (Row.field text) text := by
  intro c rest hc
  have hchars : (Row.field text).toList ++ c :: rest = '\x22' :: (Row.doubled text.toList ++ '\x22' :: c :: rest) := by
    simp [Row.field]
  rw [hchars, readField]
  exact readQuoted_doubled text.toList (ne_quote_of_goesOn hc) rest

/-- Whether a text can stand in a row without quotes. -/
def isBare (text : String) : Bool := text.toList.head? != some '\x22' && text.toList.all goesOn

theorem readsAs_bare {text : String} (h : isBare text = true) : ReadsAs text text := by
  obtain ⟨hhead, hall⟩ := Bool.and_eq_true_iff.mp h
  intro c rest hc
  rw [readField]
  · have hgoes : ∀ d ∈ text.toList, goesOn d = true := List.all_eq_true.mp hall
    rw [List.takeWhile_append_of_pos hgoes, List.dropWhile_append_of_pos hgoes, List.takeWhile_cons,
      List.dropWhile_cons, hc]
    simp
  · intro more heq
    cases hcs : text.toList with
    | nil =>
      rw [hcs] at heq
      exact ne_quote_of_goesOn hc (List.cons.inj heq).1
    | cons d cs =>
      rw [hcs] at heq hhead
      simp [(List.cons.inj heq).1] at hhead

theorem goesOn_of_isDigit {c : Char} (hc : c.isDigit = true) : goesOn c = true ∧ c ≠ '\x22' := by
  have hne : ∀ d : Char, d.isDigit = false → c ≠ d := by
    rintro d hd rfl
    simp [hd] at hc
  refine ⟨?_, hne _ rfl⟩
  simp [goesOn, hne ',' rfl, hne '\n' rfl]

theorem isBare_number (n : Nat) : isBare (toString n) = true := by
  have hdigit : ∀ c ∈ (toString n).toList, goesOn c = true ∧ c ≠ '\x22' := by
    intro c hc
    rw [Nat.toString_eq_ofList_toDigits, String.toList_ofList] at hc
    exact goesOn_of_isDigit (Nat.isDigit_of_mem_toDigits (by decide) (by decide) hc)
  rw [isBare, Bool.and_eq_true, bne_iff_ne]
  refine ⟨fun hhead => ?_, List.all_eq_true.mpr fun c hc => (hdigit c hc).1⟩
  exact (hdigit _ (List.mem_of_head? hhead)).2 rfl

/-! ### Records -/

theorem readRecord_cons {text field : String} (h : ReadsAs text field) {more rest : List Char} {fields : List String}
    (hmore : readRecord more = some (fields, rest)) :
    readRecord (text.toList ++ ',' :: more) = some (field :: fields, rest) := by
  have hfield := h ',' more rfl
  rw [readRecord]
  split
  next field' rest' hread =>
    cases hfield.symm.trans hread
    simp [hmore]
  next field' rest' hread => cases hfield.symm.trans hread
  next hcomma _ => exact absurd hfield (hcomma _ _)

theorem readRecord_last {text field : String} (h : ReadsAs text field) (rest : List Char) :
    readRecord (text.toList ++ '\n' :: rest) = some ([field], rest) := by
  have hfield := h '\n' rest rfl
  rw [readRecord]
  split
  next field' rest' hread => cases hfield.symm.trans hread
  next field' rest' hread =>
    cases hfield.symm.trans hread
    simp
  next _ hnewline => exact absurd hfield (hnewline _ _)

end Record

/-! ### Rows -/

/-- The names of the columns of a layout. -/
def Layout.columns : Layout → List String
  | .events => ["event", "entity", "method_name", "method_level", "filepath", "lineno"]
  | .edges =>
    ["entity", "method_name", "method_level", "filepath", "lineno", "caller_entity", "caller_method_name",
      "caller_method_level"]

/-- What the row of an event says of the method and the place. -/
def Event.placeColumns (event : Event) : List String :=
  [event.method.entity, event.method.name, event.method.level.word, event.path, toString event.line.toNat]

/-- What the row of a call or return says. -/
def Event.columns (event : Event) : List String := event.kind.word :: event.placeColumns

/-- What the row of a call and its caller says. -/
def edgeColumns (callee : Event) (caller : Frame) : List String :=
  callee.placeColumns ++ [caller.event.method.entity, caller.event.method.name, Row.callerLevel caller]

/-- The rows that a layout has for some items can be read back, one by one or one after the other, and in one way
only. What a writer wrote before makes no difference to them. -/
structure Legible {α : Type} (layout : Layout) (write : RowWriter → α → RowWriter) (row : α → String)
    (columns : α → List String) : Prop where
  written : ∀ (w : RowWriter) (items : List α), RowWriter.writeAll write w items = items.map row
  header : records layout.header = some [layout.columns]
  width : ∀ item, (columns item).length = layout.columns.length
  reading : ∀ items : List α, records (String.join (items.map row)) = some (items.map columns)
  oneReading : ∀ items others : List α, (String.join (items.map row)).toUTF8 = (String.join (others.map row)).toUTF8 →
    items.map columns = others.map columns

namespace Record

theorem isBare_kind (kind : EventKind) : isBare kind.word = true := by cases kind <;> rfl

theorem isBare_level (level : Level) : isBare level.word = true := by cases level <;> rfl

theorem isBare_callerLevel (caller : Frame) : isBare (Row.callerLevel caller) = true := by
  unfold Row.callerLevel
  split
  · rfl
  · exact isBare_level _

/-- The columns of the place are read from in front of what goes on behind the line number. -/
theorem readRecord_place (event : Event) {behind rest : List Char} {fields : List String}
    (h : readRecord ((toString event.line.toNat).toList ++ behind) = some (toString event.line.toNat :: fields, rest)) :
    readRecord ((Row.place event).toList ++ behind) = some (event.placeColumns ++ fields, rest) := by
  have hchars : (Row.place event).toList ++ behind =
      (Row.field event.method.entity).toList ++ ',' :: ((Row.field event.method.name).toList ++ ',' ::
        (event.method.level.word.toList ++ ',' :: ((Row.field event.path).toList ++ ',' ::
          ((toString event.line.toNat).toList ++ behind)))) := by
    simp [Row.place]
  rw [hchars]
  exact readRecord_cons (readsAs_field _) <| readRecord_cons (readsAs_field _) <|
    readRecord_cons (readsAs_bare (isBare_level _)) <| readRecord_cons (readsAs_field _) h

theorem readRecord_ofEvent (event : Event) (rest : List Char) :
    readRecord ((Row.ofEvent event).toList ++ rest) = some (event.columns, rest) := by
  have hchars : (Row.ofEvent event).toList ++ rest =
      event.kind.word.toList ++ ',' :: ((Row.place event).toList ++ '\n' :: rest) := by
    simp [Row.ofEvent]
  rw [hchars]
  have hline := readRecord_last (readsAs_bare (isBare_number event.line.toNat)) rest
  exact readRecord_cons (readsAs_bare (isBare_kind _)) (readRecord_place event hline)

theorem readRecord_ofEdge (callee : Event) (caller : Frame) (rest : List Char) :
    readRecord ((Row.ofEdge callee caller).toList ++ rest) = some (edgeColumns callee caller, rest) := by
  have hchars : (Row.ofEdge callee caller).toList ++ rest =
      (Row.place callee).toList ++ ',' :: ((Row.field caller.event.method.entity).toList ++ ',' ::
        ((Row.field caller.event.method.name).toList ++ ',' :: ((Row.callerLevel caller).toList ++ '\n' :: rest))) := by
    simp [Row.ofEdge]
  rw [hchars]
  have hlevel := readRecord_last (readsAs_bare (isBare_callerLevel caller)) rest
  have hcaller := readRecord_cons (readsAs_field caller.event.method.entity) <|
    readRecord_cons (readsAs_field caller.event.method.name) hlevel
  exact readRecord_place callee (readRecord_cons (readsAs_bare (isBare_number _)) hcaller)

end Record

/-- Rows are legible if each is read from in front of whatever follows it. -/
theorem Legible.of_read {α : Type} {layout : Layout} {write : RowWriter → α → RowWriter} {row : α → String}
    {columns : α → List String} (written : ∀ w item, (write w item).text = row item)
    (header : records layout.header = some [layout.columns])
    (width : ∀ item, (columns item).length = layout.columns.length)
    (read : ∀ item rest, Record.readRecord ((row item).toList ++ rest) = some (columns item, rest)) :
    Legible layout write row columns := by
  have nonempty : ∀ item, (row item).toList ≠ [] := by
    intro item hnil
    have hread := read item []
    rw [hnil, List.nil_append] at hread
    unfold Record.readRecord at hread
    simp [Record.readField] at hread
  have reading : ∀ items : List α, records (String.join (items.map row)) = some (items.map columns) := by
    intro items
    have hchars : (String.join (items.map row)).toList = items.flatMap fun item => (row item).toList := by
      rw [String.toList_join, List.flatMap_map]
    rw [records, hchars]
    exact readAll_flatMap fun item rest _ => ⟨nonempty item, read item _⟩
  refine ⟨RowWriter.writeAll_eq written, header, width, reading, fun items others same => ?_⟩
  have hread := reading items
  rw [String.toByteArray_inj.mp same, reading others] at hread
  exact (Option.some.inj hread).symm

/-! ### What a row tells -/

theorem level_word_inj {a b : Level} (h : a.word = b.word) : a = b := by
  cases a <;> cases b <;> first | rfl | exact absurd h (by decide)

theorem kind_word_inj {a b : EventKind} (h : a.word = b.word) : a = b := by
  cases a <;> cases b <;> first | rfl | exact absurd h (by decide)

theorem number_inj {m n : Nat} (h : toString m = toString n) : m = n := by
  rw [Nat.toString_eq_ofList_toDigits, Nat.toString_eq_ofList_toDigits, String.ofList_inj] at h
  rw [← Nat.ofDigitChars_ten_toDigits (n := m), h, Nat.ofDigitChars_ten_toDigits]

theorem method_inj {a b : Method} (hentity : a.entity = b.entity) (hname : a.name = b.name)
    (hlevel : a.level.word = b.level.word) : a = b := by
  obtain ⟨_, _, _⟩ := a
  obtain ⟨_, _, _⟩ := b
  exact Method.mk.injEq .. ▸ ⟨hentity, hname, level_word_inj hlevel⟩

theorem placeColumns_inj {a b : Event} :
    a.placeColumns = b.placeColumns ↔ a.method = b.method ∧ a.path = b.path ∧ a.line = b.line := by
  constructor
  · intro h
    simp only [Event.placeColumns, List.cons.injEq] at h
    obtain ⟨hentity, hname, hlevel, hpath, hline, -⟩ := h
    exact ⟨method_inj hentity hname hlevel, hpath, UInt32.toNat_inj.mp (number_inj hline)⟩
  · rintro ⟨hmethod, hpath, hline⟩
    rw [Event.placeColumns, Event.placeColumns, hmethod, hpath, hline]

theorem columns_inj {a b : Event} :
    a.columns = b.columns ↔ a.kind = b.kind ∧ a.method = b.method ∧ a.path = b.path ∧ a.line = b.line := by
  rw [Event.columns, Event.columns, List.cons.injEq, placeColumns_inj]
  exact and_congr_left' ⟨kind_word_inj, congrArg EventKind.word⟩

theorem callerLevel_eq_unknown {caller : Frame} : Row.callerLevel caller = unknownName ↔ caller.isRoot = true := by
  unfold Row.callerLevel
  cases caller.isRoot with
  | true => simp
  | false => cases caller.event.method.level <;> simp [Level.word, unknownName]

theorem callerLevel_inj {f g : Frame} :
    Row.callerLevel f = Row.callerLevel g ↔
      f.isRoot = g.isRoot ∧ (f.isRoot = false → f.event.method.level = g.event.method.level) := by
  constructor
  · intro h
    have hroot : f.isRoot = g.isRoot := by rw [Bool.eq_iff_iff, ← callerLevel_eq_unknown, h, callerLevel_eq_unknown]
    refine ⟨hroot, fun hnot => level_word_inj ?_⟩
    rwa [Row.callerLevel, Row.callerLevel, ← hroot, hnot] at h
  · rintro ⟨hroot, hlevel⟩
    unfold Row.callerLevel
    rw [← hroot]
    cases hf : f.isRoot with
    | true => rfl
    | false => rw [hlevel hf]

theorem edgeColumns_inj {a b : Event} {f g : Frame} :
    edgeColumns a f = edgeColumns b g ↔ (a.method = b.method ∧ a.path = b.path ∧ a.line = b.line) ∧
      f.event.method.entity = g.event.method.entity ∧ f.event.method.name = g.event.method.name ∧
      f.isRoot = g.isRoot ∧ (f.isRoot = false → f.event.method.level = g.event.method.level) := by
  have hplace : edgeColumns a f = edgeColumns b g ↔ a.placeColumns = b.placeColumns ∧
      [f.event.method.entity, f.event.method.name, Row.callerLevel f] =
        [g.event.method.entity, g.event.method.name, Row.callerLevel g] :=
    ⟨fun h => List.append_inj h rfl, fun ⟨hl, hr⟩ => by rw [edgeColumns, edgeColumns, hl, hr]⟩
  rw [hplace, placeColumns_inj, ← callerLevel_inj]
  simp only [List.cons.injEq, and_true]

/-- A row tells its columns. -/
theorem columns_of_row {α : Type} {layout : Layout} {write : RowWriter → α → RowWriter} {row : α → String}
    {columns : α → List String} (h : Legible layout write row columns) {a b : α} (same : row a = row b) :
    columns a = columns b := by
  have hread := h.oneReading [a] [b] (by simp [same])
  simpa using hread

/-! ### Both layouts -/

theorem events_legible : Legible .events RowWriter.writeEvent Row.ofEvent Event.columns :=
  .of_read RowWriter.text_writeEvent (by decide +kernel) (fun _ => rfl) Record.readRecord_ofEvent

theorem edges_legible : Legible .edges (fun w (e : Event × Frame) => w.writeEdge e.1 e.2)
    (fun e => Row.ofEdge e.1 e.2) (fun e => edgeColumns e.1 e.2) :=
  .of_read (fun w e => w.text_writeEdge e.1 e.2) (by decide +kernel) (fun _ => rfl) fun e => Record.readRecord_ofEdge e.1 e.2

theorem ofEvent_inj {a b : Event} :
    Row.ofEvent a = Row.ofEvent b ↔ a.kind = b.kind ∧ a.method = b.method ∧ a.path = b.path ∧ a.line = b.line := by
  refine ⟨fun h => columns_inj.mp (columns_of_row events_legible h), ?_⟩
  rintro ⟨hkind, hmethod, hpath, hline⟩
  simp only [Row.ofEvent, Row.place, hkind, hmethod, hpath, hline]

theorem ofEdge_inj {a b : Event} {f g : Frame} :
    Row.ofEdge a f = Row.ofEdge b g ↔ (a.method = b.method ∧ a.path = b.path ∧ a.line = b.line) ∧
      f.event.method.entity = g.event.method.entity ∧ f.event.method.name = g.event.method.name ∧
      f.isRoot = g.isRoot ∧ (f.isRoot = false → f.event.method.level = g.event.method.level) := by
  constructor
  · intro h
    exact edgeColumns_inj.mp (columns_of_row (a := (a, f)) (b := (b, g)) edges_legible h)
  · rintro ⟨⟨hmethod, hpath, hline⟩, hentity, hname, hlevel⟩
    simp only [Row.ofEdge, Row.place, hmethod, hpath, hline, hentity, hname, callerLevel_inj.mpr hlevel]

/-- Whatever is traced, its rows can be read back in one way only, and two rows are equal only if they tell the same. -/
theorem rows_legible :
    Legible .events RowWriter.writeEvent Row.ofEvent Event.columns ∧
      Legible .edges (fun w (e : Event × Frame) => w.writeEdge e.1 e.2) (fun e => Row.ofEdge e.1 e.2)
        (fun e => edgeColumns e.1 e.2) ∧
      (∀ callee caller, (edgeColumns callee caller).getLast? = some unknownName ↔ caller.isRoot = true) ∧
      (∀ a b : Event, (Row.ofEvent a).toUTF8 = (Row.ofEvent b).toUTF8 ↔
        a.kind = b.kind ∧ a.method = b.method ∧ a.path = b.path ∧ a.line = b.line) ∧
      (∀ (a b : Event) (f g : Frame), (Row.ofEdge a f).toUTF8 = (Row.ofEdge b g).toUTF8 ↔
        (a.method = b.method ∧ a.path = b.path ∧ a.line = b.line) ∧
          f.event.method.entity = g.event.method.entity ∧ f.event.method.name = g.event.method.name ∧
          f.isRoot = g.isRoot ∧ (f.isRoot = false → f.event.method.level = g.event.method.level)) := by
  refine ⟨events_legible, edges_legible, fun callee caller => ?_, fun a b => ?_, fun a b f g => ?_⟩
  · rw [← callerLevel_eq_unknown]
    simp [edgeColumns]
  · exact String.toByteArray_inj.trans ofEvent_inj
  · exact String.toByteArray_inj.trans ofEdge_inj

/-- A name that spells the placeholder and a path with quotes, a comma and a newline are read as they are. -/
example :
    let event : Event := { kind := .leave, method := ⟨unknownName, "a\"b", .onType⟩, path := "\",\n", line := 7 }
    records (Row.ofEvent event) = some [["return", unknownName, "a\"b", "class", "\",\n", "7"]] := by
  decide +kernel

end MethodTrace
