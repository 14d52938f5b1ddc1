import MethodTrace.Record.Row

/-!
# Writing rows one over the other

A writer keeps the text of the row it wrote last, and writes the next one over it. A field that holds no quote goes in
as it is; any other goes in character by character. What is written is the row, whatever stood there before.
-/

namespace MethodTrace

/-- A writer of rows, with the row it wrote last. -/
structure RowWriter where
  text : String := ""

namespace RowWriter

/-- Begin a row. -/
def clear (w : RowWriter) : RowWriter :=
  { w with text := "" }

/-- Go on with the row. -/
def push (w : RowWriter) (part : String) : RowWriter :=
  { w with text := w.text ++ part }

/-- Go on with a character inside a quoted field. -/
def pushInside (w : RowWriter) (c : Char) : RowWriter :=
  if c = '\x22' then (w.push "\"").push "\"" else w.push (String.ofList [c])

/-- Go on with a quoted field. -/
def pushField (w : RowWriter) (field : String) : RowWriter :=
  let opened := w.push "\""
  let filled := if '\x22' ∈ field.toList then field.toList.foldl pushInside opened else opened.push field
  filled.push "\""

/-- Go on with the columns of a method and the place of its event. -/
def pushPlace (w : RowWriter) (event : Event) : RowWriter :=
  let method := ((w.pushField event.method.entity).push ",").pushField event.method.name
  let path := (((method.push ",").push event.method.level.word).push ",").pushField event.path
  (path.push ",").push (toString event.line.toNat)

/-- Write the row of a call or return. -/
def writeEvent (w : RowWriter) (event : Event) : RowWriter :=
  (((w.clear.push event.kind.word).push ",").pushPlace event).push "\n"

/-- Write the row of a call and its caller. -/
def writeEdge (w : RowWriter) (callee : Event) (caller : Frame) : RowWriter :=
  let place := (w.clear.pushPlace callee).push ","
  let method := ((place.pushField caller.event.method.entity).push ",").pushField caller.event.method.name
  ((method.push ",").push (Row.callerLevel caller)).push "\n"

/-- Write the line of a mark. -/
def writeMark (w : RowWriter) (label : String) : RowWriter :=
  ((w.clear.push "--- ").push label).push "\n"

/-- Write one row after the other, each over the last. Returns the rows as they were read off in between. -/
def writeAll {α : Type} (write : RowWriter → α → RowWriter) (w : RowWriter) : List α → List String
  | [] => []
  | item :: rest => (write w item).text :: writeAll write (write w item) rest

@[simp] theorem text_clear (w : RowWriter) : w.clear.text = "" := rfl

@[simp] theorem text_push (w : RowWriter) (part : String) : (w.push part).text = w.text ++ part := rfl

theorem text_pushInside (w : RowWriter) (cs : List Char) :
    (cs.foldl pushInside w).text = w.text ++ String.ofList (Row.doubled cs) := by
  induction cs generalizing w with
  | nil => simp [Row.doubled]
  | cons c rest ih =>
    rw [List.foldl_cons, ih, ← String.toList_inj]
    by_cases hc : c = '\x22' <;> simp [pushInside, Row.doubled, hc]

end RowWriter

/-- A text without a quote is the inside of its own field. -/
theorem Row.doubled_of_no_quote {cs : List Char} (h : '\x22' ∉ cs) : Row.doubled cs = cs := by
  induction cs with
  | nil => rfl
  | cons c rest ih =>
    obtain ⟨hc, hrest⟩ := not_or.mp (mt List.mem_cons.mpr h)
    rw [Row.doubled, if_neg (Ne.symm hc), ih hrest]

namespace RowWriter

@[simp] theorem text_pushField (w : RowWriter) (field : String) :
    (w.pushField field).text = w.text ++ Row.field field := by
  unfold pushField Row.field
  dsimp only
  split
  · rw [text_push, text_pushInside, text_push]
    simp only [String.append_assoc]
  next hplain =>
    rw [Row.doubled_of_no_quote hplain, String.ofList_toList]
    simp only [text_push, String.append_assoc]

@[simp] theorem text_pushPlace (w : RowWriter) (event : Event) :
    (w.pushPlace event).text = w.text ++ Row.place event := by
  simp only [pushPlace, Row.place, text_push, text_pushField, String.append_assoc]

theorem text_writeEvent (w : RowWriter) (event : Event) : (w.writeEvent event).text = Row.ofEvent event := by
  simp only [writeEvent, Row.ofEvent, text_push, text_pushPlace, text_clear, String.empty_append]

theorem text_writeEdge (w : RowWriter) (callee : Event) (caller : Frame) :
    (w.writeEdge callee caller).text = Row.ofEdge callee caller := by
  simp only [writeEdge, Row.ofEdge, text_push, text_pushPlace, text_pushField, text_clear, String.empty_append,
    String.append_assoc]

theorem text_writeMark (w : RowWriter) (label : String) : (w.writeMark label).text = Row.ofMark label := by
  simp only [writeMark, Row.ofMark, text_push, text_clear, String.empty_append]

/-- What each row says is told from its own item alone. -/
theorem writeAll_eq {α : Type} {write : RowWriter → α → RowWriter} {row : α → String}
    (h : ∀ w item, (write w item).text = row item) (w : RowWriter) (items : List α) :
    writeAll write w items = items.map row := by
  induction items generalizing w with
  | nil => rfl
  | cons item rest ih => rw [writeAll, h, ih, List.map_cons]

end RowWriter
end MethodTrace
