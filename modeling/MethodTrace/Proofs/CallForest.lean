import MethodTrace.Proofs.Segments

/-! # Forests of calls

The calls that a program makes, each with the calls made inside it, reported in the order of time. After the reports of
a forest the same calls are open as before, and the rows due are found by walking the forest from the top with the
calls above at hand. -/

namespace MethodTrace

/-- What the notification of a call or of its return says apart from the method. -/
structure Report where
  native : Bool := false
  path : Option String := none
  line : UInt32 := 0
  fromBlock : Bool := false

/-- A call as its two notifications report it. -/
structure TracedCall where
  receiver : Receiver
  method : Option String := none
  definedOn : Option TypeObject := none
  entered : Report := {}
  left : Report := {}

namespace TracedCall

/-- A notification of the call. -/
def notification (c : TracedCall) (kind : NotificationKind) (report : Report) : Notification where
  kind := kind
  receiver := c.receiver
  method := c.method
  definedOn := c.definedOn
  path := report.path
  line := report.line
  fromBlock := report.fromBlock

/-- The notification of the call itself. -/
def enter (c : TracedCall) : Notification :=
  c.notification (if c.entered.native then .nativeEnter else .enter) c.entered

/-- The notification of its return. -/
def leave (c : TracedCall) : Notification :=
  c.notification (if c.left.native then .nativeLeave else .leave) c.left

/-- The method as records name it. -/
def tracedMethod (c : TracedCall) : Method := c.enter.calledMethod

/-- An event of the call. -/
def event (c : TracedCall) (kind : EventKind) (report : Report) : Event where
  kind := kind
  method := c.tracedMethod
  path := report.path.getD ""
  line := report.line
  fromBlock := report.fromBlock

def entering (c : TracedCall) : Event := c.event .call c.entered

def leaving (c : TracedCall) : Event := c.event .leave c.left

/-- The call while it is open. -/
def opened (c : TracedCall) (settings : Settings) : OpenCall := ⟨c.entering, settings.filter.hides c.entering⟩

theorem enter_event (c : TracedCall) : c.enter.event? = some c.entering := by
  unfold enter
  cases c.entered.native <;> rfl

theorem leave_event (c : TracedCall) : c.leave.event? = some c.leaving := by
  unfold leave
  cases c.left.native <;> rfl

end TracedCall

/-- Calls one after the other, each with the calls made inside it. -/
inductive CallForest where
  | done
  | call (c : TracedCall) (inner next : CallForest)

namespace CallForest

/-- The notifications of a forest in the order of time. -/
def notifications : CallForest → List Notification
  | done => []
  | call c inner next => c.enter :: (inner.notifications ++ c.leave :: next.notifications)

/-- The events that they report. -/
def events : CallForest → List Event
  | done => []
  | call c inner next => c.entering :: (inner.events ++ c.leaving :: next.events)

/-- The calls of a forest, each before those inside it. -/
def calls : CallForest → List TracedCall
  | done => []
  | call c inner next => c :: (inner.calls ++ next.calls)

/-- The rows of the calls of a forest that are not hidden, each with its caller among the calls above and before the
rows of the calls inside it. -/
def edgeRows (settings : Settings) (above : List OpenCall) : CallForest → List String
  | done => []
  | call c inner next =>
    let row? := if settings.filter.hides c.entering then none
      else settings.edgeRow? c.entering (settings.callerAmong above)
    row?.toList ++ inner.edgeRows settings (c.opened settings :: above) ++ next.edgeRows settings above

theorem events_of_notifications (forest : CallForest) :
    List.Forall₂ (fun n event => Notification.event? n = some event) forest.notifications forest.events := by
  induction forest with
  | done => exact .nil
  | call c inner next ihInner ihNext =>
    exact .cons c.enter_event (List.rel_append ihInner (.cons c.leave_event ihNext))

theorem outside_events {settings : Settings} {forest : CallForest}
    (outside : ∀ c ∈ forest.calls, settings.ownEntity ≠ some c.tracedMethod.entity) :
    ∀ event ∈ forest.events, settings.ownEntity ≠ some event.method.entity := by
  induction forest with
  | done => exact nofun
  | call c inner next ihInner ihNext =>
    intro event he
    have hc := outside c List.mem_cons_self
    rcases List.mem_cons.mp he with rfl | he
    · exact hc
    rcases List.mem_append.mp he with he | he
    · exact ihInner (fun d hd => outside d (List.mem_cons_of_mem _ (List.mem_append_left _ hd))) event he
    rcases List.mem_cons.mp he with rfl | he
    · exact hc
    · exact ihNext (fun d hd => outside d (List.mem_cons_of_mem _ (List.mem_append_right _ hd))) event he

end CallForest

/-! ### Open calls along a forest -/

namespace Settings
variable {settings : Settings} {above : List OpenCall}

/-- A return closes the call it is the return of when that is the innermost one, whatever it says of its place. -/
theorem closing_leaving (c : TracedCall) :
    settings.closing (c.opened settings :: above) c.leaving = .innermost (c.opened settings) := by
  unfold closing
  exact if_pos rfl

theorem callsAfter_entering (c : TracedCall) : settings.callsAfter above c.entering = c.opened settings :: above := rfl

theorem callsAfter_leaving (c : TracedCall) :
    settings.callsAfter (c.opened settings :: above) c.leaving = above := by
  have hclosing : settings.closing (c.opened settings :: above) c.leaving = _ := closing_leaving c
  unfold callsAfter
  simp only [TracedCall.leaving, TracedCall.event] at hclosing ⊢
  rw [hclosing]
  rfl

theorem callsAlong_append (calls : List OpenCall) (first second : List Event) :
    settings.callsAlong calls (first ++ second) = settings.callsAlong (settings.callsAlong calls first) second :=
  List.foldl_append

theorem rowsAlong_append (calls : List OpenCall) (first second : List Event) :
    settings.rowsAlong calls (first ++ second) =
      settings.rowsAlong calls first ++ settings.rowsAlong (settings.callsAlong calls first) second := by
  induction first generalizing calls with
  | nil => rfl
  | cons event rest ih =>
    rw [List.cons_append, rowsAlong, rowsAlong, ih, List.append_assoc]
    rfl

/-- The calls that are open are those above the forest again. -/
theorem callsAlong_forest (forest : CallForest) : settings.callsAlong above forest.events = above := by
  induction forest generalizing above with
  | done => rfl
  | call c inner next ihInner ihNext =>
    show settings.callsAlong (settings.callsAfter above c.entering) (inner.events ++ c.leaving :: next.events) = above
    rw [callsAfter_entering, callsAlong_append, ihInner]
    show settings.callsAlong (settings.callsAfter (c.opened settings :: above) c.leaving) next.events = above
    rw [callsAfter_leaving, ihNext]

theorem row?_entering_of_edges (edges : settings.layout = .edges) (c : TracedCall) :
    settings.row? above c.entering =
      if settings.filter.hides c.entering then none
      else settings.edgeRow? c.entering (settings.callerAmong above) := by
  show settings.callRow? above c.entering = _
  unfold callRow?
  rw [edges]

theorem row?_leaving_of_edges (edges : settings.layout = .edges) (calls : List OpenCall) (c : TracedCall) :
    settings.row? calls c.leaving = none := by
  show settings.returnRow? calls c.leaving = none
  unfold returnRow?
  rw [edges]

theorem rowsAlong_forest_of_edges (edges : settings.layout = .edges) (forest : CallForest) :
    settings.rowsAlong above forest.events = forest.edgeRows settings above := by
  induction forest generalizing above with
  | done => rfl
  | call c inner next ihInner ihNext =>
    show (settings.row? above c.entering).toList ++
      settings.rowsAlong (settings.callsAfter above c.entering) (inner.events ++ c.leaving :: next.events) = _
    rw [row?_entering_of_edges edges, callsAfter_entering, rowsAlong_append, callsAlong_forest, ihInner, rowsAlong,
      row?_leaving_of_edges edges, callsAfter_leaving, ihNext, CallForest.edgeRows, List.append_assoc]
    rfl

end Settings

/-! ### The rows that a run writes -/

namespace Session
variable {s : Session}

theorem deliver_adds (hs : s.Sound) (h : s.channel.Harmless) (n : Notification) :
    (s.deliver n).1.channel.stream =
      ((recordedRows (s.steps (.deliver n))).map String.toUTF8).foldl (· ++ ·) s.channel.stream := by
  have hfate := deliver_fate hs n
  obtain ⟨-, hwritten⟩ := harmless_of_fate hfate h
  have hrows : recordedRows (s.steps (.deliver n)) =
      (if (s.deliver n).2 == .recorded then s.dueRow? n else none).toList :=
    filterMap_deliver (Step.rowIf (· == .recorded)) n
  rw [hrows]
  generalize s.dueRow? n = row? at hfate
  generalize (s.deliver n).2 = outcome at hfate hwritten
  cases hfate with
  | quiet _ _ hc =>
    rw [ite_self, hc]
    rfl
  | duplicate _ _ _ hc => exact congrArg Channel.stream hc
  | recorded _ _ hw => exact h.stream_of_write hw
  | writeFailed => exact absurd rfl hwritten

theorem deliverAll_adds (hs : s.Sound) (h : s.channel.Harmless) (notifications : List Notification) :
    (s.performAll (notifications.map .deliver)).1.channel.stream =
      ((recordedRows (s.stepsOfAll (notifications.map .deliver))).map String.toUTF8).foldl (· ++ ·)
        s.channel.stream := by
  induction notifications generalizing s with
  | nil => rfl
  | cons n rest ih =>
    have hrows : recordedRows (s.stepsOfAll ((n :: rest).map .deliver)) = recordedRows (s.steps (.deliver n)) ++
        recordedRows ((s.deliver n).1.stepsOfAll (rest.map .deliver)) := List.filterMap_append
    rw [hrows, List.map_append, List.foldl_append, ← deliver_adds hs h n]
    exact ih (deliver_sound hs n).1 (harmless_of_fate (deliver_fate hs n) h).1

/-! ### A forest in a trace of edges -/

theorem toUTF8_foldl (rows : List String) (text : String) :
    (rows.foldl (· ++ ·) text).toUTF8 = (rows.map String.toUTF8).foldl (· ++ ·) text.toUTF8 := by
  induction rows generalizing text with
  | nil => rfl
  | cons row rest ih =>
    rw [List.foldl_cons, ih, List.map_cons, List.foldl_cons]
    rfl

section
variable {settings : Settings} {faults : Faults} {label : String} {host : Host}

theorem stream_of_traced (opened : create settings { destination := { faults }, label } host = .ok s)
    (harmless : faults.Harmless) (notifications : List Notification) :
    (s.performAll (traced notifications)).1.channel.stream =
      ((recordedRows (s.stepsOfAll (traced notifications))).foldl (· ++ ·) settings.layout.header).toUTF8 := by
  have fresh := create_fresh opened
  have hsame := start_sameTrace s
  have hchannel : s.start.1.channel.Harmless := hsame.channel ▸ create_harmless opened harmless
  have hadds := deliverAll_adds (hsame.sound fresh.sound) hchannel notifications
  rw [hsame.channel, fresh.stream, ← toUTF8_foldl] at hadds
  exact hadds

theorem recordedRows_traced (opened : create settings { destination := { faults }, label } host = .ok s)
    (edges : settings.flatten = true) (harmless : faults.Harmless) (forest : CallForest)
    (outside : ∀ c ∈ forest.calls, settings.ownEntity ≠ some c.tracedMethod.entity) :
    recordedRows (s.stepsOfAll (traced forest.notifications)) = firstRows (forest.edgeRows settings []) := by
  have hlayout : settings.layout = .edges := if_pos edges
  have fresh := create_fresh opened
  have hsteps := traced_steps fresh.sound (create_harmless opened harmless) forest.notifications
  have hdue := dueRows_traced fresh forest.events_of_notifications (CallForest.outside_events outside)
  have hsegment := segment_eq_self fun x hx => (hsteps x hx).1
  have recalls := recalls_of_opened opened edges (reaches_stepsOfAll s (traced forest.notifications))
  have htried := recalls.tried
  rw [hsegment, hdue, Settings.rowsAlong_forest_of_edges hlayout] at htried
  rw [recordedRows_eq_triedRows fun x hx => (hsteps x hx).2, htried]

/-- A forest of calls, traced as edges to a destination that does no harm, leaves one row for each call that is shown
and its caller, in the order of the calls. Rows of one fingerprint count as one. -/
theorem rows_of_forest (opened : create settings { destination := { faults }, label } host = .ok s)
    (edges : settings.flatten = true) (harmless : faults.Harmless) (forest : CallForest)
    (outside : ∀ c ∈ forest.calls, settings.ownEntity ≠ some c.tracedMethod.entity) :
    let run := traced forest.notifications
    recordedRows (s.stepsOfAll run) = firstRows (forest.edgeRows settings []) ∧
      (ToldApart (forest.edgeRows settings []) →
        recordedRows (s.stepsOfAll run) = (forest.edgeRows settings []).eraseDups) ∧
      (s.performAll run).1.channel.stream =
        ((recordedRows (s.stepsOfAll run)).foldl (· ++ ·) settings.layout.header).toUTF8 := by
  intro run
  have hrows := recordedRows_traced opened edges harmless forest outside
  exact ⟨hrows, fun apart => hrows.trans apart.firstRows_eq, stream_of_traced opened harmless _⟩

end

/-- A call that is hidden is left out, and its caller stands for it. -/
theorem rows_of_hidden_call :
    let caller : TracedCall := { receiver := .instanceOf (.named 1 .ofClasses "Outer"), method := some "run" }
    let hidden : TracedCall :=
      { receiver := .unknown, method := some "each", entered := { native := true, path := some "lib/each.rb" } }
    let callee : TracedCall :=
      { receiver := .typeItself (.named 2 .ofClasses "Inner"), method := some "step", left := { fromBlock := true } }
    let forest := CallForest.call caller (.call hidden (.call callee .done (.call callee .done .done)) .done) .done
    let settings : Settings := { filter := .paths ["lib/"], callerRule := .nearestVisible }
    ∃ s, create settings { destination := { faults := { chunk := some 3 } }, label := "" } { process := 1 } = .ok s ∧
      recordedRows (s.stepsOfAll (traced forest.notifications)) =
        ["\"Inner\",\"step\",class,\"\",0,\"Outer\",\"run\",instance\n"] := by
  intro caller hidden callee forest settings
  have harmless : Faults.Harmless { chunk := some 3 } := .of_chunk (by decide)
  obtain ⟨s, opened⟩ : ∃ s, create settings { destination := { faults := { chunk := some 3 } }, label := "" }
      { process := 1 } = .ok s := create_ok _ _ harmless (by decide)
  obtain ⟨hrows, -, -⟩ := rows_of_forest opened rfl harmless forest (by decide)
  refine ⟨s, opened, hrows.trans ?_⟩
  decide +kernel

/-- Two calls whose rows have one fingerprint. -/
def mistaken : CallForest :=
  .call { receiver := .instanceOf (.named 1 .ofClasses "CTbvdoS2wsbe") } .done
    (.call { receiver := .instanceOf (.named 2 .ofClasses "CL448fHOGpuj") } .done .done)

/-- Of two different rows of one fingerprint the second is lost. -/
theorem row_mistaken : ∃ s, create { rootCalls := true } { destination := { faults := {} }, label := "" }
      { process := 1 } = .ok s ∧
    recordedRows (s.stepsOfAll (traced mistaken.notifications)) ≠
      (mistaken.edgeRows { rootCalls := true } []).eraseDups := by
  obtain ⟨s, opened⟩ := create_in_memory { rootCalls := true } (by decide)
  refine ⟨s, opened, ?_⟩
  rw [recordedRows_traced opened rfl Faults.harmless_of_none mistaken (by decide)]
  decide +kernel

end Session
end MethodTrace
