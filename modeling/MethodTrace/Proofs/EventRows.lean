import MethodTrace.Proofs.CallForest

/-! # A forest in a trace of events

Without flattening, a call of a forest that is shown has two rows, its own and that of its return, and the rows of the
calls inside it stand between them. The call alone decides whether the two are shown. Nothing is left out as a duplicate:
whatever the run, a row that is due is written unless the write fails. -/

namespace MethodTrace
open Session

/-- The row of the call or of its return, if the call is shown. -/
def TracedCall.eventRow? (settings : Settings) (c : TracedCall) (event : Event) : Option String :=
  if settings.filter.hides c.entering then none else some (Row.ofEvent event)

/-- The rows of the calls of a forest that are shown: for each call its own, those of the calls inside it, and that of
its return. -/
def CallForest.eventRows (settings : Settings) : CallForest → List String
  | done => []
  | call c inner next =>
    (c.eventRow? settings c.entering).toList ++ inner.eventRows settings ++
      (c.eventRow? settings c.leaving).toList ++ next.eventRows settings

namespace Settings
variable {settings : Settings} {above : List OpenCall}

theorem row?_entering_of_events (events : settings.layout = .events) (c : TracedCall) :
    settings.row? above c.entering = c.eventRow? settings c.entering := by
  show settings.callRow? above c.entering = _
  unfold callRow?
  rw [events]
  rfl

/-- What the return says of its place has no part in whether its row is shown. -/
theorem row?_leaving_of_events (events : settings.layout = .events) (c : TracedCall) :
    settings.row? (c.opened settings :: above) c.leaving = c.eventRow? settings c.leaving := by
  show settings.returnRow? (c.opened settings :: above) c.leaving = _
  unfold returnRow?
  rw [events, closing_leaving]
  rfl

theorem rowsAlong_forest_of_events (events : settings.layout = .events) (forest : CallForest) :
    settings.rowsAlong above forest.events = forest.eventRows settings := by
  induction forest generalizing above with
  | done => rfl
  | call c inner next ihInner ihNext =>
    have hinner : settings.rowsAlong (c.opened settings :: above) (inner.events ++ c.leaving :: next.events) =
        inner.eventRows settings ++ ((c.eventRow? settings c.leaving).toList ++ next.eventRows settings) := by
      rw [rowsAlong_append, callsAlong_forest, ihInner, rowsAlong, row?_leaving_of_events events, callsAfter_leaving,
        ihNext]
    show (settings.row? above c.entering).toList ++
      settings.rowsAlong (settings.callsAfter above c.entering) (inner.events ++ c.leaving :: next.events) = _
    rw [row?_entering_of_events events, callsAfter_entering, hinner, CallForest.eventRows, List.append_assoc,
      List.append_assoc]

end Settings

namespace Session
variable {s t : Session}

/-- What a step in a trace of events answers: no row is a duplicate, and one that is due is written or fails. -/
structure WritesDue (x : Step) : Prop where
  notDuplicate : x.outcome? ≠ some .duplicate
  written : x.outcome? ≠ some .writeFailed → x.rowIf (· == .recorded) = x.due?

theorem deliver_writesDue (hs : s.Sound) (events : s.settings.layout = .events) (n : Notification) :
    WritesDue (s.step (.deliver n)) := by
  have hfate := deliver_fate hs n
  have hanswer : (s.step (.deliver n)).outcome? = some (s.deliver n).2 := rfl
  have hdue : (s.step (.deliver n)).due? = s.dueRow? n := rfl
  generalize s.dueRow? n = row? at hfate hdue
  generalize (s.deliver n).2 = outcome at hfate hanswer
  cases hfate with
  | quiet hrow _ _ =>
    refine ⟨?_, fun _ => by rw [Step.rowIf, hdue, ite_self]⟩
    intro hduplicate
    rw [Option.some.inj (hanswer.symm.trans hduplicate)] at hrow
    cases hrow
  | duplicate hedges =>
    rw [events] at hedges
    cases hedges
  | recorded =>
    refine ⟨by simp [hanswer], fun _ => ?_⟩
    rw [Step.rowIf, hanswer]
    rfl
  | writeFailed => exact ⟨by simp [hanswer], fun hwritten => absurd hanswer hwritten⟩

theorem perform_writesDue (hs : s.Sound) (events : s.settings.layout = .events) {action : Action}
    (ha : action.isSimple = true) : WritesDue (s.step action) := by
  have quiet : (s.step action).outcome? = none → (s.step action).due? = none → WritesDue (s.step action) := by
    intro ho hdue
    exact ⟨by simp [ho], fun _ => by rw [Step.rowIf, hdue, ite_self]⟩
  cases action with
  | deliver n => exact deliver_writesDue hs events n
  | start => exact quiet rfl rfl
  | stop => exact quiet rfl rfl
  | mark => exact quiet rfl rfl
  | flush => exact quiet rfl rfl
  | close => exact quiet rfl rfl
  | beginFinalize => exact quiet rfl rfl
  | look => exact quiet rfl rfl
  | enterProcess => exact quiet rfl rfl
  | enterThread => exact quiet rfl rfl
  | setFaults => exact quiet rfl rfl
  | «scoped» => cases ha

theorem Reaches.writesDue {past : List Step} (h : Reaches s past t) (hs : s.Sound)
    (events : s.settings.layout = .events) : ∀ x ∈ past, WritesDue x := by
  intro x hx
  obtain ⟨earlier, -, hbefore, action, ha, heq⟩ := h.of_mem hx
  obtain ⟨hsound, hsettings⟩ := hbefore.sound hs
  rw [heq]
  exact perform_writesDue hsound (hsettings ▸ events) ha

theorem recordedRows_eq_dueRows {past : List Step} (h : ∀ x ∈ past, WritesDue x)
    (written : ∀ x ∈ past, x.outcome? ≠ some .writeFailed) : recordedRows past = dueRows past :=
  List.filterMap_congr fun x hx => (h x hx).written (written x hx)

section
variable {settings : Settings} {faults : Faults} {label : String} {host : Host}

/-- A forest of calls, traced as events to a destination that does no harm, leaves two rows for each call that is shown,
each at the place that its own notification gives, around the rows of the calls inside it. No row is left out. -/
theorem eventRows_of_forest (opened : create settings { destination := { faults }, label } host = .ok s)
    (events : settings.flatten = false) (harmless : faults.Harmless) (forest : CallForest)
    (outside : ∀ c ∈ forest.calls, settings.ownEntity ≠ some c.tracedMethod.entity) :
    let run := traced forest.notifications
    recordedRows (s.stepsOfAll run) = forest.eventRows settings ∧
      (∀ x ∈ s.stepsOfAll run, x.outcome? ≠ some .duplicate) ∧
      (s.performAll run).1.channel.stream =
        ((forest.eventRows settings).foldl (· ++ ·) settings.layout.header).toUTF8 := by
  intro run
  have fresh := create_fresh opened
  have hlayout : settings.layout = .events := by rw [Settings.layout, events]; rfl
  have hwrites : ∀ x ∈ s.stepsOfAll run, WritesDue x :=
    (reaches_stepsOfAll s run).writesDue fresh.sound (fresh.settings_eq ▸ hlayout)
  have hsteps := traced_steps fresh.sound (create_harmless opened harmless) forest.notifications
  have hrows : recordedRows (s.stepsOfAll run) = forest.eventRows settings := by
    rw [recordedRows_eq_dueRows hwrites fun x hx => (hsteps x hx).2,
      dueRows_traced fresh forest.events_of_notifications (CallForest.outside_events outside),
      Settings.rowsAlong_forest_of_events hlayout]
  refine ⟨hrows, fun x hx => (hwrites x hx).notDuplicate, ?_⟩
  rw [← hrows]
  exact stream_of_traced opened harmless _

end

/-- A method that calls itself through a hidden one. The hidden call returns at a place that the filter would show, and
the inner call ends in a block. -/
theorem eventRows_of_recursive_call :
    let outer : TracedCall :=
      { receiver := .instanceOf (.named 1 .ofClasses "Tree"), method := some "walk"
        entered := { path := some "app/tree.rb", line := 3 }, left := { path := some "app/tree.rb", line := 9 } }
    let hidden : TracedCall :=
      { receiver := .unknown, method := some "each", entered := { native := true, path := some "lib/each.rb" }
        left := { path := some "app/each.rb" } }
    let inner : TracedCall := { outer with left := { path := some "lib/each.rb", line := 7, fromBlock := true } }
    let forest := CallForest.call outer (.call hidden (.call inner .done .done) .done) .done
    let settings : Settings := { flatten := false, filter := .paths ["lib/"] }
    ∃ s, create settings { destination := { faults := { chunk := some 3 } }, label := "" } { process := 1 } = .ok s ∧
      recordedRows (s.stepsOfAll (traced forest.notifications)) =
        ["call,\"Tree\",\"walk\",instance,\"app/tree.rb\",3\n", "call,\"Tree\",\"walk\",instance,\"app/tree.rb\",3\n",
          "return,\"Tree\",\"walk\",instance,\"lib/each.rb\",7\n",
          "return,\"Tree\",\"walk\",instance,\"app/tree.rb\",9\n"] := by
  intro outer hidden inner forest settings
  have harmless : Faults.Harmless { chunk := some 3 } := .of_chunk (by decide)
  obtain ⟨s, opened⟩ : ∃ s, create settings { destination := { faults := { chunk := some 3 } }, label := "" }
      { process := 1 } = .ok s := create_ok _ _ harmless (by decide)
  obtain ⟨hrows, -, -⟩ := eventRows_of_forest opened rfl harmless forest (by decide)
  refine ⟨s, opened, hrows.trans ?_⟩
  decide +kernel

end Session
end MethodTrace
