import MethodTrace.Proofs.CallForest
import MethodTrace.Proofs.PendingCalls

/-! # The caller in the row of an edge

The row of an edge names a pending call or the root. This holds on every run, however the notifications fit together
and whatever the output does. -/

namespace MethodTrace
open Session

namespace Settings

/-- Whether the settings let a row name an open call as the caller. -/
def mayCall (settings : Settings) (call : OpenCall) : Bool :=
  match settings.callerRule with
  | .immediate => true
  | .nearestVisible => !call.hidden

/-- The caller among pending calls is the one opened last of those that may be named. It is the root if there is
none. -/
inductive CallerOf (settings : Settings) (pending : List PendingCall) : Option PendingCall → Prop
  | root : (∀ c ∈ pending, settings.mayCall c.toOpenCall = false) → CallerOf settings pending none
  | call {c : PendingCall} : c ∈ pending → settings.mayCall c.toOpenCall = true →
      (∀ d ∈ pending, settings.mayCall d.toOpenCall = true → d.place ≤ c.place) → CallerOf settings pending (some c)

end Settings

/-- The columns of a caller. -/
def callerColumns : Option PendingCall → String
  | none => Row.field rootName ++ "," ++ Row.field rootName ++ "," ++ unknownName
  | some c =>
    Row.field c.event.method.entity ++ "," ++ Row.field c.event.method.name ++ "," ++ c.event.method.level.word

/-- The row of a call and a caller. -/
def edgeRow (event : Event) (caller : Option PendingCall) : String :=
  Row.place event ++ "," ++ callerColumns caller ++ "\n"

/-- What a step of a trace of edges answers, by the caller that a call has at that point. -/
structure Step.Attributes (settings : Settings) (caller : Option PendingCall) (x : Step) : Prop where
  ofRow : ∀ outcome, x.outcome? = some outcome → outcome.isOfRow = true →
    ∃ event, x.event? = some event ∧ event.kind = .call ∧ settings.filter.hides event = false ∧
      (caller = none → settings.rootCalls = true) ∧ Fate x.before x.after (some (edgeRow event caller)) outcome
  suppressed : ∀ event, x.event? = some event → event.kind = .call →
    (x.outcome? = some .suppressed ↔ settings.filter.hides event = true)
  tracked : ∀ event, x.event? = some event → event.kind = .call → settings.filter.hides event = false →
    (x.outcome? = some .tracked ↔ caller = none ∧ settings.rootCalls = false)
  outside : ∀ event, x.event? = some event → settings.ownEntity ≠ some event.method.entity

section
variable {settings : Settings}

/-! ### Callers -/

theorem Settings.callerAmong_eq_find? (settings : Settings) (calls : List OpenCall) :
    settings.callerAmong calls = calls.find? settings.mayCall := by
  unfold callerAmong mayCall
  cases settings.callerRule with
  | immediate => cases calls <;> rfl
  | nearestVisible => rfl

theorem Settings.exists_callerOf (settings : Settings) (past : List Step) :
    ∃ caller, settings.CallerOf (settings.pending past) caller ∧
      settings.callerAmong ((settings.pending past).map PendingCall.toOpenCall) =
        caller.map PendingCall.toOpenCall := by
  obtain ⟨hsorted, -⟩ := pending_sorted settings past
  refine ⟨(settings.pending past).find? (settings.mayCall ∘ PendingCall.toOpenCall), ?_, ?_⟩
  · cases hfound : (settings.pending past).find? (settings.mayCall ∘ PendingCall.toOpenCall) with
    | none => exact .root fun c hc => eq_false_of_ne_true (List.find?_eq_none.mp hfound c hc)
    | some c =>
      obtain ⟨hmay, inner, outer, hsplit, hinner⟩ := List.find?_eq_some_iff_append.mp hfound
      rw [hsplit] at hsorted ⊢
      refine .call (by simp) hmay fun d hd hdmay => ?_
      obtain ⟨-, houter, -⟩ := List.pairwise_append.mp hsorted
      rcases List.mem_append.mp hd with hd | hd
      · have := hinner d hd
        simp [hdmay] at this
      · rcases List.mem_cons.mp hd with rfl | hd
        · exact Nat.le_refl _
        · exact Nat.le_of_lt ((List.pairwise_cons.mp houter).1 d hd)
  · rw [callerAmong_eq_find?, List.find?_map]

theorem ofEdge_eq_edgeRow (event : Event) (caller : Option PendingCall) :
    Row.ofEdge event (CallStack.callerFrame (caller.map PendingCall.toOpenCall)) = edgeRow event caller := by
  cases caller <;> simp [Row.ofEdge, edgeRow, callerColumns, Row.callerLevel, CallStack.callerFrame, Frame.root,
    Event.root, String.append_assoc]

theorem Settings.row?_of_edges (edges : settings.layout = .edges) {calls : List OpenCall} {caller : Option PendingCall}
    (hcaller : settings.callerAmong calls = caller.map PendingCall.toOpenCall) {event : Event} {row : String} :
    settings.row? calls event = some row ↔ event.kind = .call ∧ settings.filter.hides event = false ∧
      (caller = none → settings.rootCalls = true) ∧ row = edgeRow event caller := by
  unfold row?
  cases event.kind with
  | leave => simp [returnRow?, edges]
  | call =>
    simp only [callRow?, edges, edgeRow?, hcaller, ofEdge_eq_edgeRow, Option.isNone_map]
    cases settings.filter.hides event <;> cases settings.rootCalls <;> cases caller <;> simp [eq_comm]

end

namespace Session

/-- What an event in a trace of edges is answered, by the caller that a call has at that point. -/
inductive EdgeAnswer (settings : Settings) (caller : Option PendingCall) (event : Event) (s t : Session) :
    Outcome → Prop
  | leave {outcome : Outcome} : event.kind = .leave → outcome.isOfRow = false →
      EdgeAnswer settings caller event s t outcome
  | suppressed : event.kind = .call → settings.filter.hides event = true →
      EdgeAnswer settings caller event s t .suppressed
  | tracked : event.kind = .call → settings.filter.hides event = false → caller = none → settings.rootCalls = false →
      EdgeAnswer settings caller event s t .tracked
  | row {outcome : Outcome} : event.kind = .call → settings.filter.hides event = false →
      (caller = none → settings.rootCalls = true) → outcome.isOfRow = true →
      Fate s t (some (edgeRow event caller)) outcome → EdgeAnswer settings caller event s t outcome

variable {s : Session} {settings : Settings} {caller : Option PendingCall}

theorem deliver_edgeAnswer (hs : s.Sound) (edges : s.settings.layout = .edges)
    (hcaller : s.settings.callerAmong s.calls = caller.map PendingCall.toOpenCall) {n : Notification} {event : Event}
    (he : s.hears n = some event) : EdgeAnswer s.settings caller event s (s.deliver n).1 (s.deliver n).2 := by
  obtain ⟨-, -, -, hfate⟩ := deliver_of_hears hs he
  have hdue : s.dueRow? n = s.settings.row? s.calls event := by rw [dueRow?, he, Option.bind_some]
  cases hrow : s.settings.row? s.calls event with
  | some row =>
    obtain ⟨hcall, hshown, hroot, rfl⟩ := (Settings.row?_of_edges edges hcaller).mp hrow
    rw [hrow] at hfate
    exact .row hcall hshown hroot (isOfRow_of_fate hfate) hfate
  | none =>
    have hquiet := deliver_quiet hs he (hdue.trans hrow)
    rw [hquiet, Settings.quietOutcome]
    cases hk : event.kind with
    | leave =>
      refine .leave hk ?_
      cases s.settings.closing s.calls event <;> rfl
    | call =>
      dsimp only
      cases hhides : s.settings.filter.hides event with
      | true => exact .suppressed hk hhides
      | false =>
        -- Only a call of the root has no row, if it is not hidden.
        have hroot : ¬(caller = none → s.settings.rootCalls = true) := fun hroot => by
          simp [(Settings.row?_of_edges edges hcaller).mpr ⟨hk, hhides, hroot, rfl⟩] at hrow
        obtain ⟨hnone, hoff⟩ := Classical.not_imp.mp hroot
        exact .tracked hk hhides hnone (eq_false_of_ne_true hoff)

theorem EdgeAnswer.attributes {x : Step} {event : Event} {outcome : Outcome} (he : x.event? = some event)
    (ho : x.outcome? = some outcome) (outside : settings.ownEntity ≠ some event.method.entity)
    (h : EdgeAnswer settings caller event x.before x.after outcome) : x.Attributes settings caller := by
  have same : ∀ e, x.event? = some e → e = event := fun e he' => Option.some.inj (he'.symm.trans he)
  refine ⟨fun o ho' hrow => ?_, fun e he' hk => ?_, fun e he' hk hshown => ?_, fun e he' => same e he' ▸ outside⟩
  · obtain rfl : o = outcome := Option.some.inj (ho'.symm.trans ho)
    cases h with
    | row hcall hshown hroot _ hfate => exact ⟨event, he, hcall, hshown, hroot, hfate⟩
    | leave _ hnot => simp [hnot] at hrow
    | suppressed => cases hrow
    | tracked => cases hrow
  · obtain rfl := same e he'
    rw [ho]
    cases h with
    | suppressed _ hhides => simp [hhides]
    | tracked _ hshown => simp [hshown]
    | row _ hshown _ hrow =>
      refine ⟨fun heq => ?_, fun hhides => ?_⟩
      · rw [Option.some.inj heq] at hrow
        cases hrow
      · simp [hshown] at hhides
    | leave hleave => simp [hleave] at hk
  · obtain rfl := same e he'
    rw [ho]
    cases h with
    | tracked _ _ hnone hoff => simp [hnone, hoff]
    | suppressed _ hhides => simp [hhides] at hshown
    | row _ _ hroot hrow =>
      refine ⟨fun heq => ?_, fun ⟨hnone, hoff⟩ => ?_⟩
      · rw [Option.some.inj heq] at hrow
        cases hrow
      · simp [hroot hnone] at hoff
    | leave hleave => simp [hleave] at hk

/-- A step that tells of no event has no part in a trace. -/
theorem attributes_of_no_event {x : Step} (he : x.event? = none)
    (ho : ∀ outcome, x.outcome? = some outcome → outcome.isOfRow = false) : x.Attributes settings caller := by
  refine ⟨fun outcome houtcome hrow => ?_, ?_, ?_, ?_⟩
  · simp [ho outcome houtcome] at hrow
  all_goals simp [he]

theorem perform_attributes (hs : s.Sound) (edges : s.settings.layout = .edges)
    (hcaller : s.listens = true → s.settings.callerAmong s.calls = caller.map PendingCall.toOpenCall) {action : Action}
    (ha : action.isSimple = true) : (s.step action).Attributes s.settings caller := by
  cases action with
  | deliver n =>
    have hevent := event?_deliver hs n
    cases he : s.hears n with
    | none =>
      obtain ⟨reason, hignored, -⟩ := deliver_of_not_hears he
      refine attributes_of_no_event (hevent.trans he) fun outcome ho => ?_
      rw [← Option.some.inj ((congrArg some hignored).symm.trans ho)]
      rfl
    | some event =>
      obtain ⟨hlistens, -, outside⟩ := hears_eq_some_iff.mp he
      exact (deliver_edgeAnswer hs edges (hcaller hlistens) he).attributes (hevent.trans he) rfl outside
  | «scoped» => cases ha
  | _ => exact attributes_of_no_event rfl nofun

/-- In a trace of edges, on every run, the rows name pending calls as the callers. The answers to a step of the run
depend on the caller that a call has among the calls that are pending then, and neither a call in a row nor a pending
call is of the tracer itself. -/
theorem edges_of_pending_calls {faults : Faults} {label : String} {host : Host}
    (opened : create settings { destination := { faults }, label } host = .ok s) (edges : settings.flatten = true)
    (actions : List Action) {past : List Step} {x : Step} (hp : past ++ [x] <+: s.stepsOfAll actions) :
    (∀ c ∈ settings.pending past, settings.ownEntity ≠ some c.event.method.entity) ∧
      ∃ caller, settings.CallerOf (settings.pending past) caller ∧ x.Attributes settings caller := by
  have fresh := create_fresh opened
  have hlayout : settings.layout = .edges := by rw [Settings.layout, edges]; rfl
  have attributes : ∀ {past : List Step} {x : Step}, past ++ [x] <+: s.stepsOfAll actions →
      ∃ caller, settings.CallerOf (settings.pending past) caller ∧ x.Attributes settings caller := by
    intro past x hp
    obtain ⟨reaches, action, ha, hx⟩ := (reaches_upTo hp).last
    obtain ⟨hsound, hsettings⟩ := reaches.sound fresh.sound
    rw [fresh.settings_eq] at hsettings
    obtain ⟨caller, hcaller, hamong⟩ := settings.exists_callerOf past
    have hattributes : (x.before.step action).Attributes x.before.settings caller :=
      perform_attributes hsound (hsettings ▸ hlayout) (fun hlistens => ?_) ha
    · rw [← hx, hsettings] at hattributes
      exact ⟨caller, hcaller, hattributes⟩
    · rw [hsettings, reaches.calls_eq_pending fresh.sound fresh.blank (unbroken_of_listens hlistens),
        fresh.settings_eq]
      exact hamong
  refine ⟨fun c hc => ?_, attributes hp⟩
  obtain ⟨⟨y, hy, hopens⟩, -⟩ := Settings.mem_pending_iff.mp hc
  have hpast : past <+: s.stepsOfAll actions := (List.prefix_append _ _).trans hp
  obtain ⟨hearlier, -⟩ := (reaches_upTo hpast).of_getElem? hy
  obtain ⟨_, -, hattributes⟩ := attributes (hearlier.trans hpast)
  exact hattributes.outside c.event hopens.told

/-- A block ends inside a hidden call, and the call inside the block never returned. The next call has the caller of the
hidden one. -/
theorem edge_after_block :
    let outer : TracedCall := { receiver := .instanceOf (.named 1 .ofClasses "Outer"), method := some "run" }
    let hidden : TracedCall :=
      { receiver := .unknown, method := some "each", entered := { path := some "lib/each.rb" }
        left := { fromBlock := true } }
    let lost : TracedCall := { receiver := .typeItself (.named 2 .ofClasses "Lost"), method := some "step" }
    let next : TracedCall := { receiver := .typeItself (.named 3 .ofClasses "Next"), method := some "step" }
    let earlier := [outer.enter, hidden.enter, lost.enter, hidden.leave]
    let settings : Settings := { filter := .paths ["lib/"], callerRule := .nearestVisible }
    ∃ s, create settings { destination := { faults := {} }, label := "" } { process := 1 } = .ok s ∧
      ∃ past x outcome, s.stepsOfAll (traced (earlier ++ [next.enter])) = past ++ [x] ∧ x.outcome? = some outcome ∧
        outcome.isOfRow = true ∧
        Fate x.before x.after (some "\"Next\",\"step\",class,\"\",0,\"Outer\",\"run\",instance\n") outcome := by
  intro outer hidden lost next earlier settings
  obtain ⟨s, opened⟩ := create_in_memory settings (by decide)
  have fresh := create_fresh opened
  have hopen : settings.callsAlong [] [outer.entering, hidden.entering, lost.entering, hidden.leaving] =
      [outer.opened settings] := rfl
  obtain ⟨tracks, -⟩ := fresh.start.1.deliverAll (.cons outer.enter_event (.cons hidden.enter_event
    (.cons lost.enter_event (.cons hidden.leave_event .nil)))) (by decide)
  rw [hopen] at tracks
  -- What follows holds of the run up to the last call, however it was reached.
  obtain ⟨before, past, hsteps, tracks⟩ : ∃ before past,
      s.stepsOfAll (traced (earlier ++ [next.enter])) = past ++ [before.step (.deliver next.enter)] ∧
      Tracks settings [outer.opened settings] before := ⟨_, s.stepsOfAll (traced earlier), rfl, tracks⟩
  have hp : past ++ [before.step (.deliver next.enter)] <+: s.stepsOfAll (traced (earlier ++ [next.enter])) :=
    hsteps ▸ List.prefix_refl _
  have hcalls : [outer.opened settings] = (settings.pending past).map PendingCall.toOpenCall := by
    have h := (reaches_upTo hp).last.1.calls_eq_pending fresh.sound fresh.blank (unbroken_of_listens tracks.listens)
    rw [fresh.settings_eq] at h
    exact tracks.calls_eq.symm.trans h
  have hofRow : (before.deliver next.enter).2.isOfRow = true := by
    obtain ⟨row, hrow⟩ := Option.isSome_iff_exists.mp
      (show (settings.row? [outer.opened settings] next.entering).isSome = true by decide +kernel)
    obtain ⟨-, -, hfate⟩ := tracks.deliver next.enter_event (by decide)
    rw [hrow] at hfate
    exact isOfRow_of_fate hfate
  obtain ⟨-, caller, hcaller, hattributes⟩ := edges_of_pending_calls opened rfl _ hp
  obtain ⟨event, hevent, -, -, -, hedge⟩ := hattributes.ofRow _ rfl hofRow
  have hnext : event = next.entering := by
    rw [event?_deliver tracks.sound, tracks.hears next.enter_event (by decide)] at hevent
    exact (Option.some.inj hevent).symm
  have hrow : edgeRow event caller = "\"Next\",\"step\",class,\"\",0,\"Outer\",\"run\",instance\n" := by
    rw [hnext]
    cases hcaller with
    | root hnone =>
      obtain ⟨c, hc, houter⟩ := List.mem_map.mp (hcalls ▸ List.mem_singleton_self (outer.opened settings))
      exact absurd (houter ▸ hnone c hc) (by decide)
    | @call c hc =>
      have hc : c.toOpenCall = outer.opened settings := by
        simpa [← hcalls] using List.mem_map_of_mem (f := PendingCall.toOpenCall) hc
      rw [edgeRow, callerColumns, hc]
      decide +kernel
  refine ⟨s, opened, past, _, _, hsteps, rfl, hofRow, ?_⟩
  rw [← hrow]
  exact hedge

end Session
end MethodTrace
