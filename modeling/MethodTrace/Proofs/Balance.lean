import MethodTrace.Proofs.CallForest
import MethodTrace.Proofs.Outcomes

/-! # Balance

The notifications of a forest of calls leave the stack as they found it, frame by frame, and add one return to the
counters for each call. It does not matter what else is notified in between, as long as the session takes no interest in
it, nor what becomes of the rows. What a session counts is followed through the open calls (`Settings.tallyAfter`), so
that the argument is one about lists of events. -/

namespace MethodTrace
open Session

/-- The counters of calls and of returns. -/
structure Tally where
  calls : Nat
  returns : Nat
  unmatchedReturns : Nat
  blockReturns : Nat

def Counters.tally (c : Counters) : Tally := ⟨c.calls, c.returns, c.unmatchedReturns, c.blockReturns⟩

/-! ### Tallies along events -/

namespace Settings
variable {settings : Settings} {above : List OpenCall} {tally : Tally}

/-- The event that a notification is taken for, if it is one and not of the tracer itself. -/
def heard (settings : Settings) (n : Notification) : Option Event :=
  n.event?.filter fun event => settings.ownEntity ≠ some event.method.entity

/-- The tally after an event, by the calls that are open before it. -/
def tallyAfter (settings : Settings) (calls : List OpenCall) (tally : Tally) (event : Event) : Tally :=
  match event.kind with
  | .call => { tally with calls := tally.calls + 1 }
  | .leave =>
    match settings.closing calls event with
    | .none => { tally with unmatchedReturns := tally.unmatchedReturns + 1 }
    | .innermost _ => { tally with returns := tally.returns + 1 }
    | .below _ => { tally with returns := tally.returns + 1, blockReturns := tally.blockReturns + 1 }

def tallyAlong (settings : Settings) : List OpenCall → Tally → List Event → Tally
  | _, tally, [] => tally
  | calls, tally, event :: rest =>
    settings.tallyAlong (settings.callsAfter calls event) (settings.tallyAfter calls tally event) rest

theorem tallyAlong_append (calls : List OpenCall) (tally : Tally) (first second : List Event) :
    settings.tallyAlong calls tally (first ++ second) =
      settings.tallyAlong (settings.callsAlong calls first) (settings.tallyAlong calls tally first) second := by
  induction first generalizing calls tally with
  | nil => rfl
  | cons event rest ih => exact ih _ _

theorem tallyAfter_entering (c : TracedCall) :
    settings.tallyAfter above tally c.entering = { tally with calls := tally.calls + 1 } := rfl

theorem tallyAfter_leaving (c : TracedCall) :
    settings.tallyAfter (c.opened settings :: above) tally c.leaving = { tally with returns := tally.returns + 1 } := by
  have hclosing : settings.closing (c.opened settings :: above) c.leaving = _ := closing_leaving c
  unfold tallyAfter
  simp only [TracedCall.leaving, TracedCall.event] at hclosing ⊢
  rw [hclosing]

end Settings

/-- Whether a call is one of the program, and not of the tracer itself. -/
def TracedCall.isOutside (settings : Settings) (c : TracedCall) : Bool :=
  settings.ownEntity ≠ some c.tracedMethod.entity

namespace Settings
variable {settings : Settings} {above : List OpenCall} {tally : Tally}

theorem heard_of_event {n : Notification} {event : Event} {c : TracedCall} (he : n.event? = some event)
    (hmethod : event.method = c.tracedMethod) :
    settings.heard n = if c.isOutside settings then some event else none := by
  unfold heard TracedCall.isOutside
  rw [he, Option.filter_some, hmethod]

theorem heard_enter (c : TracedCall) :
    settings.heard c.enter = if c.isOutside settings then some c.entering else none :=
  heard_of_event c.enter_event rfl

theorem heard_leave (c : TracedCall) :
    settings.heard c.leave = if c.isOutside settings then some c.leaving else none :=
  heard_of_event c.leave_event rfl

/-- The calls of the tracer drop out of what is heard of a forest, and those inside them move up. -/
theorem heard_call (c : TracedCall) (inner next : CallForest) :
    (CallForest.call c inner next).notifications.filterMap settings.heard =
      if c.isOutside settings then
        c.entering :: (inner.notifications.filterMap settings.heard ++
          c.leaving :: next.notifications.filterMap settings.heard)
      else inner.notifications.filterMap settings.heard ++ next.notifications.filterMap settings.heard := by
  simp only [CallForest.notifications, List.filterMap_cons, List.filterMap_append, heard_enter, heard_leave]
  cases c.isOutside settings <;> rfl

theorem callsAlong_heard_forest (forest : CallForest) :
    settings.callsAlong above (forest.notifications.filterMap settings.heard) = above := by
  induction forest generalizing above with
  | done => rfl
  | call c inner next ihInner ihNext =>
    rw [heard_call]
    split
    · show settings.callsAlong (settings.callsAfter above c.entering) _ = above
      rw [callsAfter_entering, callsAlong_append, ihInner]
      show settings.callsAlong (settings.callsAfter (c.opened settings :: above) c.leaving) _ = above
      rw [callsAfter_leaving, ihNext]
    · rw [callsAlong_append, ihInner, ihNext]

theorem tallyAlong_heard_forest (forest : CallForest) :
    settings.tallyAlong above tally (forest.notifications.filterMap settings.heard) =
      { tally with
        calls := tally.calls + forest.calls.countP (·.isOutside settings)
        returns := tally.returns + forest.calls.countP (·.isOutside settings) } := by
  induction forest generalizing above tally with
  | done => rfl
  | call c inner next ihInner ihNext =>
    rw [heard_call, CallForest.calls, List.countP_cons, List.countP_append]
    split
    · rw [tallyAlong, callsAfter_entering, tallyAfter_entering, tallyAlong_append, callsAlong_heard_forest, ihInner,
        tallyAlong, callsAfter_leaving, tallyAfter_leaving, ihNext]
      simp only [Tally.mk.injEq, and_true]
      omega
    · rw [tallyAlong_append, callsAlong_heard_forest, ihInner, ihNext]
      simp only [Tally.mk.injEq, and_true]
      omega

end Settings

/-! ### What a session counts -/

namespace Session
variable {s : Session}

theorem hears_eq (s : Session) (n : Notification) :
    s.hears n = if s.listens then s.settings.heard n else none := rfl

/-- A row leaves the tally as it is, and so does every answer but that to a return without a call. -/
theorem take_tally (h : s.Sound) (event : Event) :
    (s.take event).1.counters.tally = s.settings.tallyAfter s.calls s.counters.tally event := by
  rw [take_counters h]
  cases hrow : s.settings.row? s.calls event with
  | none =>
    rw [take_answer h hrow]
    unfold Settings.quietOutcome Settings.gain Settings.tallyAfter
    cases event.kind with
    | call =>
      dsimp only
      split <;> rfl
    | leave => cases s.settings.closing s.calls event <;> rfl
  | some row =>
    obtain ⟨-, -, -, hfate⟩ := take_spec h event
    rw [hrow] at hfate
    have hquiet : ∀ c : Counters, (c.plus (s.take event).2.gain).tally = c.tally := by
      intro c
      generalize (s.take event).2 = outcome at hfate
      cases hfate <;> rfl
    rw [hquiet]
    unfold Settings.gain Settings.tallyAfter
    unfold Settings.row? Settings.returnRow? at hrow
    cases hk : event.kind with
    | call => rfl
    | leave =>
      rw [hk] at hrow
      cases hclosing : s.settings.closing s.calls event with
      | none =>
        rw [hclosing] at hrow
        cases hl : s.settings.layout <;> rw [hl] at hrow <;> cases hrow
      | innermost => rfl
      | below => rfl

theorem SameStanding.attentive {t : Session} (k : SameStanding s t) : t.attentive = s.attentive := by
  simp only [Session.attentive, ownsProcess, isTracing, k.host, k.phase, k.ownership, k.finalizing]

/-- A session is attentive to one thread, with some calls open and a tally of them. -/
structure Attends (settings : Settings) (owner : ThreadId) (calls : List OpenCall) (tally : Tally) (s : Session) :
    Prop where
  settings_eq : s.settings = settings
  sound : s.Sound
  attentive : s.attentive = true
  ownerThread : s.ownerThread = owner
  calls_eq : s.calls = calls
  tally_eq : s.counters.tally = tally

section
variable {settings : Settings} {owner : ThreadId} {calls : List OpenCall} {tally : Tally}

theorem Attends.ignore (h : Attends settings owner calls tally s) {n : Notification} (hn : s.hears n = none) :
    Attends settings owner calls tally (s.deliver n).1 ∧ (s.deliver n).1.host = s.host := by
  have k := deliver_standing h.sound h.attentive n
  have htally : (s.deliver n).1.counters.tally = s.counters.tally := by
    obtain ⟨events, reason, heq⟩ := deliver_of_unheard h.attentive hn
    rw [heq]
    rfl
  obtain ⟨-, -, trace⟩ := deliver_of_not_hears hn
  refine ⟨⟨k.settings.trans h.settings_eq, trace.sound h.sound, k.attentive.trans h.attentive,
    k.ownerThread.trans h.ownerThread, ?_, htally.trans h.tally_eq⟩, k.host⟩
  rw [Session.calls, trace.stack]
  exact h.calls_eq

theorem Attends.hear (h : Attends settings owner calls tally s) (hthread : s.host.thread = owner) {n : Notification}
    {event : Event} (hn : settings.heard n = some event) :
    Attends settings owner (settings.callsAfter calls event) (settings.tallyAfter calls tally event) (s.deliver n).1 ∧
      (s.deliver n).1.host = s.host := by
  have hears : s.hears n = some event := by
    have hlistens : s.listens = true := by simp [listens_eq, h.attentive, hthread, h.ownerThread]
    rw [hears_eq, if_pos hlistens, h.settings_eq, hn]
  obtain ⟨k, hsound, hcalls, -⟩ := deliver_of_hears h.sound hears
  have htally : (s.deliver n).1.counters.tally = s.settings.tallyAfter s.calls s.counters.tally event := by
    rw [deliver_eq_take hears]
    exact take_tally (s := s.hearing) ⟨h.sound.stack, h.sound.rooted⟩ event
  rw [h.settings_eq, h.calls_eq] at hcalls htally
  rw [h.tally_eq] at htally
  exact ⟨⟨k.settings.trans h.settings_eq, hsound, k.attentive.trans h.attentive, k.ownerThread.trans h.ownerThread,
    hcalls, htally⟩, k.host⟩

end

end Session

/-! ### Notifications among others -/

/-- Actions, begun on a thread, that deliver some notifications from the thread of the owner in their order. Between them
the thread and the destination may change, and whatever a session takes no interest in may be delivered: what is no call
and no return, what the tracer itself does, and what comes from another thread. -/
inductive Interleaved (settings : Settings) (owner : ThreadId) : ThreadId → List Notification → List Action → Prop
  | done {thread : ThreadId} : Interleaved settings owner thread [] []
  | heard {rest : List Notification} {actions : List Action} (n : Notification) :
      Interleaved settings owner owner rest actions → Interleaved settings owner owner (n :: rest) (.deliver n :: actions)
  | other {thread : ThreadId} {rest : List Notification} {actions : List Action} (n : Notification) :
      n.kind = .other → Interleaved settings owner thread rest actions →
      Interleaved settings owner thread rest (.deliver n :: actions)
  | ofTracer {thread : ThreadId} {rest : List Notification} {actions : List Action} (n : Notification) :
      settings.ownEntity = some n.calledMethod.entity →
      Interleaved settings owner thread rest actions → Interleaved settings owner thread rest (.deliver n :: actions)
  | foreign {thread : ThreadId} {rest : List Notification} {actions : List Action} (n : Notification) :
      thread ≠ owner → Interleaved settings owner thread rest actions →
      Interleaved settings owner thread rest (.deliver n :: actions)
  | enterThread {thread : ThreadId} {rest : List Notification} {actions : List Action} (next : ThreadId) :
      Interleaved settings owner next rest actions →
      Interleaved settings owner thread rest (.enterThread next :: actions)
  | setFaults {thread : ThreadId} {rest : List Notification} {actions : List Action} (faults : Faults) :
      Interleaved settings owner thread rest actions →
      Interleaved settings owner thread rest (.setFaults faults :: actions)

theorem Settings.heard_of_other {settings : Settings} {n : Notification} (h : n.kind = .other) :
    settings.heard n = none := by
  unfold heard Notification.event? Notification.eventOf
  rw [h]
  rfl

theorem Settings.heard_of_tracer {settings : Settings} {n : Notification}
    (h : settings.ownEntity = some n.calledMethod.entity) :
    settings.heard n = none := by
  unfold Notification.calledMethod at h
  unfold heard Notification.event? Notification.eventOf
  cases n.kind.event? with
  | none => rfl
  | some kind => simp [h]

namespace Session
variable {s : Session} {settings : Settings} {owner : ThreadId} {calls : List OpenCall} {tally : Tally}

theorem hears_of_unheard {n : Notification} (h : s.settings.heard n = none) : s.hears n = none := by
  rw [hears_eq, h, ite_self]

/-- Only what is heard counts: a session ends up as after the events of the notifications alone. -/
theorem Attends.performAll {thread : ThreadId} {notifications : List Notification} {actions : List Action}
    (among : Interleaved settings owner thread notifications actions) (h : Attends settings owner calls tally s)
    (hthread : s.host.thread = thread) :
    Attends settings owner (settings.callsAlong calls (notifications.filterMap settings.heard))
      (settings.tallyAlong calls tally (notifications.filterMap settings.heard)) (s.performAll actions).1 := by
  induction among generalizing s calls tally with
  | done => exact h
  | heard n _ ih =>
    cases hn : settings.heard n with
    | none =>
      obtain ⟨hnext, hhost⟩ := h.ignore (hears_of_unheard (h.settings_eq ▸ hn))
      rw [List.filterMap_cons_none hn]
      exact ih hnext (hhost ▸ hthread)
    | some event =>
      obtain ⟨hnext, hhost⟩ := h.hear hthread hn
      rw [List.filterMap_cons_some hn]
      exact ih hnext (hhost ▸ hthread)
  | other n hother _ ih =>
    obtain ⟨hnext, hhost⟩ := h.ignore (hears_of_unheard (Settings.heard_of_other hother))
    exact ih hnext (hhost ▸ hthread)
  | ofTracer n hown _ ih =>
    obtain ⟨hnext, hhost⟩ := h.ignore (hears_of_unheard (h.settings_eq ▸ Settings.heard_of_tracer hown))
    exact ih hnext (hhost ▸ hthread)
  | foreign n hforeign _ ih =>
    have hdeaf : s.listens = false := by
      rw [listens_eq, hthread, h.ownerThread]
      simp [hforeign]
    obtain ⟨hnext, hhost⟩ := h.ignore (n := n) (by simp [hears_eq, hdeaf])
    exact ih hnext (hhost ▸ hthread)
  | enterThread next _ ih =>
    exact ih ⟨h.settings_eq, ⟨h.sound.stack, h.sound.rooted⟩, h.attentive, h.ownerThread, h.calls_eq, h.tally_eq⟩ rfl
  | setFaults faults _ ih =>
    exact ih ⟨h.settings_eq, ⟨h.sound.stack, h.sound.rooted⟩, h.attentive, h.ownerThread, h.calls_eq, h.tally_eq⟩ hthread

theorem Fresh.attends {host : Host} (h : Fresh settings host s) :
    Attends settings host.thread [] s.counters.tally s.start.1 ∧ s.start.1.host.thread = host.thread := by
  have howns : s.ownsProcess = true := by simp [ownsProcess, Ownership.holds, h.ownership, h.host_eq]
  rw [start_of_owner h.phase howns]
  refine ⟨⟨h.settings_eq, ⟨h.sound.stack, h.sound.rooted⟩, ?_, h.ownerThread, h.calls, rfl⟩, ?_⟩
  · show (!s.finalizing && true && s.ownsProcess) = true
    simp [h.finalizing, howns]
  · show s.host.thread = host.thread
    rw [h.host_eq]

/-- From any point of a run at which the session listens, the notifications of a forest, with others between them that
are of no interest, leave every live frame as it was. As many returns as calls are counted, one for each call of the
program, and none of them is unmatched or a block's. -/
theorem live_of_interleaved_forest {faults : Faults} {label : String} {host : Host}
    (opened : create settings { destination := { faults }, label } host = .ok s) (before : List Action)
    {past : List Step} (hp : past <+: s.stepsOfAll before) (listens : (s.after past).listens = true)
    (forest : CallForest) {actions : List Action}
    (among : Interleaved settings (s.after past).ownerThread (s.after past).host.thread forest.notifications actions) :
    let t := s.after past
    let u := (t.performAll actions).1
    let count := forest.calls.countP (·.isOutside settings)
    u.stack.live = t.stack.live ∧ u.depth = t.depth ∧
      u.counters.calls = t.counters.calls + count ∧ u.counters.returns = t.counters.returns + count ∧
      u.counters.unmatchedReturns = t.counters.unmatchedReturns ∧
      u.counters.blockReturns = t.counters.blockReturns := by
  intro t u count
  have fresh := create_fresh opened
  obtain ⟨hsound, hsettings⟩ := (reaches_upTo hp).sound fresh.sound
  have hattentive : t.attentive = true := by
    have := listens_eq t
    simp_all [t]
  have hstart : Attends settings t.ownerThread t.calls t.counters.tally t :=
    ⟨hsettings.trans fresh.settings_eq, hsound, hattentive, rfl, rfl, rfl⟩
  have hend : Attends settings t.ownerThread _ _ u := hstart.performAll among rfl
  have hcalls : u.calls = t.calls := hend.calls_eq.trans (Settings.callsAlong_heard_forest forest)
  obtain ⟨h₁, h₂, h₃, h₄⟩ := Tally.mk.inj (hend.tally_eq.trans (Settings.tallyAlong_heard_forest forest))
  refine ⟨?_, ?_, h₁, h₂, h₃, h₄⟩
  · exact CallStack.live_eq_of_calls hsound.stack hend.sound.stack (hend.sound.rooted.trans hsound.rooted.symm) hcalls
  · show u.stack.depth = t.stack.depth
    rw [CallStack.depth_eq hend.sound.stack, CallStack.depth_eq hsound.stack]
    exact congrArg List.length hcalls

/-- Inside a call of the same method, a call is made that returns from a block while the destination is full. The tracer
makes a call in it, and another thread and the host have their say. -/
theorem live_of_interrupted_recursion :
    let walk : TracedCall :=
      { receiver := .instanceOf (.named 1 .ofClasses "Tree"), method := some "walk", left := { fromBlock := true } }
    let own : TracedCall := { receiver := .instanceOf (.named 2 .ofClasses "Calltrace::Session"), method := some "flush" }
    let inside : List Action :=
      [.deliver walk.enter, .enterThread 7, .deliver walk.leave, .enterThread mainThread, .deliver own.enter,
        .setFaults { limit := some 0 }, .deliver own.leave, .deliver { kind := .other, receiver := .unknown },
        .deliver own.leave, .deliver walk.leave]
    ∃ s, create { rootCalls := true } { destination := { faults := {} }, label := "" } { process := 1 } = .ok s ∧
      let t := (s.performAll [.start, .deliver walk.enter]).1
      let u := (t.performAll inside).1
      t.depth = 1 ∧ u.stack.live = t.stack.live ∧ u.depth = 1 ∧ u.counters.returns = t.counters.returns + 1 := by
  intro walk own inside
  obtain ⟨s, opened⟩ := create_in_memory { rootCalls := true } (by decide)
  refine ⟨s, opened, ?_⟩
  intro t u
  have outside : Settings.heard { rootCalls := true } walk.enter = some walk.entering :=
    (Settings.heard_enter walk).trans (if_pos (by decide))
  obtain ⟨hstart, hthread⟩ := (create_fresh opened).attends
  obtain ⟨hentered, hhost⟩ := hstart.hear hthread outside
  rw [← hhost] at hthread
  have hafter : s.after (s.stepsOfAll [.start, .deliver walk.enter]) = t := (reaches_stepsOfAll s _).after_eq
  have ht : t = (s.start.1.deliver walk.enter).1 := rfl
  have hu : u = (t.performAll inside).1 := rfl
  rw [← ht] at hentered hthread
  clear_value u t
  have hdepth : t.depth = 1 := by
    rw [depth, CallStack.depth_eq hentered.sound.stack]
    exact congrArg List.length hentered.calls_eq
  have listens : t.listens = true := by
    rw [listens_eq, hentered.attentive, hthread, hentered.ownerThread]
    rfl
  have among : Interleaved { rootCalls := true } t.ownerThread t.host.thread
      (CallForest.call walk (.call own .done .done) .done).notifications inside := by
    rw [hthread, hentered.ownerThread]
    exact .heard _ (.enterThread 7 (.foreign _ (by decide) (.enterThread _ (.heard _ (.setFaults _ (.heard _
      (.other _ rfl (.ofTracer _ rfl (.heard _ .done)))))))))
  have hcount : (CallForest.call walk (.call own .done .done) .done).calls.countP
      (·.isOutside { rootCalls := true }) = 1 := by decide
  rw [← hafter] at listens among
  obtain ⟨hlive, hdepth', -, hreturns, -, -⟩ := live_of_interleaved_forest opened [.start, .deliver walk.enter]
    (List.prefix_refl _) listens _ among
  rw [hafter, ← hu] at hlive hdepth'
  rw [hafter, hcount, ← hu] at hreturns
  exact ⟨hdepth, hlive, hdepth'.trans hdepth, hreturns⟩

end Session
end MethodTrace
