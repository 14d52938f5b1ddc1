import MethodTrace.Proofs.CallForest
import MethodTrace.Proofs.ForkedChild
import MethodTrace.Proofs.Lifecycle
import MethodTrace.Proofs.Outcomes

/-! # A new segment is like a new session

What a session answers, writes and counts depends on where it stands, on the calls that are open and on the rows known,
and on nothing else (`Agree`). Stopping and starting leaves no call open and no row known, and so does a mark that
unwinds. From there on the session does what a new one does (`SameFuture`). -/

namespace MethodTrace
open Session

/-- Whether an action is one of tracing: to start or to stop, a mark, or a notification. -/
def Action.traces : Action → Bool
  | .start | .stop | .mark _ _ | .deliver _ => true
  | _ => false

namespace Session

/-- A session in its own process and thread, with an output that does no harm. -/
structure Active (s : Session) : Prop where
  sound : s.Sound
  context : s.ownsContext = true
  unfinalizing : s.finalizing = false
  harmless : s.channel.Harmless

/-- Two sessions agree on all that decides what they do next. -/
structure Agree (s t : Session) : Prop where
  settings : t.settings = s.settings
  phase : t.phase = s.phase
  calls : t.calls = s.calls
  seen : t.seen = s.seen

/-- What is written and counted from one state of a session to another. -/
structure Gains (s t : Session) (lines : ByteArray) (gain : Counters) : Prop where
  stream : t.channel.stream = s.channel.stream ++ lines
  counters : t.counters = s.counters.plus gain

/-- Two sessions answered the same, came to agree, and wrote and counted the same on the way. -/
structure Alike (s t : Session) (x y : Answer × Session) : Prop where
  answer : x.1 = y.1
  depth : x.2.depth = y.2.depth
  agree : Agree x.2 y.2
  gains : ∃ lines gain, Gains s x.2 lines gain ∧ Gains t y.2 lines gain

/-- Two sessions agree, and do alike step by step whatever the tracing goes on with. -/
structure SameFuture (s t : Session) : Prop where
  now : Agree s t
  later : ∀ actions : List Action, (∀ action ∈ actions, action.traces = true) →
    List.Forall₂ (Alike s t) (s.performAll actions).2 (t.performAll actions).2

/-- A session at the start of a segment: it is tracing, no call is open and no row is known. -/
structure Begins (settings : Settings) (s : Session) : Prop where
  active : Active s
  settings_eq : s.settings = settings
  phase : s.phase = .tracing
  calls : s.calls = []
  seen : s.seen = {}

section
variable {s t : Session} {settings : Settings}

theorem Gains.none (hchannel : t.channel = s.channel) (hcounters : t.counters = s.counters) : Gains s t .empty {} where
  stream := by rw [hchannel, ByteArray.append_empty]
  counters := by rw [hcounters, Counters.plus_none]

theorem Gains.trans {u : Session} {lines more : ByteArray} {gain extra : Counters} (h₁ : Gains s t lines gain)
    (h₂ : Gains t u more extra) : Gains s u (lines ++ more) (gain.plus extra) where
  stream := by rw [h₂.stream, h₁.stream, ByteArray.append_assoc]
  counters := by rw [h₂.counters, h₁.counters, Counters.plus_assoc]

theorem Alike.after {s' t' : Session} {lines : ByteArray} {gain : Counters} (hs : Gains s s' lines gain)
    (ht : Gains t t' lines gain) {x y : Answer × Session} (h : Alike s' t' x y) : Alike s t x y := by
  obtain ⟨more, extra, hx, hy⟩ := h.gains
  exact ⟨h.answer, h.depth, h.agree, _, _, hs.trans hx, ht.trans hy⟩

/-! ### Staying active -/

theorem Active.perform (h : Active s) {action : Action} (ha : action.traces = true) : Active (s.perform action).1 := by
  have hsimple : action.isSimple = true := by cases action <;> first | rfl | cases ha
  refine ⟨(perform_sound h.sound hsimple).1, perform_ownsContext h.sound hsimple ?_ h.context, ?_, ?_⟩
  · cases action <;> first | rfl | cases ha
  · rw [perform_finalizing h.sound hsimple (by rintro rfl; cases ha)]
    exact h.unfinalizing
  · cases action with
    | start => exact (start_sameTrace s).channel ▸ h.harmless
    | stop =>
      show s.stop.channel.Harmless
      cases ht : s.isTracing with
      | false => exact (stop_of_not_tracing ht).symm ▸ h.harmless
      | true => exact (stop_of_tracing ht).2.2.2 ▸ h.harmless
    | mark label unwinding => exact mark_harmless h.harmless label unwinding
    | deliver n => exact (harmless_of_fate (deliver_fate h.sound n) h.harmless).1
    | _ => cases ha

theorem Active.depth (hs : Active s) (ht : Active t) (h : Agree s t) : s.depth = t.depth := by
  have hcalls : s.stack.calls = t.stack.calls := h.calls.symm
  rw [Session.depth, Session.depth, CallStack.depth_eq hs.sound.stack, CallStack.depth_eq ht.sound.stack, hcalls]

/-! ### Alike step by step -/

theorem Agree.seenWith (h : Agree s t) (row : String) : t.seenWith row = s.seenWith row := by
  unfold Session.seenWith
  rw [h.settings, h.seen]

/-- The same becomes of a row in both sessions. -/
theorem Agree.fate {s' t' : Session} (h : Agree s t) (hs : s.channel.Harmless) (ht : t.channel.Harmless)
    {row? : Option String} {outcome other : Outcome} (hfate : Fate s s' row? outcome) (hother : Fate t t' row? other)
    (hquiet : row? = none → outcome = other) :
    outcome = other ∧ t'.seen = s'.seen ∧
      ∃ lines, s'.channel.stream = s.channel.stream ++ lines ∧ t'.channel.stream = t.channel.stream ++ lines := by
  have hwritten := (harmless_of_fate hfate hs).2
  have hwritten' := (harmless_of_fate hother ht).2
  cases hfate with
  | quiet _ hseen hchannel =>
    cases hother with
    | quiet _ hseen' hchannel' =>
      refine ⟨hquiet rfl, hseen'.trans (h.seen.trans hseen.symm), .empty, ?_, ?_⟩
      · rw [hchannel, ByteArray.append_empty]
      · rw [hchannel', ByteArray.append_empty]
  | @duplicate row hedges hhas hseen hchannel =>
    cases hother with
    | duplicate _ _ hseen' hchannel' =>
      refine ⟨rfl, hseen'.trans ((h.seenWith row).trans hseen.symm), .empty, ?_, ?_⟩
      · rw [hchannel, ByteArray.append_empty]
      · rw [hchannel', ByteArray.append_empty]
    | recorded hnew => exact absurd (h.seen ▸ hhas) (hnew (h.settings ▸ hedges))
    | writeFailed => exact absurd rfl hwritten'
  | @recorded row hnew hseen hw =>
    cases hother with
    | duplicate hedges hhas => exact absurd (h.seen ▸ hhas) (hnew (h.settings ▸ hedges))
    | recorded _ hseen' hw' =>
      exact ⟨rfl, hseen'.trans ((h.seenWith row).trans hseen.symm), row.toUTF8, hs.stream_of_write hw,
        ht.stream_of_write hw'⟩
    | writeFailed => exact absurd rfl hwritten'
  | writeFailed => exact absurd rfl hwritten

theorem Active.listens_eq (h : Active s) : s.listens = s.isTracing := by
  simp [listens, h.unfinalizing, h.context]

theorem Agree.isTracing (h : Agree s t) : t.isTracing = s.isTracing := by
  rw [Session.isTracing, h.phase, ← Session.isTracing]

theorem Agree.hears (h : Agree s t) (hs : Active s) (ht : Active t) (n : Notification) : t.hears n = s.hears n := by
  unfold Session.hears
  rw [ht.listens_eq, hs.listens_eq, h.isTracing, h.settings]

theorem Agree.ignores? (h : Agree s t) (hs : Active s) (ht : Active t) (n : Notification) :
    t.ignores? n = s.ignores? n := by
  have hdeafness : ∀ {u : Session}, Active u → u.deafness? = if u.isTracing then none else some .notTracing := by
    intro u hu
    obtain ⟨howns, hthread⟩ := ownsContext_iff.mp hu.context
    cases htracing : u.isTracing <;> simp_all [deafness?, hu.unfinalizing]
  unfold Session.ignores?
  rw [hdeafness ht, hdeafness hs, h.isTracing, h.settings]

theorem Active.deliver_phase (h : Active s) (n : Notification) : (s.deliver n).1.phase = s.phase := by
  obtain ⟨howns, -⟩ := ownsContext_iff.mp h.context
  rcases deliver_cases h.sound n with ⟨hfin, -⟩ | ⟨-, -, heq⟩ | ⟨-, -, hforeign, -⟩ | ⟨-, k⟩
  · simp [h.unfinalizing] at hfin
  · rw [heq]
    rfl
  · simp [howns] at hforeign
  · exact k.phase

/-- What two sessions do alike with an action. -/
theorem Agree.deliver (h : Agree s t) (hs : Active s) (ht : Active t) (n : Notification) :
    (s.deliver n).2 = (t.deliver n).2 ∧ Agree (s.deliver n).1 (t.deliver n).1 ∧
      ∃ lines gain, Gains s (s.deliver n).1 lines gain ∧ Gains t (t.deliver n).1 lines gain := by
  have hphase : (t.deliver n).1.phase = (s.deliver n).1.phase := by
    rw [ht.deliver_phase, hs.deliver_phase, h.phase]
  have hhears := h.hears hs ht n
  cases he : s.hears n with
  | none =>
    rw [he] at hhears
    obtain ⟨-, -, ks⟩ := deliver_of_not_hears he
    obtain ⟨-, -, kt⟩ := deliver_of_not_hears hhears
    cases hi : s.ignores? n with
    | none =>
      obtain ⟨event, hevent⟩ := hears_of_heeded hi
      simp [he] at hevent
    | some reason =>
      obtain ⟨-, hanswer, hcounters⟩ := deliver_ignored hi
      obtain ⟨-, hanswer', hcounters'⟩ := deliver_ignored ((h.ignores? hs ht n).trans hi)
      rw [ht.listens_eq, h.isTracing, ← hs.listens_eq, Counters.plus_assoc] at hcounters'
      rw [Counters.plus_assoc] at hcounters
      refine ⟨hanswer.trans hanswer'.symm, ⟨?_, hphase, ?_, ?_⟩, .empty, _, ⟨?_, hcounters⟩, ⟨?_, hcounters'⟩⟩
      · rw [kt.settings, ks.settings, h.settings]
      · rw [Session.calls, Session.calls, kt.stack, ks.stack]
        exact h.calls
      · rw [kt.seen, ks.seen, h.seen]
      · rw [ks.channel, ByteArray.append_empty]
      · rw [kt.channel, ByteArray.append_empty]
  | some event =>
    rw [he] at hhears
    obtain ⟨ks, -, hcalls, hfate⟩ := deliver_of_hears hs.sound he
    obtain ⟨kt, -, hcalls', hfate'⟩ := deliver_of_hears ht.sound hhears
    have hcounters := deliver_counters hs.sound he
    have hcounters' := deliver_counters ht.sound hhears
    have hquiet : s.settings.row? s.calls event = none → (s.deliver n).2 = (t.deliver n).2 := by
      intro hrow
      rw [deliver_quiet hs.sound he (by rw [dueRow?, he, Option.bind_some, hrow]),
        deliver_quiet ht.sound hhears (by rw [dueRow?, hhears, Option.bind_some, h.settings, h.calls, hrow]),
        h.settings, h.calls]
    rw [h.settings, h.calls] at hcalls' hfate' hcounters'
    obtain ⟨hanswer, hseen, lines, hstream, hstream'⟩ := h.fate hs.harmless ht.harmless hfate hfate' hquiet
    rw [← hanswer, Counters.plus_assoc, Counters.plus_assoc] at hcounters'
    rw [Counters.plus_assoc, Counters.plus_assoc] at hcounters
    exact ⟨hanswer, ⟨kt.settings.trans (h.settings.trans ks.settings.symm), hphase, hcalls'.trans hcalls.symm, hseen⟩,
      lines, _, ⟨hstream, hcounters⟩, ⟨hstream', hcounters'⟩⟩

theorem Agree.start (h : Agree s t) (hs : Active s) (ht : Active t) :
    s.start.2 = t.start.2 ∧ Agree s.start.1 t.start.1 ∧
      ∃ lines gain, Gains s s.start.1 lines gain ∧ Gains t t.start.1 lines gain := by
  cases hp : s.phase with
  | closed =>
    rw [start_of_closed hp, start_of_closed (h.phase.trans hp)]
    exact ⟨rfl, h, _, _, .none rfl rfl, .none rfl rfl⟩
  | tracing =>
    rw [start_of_tracing hp, start_of_tracing (h.phase.trans hp)]
    exact ⟨rfl, h, _, _, .none rfl rfl, .none rfl rfl⟩
  | idle =>
    obtain ⟨howns, -⟩ := ownsContext_iff.mp hs.context
    obtain ⟨howns', -⟩ := ownsContext_iff.mp ht.context
    rw [start_of_owner hp howns, start_of_owner (h.phase.trans hp) howns']
    exact ⟨rfl, ⟨h.settings, rfl, h.calls, h.seen⟩, _, _, .none rfl rfl, .none rfl rfl⟩

theorem Agree.stop (h : Agree s t) :
    Agree s.stop t.stop ∧ ∃ lines gain, Gains s s.stop lines gain ∧ Gains t t.stop lines gain := by
  cases htracing : s.isTracing with
  | false =>
    rw [stop_of_not_tracing htracing, stop_of_not_tracing (h.isTracing.trans htracing)]
    exact ⟨h, _, _, .none rfl rfl, .none rfl rfl⟩
  | true =>
    rw [stop_eq_stopped htracing, stop_eq_stopped (h.isTracing.trans htracing)]
    have hcalls : ∀ u : Session, u.stopped.calls = [] := fun u => calls_of_reset (show _ = u.stack.reset from rfl)
    exact ⟨⟨h.settings, rfl, (hcalls t).trans (hcalls s).symm, rfl⟩, _, _, .none rfl rfl, .none rfl rfl⟩

/-- A mark that is written to an output that does no harm. -/
theorem Active.mark (h : Active s) (hopen : s.isClosed = false) (label : String) (unwinding : Bool) :
    ∃ channel, s.mark label unwinding =
        (if unwinding then { s with channel }.forgetRows.unwind else { s with channel }.forgetRows, .ok ()) ∧
      channel.stream = s.channel.stream ++ (Row.ofMark label).toUTF8 := by
  have hok := (h.harmless.write (Row.ofMark label).toUTF8).2
  rcases hw : s.channel.write (Row.ofMark label).toUTF8 with ⟨channel, fault | _⟩ <;> rw [hw] at hok
  · cases hok
  · exact ⟨channel, mark_of_ok hopen h.context hw unwinding, h.harmless.stream_of_write hw⟩

theorem Agree.mark (h : Agree s t) (hs : Active s) (ht : Active t) (label : String) (unwinding : Bool) :
    (s.mark label unwinding).2 = (t.mark label unwinding).2 ∧
      Agree (s.mark label unwinding).1 (t.mark label unwinding).1 ∧
      ∃ lines gain, Gains s (s.mark label unwinding).1 lines gain ∧ Gains t (t.mark label unwinding).1 lines gain := by
  have hsame : t.isClosed = s.isClosed := by rw [isClosed, h.phase, ← isClosed]
  cases hclosed : s.isClosed with
  | true =>
    rw [mark_of_closed hclosed, mark_of_closed (hsame.trans hclosed)]
    exact ⟨rfl, h, _, _, .none rfl rfl, .none rfl rfl⟩
  | false =>
    obtain ⟨channel, heq, hstream⟩ := hs.mark hclosed label unwinding
    obtain ⟨channel', heq', hstream'⟩ := ht.mark (hsame.trans hclosed) label unwinding
    rw [heq, heq']
    cases unwinding with
    | false =>
      exact ⟨rfl, ⟨h.settings, h.phase, h.calls, rfl⟩, _, {}, ⟨hstream, (Counters.plus_none _).symm⟩,
        ⟨hstream', (Counters.plus_none _).symm⟩⟩
    | true =>
      have hcalls : ∀ u : Session, u.unwind.calls = [] := fun u => calls_of_reset (show _ = u.stack.reset from rfl)
      exact ⟨rfl, ⟨h.settings, h.phase, (hcalls _).trans (hcalls _).symm, rfl⟩, _, {},
        ⟨hstream, (Counters.plus_none _).symm⟩, ⟨hstream', (Counters.plus_none _).symm⟩⟩

theorem Agree.perform (h : Agree s t) (hs : Active s) (ht : Active t) {action : Action} (ha : action.traces = true) :
    Alike s t ((s.perform action).2, (s.perform action).1) ((t.perform action).2, (t.perform action).1) := by
  -- What is left to say of each action is what it answers, that the sessions agree after it, and what they gain.
  have alike : (s.perform action).2 = (t.perform action).2 → Agree (s.perform action).1 (t.perform action).1 →
      (∃ lines gain, Gains s (s.perform action).1 lines gain ∧ Gains t (t.perform action).1 lines gain) →
      Alike s t ((s.perform action).2, (s.perform action).1) ((t.perform action).2, (t.perform action).1) :=
    fun hanswer hagree hgains => ⟨hanswer, (hs.perform ha).depth (ht.perform ha) hagree, hagree, hgains⟩
  cases action with
  | start =>
    obtain ⟨hanswer, hagree, hgains⟩ := h.start hs ht
    exact alike (congrArg Answer.result hanswer) hagree hgains
  | stop =>
    obtain ⟨hagree, hgains⟩ := h.stop
    exact alike rfl hagree hgains
  | mark label unwinding =>
    obtain ⟨hanswer, hagree, hgains⟩ := h.mark hs ht label unwinding
    exact alike (congrArg Answer.result hanswer) hagree hgains
  | deliver n =>
    obtain ⟨hanswer, hagree, hgains⟩ := h.deliver hs ht n
    exact alike (congrArg Answer.outcome hanswer) hagree hgains
  | _ => cases ha

/-- Sessions that agree do alike for as long as both are told the same. -/
theorem Agree.sameFuture (h : Agree s t) (hs : Active s) (ht : Active t) : SameFuture s t := by
  refine ⟨h, fun actions hactions => ?_⟩
  induction actions generalizing s t with
  | nil => exact .nil
  | cons action rest ih =>
    obtain ⟨ha, hrest⟩ := List.forall_mem_cons.mp hactions
    have hfirst := h.perform hs ht ha
    obtain ⟨lines, gain, hgain, hgain'⟩ := hfirst.gains
    exact .cons hfirst ((ih hfirst.agree (hs.perform ha) (ht.perform ha) hrest).imp fun _ _ hlater =>
      hlater.after hgain hgain')

/-! ### Where a segment begins -/

theorem Begins.sameFuture (h : Begins settings s) (h' : Begins settings t) : SameFuture s t := by
  refine Agree.sameFuture ⟨?_, ?_, ?_, ?_⟩ h.active h'.active
  · rw [h.settings_eq, h'.settings_eq]
  · rw [h.phase, h'.phase]
  · rw [h.calls, h'.calls]
  · rw [h.seen, h'.seen]

theorem begins_of_start (h : Active s) (hsettings : s.settings = settings) (hidle : s.phase = .idle)
    (hcalls : s.calls = []) (hseen : s.seen = {}) : s.start.2 = .ok () ∧ Begins settings s.start.1 := by
  obtain ⟨howns, -⟩ := ownsContext_iff.mp h.context
  have hactive : Active (s.perform .start).1 := h.perform rfl
  replace hactive : Active s.start.1 := hactive
  rw [start_of_owner hidle howns] at hactive ⊢
  exact ⟨rfl, hactive, hsettings, rfl, hcalls, hseen⟩

theorem begins_of_restart (h : Active s) (cleared : Cleared s) (hopen : s.isClosed = false)
    (hsettings : s.settings = settings) : s.stop.start.2 = .ok () ∧ Begins settings s.stop.start.1 := by
  have hactive : Active (s.perform .stop).1 := h.perform rfl
  cases htracing : s.isTracing with
  | true =>
    obtain ⟨hsettings', hstack, hseen, -⟩ := stop_of_tracing htracing
    refine begins_of_start hactive (hsettings'.trans hsettings) ?_ (calls_of_reset hstack) hseen
    rw [stop_eq_stopped htracing]
    rfl
  | false =>
    have hidle : s.phase = .idle := by
      cases hp : s.phase <;> simp_all [isClosed, isTracing]
    have unbroken := unbroken_of_owns (ownsContext_iff.mp h.context).1
    rw [stop_of_not_tracing htracing]
    exact begins_of_start h hsettings hidle (cleared.calls h.sound htracing unbroken)
      (cleared.idle hidle unbroken).seen_eq

theorem begins_of_mark (h : Active s) (htracing : s.isTracing = true) (hsettings : s.settings = settings)
    (label : String) : (s.mark label true).2 = .ok () ∧ Begins settings (s.mark label true).1 := by
  have hactive : Active (s.perform (.mark label true)).1 := h.perform rfl
  replace hactive : Active (s.mark label true).1 := hactive
  have hphase : s.phase = .tracing := by simpa [isTracing] using htracing
  obtain ⟨channel, heq, -⟩ := h.mark (isClosed_of_tracing htracing) label true
  rw [heq] at hactive ⊢
  exact ⟨rfl, hactive, hsettings, hphase, calls_of_reset (show _ = s.stack.reset from rfl), rfl⟩

theorem active_of_harmless (hs : s.Sound) (held : s.channel.isHeld = true ↔ s.isClosed = false)
    (hopen : s.isClosed = false) (context : s.ownsContext = true) (unfinalizing : s.finalizing = false)
    (harmless : s.destination.faults.Harmless) : Active s := by
  refine ⟨hs, context, unfinalizing, ?_⟩
  have hheld := held.mpr hopen
  unfold Session.destination at harmless
  cases hc : s.channel with
  | held output =>
    rw [hc] at harmless
    exact .held harmless
  | released destination =>
    rw [hc] at hheld
    cases hheld

/-- Wherever a run leaves an open session, in its own process and thread and with an output that does no harm, stopping
and starting it makes it do what a new session does, and so does a mark that unwinds while it is tracing. The past is
in what was written and counted before, and in nothing that follows. -/
theorem future_of_segment {faults : Faults} {label : String} {host : Host}
    (opened : create settings { destination := { faults }, label } host = .ok s) (actions : List Action)
    {past : List Step} (hp : past <+: s.stepsOfAll actions) (context : (s.after past).ownsContext = true)
    (unfinalizing : (s.after past).finalizing = false) (hopen : (s.after past).isClosed = false)
    (harmless : (s.after past).destination.faults.Harmless) {faults' : Faults} (harmless' : faults'.Harmless)
    (label' : String) (host' : Host) :
    ∃ fresh, create settings { destination := { faults := faults' }, label := label' } host' = .ok fresh ∧
      fresh.start.2 = .ok () ∧ (s.after past).stop.start.2 = .ok () ∧
      SameFuture (s.after past).stop.start.1 fresh.start.1 ∧
      ((s.after past).isTracing = true → ∀ mark, ((s.after past).mark mark true).2 = .ok () ∧
        SameFuture ((s.after past).mark mark true).1 fresh.start.1) := by
  have first := create_fresh opened
  have reaches := reaches_upTo hp
  obtain ⟨hsound, hsettings⟩ := reaches.sound first.sound
  rw [first.settings_eq] at hsettings
  have active := active_of_harmless hsound (reaches.held_iff first.sound first.held_iff) hopen context unfinalizing
    harmless
  have cleared := reaches.cleared first.sound (.of_blank first.blank)
  obtain ⟨fresh, hcreate⟩ := create_ok label' host' harmless' (room_of_create opened)
  have new := create_fresh hcreate
  obtain ⟨hstart, hnew⟩ := begins_of_start
    ⟨new.sound, new.ownsContext, new.finalizing, create_harmless hcreate harmless'⟩ new.settings_eq new.phase new.calls
    new.seen
  obtain ⟨hrestart, hagain⟩ := begins_of_restart active cleared hopen hsettings
  refine ⟨fresh, hcreate, hstart, hrestart, hagain.sameFuture hnew, fun htracing mark => ?_⟩
  obtain ⟨hmark, hagain⟩ := begins_of_mark active htracing hsettings mark
  exact ⟨hmark, hagain.sameFuture hnew⟩

/-- Two calls are open, one of them hidden, when the segment ends. -/
theorem future_of_open_calls :
    let outer : TracedCall := { receiver := .instanceOf (.named 1 .ofClasses "Outer"), method := some "run" }
    let hidden : TracedCall :=
      { receiver := .unknown, method := some "each", entered := { path := some "lib/each.rb" } }
    let settings : Settings := { filter := .paths ["lib/"], rootCalls := true }
    ∃ s, create settings { destination := { faults := {} }, label := "" } { process := 1 } = .ok s ∧
      let t := (s.performAll (traced [outer.enter, hidden.enter])).1
      t.depth = 2 ∧
        ∃ fresh, create settings { destination := { faults := { chunk := some 3 } }, label := "" } { process := 2 } =
            .ok fresh ∧
          SameFuture t.stop.start.1 fresh.start.1 ∧ SameFuture (t.mark "next" true).1 fresh.start.1 := by
  intro outer hidden settings
  obtain ⟨s, opened⟩ := create_in_memory settings (by decide)
  refine ⟨s, opened, ?_⟩
  intro t
  have first := create_fresh opened
  have reaches := reaches_stepsOfAll s (traced [outer.enter, hidden.enter])
  have tracks : Tracks settings [hidden.opened settings, outer.opened settings] t :=
    (first.start.1.deliverAll (.cons outer.enter_event (.cons hidden.enter_event .nil)) (by decide)).1
  obtain ⟨unfinalizing, htracing, context⟩ := listens_iff.mp tracks.listens
  have hopen := isClosed_of_tracing htracing
  have harmless : t.channel.Harmless :=
    (reaches.unfailing first.sound first.held_iff (create_harmless opened Faults.harmless_of_none)
      (by simp [stepsOfAll, traced, steps, step])).1 ((reaches.held_iff first.sound first.held_iff).mpr hopen)
  have hafter : s.after (s.stepsOfAll (traced [outer.enter, hidden.enter])) = t := reaches.after_eq
  refine ⟨?_, ?_⟩
  · rw [depth, CallStack.depth_eq tracks.sound.stack]
    exact congrArg List.length tracks.calls_eq
  · have chunked : Faults.Harmless { chunk := some 3 } := .of_chunk (by decide)
    rw [← hafter] at context unfinalizing hopen harmless
    obtain ⟨fresh, hcreate, -, -, hrestart, hmark⟩ := future_of_segment opened _ (List.prefix_refl _) context
      unfinalizing hopen harmless.faults chunked "" { process := 2 }
    rw [hafter] at hrestart hmark
    exact ⟨fresh, hcreate, hrestart, (hmark htracing "next").2⟩

end
end Session
end MethodTrace
