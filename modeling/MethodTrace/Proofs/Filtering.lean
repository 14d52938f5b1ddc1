import MethodTrace.Proofs.HiddenCalls
import MethodTrace.Proofs.Lines

/-! # What a filter takes away

Two sessions do the same, one with a filter and one without. Their open calls are the same but for the flags, and every
line of the first is a line of the second. What is missing are the rows of the calls that the filter hides (`Veils`). In
a trace of edges this holds where the caller is the frame below, and no two rows are mistaken for each other. -/

namespace MethodTrace
open Session

/-- The call that is opened or closed by a step, and that its row is about. -/
def Step.call? (x : Step) : Option Event :=
  match x.action with
  | .deliver n => (x.before.hears n).bind (x.before.settings.callOf? x.before.calls)
  | _ => none

/-- A step that delivers nothing is about no call. -/
theorem Step.call?_of_undelivered {x : Step} (hx : ∀ n, x.action ≠ .deliver n) : x.call? = none := by
  obtain ⟨before, action, answer, after⟩ := x
  cases action with
  | deliver n => exact absurd rfl (hx n)
  | _ => rfl

/-- Whether a step is about a call that a filter hides. -/
def Filter.hidesStep (filter : Filter) (y : Step) : Bool := y.call?.any filter.hides

/-- What a step with a filter does, next to one without. -/
structure Veils (filter : Filter) (x y : Step) : Prop where
  action : x.action = y.action
  frames : x.after.stack.live = y.after.stack.live.map filter.veilFrame
  call : x.call? = y.call?
  unmatched : x.answer = .outcome .unmatched ↔ y.answer = .outcome .unmatched
  answer : filter.hidesStep y = false → x.answer = y.answer
  line : x.line? = if filter.hidesStep y then none else y.line?

namespace Session

/-- Two sessions are in the same place of their lives. -/
structure SamePlace (s t : Session) : Prop where
  phase : s.phase = t.phase
  host : s.host = t.host
  ownership : s.ownership = t.ownership
  ownerThread : s.ownerThread = t.ownerThread
  finalizing : s.finalizing = t.finalizing

/-- The traces of two sessions, one with a filter and one without. -/
structure VeiledTrace (filter : Filter) (rows : List String) (s t : Session) : Prop where
  calls : s.calls = t.calls.map filter.veil
  shown : ∀ c ∈ t.calls, c.hidden = false
  seen : SeenAlike filter rows s.seen t.seen

/-- A session with a filter, next to one without. -/
structure Veiled (settings : Settings) (rows : List String) (s t : Session) : Prop where
  settings_eq : s.settings = settings
  unfiltered : t.settings = settings.unfiltered
  place : SamePlace s t
  trace : VeiledTrace settings.filter rows s t
  reliable : Reliable s
  reliable' : Reliable t

section
variable {s t s' t' : Session} {settings : Settings} {rows : List String}

namespace SamePlace

theorem isClosed (h : SamePlace s t) : s.isClosed = t.isClosed := by
  rw [Session.isClosed, h.phase, ← Session.isClosed]

theorem isTracing (h : SamePlace s t) : s.isTracing = t.isTracing := by
  rw [Session.isTracing, h.phase, ← Session.isTracing]

theorem ownsProcess (h : SamePlace s t) : s.ownsProcess = t.ownsProcess := by
  rw [Session.ownsProcess, h.ownership, h.host, ← Session.ownsProcess]

theorem ownsContext (h : SamePlace s t) : s.ownsContext = t.ownsContext := by
  rw [Session.ownsContext, h.ownsProcess, h.host, h.ownerThread, ← Session.ownsContext]

theorem listens (h : SamePlace s t) : s.listens = t.listens := by
  rw [Session.listens, h.finalizing, h.isTracing, h.ownsContext, ← Session.listens]

theorem deafness? (h : SamePlace s t) : s.deafness? = t.deafness? := by
  simp only [Session.deafness?, h.finalizing, h.isTracing, h.ownsProcess, h.host, h.ownerThread]

theorem of_standing (h : SamePlace s t) (hs : SameStanding s s') (ht : SameStanding t t') : SamePlace s' t' where
  phase := hs.phase.trans (h.phase.trans ht.phase.symm)
  host := hs.host.trans (h.host.trans ht.host.symm)
  ownership := hs.ownership.trans (h.ownership.trans ht.ownership.symm)
  ownerThread := hs.ownerThread.trans (h.ownerThread.trans ht.ownerThread.symm)
  finalizing := hs.finalizing.trans (h.finalizing.trans ht.finalizing.symm)

theorem start (h : SamePlace s t) : s.start.2 = t.start.2 ∧ SamePlace s.start.1 t.start.1 := by
  rcases start_cases s with ⟨hp, heq⟩ | ⟨hp, heq⟩ | ⟨hp, howns, heq⟩ | ⟨hp, howns, heq⟩ <;> rw [heq]
  · rw [start_of_closed (h.phase ▸ hp)]
    exact ⟨rfl, h⟩
  · rw [start_of_tracing (h.phase ▸ hp)]
    exact ⟨rfl, h⟩
  · rw [start_of_child (h.phase ▸ hp) (h.ownsProcess ▸ howns)]
    exact ⟨rfl, h.phase, h.host, by simp [forked, say, h.ownership], h.ownerThread, h.finalizing⟩
  · rw [start_of_owner (h.phase ▸ hp) (h.ownsProcess ▸ howns)]
    exact ⟨rfl, rfl, congrArg Host.enable h.host, h.ownership, h.ownerThread, h.finalizing⟩

theorem stop (h : SamePlace s t) : SamePlace s.stop t.stop := by
  cases htracing : s.isTracing with
  | false => rwa [stop_of_not_tracing htracing, stop_of_not_tracing (h.isTracing ▸ htracing)]
  | true =>
    rw [stop_eq_stopped htracing, stop_eq_stopped (h.isTracing ▸ htracing)]
    exact ⟨rfl, congrArg Host.disable h.host, h.ownership, h.ownerThread, h.finalizing⟩

theorem mark (h : SamePlace s t) (hs : s.Sound) (ht : t.Sound) (label : String) (unwinding : Bool) :
    SamePlace (s.mark label unwinding).1 (t.mark label unwinding).1 := by
  obtain ⟨hphase, hhost, hfin, hownership⟩ := mark_keeps s label unwinding
  obtain ⟨hphase', hhost', hfin', hownership'⟩ := mark_keeps t label unwinding
  have hsimple : (Action.mark label unwinding).isSimple = true := rfl
  obtain ⟨-, -, howner⟩ := perform_place hs hsimple rfl
  obtain ⟨-, -, howner'⟩ := perform_place ht hsimple rfl
  refine ⟨?_, ?_, ?_, howner.trans (h.ownerThread.trans howner'.symm), ?_⟩
  · rw [hphase, hphase', h.phase]
  · rw [hhost, hhost', h.host]
  · rw [hownership, hownership', h.isClosed, h.ownership, h.host]
  · rw [hfin, hfin', h.finalizing]

theorem close (h : SamePlace s t) (hs : s.Sound) (ht : t.Sound) : SamePlace s.close.1 t.close.1 := by
  cases hc : s.isClosed with
  | true => rwa [close_of_closed hc, close_of_closed (h.isClosed ▸ hc)]
  | false =>
    obtain ⟨hphase, hhost, hfin⟩ := close_keeps hc
    obtain ⟨hphase', hhost', hfin'⟩ := close_keeps (h.isClosed ▸ hc)
    have hsimple : Action.close.isSimple = true := rfl
    obtain ⟨-, -, howner⟩ := perform_place hs hsimple rfl
    obtain ⟨-, -, howner'⟩ := perform_place ht hsimple rfl
    have hownership := perform_ownership hs hsimple
    have hownership' := perform_ownership ht hsimple
    refine ⟨hphase.trans hphase'.symm, ?_, ?_, howner.trans (h.ownerThread.trans howner'.symm), ?_⟩
    · rw [hhost, hhost', h.isTracing, h.host]
    · refine hownership.trans (Eq.trans ?_ hownership'.symm)
      rw [asks, asks, h.isClosed, h.ownership, h.host]
    · rw [hfin, hfin', h.finalizing]

theorem deliver (h : SamePlace s t) (hs : s.Sound) (ht : t.Sound) (n : Notification) :
    SamePlace (s.deliver n).1 (t.deliver n).1 := by
  rcases deliver_cases hs n with ⟨hfin, heq⟩ | ⟨hfin, htracing, heq⟩ | ⟨hfin, htracing, howns, heq⟩ | ⟨hattentive, k⟩
  · rw [heq, deliver_of_finalizing (h.finalizing ▸ hfin)]
    exact ⟨h.phase, congrArg Host.disable h.host, h.ownership, h.ownerThread, h.finalizing⟩
  · rw [heq, deliver_of_not_tracing (h.finalizing ▸ hfin) (h.isTracing ▸ htracing)]
    exact ⟨h.phase, h.host, h.ownership, h.ownerThread, h.finalizing⟩
  · rw [heq, deliver_of_child (h.finalizing ▸ hfin) (h.isTracing ▸ htracing) (h.ownsProcess ▸ howns)]
    refine ⟨rfl, congrArg Host.disable h.host, ?_, h.ownerThread, h.finalizing⟩
    exact congrArg (fun o : Ownership => { o with broken := true }) h.ownership
  · have hattentive' : t.attentive = true := by
      rw [← hattentive, attentive, attentive, h.finalizing, h.isTracing, h.ownsProcess]
    exact h.of_standing k (deliver_standing ht hattentive' n)

end SamePlace

/-! ### Frames -/

theorem Veiled.frames (h : Veiled settings rows s t) :
    s.stack.live = t.stack.live.map settings.filter.veilFrame := by
  have hlinked : CallStack.Linked true s.stack.live := h.reliable.sound.rooted ▸ h.reliable.sound.stack.linked
  have hlinked' : CallStack.Linked true t.stack.live := h.reliable'.sound.rooted ▸ h.reliable'.sound.stack.linked
  refine hlinked.eq_of_calls (Filter.linked_veilFrame hlinked') ?_
  rw [Filter.callsOf_veilFrame]
  exact h.trace.calls

/-! ### Actions without a notification -/

namespace VeiledTrace
variable {filter : Filter}

theorem kept (h : VeiledTrace filter rows s t) (hstack : s'.stack = s.stack) (hstack' : t'.stack = t.stack)
    (hseen : SeenAlike filter rows s'.seen t'.seen) : VeiledTrace filter rows s' t' := by
  refine ⟨?_, ?_, hseen⟩
  · rw [Session.calls, Session.calls, hstack, hstack']
    exact h.calls
  · rw [Session.calls, hstack']
    exact h.shown

theorem same (h : VeiledTrace filter rows s t) (k : SameTrace s s') (k' : SameTrace t t') :
    VeiledTrace filter rows s' t' := by
  refine h.kept k.stack k'.stack ?_
  rw [k.seen, k'.seen]
  exact h.seen

theorem reset {stack other : CallStack} (hstack : s'.stack = stack.reset) (hstack' : t'.stack = other.reset)
    (hseen : s'.seen = {}) (hseen' : t'.seen = {}) : VeiledTrace filter rows s' t' := by
  refine ⟨?_, ?_, ?_⟩
  · rw [calls_of_reset hstack, calls_of_reset hstack']
    rfl
  · rw [calls_of_reset hstack']
    exact nofun
  · rw [hseen, hseen']
    exact .refl filter rows {}

end VeiledTrace

namespace Veiled

theorem mark (h : Veiled settings rows s t) (label : String) (unwinding : Bool) :
    (s.mark label unwinding).2 = (t.mark label unwinding).2 ∧
      VeiledTrace settings.filter rows (s.mark label unwinding).1 (t.mark label unwinding).1 := by
  obtain ⟨hanswer, hstack, hseen⟩ := h.reliable.mark label unwinding
  obtain ⟨hanswer', hstack', hseen'⟩ := h.reliable'.mark label unwinding
  rw [h.place.isClosed] at hanswer hstack hseen
  rw [h.place.ownsContext] at hstack hseen
  refine ⟨hanswer.trans hanswer'.symm, ?_⟩
  cases hmarks : !t.isClosed && t.ownsContext with
  | false =>
    simp only [hmarks, Bool.false_and, Bool.false_eq_true, if_false] at hstack hstack' hseen hseen'
    refine h.trace.kept hstack hstack' ?_
    rw [hseen, hseen']
    exact h.trace.seen
  | true =>
    simp only [hmarks, Bool.true_and, if_true] at hstack hstack' hseen hseen'
    cases unwinding with
    | true => exact .reset hstack hstack' hseen hseen'
    | false =>
      refine h.trace.kept hstack hstack' ?_
      rw [hseen, hseen']
      exact .refl _ rows {}

theorem stop (h : Veiled settings rows s t) : VeiledTrace settings.filter rows s.stop t.stop := by
  cases htracing : s.isTracing with
  | false =>
    rw [stop_of_not_tracing htracing, stop_of_not_tracing (h.place.isTracing ▸ htracing)]
    exact h.trace
  | true =>
    obtain ⟨-, hstack, hseen, -⟩ := stop_of_tracing htracing
    obtain ⟨-, hstack', hseen', -⟩ := stop_of_tracing (h.place.isTracing ▸ htracing)
    exact .reset hstack hstack' hseen hseen'

theorem close (h : Veiled settings rows s t) : VeiledTrace settings.filter rows s.close.1 t.close.1 := by
  cases hc : s.isClosed with
  | true =>
    rw [close_of_closed hc, close_of_closed (h.place.isClosed ▸ hc)]
    exact h.trace
  | false =>
    obtain ⟨-, hstack, hseen, -⟩ := close_of_open hc
    obtain ⟨-, hstack', hseen', -⟩ := close_of_open (h.place.isClosed ▸ hc)
    exact .reset hstack hstack' hseen hseen'

/-- An action that delivers nothing answers the same, with a filter or without. -/
theorem undelivered (h : Veiled settings rows s t) {action : Action} (ha : action.isSimple = true)
    (hd : ∀ n, action ≠ .deliver n) :
    (s.perform action).2 = (t.perform action).2 ∧ SamePlace (s.perform action).1 (t.perform action).1 ∧
      VeiledTrace settings.filter rows (s.perform action).1 (t.perform action).1 := by
  have hs := h.reliable.sound
  have ht := h.reliable'.sound
  cases action with
  | deliver n => exact absurd rfl (hd n)
  | start =>
    obtain ⟨hanswer, hplace⟩ := h.place.start
    exact ⟨congrArg Answer.result hanswer, hplace, h.trace.same (start_sameTrace s) (start_sameTrace t)⟩
  | stop => exact ⟨rfl, h.place.stop, h.stop⟩
  | mark label unwinding =>
    obtain ⟨hanswer, htrace⟩ := h.mark label unwinding
    exact ⟨congrArg Answer.result hanswer, h.place.mark hs ht label unwinding, htrace⟩
  | flush =>
    show Answer.result s.flush.2 = Answer.result t.flush.2 ∧ SamePlace s.flush.1 t.flush.1 ∧
      VeiledTrace settings.filter rows s.flush.1 t.flush.1
    rw [h.reliable.flush, h.reliable'.flush, h.place.isClosed, flush_eq, flush_eq]
    exact ⟨rfl, ⟨h.place.phase, h.place.host, h.place.ownership, h.place.ownerThread, h.place.finalizing⟩,
      h.trace.kept rfl rfl h.trace.seen⟩
  | close =>
    show Answer.result s.close.2 = Answer.result t.close.2 ∧ SamePlace s.close.1 t.close.1 ∧
      VeiledTrace settings.filter rows s.close.1 t.close.1
    rw [h.reliable.close, h.reliable'.close]
    exact ⟨rfl, h.place.close hs ht, h.close⟩
  | beginFinalize =>
    exact ⟨rfl, ⟨h.place.phase, h.place.host, h.place.ownership, h.place.ownerThread, rfl⟩,
      h.trace.kept rfl rfl h.trace.seen⟩
  | look => exact ⟨rfl, h.place, h.trace⟩
  | enterProcess process =>
    have hhost := congrArg (Host.inProcess · process) h.place.host
    exact ⟨rfl, ⟨h.place.phase, hhost, h.place.ownership, h.place.ownerThread, h.place.finalizing⟩,
      h.trace.kept rfl rfl h.trace.seen⟩
  | enterThread thread =>
    have hhost := congrArg (Host.inThread · thread) h.place.host
    exact ⟨rfl, ⟨h.place.phase, hhost, h.place.ownership, h.place.ownerThread, h.place.finalizing⟩,
      h.trace.kept rfl rfl h.trace.seen⟩
  | setFaults faults =>
    exact ⟨rfl, ⟨h.place.phase, h.place.host, h.place.ownership, h.place.ownerThread, h.place.finalizing⟩,
      h.trace.kept rfl rfl h.trace.seen⟩
  | «scoped» => cases ha

end Veiled

/-! ### Notifications -/

/-- A return is unmatched if there is no call that it closes. -/
theorem deliver_unmatched_iff (hs : s.Sound) {n : Notification} {event : Event} (he : s.hears n = some event) :
    (s.deliver n).2 = .unmatched ↔ s.settings.callOf? s.calls event = none := by
  have hdue : s.dueRow? n = s.settings.row? s.calls event := by rw [dueRow?, he, Option.bind_some]
  have hfate := deliver_fate hs n
  rw [hdue] at hfate
  cases hrow : s.settings.row? s.calls event with
  | none => rw [deliver_quiet hs he (hdue.trans hrow), Settings.quietOutcome_unmatched_iff]
  | some row =>
    rw [hrow] at hfate
    constructor
    · intro hunmatched
      rw [hunmatched] at hfate
      cases hfate
    · intro hnone
      rw [Settings.row?_of_no_call hnone] at hrow
      cases hrow

theorem seen_of_fate {row? : Option String} {outcome : Outcome} (h : Fate s t row? outcome) :
    t.seen = row?.elim s.seen s.seenWith := by
  cases h with
  | quiet _ hseen => exact hseen
  | duplicate _ _ hseen => exact hseen
  | recorded _ hseen => exact hseen
  | writeFailed _ hseen => exact hseen

/-- A row that both know, or neither, is answered the same by outputs that do no harm. -/
theorem answer_of_fates {row : String} {outcome other : Outcome} (hs : Fate s s' (some row) outcome)
    (ht : Fate t t' (some row) other) (harmless : s.channel.Harmless) (harmless' : t.channel.Harmless)
    (layout : s.settings.layout = t.settings.layout)
    (known : s.settings.layout = .edges → (s.seen.Has row ↔ t.seen.Has row)) : outcome = other := by
  obtain ⟨-, hwritten⟩ := harmless_of_fate hs harmless
  obtain ⟨-, hwritten'⟩ := harmless_of_fate ht harmless'
  cases hs with
  | duplicate hedges hhas =>
    cases ht with
    | duplicate => rfl
    | recorded hnew => exact absurd ((known hedges).mp hhas) (hnew (layout ▸ hedges))
    | writeFailed => exact absurd rfl hwritten'
  | recorded hnew =>
    cases ht with
    | duplicate hedges hhas => exact absurd ((known (layout ▸ hedges)).mpr hhas) (hnew (layout ▸ hedges))
    | recorded => rfl
    | writeFailed => exact absurd rfl hwritten'
  | writeFailed => exact absurd rfl hwritten

namespace Veiled
variable {n : Notification} {event : Event}

theorem layout (h : Veiled settings rows s t) : s.settings.layout = t.settings.layout := by
  rw [h.settings_eq, h.unfiltered, Settings.layout_unfiltered]

theorem hears (h : Veiled settings rows s t) (n : Notification) : s.hears n = t.hears n := by
  unfold Session.hears
  rw [h.place.listens, h.settings_eq, h.unfiltered]
  rfl

theorem dueRow? (h : Veiled settings rows s t) (he : t.hears n = some event) :
    s.dueRow? n = settings.row? (t.calls.map settings.filter.veil) event ∧
      t.dueRow? n = settings.unfiltered.row? t.calls event := by
  rw [Session.dueRow?, Session.dueRow?, h.hears, he, Option.bind_some, Option.bind_some, h.settings_eq, h.unfiltered,
    h.trace.calls]
  exact ⟨rfl, rfl⟩

theorem harmless (h : Veiled settings rows s t) (he : t.hears n = some event) :
    s.channel.Harmless ∧ t.channel.Harmless := by
  obtain ⟨hlistens, -⟩ := hears_eq_some_iff.mp he
  obtain ⟨-, htracing, -⟩ := listens_iff.mp hlistens
  have hopen := isClosed_of_tracing htracing
  exact ⟨h.reliable.harmless (h.reliable.held_iff.mpr (h.place.isClosed.trans hopen)),
    h.reliable'.harmless (h.reliable'.held_iff.mpr hopen)⟩

/-- What is not heard is ignored for the same reason. -/
theorem ignored (h : Veiled settings rows s t) (hn : t.hears n = none) : (s.deliver n).2 = (t.deliver n).2 := by
  have hignores : s.ignores? n = t.ignores? n := by
    rw [ignores?, ignores?, h.place.deafness?, h.settings_eq, h.unfiltered]
    rfl
  cases hi : t.ignores? n with
  | none =>
    obtain ⟨event, he⟩ := hears_of_heeded hi
    rw [hn] at he
    cases he
  | some reason => rw [(deliver_ignored hi).2.1, (deliver_ignored (hignores.trans hi)).2.1]

theorem unmatched (h : Veiled settings rows s t) (he : t.hears n = some event) :
    (s.deliver n).2 = .unmatched ↔ (t.deliver n).2 = .unmatched := by
  rw [deliver_unmatched_iff h.reliable.sound ((h.hears n).trans he), deliver_unmatched_iff h.reliable'.sound he,
    h.settings_eq, h.unfiltered, h.trace.calls, Settings.callOf?_veil]

/-- The row of a hidden call is missing in the trace with the filter, and is no row of a shown one. -/
theorem hidden (h : Veiled settings rows s t) (mode : settings.layout = .events ∨ ToldApart rows)
    (hrows : ∀ row, t.dueRow? n = some row → row ∈ rows) (he : t.hears n = some event)
    (hhides : settings.hidesCallOf t.calls event = true) :
    s.dueRow? n = none ∧ SeenAlike settings.filter rows (s.deliver n).1.seen (t.deliver n).1.seen := by
  obtain ⟨hdue, hdue'⟩ := h.dueRow? he
  rw [Settings.row?_of_hidden hhides] at hdue
  refine ⟨hdue, ?_⟩
  have hseen := seen_of_fate (deliver_fate h.reliable.sound n)
  have hseen' := seen_of_fate (deliver_fate h.reliable'.sound n)
  rw [hdue] at hseen
  rw [hseen, hseen']
  cases hrow : t.dueRow? n with
  | none => exact h.trace.seen
  | some row =>
    show SeenAlike _ _ s.seen (t.seenWith row)
    rw [seenWith, ← h.layout, h.settings_eq]
    cases hlayout : settings.layout with
    | events => exact h.trace.seen
    | edges =>
      rw [hrow] at hdue'
      obtain ⟨hk, caller, rfl⟩ := Settings.row?_edge hdue'.symm hlayout
      refine h.trace.seen.meet_hidden (mode.resolve_left (by simp [hlayout])) ?_ (hrows _ hrow)
      rwa [Settings.hidesCallOf_call hk] at hhides

/-- The row of a shown call is the same in both traces, and so is its answer. -/
theorem shown (h : Veiled settings rows s t) (mode : settings.layout = .events ∨ settings.callerRule = .immediate)
    (hrows : ∀ row, t.dueRow? n = some row → row ∈ rows) (he : t.hears n = some event)
    (hhides : settings.hidesCallOf t.calls event = false) :
    s.dueRow? n = t.dueRow? n ∧ (s.deliver n).2 = (t.deliver n).2 ∧
      SeenAlike settings.filter rows (s.deliver n).1.seen (t.deliver n).1.seen := by
  obtain ⟨hdue, hdue'⟩ := h.dueRow? he
  have hsame : s.dueRow? n = t.dueRow? n := by
    rw [hdue, hdue', Settings.row?_of_shown mode h.trace.shown hhides]
  have hfate := deliver_fate h.reliable.sound n
  have hfate' := deliver_fate h.reliable'.sound n
  rw [hsame] at hfate
  refine ⟨hsame, ?_, ?_⟩
  · cases hrow : t.dueRow? n with
    | none =>
      rw [deliver_quiet h.reliable.sound ((h.hears n).trans he) (hsame.trans hrow),
        deliver_quiet h.reliable'.sound he hrow, h.settings_eq, h.unfiltered, h.trace.calls]
      exact Settings.quietOutcome_of_shown hhides
    | some row =>
      rw [hrow] at hfate hfate' hdue'
      obtain ⟨hharmless, hharmless'⟩ := h.harmless he
      refine answer_of_fates hfate hfate' hharmless hharmless' h.layout fun hlayout => ?_
      rw [h.settings_eq] at hlayout
      obtain ⟨hk, caller, rfl⟩ := Settings.row?_edge hdue'.symm hlayout
      refine h.trace.seen event caller ?_ (hrows _ hrow)
      rwa [Settings.hidesCallOf_call hk] at hhides
  · rw [seen_of_fate hfate, seen_of_fate hfate']
    cases t.dueRow? n with
    | none => exact h.trace.seen
    | some row =>
      show SeenAlike _ _ (s.seenWith row) (t.seenWith row)
      rw [seenWith, seenWith, h.layout]
      cases t.settings.layout with
      | events => exact h.trace.seen
      | edges => exact h.trace.seen.meet row

/-! ### One step -/

variable {action : Action}

theorem next (h : Veiled settings rows s t) (ha : action.isSimple = true)
    (hf : ∀ faults, action = .setFaults faults → faults.Harmless)
    (place : SamePlace (s.perform action).1 (t.perform action).1)
    (trace : VeiledTrace settings.filter rows (s.perform action).1 (t.perform action).1) :
    Veiled settings rows (s.perform action).1 (t.perform action).1 where
  settings_eq := (perform_sound h.reliable.sound ha).2.trans h.settings_eq
  unfiltered := (perform_sound h.reliable'.sound ha).2.trans h.unfiltered
  place := place
  trace := trace
  reliable := h.reliable.perform ha hf
  reliable' := h.reliable'.perform ha hf

theorem hidesStep (h : Veiled settings rows s t) (he : t.hears n = some event) :
    settings.filter.hidesStep (t.step (.deliver n)) = settings.hidesCallOf t.calls event := by
  show ((t.hears n).bind (t.settings.callOf? t.calls)).any settings.filter.hides = _
  rw [he, h.unfiltered]
  rfl

theorem callsAfter (h : Veiled settings rows s t) (he : t.hears n = some event) :
    (s.deliver n).1.calls = (t.deliver n).1.calls.map settings.filter.veil ∧
      ∀ c ∈ (t.deliver n).1.calls, c.hidden = false := by
  obtain ⟨-, -, hcalls, -⟩ := deliver_of_hears h.reliable.sound ((h.hears n).trans he)
  obtain ⟨-, -, hcalls', -⟩ := deliver_of_hears h.reliable'.sound he
  rw [hcalls, hcalls', h.settings_eq, h.unfiltered, h.trace.calls]
  exact ⟨Settings.callsAfter_veil .., Settings.hidden_of_callsAfter h.trace.shown⟩

/-- What a filter makes of a notification: it takes away the row of a hidden call, and nothing else. -/
theorem deliver (h : Veiled settings rows s t)
    (mode : settings.layout = .events ∨ settings.callerRule = .immediate ∧ ToldApart rows)
    (hrows : ∀ row, t.dueRow? n = some row → row ∈ rows) :
    VeiledTrace settings.filter rows (s.deliver n).1 (t.deliver n).1 ∧
      ((s.deliver n).2 = .unmatched ↔ (t.deliver n).2 = .unmatched) ∧
      (settings.filter.hidesStep (t.step (.deliver n)) = true → s.dueRow? n = none) ∧
      (settings.filter.hidesStep (t.step (.deliver n)) = false →
        s.dueRow? n = t.dueRow? n ∧ (s.deliver n).2 = (t.deliver n).2) := by
  cases he : t.hears n with
  | none =>
    have hanswer := h.ignored he
    obtain ⟨-, -, k⟩ := deliver_of_not_hears ((h.hears n).trans he)
    obtain ⟨-, -, k'⟩ := deliver_of_not_hears he
    have hdue : s.dueRow? n = none := by rw [Session.dueRow?, h.hears, he, Option.bind_none]
    have hdue' : t.dueRow? n = none := by rw [Session.dueRow?, he, Option.bind_none]
    exact ⟨h.trace.same k k', by rw [hanswer], fun _ => hdue, fun _ => ⟨hdue.trans hdue'.symm, hanswer⟩⟩
  | some event =>
    obtain ⟨hcalls, hshown⟩ := h.callsAfter he
    rw [h.hidesStep he]
    cases hhides : settings.hidesCallOf t.calls event with
    | true =>
      obtain ⟨hdue, hseen⟩ := h.hidden (mode.imp_right And.right) hrows he hhides
      exact ⟨⟨hcalls, hshown, hseen⟩, h.unmatched he, fun _ => hdue, by simp⟩
    | false =>
      obtain ⟨hdue, hanswer, hseen⟩ := h.shown (mode.imp_right And.left) hrows he hhides
      exact ⟨⟨hcalls, hshown, hseen⟩, h.unmatched he, by simp, fun _ => ⟨hdue, hanswer⟩⟩

theorem call?_deliver (h : Veiled settings rows s t) (n : Notification) :
    (s.step (.deliver n)).call? = (t.step (.deliver n)).call? := by
  show (s.hears n).bind (s.settings.callOf? s.calls) = (t.hears n).bind (t.settings.callOf? t.calls)
  rw [h.hears, h.settings_eq, h.unfiltered, h.trace.calls]
  congr 1
  funext event
  exact settings.callOf?_veil t.calls event

/-- A step with a filter and the same step without one. -/
theorem perform (h : Veiled settings rows s t) (ha : action.isSimple = true)
    (mode : settings.layout = .events ∨ settings.callerRule = .immediate ∧ ToldApart rows)
    (hrows : ∀ row, (t.step action).due? = some row → row ∈ rows)
    (hf : ∀ faults, action = .setFaults faults → faults.Harmless) :
    Veils settings.filter (s.step action) (t.step action) ∧
      Veiled settings rows (s.perform action).1 (t.perform action).1 := by
  by_cases hd : ∃ n, action = .deliver n
  · obtain ⟨n, rfl⟩ := hd
    obtain ⟨htrace, hunmatched, hhidden, hshown⟩ := h.deliver mode hrows
    have hnext := h.next ha hf (h.place.deliver h.reliable.sound h.reliable'.sound n) htrace
    refine ⟨⟨rfl, hnext.frames, h.call?_deliver n, ?_, fun hhides => ?_, ?_⟩, hnext⟩
    · show Answer.outcome _ = _ ↔ Answer.outcome _ = _
      rw [Answer.outcome.injEq, Answer.outcome.injEq]
      exact hunmatched
    · exact congrArg Answer.outcome (hshown hhides).2
    · rw [line?_deliver, line?_deliver]
      cases hhides : settings.filter.hidesStep (t.step (.deliver n)) with
      | true => rw [hhidden hhides, ite_self, if_pos rfl]
      | false =>
        obtain ⟨hdue, hanswer⟩ := hshown hhides
        rw [hdue, hanswer]
        rfl
  · have hquiet : ∀ n, action ≠ .deliver n := fun n heq => hd ⟨n, heq⟩
    obtain ⟨hanswer, hplace, htrace⟩ := h.undelivered ha hquiet
    have hnext := h.next ha hf hplace htrace
    have hcall : (s.step action).call? = none := Step.call?_of_undelivered hquiet
    have hcall' : (t.step action).call? = none := Step.call?_of_undelivered hquiet
    have hhides : settings.filter.hidesStep (t.step action) = false := by rw [Filter.hidesStep, hcall', Option.any_none]
    have hstep : (s.step action).answer = (t.step action).answer := hanswer
    refine ⟨⟨rfl, hnext.frames, hcall.trans hcall'.symm, by rw [hstep], fun _ => hstep, ?_⟩, hnext⟩
    rw [hhides, Step.line?_of_undelivered hquiet, Step.line?_of_undelivered (x := t.step action) hquiet]
    exact Step.mark?_congr rfl hstep h.place.ownsContext

end Veiled

/-! ### The lines of a run -/

theorem actions_of_veils {filter : Filter} {xs ys : List Step} (h : List.Forall₂ (Veils filter) xs ys) :
    xs.map Step.action = ys.map Step.action := by
  induction h with
  | nil => rfl
  | cons hxy _ ih => rw [List.map_cons, List.map_cons, hxy.action, ih]

theorem lines_of_veils {filter : Filter} {xs ys : List Step} (h : List.Forall₂ (Veils filter) xs ys) :
    lines xs = lines (ys.filter (!filter.hidesStep ·)) := by
  induction h with
  | nil => rfl
  | @cons x y xs ys hxy _ ih =>
    unfold lines at ih ⊢
    cases hhides : filter.hidesStep y with
    | true =>
      have hline : x.line? = none := by rw [hxy.line, if_pos hhides]
      rw [List.filterMap_cons_none hline, List.filter_cons_of_neg (by simp [hhides]), ih]
    | false =>
      have hline : x.line? = y.line? := by rw [hxy.line, hhides]; rfl
      rw [List.filter_cons_of_pos (by simp [hhides]), List.filterMap_cons, List.filterMap_cons, hline, ih]

/-! ### Every run -/

variable {host : Host}

theorem Fresh.veiled (fresh : Fresh settings host s) (fresh' : Fresh settings.unfiltered host t)
    (harmless : s.channel.Harmless) (harmless' : t.channel.Harmless) (rows : List String) :
    Veiled settings rows s t where
  settings_eq := fresh.settings_eq
  unfiltered := fresh'.settings_eq
  place := by
    constructor
    · rw [fresh.phase, fresh'.phase]
    · rw [fresh.host_eq, fresh'.host_eq]
    · rw [fresh.ownership, fresh'.ownership]
    · rw [fresh.ownerThread, fresh'.ownerThread]
    · rw [fresh.finalizing, fresh'.finalizing]
  trace := by
    refine ⟨?_, ?_, ?_⟩
    · rw [fresh.calls, fresh'.calls]
      rfl
    · rw [fresh'.calls]
      exact nofun
    · rw [fresh.seen, fresh'.seen]
      exact .refl _ rows {}
  reliable := fresh.reliable harmless
  reliable' := fresh'.reliable harmless'

/-- A session with a filter does what the same session does without one, and its trace is that of the other without the
rows of the calls that the filter hides: those of a hidden call and of its return among events, those in which it is
called among edges. Edges need the rule for callers that takes hidden calls too, and no two rows of one fingerprint. -/
theorem rows_hidden_by_filter {faults other : Faults} {label : String}
    (opened : create settings { destination := { faults }, label } host = .ok s)
    (opened' : create settings.unfiltered { destination := { faults := other }, label } host = .ok t)
    (harmless : faults.Harmless) (harmless' : other.Harmless) (actions : List Action)
    (unfailing : ∀ y ∈ t.stepsOfAll actions, ∀ faults, y.action = .setFaults faults → faults.Harmless)
    (mode : settings.flatten = false ∨
      settings.callerRule = .immediate ∧ ToldApart (dueRows (t.stepsOfAll actions))) :
    List.Forall₂ (Veils settings.filter) (s.stepsOfAll actions) (t.stepsOfAll actions) ∧
      lines (s.stepsOfAll actions) = lines ((t.stepsOfAll actions).filter (!settings.filter.hidesStep ·)) ∧
      (∀ past, past <+: s.stepsOfAll actions → (s.after past).channel.isHeld = true →
        (s.after past).channel.stream = ((lines past).foldl (· ++ ·) settings.layout.header).toUTF8) ∧
      ∀ past, past <+: t.stepsOfAll actions → (t.after past).channel.isHeld = true →
        (t.after past).channel.stream = ((lines past).foldl (· ++ ·) settings.layout.header).toUTF8 := by
  have hmode : settings.layout = .events ∨
      settings.callerRule = .immediate ∧ ToldApart (dueRows (t.stepsOfAll actions)) :=
    mode.imp_left fun hflatten => by rw [Settings.layout, hflatten]; rfl
  have hveiled := (create_fresh opened).veiled (create_fresh opened') (create_harmless opened harmless)
    (create_harmless opened' harmless') (dueRows (t.stepsOfAll actions))
  have hsides : SideBySide (Veiled settings (dueRows (t.stepsOfAll actions)))
      (fun y => (∀ row, y.due? = some row → row ∈ dueRows (t.stepsOfAll actions)) ∧
        ∀ faults, y.action = .setFaults faults → faults.Harmless)
      (Veils settings.filter) :=
    ⟨fun h => h.place.start.1, fun h ha hq => h.perform ha hmode hq.1 hq.2⟩
  obtain ⟨hsteps, -⟩ := hsides.stepsOfAll hveiled actions fun y hy =>
    ⟨fun row hdue => List.mem_filterMap.mpr ⟨y, hy, hdue⟩, unfailing y hy⟩
  have unfailing' : ∀ x ∈ s.stepsOfAll actions, ∀ faults, x.action = .setFaults faults → faults.Harmless := by
    intro x hx faults heq
    have hmem : Action.setFaults faults ∈ (t.stepsOfAll actions).map Step.action :=
      actions_of_veils hsteps ▸ heq ▸ List.mem_map_of_mem hx
    obtain ⟨y, hy, heq'⟩ := List.mem_map.mp hmem
    exact unfailing y hy faults heq'
  exact ⟨hsteps, lines_of_veils hsteps, fun past hp => stream_of_opened opened harmless unfailing' hp,
    fun past hp => stream_of_opened opened' harmless' unfailing hp⟩

/-- A hidden call of the root that calls a method twice, and a mark after it has returned. -/
theorem rows_hidden_of_library_call :
    let hidden : TracedCall :=
      { receiver := .unknown, method := some "each", entered := { native := true, path := some "lib/each.rb" } }
    let shown : TracedCall := { receiver := .instanceOf (.named 1 .ofClasses "Tree"), method := some "walk" }
    let forest := CallForest.call hidden (.call shown .done (.call shown .done .done)) .done
    let settings : Settings := { filter := .paths ["lib/"], rootCalls := true }
    let actions := traced forest.notifications ++ [.mark "end" false]
    ∃ s t, create settings { destination := { faults := {} }, label := "" } { process := 1 } = .ok s ∧
      create settings.unfiltered { destination := { faults := {} }, label := "" } { process := 1 } = .ok t ∧
      (dueRows (t.stepsOfAll actions)).length = 3 ∧
      (∃ y ∈ t.stepsOfAll actions, settings.filter.hidesStep y = true) ∧
      lines (s.stepsOfAll actions) = lines ((t.stepsOfAll actions).filter (!settings.filter.hidesStep ·)) := by
  intro hidden shown forest settings actions
  obtain ⟨s, opened⟩ := create_in_memory settings (by decide)
  obtain ⟨t, opened'⟩ := create_in_memory settings.unfiltered (by decide)
  have fresh := create_fresh opened'
  have hdue : dueRows (t.stepsOfAll actions) = settings.unfiltered.rowsAlong [] forest.events := by
    have hmark : dueRows ((t.performAll (traced forest.notifications)).1.stepsOfAll [.mark "end" false]) = [] := rfl
    rw [stepsOfAll_append, dueRows, List.filterMap_append, ← dueRows, ← dueRows, hmark, List.append_nil]
    exact dueRows_traced fresh forest.events_of_notifications (CallForest.outside_events (by decide))
  have apart : ToldApart (dueRows (t.stepsOfAll actions)) := by
    rw [hdue]
    unfold ToldApart
    decide +kernel
  have unfailing : ∀ y ∈ t.stepsOfAll actions, ∀ faults, y.action = .setFaults faults → faults.Harmless := by
    simp [actions, traced, forest, hidden, shown, CallForest.notifications, stepsOfAll, steps, step]
  obtain ⟨-, hlines, -⟩ := rows_hidden_by_filter opened opened' Faults.harmless_of_none Faults.harmless_of_none actions
    unfailing (.inr ⟨rfl, apart⟩)
  refine ⟨s, t, opened, opened', ?_, ⟨t.start.1.step (.deliver hidden.enter), ?_, ?_⟩, hlines⟩
  · rw [hdue]
    decide +kernel
  · exact List.mem_cons_of_mem _ List.mem_cons_self
  · have hears : t.start.1.hears hidden.enter = some hidden.entering :=
      fresh.start.1.hears hidden.enter_event (by decide)
    show ((t.start.1.hears hidden.enter).bind (t.start.1.settings.callOf? t.start.1.calls)).any _ = true
    rw [hears, fresh.start.1.settings_eq, fresh.start.1.calls_eq]
    decide

end
end Session
end MethodTrace
