import MethodTrace.Proofs.Hearing
import MethodTrace.Proofs.Steps
import MethodTrace.Proofs.Writing

/-! # What the other actions do

Starting and stopping, marks and closing, as far as the trace depends on them: the open calls, the rows known and
the output. -/

namespace MethodTrace

/-- What a mark does between two states of a session, by its result. -/
inductive MarkFate (s t : Session) (label : String) (unwinding : Bool) : Except SessionError Unit → Prop
  | closed : s.isClosed = true → Session.SameTrace s t → MarkFate s t label unwinding (.error .closed)
  | elsewhere : s.isClosed = false → s.ownsContext = false → Session.SameTrace s t →
      MarkFate s t label unwinding (.ok ())
  | written : s.isClosed = false → s.ownsContext = true → t.settings = s.settings →
      t.stack = (if unwinding then s.stack.reset else s.stack) → t.seen = {} →
      s.channel.write (Row.ofMark label).toUTF8 = (t.channel, .ok ()) → MarkFate s t label unwinding (.ok ())
  | failed {fault : WriteFault} : s.isClosed = false → s.ownsContext = true → t.settings = s.settings →
      t.stack = s.stack → t.seen = s.seen →
      s.channel.write (Row.ofMark label).toUTF8 = (t.channel, .error fault) →
      MarkFate s t label unwinding (.error (.output fault))

namespace Session
variable {s : Session}

theorem SameTrace.refl (s : Session) : SameTrace s s := ⟨rfl, rfl, rfl, rfl⟩

theorem isClosed_of_tracing (h : s.isTracing = true) : s.isClosed = false := by
  have hp : s.phase = .tracing := by simpa [isTracing] using h
  simp [isClosed, hp]

theorem phase_of_closed (h : s.isClosed = true) : s.phase = .closed := by simpa [isClosed] using h

theorem isTracing_of_closed (h : s.isClosed = true) : s.isTracing = false := by
  have hp := phase_of_closed h
  simp [isTracing, hp]

/-! ### Starting and stopping -/

theorem start_of_closed (h : s.phase = .closed) : s.start = (s, .error .closed) := by
  unfold start
  rw [h]

theorem start_of_tracing (h : s.phase = .tracing) : s.start = (s, .ok ()) := by
  unfold start
  rw [h]

theorem start_of_child (h : s.phase = .idle) (howns : s.ownsProcess = false) :
    s.start = (s.forked.say .startIgnored, .ok ()) := by
  unfold start
  simp only [h, checkOwner_of_not_owns howns]

theorem start_of_owner (h : s.phase = .idle) (howns : s.ownsProcess = true) :
    s.start = ((s.enable.inPhase .tracing).say .tracingStarted, .ok ()) := by
  unfold start
  simp only [h, checkOwner_of_owns howns]

theorem start_cases (s : Session) :
    (s.phase = .closed ∧ s.start = (s, .error .closed)) ∨
    (s.phase = .tracing ∧ s.start = (s, .ok ())) ∨
    (s.phase = .idle ∧ s.ownsProcess = false ∧ s.start = (s.forked.say .startIgnored, .ok ())) ∨
    (s.phase = .idle ∧ s.ownsProcess = true ∧
      s.start = ((s.enable.inPhase .tracing).say .tracingStarted, .ok ())) := by
  cases hp : s.phase with
  | closed => exact .inl ⟨rfl, start_of_closed hp⟩
  | tracing => exact .inr (.inl ⟨rfl, start_of_tracing hp⟩)
  | idle =>
    cases howns : s.ownsProcess with
    | false => exact .inr (.inr (.inl ⟨rfl, rfl, start_of_child hp howns⟩))
    | true => exact .inr (.inr (.inr ⟨rfl, rfl, start_of_owner hp howns⟩))

theorem start_of_open (h : s.isClosed = false) : s.start.2 = .ok () := by
  rcases start_cases s with ⟨hp, -⟩ | ⟨-, heq⟩ | ⟨-, -, heq⟩ | ⟨-, -, heq⟩
  · simp [isClosed, hp] at h
  all_goals rw [heq]

theorem perform_scoped_of_closed (h : s.isClosed = true) (body : List Action) (panic : Option String) :
    s.perform (.scoped body panic) = (s, .scope [] (.refused .closed)) := by
  unfold perform
  rw [start_of_closed (phase_of_closed h)]

theorem start_sameTrace (s : Session) : SameTrace s s.start.1 := by
  rcases start_cases s with ⟨-, heq⟩ | ⟨-, heq⟩ | ⟨-, -, heq⟩ | ⟨-, -, heq⟩ <;> rw [heq]
  · exact .refl s
  · exact .refl s
  · exact ⟨rfl, rfl, rfl, rfl⟩
  · exact ⟨rfl, rfl, rfl, rfl⟩

/-- The session once tracing is stopped. -/
def stopped (s : Session) : Session := ((s.disable.inPhase .idle).unwind.forgetRows).say .tracingStopped

theorem stop_eq_stopped (h : s.isTracing = true) : s.stop = s.stopped := by
  unfold stop
  rw [if_pos h]
  rfl

theorem stop_of_tracing (h : s.isTracing = true) :
    s.stop.settings = s.settings ∧ s.stop.stack = s.stack.reset ∧ s.stop.seen = {} ∧ s.stop.channel = s.channel := by
  rw [stop_eq_stopped h]
  exact ⟨rfl, rfl, rfl, rfl⟩

theorem stop_of_not_tracing (h : s.isTracing = false) : s.stop = s := by
  unfold stop
  rw [h]
  rfl

/-! ### Marks -/

theorem mark_of_closed (h : s.isClosed = true) (label : String) (unwinding : Bool) :
    s.mark label unwinding = (s, .error .closed) := by
  have hp := phase_of_closed h
  unfold mark
  rw [hp]

theorem mark_of_open (h : s.isClosed = false) (label : String) (unwinding : Bool) :
    s.mark label unwinding = match s.checkContext with
      | (s, false) => (s, .ok ())
      | (s, true) =>
        match s.write (Row.ofMark label) with
        | (s, .error fault) => (s, .error (.output fault))
        | (s, .ok ()) => (if unwinding then s.forgetRows.unwind else s.forgetRows, .ok ()) := by
  unfold mark
  cases hp : s.phase with
  | closed => simp [isClosed, hp] at h
  | idle => rfl
  | tracing => rfl

theorem mark_of_child (h : s.isClosed = false) (howns : s.ownsProcess = false) (label : String) (unwinding : Bool) :
    s.mark label unwinding = (s.forked, .ok ()) := by
  rw [mark_of_open h, checkContext, checkOwner_of_not_owns howns]

theorem mark_of_foreign (h : s.isClosed = false) (howns : s.ownsProcess = true)
    (hthread : (s.host.thread == s.ownerThread) = false) (label : String) (unwinding : Bool) :
    s.mark label unwinding = (s, .ok ()) := by
  rw [mark_of_open h, checkContext, checkOwner_of_owns howns]
  simp only [hthread]

theorem mark_of_ok (h : s.isClosed = false) (hctx : s.ownsContext = true) {label : String} {channel : Channel}
    (hw : s.channel.write (Row.ofMark label).toUTF8 = (channel, .ok ())) (unwinding : Bool) :
    s.mark label unwinding =
      (if unwinding then { s with channel }.forgetRows.unwind else { s with channel }.forgetRows, .ok ()) := by
  simp only [ownsContext, Bool.and_eq_true] at hctx
  rw [mark_of_open h, checkContext, checkOwner_of_owns hctx.1]
  simp only [hctx.2, write, hw]

theorem mark_of_error (h : s.isClosed = false) (hctx : s.ownsContext = true) {label : String} {channel : Channel}
    {fault : WriteFault} (hw : s.channel.write (Row.ofMark label).toUTF8 = (channel, .error fault)) (unwinding : Bool) :
    s.mark label unwinding = ({ s with channel }, .error (.output fault)) := by
  simp only [ownsContext, Bool.and_eq_true] at hctx
  rw [mark_of_open h, checkContext, checkOwner_of_owns hctx.1]
  simp only [hctx.2, write, hw]

theorem mark_cases (s : Session) (label : String) (unwinding : Bool) :
    (s.isClosed = true ∧ s.mark label unwinding = (s, .error .closed)) ∨
    (s.isClosed = false ∧ s.ownsProcess = false ∧ s.mark label unwinding = (s.forked, .ok ())) ∨
    (s.isClosed = false ∧ s.ownsProcess = true ∧ (s.host.thread == s.ownerThread) = false ∧
      s.mark label unwinding = (s, .ok ())) ∨
    (s.isClosed = false ∧ s.ownsContext = true ∧
      ∃ channel, s.channel.write (Row.ofMark label).toUTF8 = (channel, .ok ()) ∧ s.mark label unwinding =
        (if unwinding then { s with channel }.forgetRows.unwind else { s with channel }.forgetRows, .ok ())) ∨
    (s.isClosed = false ∧ s.ownsContext = true ∧
      ∃ channel fault, s.channel.write (Row.ofMark label).toUTF8 = (channel, .error fault) ∧
        s.mark label unwinding = ({ s with channel }, .error (.output fault))) := by
  cases hclosed : s.isClosed with
  | true => exact .inl ⟨rfl, mark_of_closed hclosed label unwinding⟩
  | false =>
    cases howns : s.ownsProcess with
    | false => exact .inr (.inl ⟨rfl, rfl, mark_of_child hclosed howns label unwinding⟩)
    | true =>
      cases hthread : s.host.thread == s.ownerThread with
      | false => exact .inr (.inr (.inl ⟨rfl, rfl, rfl, mark_of_foreign hclosed howns hthread label unwinding⟩))
      | true =>
        have hctx : s.ownsContext = true := by simp [ownsContext, howns, hthread]
        rcases hw : s.channel.write (Row.ofMark label).toUTF8 with ⟨channel, fault | _⟩
        · exact .inr (.inr (.inr (.inr ⟨rfl, hctx, channel, fault, rfl, mark_of_error hclosed hctx hw unwinding⟩)))
        · exact .inr (.inr (.inr (.inl ⟨rfl, hctx, channel, rfl, mark_of_ok hclosed hctx hw unwinding⟩)))

theorem mark_fate (s : Session) (label : String) (unwinding : Bool) :
    MarkFate s (s.mark label unwinding).1 label unwinding (s.mark label unwinding).2 := by
  rcases mark_cases s label unwinding with ⟨hclosed, heq⟩ | ⟨hopen, howns, heq⟩ | ⟨hopen, -, hthread, heq⟩ |
    ⟨hopen, hctx, channel, hw, heq⟩ | ⟨hopen, hctx, channel, fault, hw, heq⟩ <;> rw [heq]
  · exact .closed hclosed (.refl s)
  · exact .elsewhere hopen (by simp [ownsContext, howns]) ⟨rfl, rfl, rfl, rfl⟩
  · exact .elsewhere hopen (by simp [ownsContext, hthread]) (.refl s)
  · cases unwinding <;> exact .written hopen hctx rfl rfl rfl hw
  · exact .failed hopen hctx rfl rfl rfl hw

/-- A mark leaves where the session stands in its life, but may be the first to see a fork. -/
theorem mark_keeps (s : Session) (label : String) (unwinding : Bool) :
    (s.mark label unwinding).1.phase = s.phase ∧ (s.mark label unwinding).1.host = s.host ∧
      (s.mark label unwinding).1.finalizing = s.finalizing ∧
      (s.mark label unwinding).1.ownership =
        if s.isClosed then s.ownership else (s.ownership.check s.host.process).1 := by
  have hcheck : s.ownsContext = true → (s.ownership.check s.host.process).1 = s.ownership := fun hctx => by
    simp only [ownsContext, Bool.and_eq_true] at hctx
    rw [Ownership.check_of_holds hctx.1]
  rcases mark_cases s label unwinding with ⟨hclosed, heq⟩ | ⟨hopen, howns, heq⟩ | ⟨hopen, howns, -, heq⟩ |
    ⟨hopen, hctx, channel, -, heq⟩ | ⟨hopen, hctx, channel, fault, -, heq⟩ <;> rw [heq]
  · rw [hclosed]
    exact ⟨rfl, rfl, rfl, rfl⟩
  · rw [hopen, Ownership.check_of_not_holds howns]
    exact ⟨rfl, rfl, rfl, rfl⟩
  · rw [hopen, Ownership.check_of_holds howns]
    exact ⟨rfl, rfl, rfl, rfl⟩
  · rw [hopen, hcheck hctx]
    cases unwinding <;> exact ⟨rfl, rfl, rfl, rfl⟩
  · rw [hopen, hcheck hctx]
    exact ⟨rfl, rfl, rfl, rfl⟩

/-! ### Flushing and closing -/

theorem flush_eq (s : Session) : s.flush.1 = { s with channel := s.channel.flush.1 } := by
  unfold flush
  rcases s.channel.flush with ⟨channel, _ | result⟩ <;> rfl

theorem flush_of_released (h : s.channel.isHeld = false) : s.flush = (s, .error .closed) := by
  obtain ⟨settings, host, phase, stack, seen, channel, ownership, ownerThread⟩ := s
  cases channel with
  | held output => cases h
  | released destination => rfl

theorem letGo_of_child (howns : s.ownsProcess = false) : s.letGo =
    (({ s.forked with channel := s.channel.abandon }.say .inheritedOutputReleased).say .sessionClosed, .ok ()) := by
  unfold letGo
  simp only [checkOwner_of_not_owns howns]
  rfl

theorem letGo_of_owner (howns : s.ownsProcess = true) :
    ∃ log result, s.letGo = ({ s with channel := s.channel.close.1, log }, result) := by
  unfold letGo
  simp only [checkOwner_of_owns howns]
  rcases s.channel.close with ⟨channel, fault | _⟩
  · exact ⟨s.log, _, rfl⟩
  · exact ⟨_, _, rfl⟩

theorem letGo_eq (s : Session) :
    s.letGo.1.settings = s.settings ∧ s.letGo.1.stack = s.stack ∧ s.letGo.1.seen = s.seen ∧
      s.letGo.1.channel.isHeld = false := by
  cases howns : s.ownsProcess with
  | false =>
    rw [letGo_of_child howns]
    exact ⟨rfl, rfl, rfl, s.channel.isHeld_abandon⟩
  | true =>
    obtain ⟨log, result, hgo⟩ := letGo_of_owner howns
    rw [hgo]
    exact ⟨rfl, rfl, rfl, s.channel.isHeld_close⟩

/-- The session once it is closed, but for its output. -/
def closing (s : Session) : Session :=
  ((if s.isTracing then s.disable else s).inPhase .closed).unwind.forgetRows

theorem close_of_closed (h : s.isClosed = true) : s.close = (s, .ok ()) := by
  have hp := phase_of_closed h
  unfold close
  rw [hp]

theorem close_eq_letGo (h : s.isClosed = false) : s.close = s.closing.letGo := by
  unfold close closing
  cases hp : s.phase with
  | closed => simp [isClosed, hp] at h
  | idle => simp [isTracing, hp]
  | tracing => simp [isTracing, hp]

theorem closing_eq (s : Session) :
    s.closing.settings = s.settings ∧ s.closing.stack = s.stack.reset ∧ s.closing.seen = {} ∧
      s.closing.channel = s.channel ∧ s.closing.ownsProcess = s.ownsProcess := by
  unfold closing
  cases s.isTracing <;> exact ⟨rfl, rfl, rfl, rfl, rfl⟩

theorem close_of_open (h : s.isClosed = false) :
    s.close.1.settings = s.settings ∧ s.close.1.stack = s.stack.reset ∧ s.close.1.seen = {} ∧
      s.close.1.channel.isHeld = false := by
  rw [close_eq_letGo h]
  obtain ⟨hsettings, hstack, hseen, -⟩ := closing_eq s
  obtain ⟨hsettings', hstack', hseen', hheld⟩ := letGo_eq s.closing
  exact ⟨hsettings'.trans hsettings, hstack'.trans hstack, hseen'.trans hseen, hheld⟩

/-- Closing switches delivery off if the session was tracing. -/
theorem close_keeps (h : s.isClosed = false) :
    s.close.1.phase = .closed ∧ s.close.1.host = (if s.isTracing then s.host.disable else s.host) ∧
      s.close.1.finalizing = s.finalizing := by
  have hclosing : s.closing.phase = .closed ∧
      s.closing.host = (if s.isTracing then s.host.disable else s.host) ∧
      s.closing.finalizing = s.finalizing := by
    unfold closing
    cases s.isTracing <;> exact ⟨rfl, rfl, rfl⟩
  rw [close_eq_letGo h]
  cases howns : s.closing.ownsProcess with
  | false =>
    rw [letGo_of_child howns]
    exact hclosing
  | true =>
    obtain ⟨log, result, hgo⟩ := letGo_of_owner howns
    rw [hgo]
    exact hclosing

theorem close_isClosed (s : Session) : s.close.1.isClosed = true := by
  cases hc : s.isClosed with
  | true => rwa [close_of_closed hc]
  | false => rw [isClosed, (close_keeps hc).1, BEq.rfl]

/-! ### What the operations leave alone -/

/-- The counters, and where the session is. Only notifications are counted, and only a move leads elsewhere. -/
structure Stays (s t : Session) : Prop where
  counters : t.counters = s.counters
  process : t.host.process = s.host.process
  thread : t.host.thread = s.host.thread
  ownerThread : t.ownerThread = s.ownerThread

theorem Stays.refl (s : Session) : Stays s s := ⟨rfl, rfl, rfl, rfl⟩

theorem start_stays (s : Session) : Stays s s.start.1 := by
  rcases start_cases s with ⟨-, heq⟩ | ⟨-, heq⟩ | ⟨-, -, heq⟩ | ⟨-, -, heq⟩ <;> rw [heq] <;> exact ⟨rfl, rfl, rfl, rfl⟩

theorem stop_stays (s : Session) : Stays s s.stop := by
  cases ht : s.isTracing with
  | false =>
    rw [stop_of_not_tracing ht]
    exact .refl s
  | true =>
    rw [stop_eq_stopped ht]
    exact ⟨rfl, rfl, rfl, rfl⟩

theorem mark_stays (s : Session) (label : String) (unwinding : Bool) : Stays s (s.mark label unwinding).1 := by
  rcases mark_cases s label unwinding with ⟨-, heq⟩ | ⟨-, -, heq⟩ | ⟨-, -, -, heq⟩ | ⟨-, -, channel, -, heq⟩ |
    ⟨-, -, channel, fault, -, heq⟩ <;> rw [heq]
  case inr.inr.inr.inl => cases unwinding <;> exact ⟨rfl, rfl, rfl, rfl⟩
  all_goals exact ⟨rfl, rfl, rfl, rfl⟩

theorem flush_stays (s : Session) : Stays s s.flush.1 := by
  rw [flush_eq]
  exact ⟨rfl, rfl, rfl, rfl⟩

theorem close_stays (s : Session) : Stays s s.close.1 := by
  cases hc : s.isClosed with
  | true =>
    rw [close_of_closed hc]
    exact .refl s
  | false =>
    have hclosing : Stays s s.closing := by
      unfold closing
      cases s.isTracing <;> exact ⟨rfl, rfl, rfl, rfl⟩
    rw [close_eq_letGo hc]
    cases howns : s.closing.ownsProcess with
    | false =>
      rw [letGo_of_child howns]
      exact ⟨hclosing.counters, hclosing.process, hclosing.thread, hclosing.ownerThread⟩
    | true =>
      obtain ⟨log, result, hgo⟩ := letGo_of_owner howns
      rw [hgo]
      exact ⟨hclosing.counters, hclosing.process, hclosing.thread, hclosing.ownerThread⟩

/-! ### Ending a session -/

theorem drop_of_finalizing (h : s.finalizing = true) :
    s.drop = { (if s.isClosed then s else s.disable.inPhase .closed) with channel := s.channel.abandon } := by
  unfold drop
  rw [if_pos h]
  cases s.isClosed <;> rfl

theorem drop_of_not_finalizing (h : s.finalizing = false) : ∃ log, s.drop = { s.close.1 with log } := by
  unfold drop
  rw [h]
  rcases s.close with ⟨t, error | _⟩
  · exact ⟨_, rfl⟩
  · exact ⟨t.log, rfl⟩

/-! ### What every action keeps -/

theorem deliver_sound (hs : s.Sound) (n : Notification) :
    (s.deliver n).1.Sound ∧ (s.deliver n).1.settings = s.settings := by
  cases he : s.hears n with
  | none =>
    obtain ⟨-, -, k⟩ := deliver_of_not_hears he
    exact ⟨k.sound hs, k.settings⟩
  | some event =>
    obtain ⟨k, hsound, -⟩ := deliver_of_hears hs he
    exact ⟨hsound, k.settings⟩

theorem mark_sound (hs : s.Sound) (label : String) (unwinding : Bool) :
    (s.mark label unwinding).1.Sound ∧ (s.mark label unwinding).1.settings = s.settings := by
  have hfate := mark_fate s label unwinding
  generalize (s.mark label unwinding).2 = result at hfate
  cases hfate with
  | closed _ k => exact ⟨k.sound hs, k.settings⟩
  | elsewhere _ _ k => exact ⟨k.sound hs, k.settings⟩
  | failed _ _ hsettings hstack => exact ⟨⟨hstack ▸ hs.stack, hstack ▸ hs.rooted⟩, hsettings⟩
  | written _ _ hsettings hstack =>
    refine ⟨⟨?_, ?_⟩, hsettings⟩ <;> rw [hstack] <;> cases unwinding
    · exact hs.stack
    · exact CallStack.reset_sound _
    · exact hs.rooted
    · exact (CallStack.reset_rooted _).trans hs.rooted

theorem deliver_of_closed (h : s.isClosed = true) (n : Notification) :
    ∃ reason, (s.deliver n).2 = .ignored reason ∧ SameTrace s (s.deliver n).1 :=
  deliver_of_not_listens (by simp [listens, isTracing_of_closed h]) n

theorem perform_sound (hs : s.Sound) {action : Action} (ha : action.isSimple = true) :
    (s.perform action).1.Sound ∧ (s.perform action).1.settings = s.settings := by
  have hreset : s.stack.reset.Sound ∧ s.stack.reset.rooted = true :=
    ⟨CallStack.reset_sound _, (CallStack.reset_rooted _).trans hs.rooted⟩
  cases action with
  | start => exact ⟨(start_sameTrace s).sound hs, (start_sameTrace s).settings⟩
  | stop =>
    show s.stop.Sound ∧ s.stop.settings = s.settings
    cases ht : s.isTracing with
    | false =>
      rw [stop_of_not_tracing ht]
      exact ⟨hs, rfl⟩
    | true =>
      obtain ⟨hsettings, hstack, -⟩ := stop_of_tracing ht
      exact ⟨⟨hstack ▸ hreset.1, hstack ▸ hreset.2⟩, hsettings⟩
  | mark label unwinding => exact mark_sound hs label unwinding
  | flush =>
    show s.flush.1.Sound ∧ s.flush.1.settings = s.settings
    rw [flush_eq]
    exact ⟨⟨hs.stack, hs.rooted⟩, rfl⟩
  | close =>
    show s.close.1.Sound ∧ s.close.1.settings = s.settings
    cases hc : s.isClosed with
    | true =>
      rw [close_of_closed hc]
      exact ⟨hs, rfl⟩
    | false =>
      obtain ⟨hsettings, hstack, -⟩ := close_of_open hc
      exact ⟨⟨hstack ▸ hreset.1, hstack ▸ hreset.2⟩, hsettings⟩
  | deliver n => exact deliver_sound hs n
  | beginFinalize => exact ⟨⟨hs.stack, hs.rooted⟩, rfl⟩
  | look => exact ⟨hs, rfl⟩
  | enterProcess => exact ⟨⟨hs.stack, hs.rooted⟩, rfl⟩
  | enterThread => exact ⟨⟨hs.stack, hs.rooted⟩, rfl⟩
  | setFaults => exact ⟨⟨hs.stack, hs.rooted⟩, rfl⟩
  | «scoped» => cases ha

theorem Reaches.sound {past : List Step} {t : Session} (h : Reaches s past t) (hs : s.Sound) :
    t.Sound ∧ t.settings = s.settings := by
  induction h with
  | nil => exact ⟨hs, rfl⟩
  | snoc action ha _ ih =>
    obtain ⟨hsound, hsettings⟩ := perform_sound ih.1 ha
    exact ⟨hsound, hsettings.trans ih.2⟩

/-! ### Holding the output -/

theorem held_of_fate {t : Session} {row : Option String} {outcome : Outcome} (h : Fate s t row outcome) :
    t.channel.isHeld = s.channel.isHeld := by
  cases h with
  | quiet _ _ hc => rw [hc]
  | duplicate _ _ _ hc => rw [hc]
  | recorded _ _ hw => rw [← s.channel.isHeld_write, hw]
  | writeFailed _ _ hw => rw [← s.channel.isHeld_write, hw]

theorem harmless_of_fate {t : Session} {row : Option String} {outcome : Outcome} (h : Fate s t row outcome)
    (harmless : s.channel.Harmless) : t.channel.Harmless ∧ outcome ≠ .writeFailed := by
  cases h with
  | quiet ho _ hc =>
    refine ⟨hc ▸ harmless, ?_⟩
    rintro rfl
    cases ho
  | duplicate _ _ _ hc => exact ⟨hc ▸ harmless, nofun⟩
  | @recorded row _ _ hw =>
    have hnext := (harmless.write row.toUTF8).1
    rw [hw] at hnext
    exact ⟨hnext, nofun⟩
  | @writeFailed row _ _ _ hw =>
    have hok := (harmless.write row.toUTF8).2
    rw [hw] at hok
    cases hok

theorem mark_held (s : Session) (label : String) (unwinding : Bool) :
    (s.mark label unwinding).1.channel.isHeld = s.channel.isHeld := by
  have hfate := mark_fate s label unwinding
  generalize (s.mark label unwinding).2 = result at hfate
  cases hfate with
  | closed _ k => rw [k.channel]
  | elsewhere _ _ k => rw [k.channel]
  | written _ _ _ _ _ hw => rw [← s.channel.isHeld_write, hw]
  | failed _ _ _ _ _ hw => rw [← s.channel.isHeld_write, hw]

theorem mark_harmless (h : s.channel.Harmless) (label : String) (unwinding : Bool) :
    (s.mark label unwinding).1.channel.Harmless := by
  have hwrite := h.write (Row.ofMark label).toUTF8
  have hfate := mark_fate s label unwinding
  generalize (s.mark label unwinding).2 = result at hfate
  cases hfate with
  | closed _ k => exact k.channel ▸ h
  | elsewhere _ _ k => exact k.channel ▸ h
  | written _ _ _ _ _ hw =>
    rw [hw] at hwrite
    exact hwrite.1
  | failed _ _ _ _ _ hw =>
    rw [hw] at hwrite
    exact hwrite.1

/-- Only closing lets go of the output. -/
theorem perform_held (hs : s.Sound) {action : Action} (ha : action.isSimple = true) (hc : action ≠ .close) :
    (s.perform action).1.channel.isHeld = s.channel.isHeld := by
  cases action with
  | start => exact congrArg Channel.isHeld (start_sameTrace s).channel
  | stop =>
    show s.stop.channel.isHeld = s.channel.isHeld
    cases ht : s.isTracing with
    | false => rw [stop_of_not_tracing ht]
    | true => rw [(stop_of_tracing ht).2.2.2]
  | mark label unwinding => exact mark_held s label unwinding
  | flush => exact (congrArg (·.channel.isHeld) (flush_eq s)).trans s.channel.isHeld_flush
  | close => exact absurd rfl hc
  | deliver n => exact held_of_fate (deliver_fate hs n)
  | setFaults faults => exact s.channel.isHeld_setFaults faults
  | beginFinalize => rfl
  | look => rfl
  | enterProcess => rfl
  | enterThread => rfl
  | «scoped» => cases ha

theorem Reaches.held {past : List Step} {t : Session} (h : Reaches s past t) (hs : s.Sound)
    (hc : ∀ x ∈ past, x.action ≠ .close) : t.channel.isHeld = s.channel.isHeld := by
  induction h with
  | nil => rfl
  | snoc action ha h ih =>
    have hlast : action ≠ .close := hc _ (List.mem_append_right _ (List.mem_singleton.mpr rfl))
    rw [perform_held (h.sound hs).1 ha hlast]
    exact ih fun x hx => hc x (List.mem_append_left _ hx)

/-- Only closing ends a session before its drop. -/
theorem perform_isClosed (hs : s.Sound) {action : Action} (ha : action.isSimple = true) (hc : action ≠ .close) :
    (s.perform action).1.isClosed = s.isClosed := by
  cases action with
  | start =>
    show s.start.1.isClosed = s.isClosed
    rcases start_cases s with ⟨-, heq⟩ | ⟨-, heq⟩ | ⟨-, -, heq⟩ | ⟨hidle, -, heq⟩ <;> rw [heq]
    · rfl
    · rw [isClosed, isClosed, hidle]
      rfl
  | stop =>
    show s.stop.isClosed = s.isClosed
    cases ht : s.isTracing with
    | false => rw [stop_of_not_tracing ht]
    | true =>
      rw [stop_eq_stopped ht, isClosed_of_tracing ht]
      rfl
  | mark label unwinding =>
    obtain ⟨hphase, -⟩ := mark_keeps s label unwinding
    exact congrArg (· == .closed) hphase
  | flush =>
    show s.flush.1.isClosed = s.isClosed
    rw [flush_eq]
    rfl
  | close => exact absurd rfl hc
  | deliver n =>
    show (s.deliver n).1.isClosed = s.isClosed
    rcases deliver_cases hs n with ⟨-, heq⟩ | ⟨-, -, heq⟩ | ⟨-, htracing, -, heq⟩ | ⟨-, k⟩
    · rw [heq]
      rfl
    · rw [heq]
      rfl
    · rw [heq, isClosed_of_tracing htracing]
      rfl
    · rw [isClosed, k.phase, isClosed]
  | setFaults => rfl
  | beginFinalize => rfl
  | look => rfl
  | enterProcess => rfl
  | enterThread => rfl
  | «scoped» => cases ha

/-- The output is held until the session is closed. -/
theorem Reaches.held_iff {past : List Step} {t : Session} (h : Reaches s past t) (hs : s.Sound)
    (hin : s.channel.isHeld = true ↔ s.isClosed = false) : t.channel.isHeld = true ↔ t.isClosed = false := by
  induction h with
  | nil => exact hin
  | @snoc past t action ha h ih =>
    have hsound := (h.sound hs).1
    by_cases hc : action = .close
    · subst hc
      show t.close.1.channel.isHeld = true ↔ t.close.1.isClosed = false
      cases hclosed : t.isClosed with
      | true => rwa [close_of_closed hclosed]
      | false => simp [(close_of_open hclosed).2.2.2, close_isClosed]
    · rwa [perform_held hsound ha hc, perform_isClosed hsound ha hc]

theorem released_of_closed (held : s.channel.isHeld = true ↔ s.isClosed = false) (hc : s.isClosed = true) :
    s.channel.isHeld = false :=
  eq_false_of_ne_true fun hheld => by simp [held.mp hheld] at hc

/-! ### Opening -/

/-- A session as it is opened on a new destination. -/
structure Fresh (settings : Settings) (host : Host) (s : Session) : Prop where
  settings_eq : s.settings = settings
  host_eq : s.host = host
  phase : s.phase = .idle
  sound : s.Sound
  calls : s.calls = []
  seen : s.seen = {}
  ownership : s.ownership = { owner := host.process }
  ownerThread : s.ownerThread = host.thread
  finalizing : s.finalizing = false
  held : s.channel.isHeld = true
  stream : s.channel.stream = settings.layout.header.toUTF8

theorem Fresh.isClosed_eq {settings : Settings} {host : Host} (h : Fresh settings host s) : s.isClosed = false := by
  simp [isClosed, h.phase]

theorem Fresh.held_iff {settings : Settings} {host : Host} (h : Fresh settings host s) :
    s.channel.isHeld = true ↔ s.isClosed = false := by
  simp [h.held, h.isClosed_eq]

/-- The output with the header in its buffer. -/
def headed (settings : Settings) (faults : Faults) (label : String) : Output where
  destination := { faults }
  buffer := settings.layout.header.toUTF8
  label

/-- A session as it is opened, with an output that it holds. -/
def opening (settings : Settings) (host : Host) (output : Output) : Session where
  settings
  host
  stack := .withRoot settings.stackCapacity
  channel := .held output
  ownership := { owner := host.process }
  ownerThread := host.thread
  log := #[.sessionOpen output.label settings.flatten]

section
variable {settings : Settings} {faults : Faults} {label : String} {host : Host}

theorem write_header (settings : Settings) (faults : Faults) (label : String) :
    Output.write { destination := { faults }, label } settings.layout.header.toUTF8 =
      (headed settings faults label, .ok ()) := by
  have hshort : settings.layout.header.toUTF8.size < Output.bufferSize := by
    cases settings.layout <;> decide
  rw [Output.write_of_room (by rw [ByteArray.size_empty, Nat.zero_add]; exact hshort)]
  unfold Output.keep headed
  rw [ByteArray.empty_append]

/-- What becomes of a session depends on the flush of its header and then on the room for its stack. -/
theorem create_eq (settings : Settings) (faults : Faults) (label : String) (host : Host) :
    create settings { destination := { faults }, label } host = match (headed settings faults label).flush with
      | (output, .error fault) => .error ⟨.header fault, output.release, host⟩
      | (output, .ok ()) =>
        if CallStack.maxCapacity < settings.stackCapacity then .error ⟨.stack .tooLarge, output.release, host⟩
        else .ok (opening settings host output) := by
  unfold create CallStack.create
  simp only [write_header]
  rcases (headed settings faults label).flush with ⟨flushed, fault | _⟩
  · rfl
  · by_cases hlarge : CallStack.maxCapacity < settings.stackCapacity
    · simp only [if_pos hlarge]
    · simp only [if_neg hlarge]
      rfl

theorem create_of_refused {fault : WriteFault} (h : (headed settings faults label).flush.2 = .error fault) :
    create settings { destination := { faults }, label } host =
      .error ⟨.header fault, (headed settings faults label).flush.1.release, host⟩ := by
  rw [create_eq]
  generalize (headed settings faults label).flush = flushed at h ⊢
  obtain ⟨output, result⟩ := flushed
  obtain rfl : result = .error fault := h
  rfl

theorem create_without_room (h : (headed settings faults label).flush.2 = .ok ())
    (hlarge : CallStack.maxCapacity < settings.stackCapacity) :
    create settings { destination := { faults }, label } host =
      .error ⟨.stack .tooLarge, (headed settings faults label).flush.1.release, host⟩ := by
  rw [create_eq]
  generalize (headed settings faults label).flush = flushed at h ⊢
  obtain ⟨output, result⟩ := flushed
  obtain rfl : result = .ok () := h
  exact if_pos hlarge

theorem create_with_room (h : (headed settings faults label).flush.2 = .ok ())
    (room : settings.stackCapacity ≤ CallStack.maxCapacity) :
    create settings { destination := { faults }, label } host =
      .ok (opening settings host (headed settings faults label).flush.1) := by
  rw [create_eq]
  generalize (headed settings faults label).flush = flushed at h ⊢
  obtain ⟨output, result⟩ := flushed
  obtain rfl : result = .ok () := h
  exact if_neg (Nat.not_lt_of_le room)

theorem create_eq_ok (h : create settings { destination := { faults }, label } host = .ok s) :
    (headed settings faults label).flush.2 = .ok () ∧ settings.stackCapacity ≤ CallStack.maxCapacity ∧
      s = opening settings host (headed settings faults label).flush.1 := by
  cases hflush : (headed settings faults label).flush.2 with
  | error fault =>
    rw [create_of_refused hflush] at h
    cases h
  | ok =>
    by_cases room : settings.stackCapacity ≤ CallStack.maxCapacity
    · rw [create_with_room hflush room] at h
      exact ⟨rfl, room, (Except.ok.inj h).symm⟩
    · rw [create_without_room hflush (Nat.lt_of_not_le room)] at h
      cases h

theorem room_of_create (h : create settings { destination := { faults }, label } host = .ok s) :
    settings.stackCapacity ≤ CallStack.maxCapacity :=
  (create_eq_ok h).2.1

theorem create_fresh (h : create settings { destination := { faults }, label } host = .ok s) :
    Fresh settings host s := by
  obtain ⟨-, -, rfl⟩ := create_eq_ok h
  have hlive := (CallStack.seedRoot_sound
    (s := { CallStack.empty settings.stackCapacity with rooted := true }) rfl).2
  refine ⟨rfl, rfl, rfl, ⟨.withRoot _, rfl⟩, ?_, rfl, rfl, rfl, rfl, rfl, ?_⟩
  · show CallStack.callsOf (CallStack.withRoot settings.stackCapacity).live = []
    rw [CallStack.withRoot, hlive]
    rfl
  · show (headed settings faults label).flush.1.stream = _
    rw [Output.flush_stream]
    exact ByteArray.empty_append

theorem create_counters (h : create settings { destination := { faults }, label } host = .ok s) :
    s.counters = {} := by
  obtain ⟨-, -, rfl⟩ := create_eq_ok h
  rfl

theorem create_harmless (h : create settings { destination := { faults }, label } host = .ok s)
    (harmless : faults.Harmless) : s.channel.Harmless := by
  obtain ⟨-, -, rfl⟩ := create_eq_ok h
  exact .held (Output.flush_harmless (o := headed settings faults label) harmless).1

theorem create_drained (h : create settings { destination := { faults }, label } host = .ok s) :
    ∃ output, s.channel = .held output ∧ output.buffer = .empty := by
  obtain ⟨hflush, -, rfl⟩ := create_eq_ok h
  exact ⟨_, rfl, Output.flush_empties hflush⟩

/-- A session can be opened where the header can be written and the stack has room. -/
theorem create_ok (label : String) (host : Host) (harmless : faults.Harmless)
    (room : settings.stackCapacity ≤ CallStack.maxCapacity) :
    ∃ s, create settings { destination := { faults }, label } host = .ok s :=
  ⟨_, create_with_room (Output.flush_harmless (o := headed settings faults label) harmless).2 room⟩

end

theorem create_in_memory (settings : Settings) (room : settings.stackCapacity ≤ CallStack.maxCapacity) :
    ∃ s, create settings { destination := { faults := {} }, label := "" } { process := 1 } = .ok s :=
  create_ok _ _ Faults.harmless_of_none room

/-! ### Tracing -/

/-- A session listens, with some calls open. -/
structure Tracks (settings : Settings) (calls : List OpenCall) (s : Session) : Prop where
  settings_eq : s.settings = settings
  sound : s.Sound
  listens : s.listens = true
  calls_eq : s.calls = calls

section
variable {settings : Settings} {calls : List OpenCall}

theorem Fresh.ownsContext {host : Host} (h : Fresh settings host s) : s.ownsContext = true := by
  simp [Session.ownsContext, ownsProcess, Ownership.holds, h.ownership, h.host_eq, h.ownerThread]

theorem Fresh.start {host : Host} (h : Fresh settings host s) :
    Tracks settings [] s.start.1 ∧ s.start.2 = .ok () := by
  have context := h.ownsContext
  rw [start_of_owner h.phase (ownsContext_iff.mp context).1]
  exact ⟨⟨h.settings_eq, ⟨h.sound.stack, h.sound.rooted⟩, listens_iff.mpr ⟨h.finalizing, rfl, context⟩, h.calls⟩, rfl⟩

theorem Tracks.setFaults (h : Tracks settings calls s) (faults : Faults) :
    Tracks settings calls (s.perform (.setFaults faults)).1 :=
  ⟨h.settings_eq, ⟨h.sound.stack, h.sound.rooted⟩, h.listens, h.calls_eq⟩

theorem Tracks.hears (h : Tracks settings calls s) {n : Notification} {event : Event} (he : n.event? = some event)
    (outside : settings.ownEntity ≠ some event.method.entity) : s.hears n = some event :=
  hears_eq_some_iff.mpr ⟨h.listens, he, h.settings_eq ▸ outside⟩

/-- What a session that listens does with an event that is not of the tracer. -/
theorem Tracks.deliver (h : Tracks settings calls s) {n : Notification} {event : Event} (he : n.event? = some event)
    (outside : settings.ownEntity ≠ some event.method.entity) :
    s.dueRow? n = settings.row? calls event ∧ Tracks settings (settings.callsAfter calls event) (s.deliver n).1 ∧
      Fate s (s.deliver n).1 (settings.row? calls event) (s.deliver n).2 := by
  have hears := h.hears he outside
  obtain ⟨k, hsound, hcalls, hfate⟩ := deliver_of_hears h.sound hears
  rw [h.settings_eq, h.calls_eq] at hcalls hfate
  refine ⟨?_, ⟨k.settings.trans h.settings_eq, hsound, k.listens.trans h.listens, hcalls⟩, hfate⟩
  rw [dueRow?, hears, Option.bind_some, h.settings_eq, h.calls_eq]

end

end Session
end MethodTrace
