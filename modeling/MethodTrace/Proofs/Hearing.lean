import MethodTrace.Proofs.LiveFrames
import MethodTrace.Session.Dispatch

/-! # What a notification does

A session hears a notification as an event, or ignores it. Which calls are open after an event, and which row is due
for it, follows from the settings and the calls open before (`Settings.callsAfter`, `Settings.row?`). What then
becomes of the row is one of three things: it is known already, it is written, or the write fails (`Fate`). -/

namespace MethodTrace

/-! ### Events among open calls -/

/-- Which open calls a return closes, and the one it is the return of. -/
inductive Closing where
  | none
  | innermost (call : OpenCall)
  | below (call : OpenCall)

namespace Settings

/-- The caller of a call that is opened above others. Nothing stands for the root. -/
def callerAmong (settings : Settings) (calls : List OpenCall) : Option OpenCall :=
  match settings.callerRule with
  | .immediate => calls.head?
  | .nearestVisible => calls.find? (!·.hidden)

/-- The row of a call and its caller, if the settings ask for one. -/
def edgeRow? (settings : Settings) (event : Event) (caller : Option OpenCall) : Option String :=
  if caller.isNone && !settings.rootCalls then none
  else some (Row.ofEdge event (CallStack.callerFrame caller))

/-- The row that is due for a call. -/
def callRow? (settings : Settings) (calls : List OpenCall) (event : Event) : Option String :=
  if settings.filter.hides event then none
  else
    match settings.layout with
    | .events => some (Row.ofEvent event)
    | .edges => settings.edgeRow? event (settings.callerAmong calls)

/-- The open calls that a return closes: the innermost one if it is of the return's method. The return of a block
may also belong to the call below. -/
def closing (settings : Settings) (calls : List OpenCall) (event : Event) : Closing :=
  match calls with
  | [] => .none
  | top :: rest =>
    if top.event.method = event.method then .innermost top
    else if event.fromBlock && settings.blockReturns == .reattribute then
      match rest with
      | lower :: _ => if lower.event.method = event.method then .below lower else .none
      | [] => .none
    else .none

/-- The return of a block from a method that was called at a place. -/
def blockReturn (method : Method) (place : Event) : Event where
  kind := .leave
  method := method
  path := place.path
  line := place.line
  fromBlock := true

/-- The event in the row of a return. The return of a block is placed where the call below was made. -/
def returned (event : Event) : Closing → Option (Event × OpenCall)
  | .none => none
  | .innermost call => some (event, call)
  | .below call => some (blockReturn event.method call.event, call)

/-- The row that is due for a return. -/
def returnRow? (settings : Settings) (calls : List OpenCall) (event : Event) : Option String :=
  match settings.layout, returned event (settings.closing calls event) with
  | .events, some (event, call) => if call.hidden then none else some (Row.ofEvent event)
  | _, _ => none

/-- The row that is due for an event. -/
def row? (settings : Settings) (calls : List OpenCall) (event : Event) : Option String :=
  match event.kind with
  | .call => settings.callRow? calls event
  | .leave => settings.returnRow? calls event

/-- The calls that are open after an event. -/
def callsAfter (settings : Settings) (calls : List OpenCall) (event : Event) : List OpenCall :=
  match event.kind with
  | .call => ⟨event, settings.filter.hides event⟩ :: calls
  | .leave =>
    match settings.closing calls event with
    | .none => calls
    | .innermost _ => calls.tail
    | .below _ => calls.tail.tail

end Settings

/-! ### Listening -/

/-- Whether a process is the owner, and no other was seen before. -/
def Ownership.holds (o : Ownership) (current : ProcessId) : Bool :=
  !o.broken && current == o.owner

theorem Ownership.check_of_holds {o : Ownership} {current : ProcessId} (h : o.holds current = true) :
    o.check current = (o, .owner) := by
  simp only [holds, Bool.and_eq_true, Bool.not_eq_true', beq_iff_eq] at h
  simp [check, h.1, h.2]

theorem Ownership.check_of_not_holds {o : Ownership} {current : ProcessId} (h : o.holds current = false) :
    o.check current = ({ o with broken := true }, .child) := by
  simp only [holds, Bool.and_eq_false_iff, Bool.not_eq_false', beq_eq_false_iff_ne] at h
  simp only [check, if_pos h]

theorem Ownership.check_owner (o : Ownership) (current : ProcessId) : (o.check current).1.owner = o.owner := by
  unfold check
  split <;> rfl

theorem Ownership.check_broken {o : Ownership} (h : o.broken = true) (current : ProcessId) :
    (o.check current).1.broken = true := by
  rw [check_of_not_holds (by simp [holds, h])]

/-- A row was met before, or one of the same fingerprint. -/
def SeenRows.Has (seen : SeenRows) (row : String) : Prop := fingerprint row.toUTF8 ∈ seen.fingerprints

namespace Session

/-- The open calls, innermost first. -/
def calls (s : Session) : List OpenCall := s.stack.calls

/-- Whether the session is in the process that owns it. -/
def ownsProcess (s : Session) : Bool := s.ownership.holds s.host.process

/-- Whether the session is in the process and the thread that own it. -/
def ownsContext (s : Session) : Bool := s.ownsProcess && s.host.thread == s.ownerThread

/-- Whether notifications are taken. -/
def listens (s : Session) : Bool := !s.finalizing && s.isTracing && s.ownsContext

/-- The event that a notification is taken for, unless it is ignored. -/
def hears (s : Session) (n : Notification) : Option Event :=
  if s.listens then n.event?.filter fun event => s.settings.ownEntity ≠ some event.method.entity else none

/-- The row that is due for a notification. -/
def dueRow? (s : Session) (n : Notification) : Option String :=
  (s.hears n).bind (s.settings.row? s.calls)

/-- The rows known once a row is met. Only the rows of edges are kept in mind. -/
def seenWith (s : Session) (row : String) : SeenRows :=
  match s.settings.layout with
  | .events => s.seen
  | .edges => (s.seen.meet row.toUTF8).1

/-- What holds of every session: its stack is sound and has a root. -/
structure Sound (s : Session) : Prop where
  stack : s.stack.Sound
  rooted : s.stack.rooted = true

end Session

/-- Whether an outcome is that of a row. -/
def Outcome.isOfRow : Outcome → Bool
  | recorded | duplicate | writeFailed => true
  | ignored _ | suppressed | tracked | popped | unmatched => false

/-- Whether a row was to be written. -/
def Outcome.isWrite : Outcome → Bool
  | recorded | writeFailed => true
  | ignored _ | suppressed | tracked | duplicate | popped | unmatched => false

/-- What becomes of the row that is due, if one is, between two states of a session. -/
inductive Fate (s t : Session) : Option String → Outcome → Prop
  | quiet {outcome : Outcome} : outcome.isOfRow = false → t.seen = s.seen → t.channel = s.channel →
      Fate s t none outcome
  | duplicate {row : String} : s.settings.layout = .edges → s.seen.Has row → t.seen = s.seenWith row →
      t.channel = s.channel → Fate s t (some row) .duplicate
  | recorded {row : String} : (s.settings.layout = .edges → ¬s.seen.Has row) → t.seen = s.seenWith row →
      s.channel.write row.toUTF8 = (t.channel, .ok ()) → Fate s t (some row) .recorded
  | writeFailed {row : String} {fault : WriteFault} : (s.settings.layout = .edges → ¬s.seen.Has row) →
      t.seen = s.seenWith row → s.channel.write row.toUTF8 = (t.channel, .error fault) →
      Fate s t (some row) .writeFailed

theorem Fate.of_eq {s u t : Session} {row : Option String} {outcome : Outcome} (hf : Fate u t row outcome)
    (hsettings : u.settings = s.settings) (hseen : u.seen = s.seen) (hchannel : u.channel = s.channel) :
    Fate s t row outcome := by
  have hwith : ∀ row, u.seenWith row = s.seenWith row := fun row => by
    unfold Session.seenWith
    rw [hsettings, hseen]
  cases hf with
  | quiet ho hs hc => exact .quiet ho (hs.trans hseen) (hc.trans hchannel)
  | duplicate hl hh hs hc =>
    exact .duplicate (hsettings ▸ hl) (hseen ▸ hh) (hs.trans (hwith _)) (hc.trans hchannel)
  | recorded hn hs hw => exact .recorded (hsettings ▸ hseen ▸ hn) (hs.trans (hwith _)) (hchannel ▸ hw)
  | writeFailed hn hs hw => exact .writeFailed (hsettings ▸ hseen ▸ hn) (hs.trans (hwith _)) (hchannel ▸ hw)

namespace Session

/-- What an event leaves as it was: all that decides whether the session listens. -/
structure SameStanding (s t : Session) : Prop where
  settings : t.settings = s.settings
  host : t.host = s.host
  phase : t.phase = s.phase
  ownership : t.ownership = s.ownership
  ownerThread : t.ownerThread = s.ownerThread
  finalizing : t.finalizing = s.finalizing

/-- What an action without a part in the trace leaves as it was. -/
structure SameTrace (s t : Session) : Prop where
  settings : t.settings = s.settings
  stack : t.stack = s.stack
  seen : t.seen = s.seen
  channel : t.channel = s.channel

theorem SameTrace.sound {s t : Session} (h : SameTrace s t) (hs : s.Sound) : t.Sound :=
  ⟨h.stack ▸ hs.stack, h.stack ▸ hs.rooted⟩

namespace SameStanding
variable {s t u : Session}

theorem trans (h₁ : SameStanding s t) (h₂ : SameStanding t u) : SameStanding s u where
  settings := h₂.settings.trans h₁.settings
  host := h₂.host.trans h₁.host
  phase := h₂.phase.trans h₁.phase
  ownership := h₂.ownership.trans h₁.ownership
  ownerThread := h₂.ownerThread.trans h₁.ownerThread
  finalizing := h₂.finalizing.trans h₁.finalizing

theorem listens (h : SameStanding s t) : t.listens = s.listens := by
  simp only [Session.listens, ownsContext, ownsProcess, isTracing, h.host, h.phase, h.ownership, h.ownerThread,
    h.finalizing]

end SameStanding

/-! ### Writing the row of an event -/

section
variable {s : Session}

theorem record_of_ok {row : String} {channel : Channel} (hw : s.channel.write row.toUTF8 = (channel, .ok ())) :
    s.record row = ({ s with channel }.count fun c => { c with records := c.records + 1 }, .recorded) := by
  simp only [record, write, hw]

theorem record_of_error {row : String} {channel : Channel} {fault : WriteFault}
    (hw : s.channel.write row.toUTF8 = (channel, .error fault)) :
    ∃ log, s.record row =
      ({ { s with channel }.count fun c => { c with writeErrors := c.writeErrors + 1 } with log }, .writeFailed) := by
  simp only [record, write, hw]
  split
  · exact ⟨_, rfl⟩
  · exact ⟨_, rfl⟩

theorem record_standing (s : Session) (row : String) :
    SameStanding s (s.record row).1 ∧ (s.record row).1.stack = s.stack := by
  rcases hw : s.channel.write row.toUTF8 with ⟨channel, fault | _⟩
  · obtain ⟨log, heq⟩ := record_of_error hw
    rw [heq]
    exact ⟨⟨rfl, rfl, rfl, rfl, rfl, rfl⟩, rfl⟩
  · rw [record_of_ok hw]
    exact ⟨⟨rfl, rfl, rfl, rfl, rfl, rfl⟩, rfl⟩

/-- A row that is new, or need not be, is written or fails to be. -/
theorem record_fate {s₀ : Session} {row : String} (hnew : s₀.settings.layout = .edges → ¬s₀.seen.Has row)
    (hseen : s.seen = s₀.seenWith row) (hchannel : s.channel = s₀.channel) :
    Fate s₀ (s.record row).1 (some row) (s.record row).2 := by
  rcases hw : s.channel.write row.toUTF8 with ⟨channel, fault | _⟩
  · obtain ⟨log, heq⟩ := record_of_error hw
    rw [heq]
    exact .writeFailed hnew hseen (hchannel ▸ hw)
  · rw [record_of_ok hw]
    exact .recorded hnew hseen (hchannel ▸ hw)

theorem recordEdge_standing (s : Session) (row : String) :
    SameStanding s (s.recordEdge row).1 ∧ (s.recordEdge row).1.stack = s.stack := by
  unfold recordEdge
  rcases hm : s.seen.meet row.toUTF8 with ⟨seen, _ | _⟩
  · exact ⟨⟨rfl, rfl, rfl, rfl, rfl, rfl⟩, rfl⟩
  · obtain ⟨hs, hstack⟩ := record_standing { s with seen } row
    exact ⟨⟨hs.settings, hs.host, hs.phase, hs.ownership, hs.ownerThread, hs.finalizing⟩, hstack⟩

theorem meet_has {seen : SeenRows} {row : String} : (seen.meet row.toUTF8).2 = false ↔ seen.Has row := by
  simp [SeenRows.meet, SeenRows.meetFingerprint, SeenRows.Has]

theorem recordEdge_fate {s₀ : Session} {row : String} (hedges : s₀.settings.layout = .edges)
    (hseen : s.seen = s₀.seen) (hchannel : s.channel = s₀.channel) :
    Fate s₀ (s.recordEdge row).1 (some row) (s.recordEdge row).2 := by
  have hwith : s₀.seenWith row = (s.seen.meet row.toUTF8).1 := by
    unfold seenWith
    rw [hedges, hseen]
  unfold recordEdge
  rcases hm : s.seen.meet row.toUTF8 with ⟨seen, _ | _⟩
  · refine .duplicate hedges (hseen ▸ meet_has.mp (by rw [hm])) ?_ hchannel
    rw [hwith, hm]
    rfl
  · refine record_fate (s := { s with seen }) (fun _ hhas => ?_) ?_ hchannel
    · have := meet_has.mpr (hseen ▸ hhas)
      rw [hm] at this
      cases this
    · rw [hwith, hm]

/-! ### Calls -/

/-- The caller named in a row is the one that the settings choose among the calls open before. -/
theorem callerOf_openCall (h : s.Sound) (event : Event) (hidden : Bool) :
    ∃ f, (s.openCall event hidden).1.callerOf (s.openCall event hidden).2 = some f ∧
      CallStack.Names f (s.settings.callerAmong s.calls) := by
  have hlinked : CallStack.Linked true s.stack.live := h.rooted ▸ h.stack.linked
  have hsound := h.stack.push event hidden
  have hlive := CallStack.live_push h.stack.within event hidden
  have htop : s.stack.opened event hidden :: s.stack.live <:+ (s.stack.push event hidden).1.live :=
    hlive ▸ List.suffix_refl _
  have hslot : (s.openCall event hidden).2 = s.stack.live.length := by
    rw [CallStack.length_live h.stack.within]
    exact CallStack.push_snd event hidden
  have hstack : (s.openCall event hidden).1.stack = (s.stack.push event hidden).1 := rfl
  have hsettings : (s.openCall event hidden).1.settings = s.settings := rfl
  unfold callerOf Settings.callerAmong
  rw [hslot, hstack, hsettings]
  cases s.settings.callerRule with
  | immediate =>
    obtain ⟨f, hf, hn⟩ := CallStack.head?_names hlinked
    refine ⟨f, ?_, hn⟩
    simp only [CallStack.below_of_suffix hsound htop, hf]
    rfl
  | nearestVisible =>
    obtain ⟨f, hf, hn⟩ := CallStack.find?_visible_names hlinked rfl
    refine ⟨f, ?_, hn⟩
    simp only [CallStack.visibleCaller_of_suffix hsound htop, hf]
    rfl

theorem ofEdge_of_names {f : Frame} {caller : Option OpenCall} (h : CallStack.Names f caller) (event : Event) :
    Row.ofEdge event f = Row.ofEdge event (CallStack.callerFrame caller) := by
  have hroot : (CallStack.callerFrame caller).isRoot = caller.isNone := by cases caller <;> rfl
  unfold Row.ofEdge Row.callerLevel
  rw [h.event, h.isRoot, hroot]

theorem enter_spec (h : s.Sound) (event : Event) :
    SameStanding s (s.enter event).1 ∧
      (s.enter event).1.stack = (s.stack.push event (s.settings.filter.hides event)).1 ∧
      Fate s (s.enter event).1 (s.settings.callRow? s.calls event) (s.enter event).2 := by
  obtain ⟨f, hf, hn⟩ := callerOf_openCall h event (s.settings.filter.hides event)
  have hsettings : (s.openCall event (s.settings.filter.hides event)).1.settings = s.settings := rfl
  -- What `enter` goes on with differs from `s` in the stack and the counters only.
  have keep : ∀ {t : Session}, SameStanding (s.openCall event (s.settings.filter.hides event)).1 t →
      SameStanding s t := fun k => ⟨k.settings, k.host, k.phase, k.ownership, k.ownerThread, k.finalizing⟩
  unfold enter Settings.callRow?
  cases hh : s.settings.filter.hides event with
  | true => exact ⟨⟨rfl, rfl, rfl, rfl, rfl, rfl⟩, rfl, .quiet rfl rfl rfl⟩
  | false =>
    rw [hh] at hf keep hsettings
    simp only [Bool.false_eq_true, if_false, hsettings]
    cases hl : s.settings.layout with
    | events =>
      obtain ⟨k, hstack⟩ := record_standing (s.openCall event false).1 (Row.ofEvent event)
      refine ⟨keep k, hstack, record_fate (fun he => ?_) ?_ rfl⟩
      · rw [hl] at he
        cases he
      · unfold seenWith
        rw [hl]
        rfl
    | edges =>
      unfold Settings.edgeRow?
      simp only [hf, hn.isRoot]
      split
      · exact ⟨⟨rfl, rfl, rfl, rfl, rfl, rfl⟩, rfl, .quiet rfl rfl rfl⟩
      · rw [ofEdge_of_names hn]
        obtain ⟨k, hstack⟩ := recordEdge_standing (s.openCall event false).1
          (Row.ofEdge event (CallStack.callerFrame (s.settings.callerAmong s.calls)))
        exact ⟨keep k, hstack, recordEdge_fate hl rfl rfl⟩

/-! ### Returns -/

/-- What a match says of the open calls. -/
def Match.closing : Match → Closing
  | .none => .none
  | .innermost f => .innermost f.openCall
  | .below f => .below f.openCall

theorem matchOf_call {f : Frame} (hf : f.isRoot = false) (event : Event) :
    Match.of f event = decide (f.openCall.event.method = event.method) := by
  rw [Match.of, hf, Bool.not_false, Bool.true_and, Bool.eq_iff_iff, Event.sameMethod_iff, decide_eq_true_iff]
  rfl

theorem matchReturn_closing (h : s.Sound) (event : Event) :
    Match.closing (s.matchReturn event) = s.settings.closing s.calls event := by
  have hlinked : CallStack.Linked true s.stack.live := h.rooted ▸ h.stack.linked
  have htop := CallStack.top_eq h.stack.within
  have hpeek := CallStack.peek_eq h.stack.within
  have hbelow : ∀ f below, s.stack.live = f :: below → s.stack.below below.length = .ok below.head? :=
    fun f below hl => CallStack.below_of_suffix (f := f) h.stack ⟨[], hl.symm⟩
  unfold matchReturn Settings.closing calls CallStack.calls
  rw [htop, hpeek]
  generalize s.stack.live = frames at hlinked hbelow
  cases hlinked with
  | root => simp [CallStack.topOf, Match.of, Frame.root, Match.closing, CallStack.callsOf]
  | @call _ f rest hrest _ hf =>
    simp only [CallStack.topOf, List.head?_cons, matchOf_call hf, decide_eq_true_iff, CallStack.callsOf_cons hf,
      hbelow f rest rfl, hf, Bool.not_false, Bool.and_true]
    split
    · rfl
    · split
      · -- The frame below is the root, which no return matches, or a call.
        cases hrest with
        | root => rfl
        | @call _ g _ _ _ hg =>
          simp only [List.head?_cons, matchOf_call hg, decide_eq_true_iff, CallStack.callsOf_cons hg]
          split <;> rfl
      · rfl

/-- The row of a return, once the calls it closes are closed. -/
theorem finishReturn_spec {u : Session} (k : SameStanding s u) (hseen : u.seen = s.seen)
    (hchannel : u.channel = s.channel) (event : Event) (hidden : Bool) :
    SameStanding s (u.finishReturn event hidden).1 ∧ (u.finishReturn event hidden).1.stack = u.stack ∧
      Fate s (u.finishReturn event hidden).1
        (match s.settings.layout with
          | .events => if hidden then none else some (Row.ofEvent event)
          | .edges => none)
        (u.finishReturn event hidden).2 := by
  unfold finishReturn
  rw [k.settings]
  cases hl : s.settings.layout with
  | edges => exact ⟨k, rfl, .quiet rfl hseen hchannel⟩
  | events =>
    cases hidden with
    | true => exact ⟨k, rfl, .quiet rfl hseen hchannel⟩
    | false =>
      obtain ⟨kr, hstack⟩ := record_standing u (Row.ofEvent event)
      refine ⟨k.trans kr, hstack, record_fate (fun he => ?_) ?_ hchannel⟩
      · rw [hl] at he
        cases he
      · unfold seenWith
        rw [hl]
        exact hseen

theorem leave_spec (h : s.Sound) (event : Event) :
    SameStanding s (s.leave event).1 ∧
      (s.leave event).1.stack = (match s.settings.closing s.calls event with
        | .none => s.stack
        | .innermost _ => s.stack.pop.1
        | .below _ => s.stack.pop.1.pop.1) ∧
      Fate s (s.leave event).1 (s.settings.returnRow? s.calls event) (s.leave event).2 := by
  have hclosing := matchReturn_closing h event
  unfold leave Settings.returnRow?
  cases hm : s.matchReturn event with
  | none =>
    rw [hm] at hclosing
    rw [← hclosing]
    refine ⟨⟨rfl, rfl, rfl, rfl, rfl, rfl⟩, rfl, ?_⟩
    cases s.settings.layout <;> exact .quiet rfl rfl rfl
  | innermost f =>
    rw [hm] at hclosing
    rw [← hclosing]
    have hspec := finishReturn_spec (s := s)
      (u := s.closeCall.count fun c => { c with returns := c.returns + 1 }) ⟨rfl, rfl, rfl, rfl, rfl, rfl⟩ rfl rfl
      event f.hidden
    cases hl : s.settings.layout <;> rw [hl] at hspec <;> exact hspec
  | below f =>
    rw [hm] at hclosing
    rw [← hclosing]
    have hspec := finishReturn_spec (s := s)
      (u := s.closeCall.closeCall.count fun c =>
        { c with returns := c.returns + 1, blockReturns := c.blockReturns + 1 }) ⟨rfl, rfl, rfl, rfl, rfl, rfl⟩ rfl rfl
      (Settings.blockReturn event.method f.event) f.hidden
    cases hl : s.settings.layout <;> rw [hl] at hspec <;> exact hspec

/-! ### Hearing and ignoring -/

theorem checkOwner_of_owns (h : s.ownsProcess = true) : s.checkOwner = (s, .owner) := by
  unfold checkOwner
  rw [Ownership.check_of_holds h]

/-- The session once it has seen a process that is not its owner. -/
def forked (s : Session) : Session := { s with ownership := { s.ownership with broken := true } }

theorem checkOwner_of_not_owns (h : s.ownsProcess = false) : s.checkOwner = (s.forked, .child) := by
  unfold checkOwner
  rw [Ownership.check_of_not_holds h]
  rfl

theorem hears_eq_some_iff {n : Notification} {event : Event} :
    s.hears n = some event ↔
      s.listens = true ∧ n.event? = some event ∧ s.settings.ownEntity ≠ some event.method.entity := by
  unfold hears
  cases s.listens <;> simp [Option.filter_eq_some_iff]

/-- The session that takes an event: the notification is counted. -/
def hearing (s : Session) : Session := s.count fun c => { c with events := c.events + 1 }

theorem process_of_event {event : Event} (hown : s.settings.ownEntity ≠ some event.method.entity) :
    s.process (some event) = s.take event :=
  if_neg hown

theorem process_of_no_event {event? : Option Event}
    (he : (event?.filter fun event => s.settings.ownEntity ≠ some event.method.entity) = none) :
    s.process event? = s.ignore (if event?.isNone then .unclassified else .tracerInternal) := by
  cases event? with
  | none => rfl
  | some event => exact if_pos (by simpa using he)

theorem deliver_of_finalizing (h : s.finalizing = true) (n : Notification) :
    s.deliver n = s.disable.ignore .finalizing := by
  unfold deliver
  rw [if_pos h]

theorem deliver_of_not_tracing (hfin : s.finalizing = false) (htracing : s.isTracing = false) (n : Notification) :
    s.deliver n = s.ignore .notTracing := by
  unfold deliver
  simp [hfin, htracing]

theorem deliver_of_child (hfin : s.finalizing = false) (htracing : s.isTracing = true) (howns : s.ownsProcess = false)
    (n : Notification) : s.deliver n =
      ((s.forked.say (.forkDetected s.ownership.owner s.host.process)).disable.inPhase .idle).ignore .forkedChild := by
  unfold deliver
  rw [hfin, htracing]
  simp only [Bool.not_true, Bool.false_eq_true, if_false, checkOwner_of_not_owns howns]
  rfl

theorem deliver_of_foreign (hfin : s.finalizing = false) (htracing : s.isTracing = true) (howns : s.ownsProcess = true)
    (hthread : s.host.thread ≠ s.ownerThread) (n : Notification) : s.deliver n = s.ignore .foreignThread := by
  unfold deliver
  simp [hfin, htracing, checkOwner_of_owns howns, hthread]

theorem listens_iff : s.listens = true ↔ s.finalizing = false ∧ s.isTracing = true ∧ s.ownsContext = true := by
  simp [listens, and_assoc]

theorem ownsContext_iff :
    s.ownsContext = true ↔ s.ownsProcess = true ∧ s.host.thread = s.ownerThread := by
  simp [ownsContext]

theorem deliver_of_listens (h : s.listens = true) (n : Notification) :
    s.deliver n = s.hearing.process n.event? := by
  obtain ⟨hfin, htracing, context⟩ := listens_iff.mp h
  obtain ⟨hprocess, hthread⟩ := ownsContext_iff.mp context
  unfold deliver
  simp [hfin, htracing, checkOwner_of_owns hprocess, hthread, hearing]

theorem deliver_of_not_listens (h : s.listens = false) (n : Notification) :
    ∃ reason, (s.deliver n).2 = .ignored reason ∧ SameTrace s (s.deliver n).1 := by
  cases hfin : s.finalizing with
  | true =>
    rw [deliver_of_finalizing hfin]
    exact ⟨_, rfl, rfl, rfl, rfl, rfl⟩
  | false =>
    cases htracing : s.isTracing with
    | false =>
      rw [deliver_of_not_tracing hfin htracing]
      exact ⟨_, rfl, rfl, rfl, rfl, rfl⟩
    | true =>
      cases howns : s.ownsProcess with
      | false =>
        rw [deliver_of_child hfin htracing howns]
        exact ⟨_, rfl, rfl, rfl, rfl, rfl⟩
      | true =>
        have hthread : s.host.thread ≠ s.ownerThread := by
          simpa [listens, ownsContext, hfin, htracing, howns] using h
        rw [deliver_of_foreign hfin htracing howns hthread]
        exact ⟨_, rfl, rfl, rfl, rfl, rfl⟩

/-- Whether notifications are taken on the thread that owns the session. -/
def attentive (s : Session) : Bool := !s.finalizing && s.isTracing && s.ownsProcess

theorem attentive_iff : s.attentive = true ↔ s.finalizing = false ∧ s.isTracing = true ∧ s.ownsProcess = true := by
  simp [attentive, and_assoc]

theorem listens_eq (s : Session) : s.listens = (s.attentive && s.host.thread == s.ownerThread) := by
  simp only [listens, attentive, ownsContext, Bool.and_assoc]

/-- What an attentive session does not hear is counted as ignored, and nothing else comes of it. -/
theorem deliver_of_unheard (h : s.attentive = true) {n : Notification} (hn : s.hears n = none) :
    ∃ events reason, s.deliver n = (s.count fun c => { c with events }).ignore reason := by
  cases hl : s.listens with
  | true =>
    rw [hears, if_pos hl] at hn
    exact ⟨_, _, (deliver_of_listens hl n).trans (process_of_no_event (s := s.hearing) hn)⟩
  | false =>
    have hthread : s.host.thread ≠ s.ownerThread := by simpa [listens_eq, h] using hl
    obtain ⟨hfin, htracing, howns⟩ := attentive_iff.mp h
    exact ⟨s.counters.events, .foreignThread, deliver_of_foreign hfin htracing howns hthread n⟩

/-! ### A notification as a whole -/

theorem take_spec (h : s.Sound) (event : Event) :
    SameStanding s (s.take event).1 ∧ (s.take event).1.Sound ∧
      (s.take event).1.calls = s.settings.callsAfter s.calls event ∧
      Fate s (s.take event).1 (s.settings.row? s.calls event) (s.take event).2 := by
  unfold take Settings.row? Settings.callsAfter calls
  cases event.kind with
  | call =>
    obtain ⟨k, hstack, hfate⟩ := enter_spec h event
    refine ⟨k, ⟨?_, ?_⟩, ?_, hfate⟩ <;> simp only [hstack]
    · exact h.stack.push event _
    · exact (CallStack.push_rooted ..).trans h.rooted
    · exact CallStack.calls_push h.stack event _
  | leave =>
    obtain ⟨k, hstack, hfate⟩ := leave_spec h event
    unfold calls at hstack hfate
    refine ⟨k, ⟨?_, ?_⟩, ?_, hfate⟩ <;> simp only [hstack] <;>
      cases s.settings.closing s.stack.calls event
    case refine_1.none => exact h.stack
    case refine_1.innermost => exact h.stack.pop
    case refine_1.below => exact h.stack.pop.pop
    case refine_2.none => exact h.rooted
    case refine_2.innermost => exact (CallStack.pop_slots _).2.trans h.rooted
    case refine_2.below => exact (CallStack.pop_slots _).2.trans ((CallStack.pop_slots _).2.trans h.rooted)
    case refine_3.none => rfl
    case refine_3.innermost => exact CallStack.calls_pop h.stack
    case refine_3.below =>
      simp only
      rw [CallStack.calls_pop h.stack.pop, CallStack.calls_pop h.stack]

/-- A session that hears a notification takes the event. -/
theorem deliver_eq_take {n : Notification} {event : Event} (he : s.hears n = some event) :
    s.deliver n = s.hearing.take event := by
  obtain ⟨hl, hev, hown⟩ := hears_eq_some_iff.mp he
  rw [deliver_of_listens hl, hev]
  exact process_of_event (s := s.hearing) hown

/-- What a session does with a notification that it hears. -/
theorem deliver_of_hears (h : s.Sound) {n : Notification} {event : Event} (he : s.hears n = some event) :
    SameStanding s (s.deliver n).1 ∧ (s.deliver n).1.Sound ∧
      (s.deliver n).1.calls = s.settings.callsAfter s.calls event ∧
      Fate s (s.deliver n).1 (s.settings.row? s.calls event) (s.deliver n).2 := by
  rw [deliver_eq_take he]
  obtain ⟨k, hsound, hcalls, hfate⟩ := take_spec (s := s.hearing) ⟨h.stack, h.rooted⟩ event
  exact ⟨⟨k.settings, k.host, k.phase, k.ownership, k.ownerThread, k.finalizing⟩, hsound, hcalls,
    hfate.of_eq rfl rfl rfl⟩

theorem deliver_of_not_hears {n : Notification} (he : s.hears n = none) :
    ∃ reason, (s.deliver n).2 = .ignored reason ∧ SameTrace s (s.deliver n).1 := by
  unfold hears at he
  split at he
  next hl =>
    rw [deliver_of_listens hl n, process_of_no_event (s := s.hearing) he]
    exact ⟨_, rfl, rfl, rfl, rfl, rfl⟩
  next hl => exact deliver_of_not_listens (eq_false_of_ne_true hl) n

/-- An attentive session stands as it did, whatever it is notified of. -/
theorem deliver_standing (hs : s.Sound) (h : s.attentive = true) (n : Notification) :
    SameStanding s (s.deliver n).1 := by
  cases hn : s.hears n with
  | none =>
    obtain ⟨events, reason, heq⟩ := deliver_of_unheard h hn
    rw [heq]
    exact ⟨rfl, rfl, rfl, rfl, rfl, rfl⟩
  | some event => exact (deliver_of_hears hs hn).1

/-- What a notification does to where the session stands. -/
theorem deliver_cases (hs : s.Sound) (n : Notification) :
    (s.finalizing = true ∧ s.deliver n = s.disable.ignore .finalizing) ∨
    (s.finalizing = false ∧ s.isTracing = false ∧ s.deliver n = s.ignore .notTracing) ∨
    (s.finalizing = false ∧ s.isTracing = true ∧ s.ownsProcess = false ∧ s.deliver n =
      ((s.forked.say (.forkDetected s.ownership.owner s.host.process)).disable.inPhase .idle).ignore .forkedChild) ∨
    (s.attentive = true ∧ SameStanding s (s.deliver n).1) := by
  cases hfin : s.finalizing with
  | true => exact .inl ⟨rfl, deliver_of_finalizing hfin n⟩
  | false =>
    cases htracing : s.isTracing with
    | false => exact .inr (.inl ⟨rfl, rfl, deliver_of_not_tracing hfin htracing n⟩)
    | true =>
      cases howns : s.ownsProcess with
      | false => exact .inr (.inr (.inl ⟨rfl, rfl, rfl, deliver_of_child hfin htracing howns n⟩))
      | true =>
        have h := attentive_iff.mpr ⟨hfin, htracing, howns⟩
        exact .inr (.inr (.inr ⟨h, deliver_standing hs h n⟩))

/-- What becomes of the row that is due for a notification, whether it is heard or not. -/
theorem deliver_fate (h : s.Sound) (n : Notification) : Fate s (s.deliver n).1 (s.dueRow? n) (s.deliver n).2 := by
  cases he : s.hears n with
  | none =>
    have hdue : s.dueRow? n = none := by simp [dueRow?, he]
    obtain ⟨reason, ho, k⟩ := deliver_of_not_hears he
    rw [hdue, ho]
    exact .quiet rfl k.seen k.channel
  | some event =>
    have hdue : s.dueRow? n = s.settings.row? s.calls event := by simp [dueRow?, he]
    obtain ⟨-, -, -, hfate⟩ := deliver_of_hears h he
    rw [hdue]
    exact hfate

end
end Session

end MethodTrace
