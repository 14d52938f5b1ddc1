import MethodTrace.Proofs.Stream

/-! # The life of a session

How the phase of a session and the delivery switch of its host go together (`InOrder`), and when no call is open and no
row is known (`Cleared`). Every step keeps both, so every run does, also up to a point inside a scope. A closed session
is closed for good (`Final`). -/

namespace MethodTrace
namespace Session

/-- Delivery is on while tracing only. The host is the one that the session was opened on. -/
structure InOrder (host : Host) (s : Session) : Prop where
  tracing_of_enabled : s.host.enabled = true → s.isTracing = true
  enabled_of_tracing : s.isTracing = true → s.finalizing = false → s.host.enabled = true
  switches : s.finalizing = false →
    s.host.enables + host.disables = s.host.disables + host.enables + s.isTracing.toNat

/-- No call is open and no row is known. -/
structure Blank (s : Session) : Prop where
  depth_eq : s.depth = 0
  seen_eq : s.seen = {}

/-- Nothing is left of the trace once tracing has ended, unless it ended because a fork was seen. -/
structure Cleared (s : Session) : Prop where
  closed : s.isClosed = true → Blank s
  idle : s.phase = .idle → s.ownership.broken = false → Blank s

/-- A closed session that has let go of its output, with what the destination received. -/
structure Shut (received : ByteArray) (s : Session) : Prop where
  closed : s.isClosed = true
  released : s.channel.isHeld = false
  received_eq : s.destination.received = received

/-- What a closed session answers, now and later. -/
structure Final (s : Session) : Prop where
  start : s.start = (s, .error .closed)
  scope : ∀ body panic, s.perform (.scoped body panic) = (s, .scope [] (.refused .closed))
  mark : ∀ label unwinding, s.mark label unwinding = (s, .error .closed)
  flush : s.flush = (s, .error .closed)
  close : s.close = (s, .ok ())
  drop : s.drop.destination = s.destination
  absorbing : ∀ actions, (s.performAll actions).1.isClosed = true ∧
    (s.performAll actions).1.destination.received = s.destination.received

/-- A session after its end. -/
structure Ended (host : Host) (s : Session) : Prop where
  inOrder : InOrder host s
  closed : s.isClosed = true
  released : s.channel.isHeld = false
  off : s.host.enabled = false

section
variable {s t : Session} {host : Host}

/-! ### Phase and switch -/

theorem InOrder.of_same (h : InOrder host s) (hphase : t.phase = s.phase) (hhost : t.host = s.host)
    (hfin : t.finalizing = s.finalizing) : InOrder host t := by
  have htracing : t.isTracing = s.isTracing := by rw [isTracing, hphase, isTracing]
  refine ⟨?_, ?_, ?_⟩ <;> simp only [hhost, htracing, hfin]
  · exact h.tracing_of_enabled
  · exact h.enabled_of_tracing
  · exact h.switches

theorem InOrder.off (h : InOrder host s) (htracing : s.isTracing = false) : s.host.enabled = false :=
  eq_false_of_ne_true fun hon => by
    have := h.tracing_of_enabled hon
    rw [htracing] at this
    cases this

/-- Tracing ends and delivery is switched off with it. -/
theorem InOrder.rests (h : InOrder host s) (htracing : t.isTracing = false)
    (hhost : t.host = if s.isTracing then s.host.disable else s.host) (hfin : t.finalizing = s.finalizing) :
    InOrder host t := by
  have hoff : t.host.enabled = false := by
    rw [hhost]
    split
    · rfl
    next hnot => exact h.off (eq_false_of_ne_true hnot)
  refine ⟨fun hon => by simp [hoff] at hon, fun htr => by simp [htracing] at htr, fun hnot => ?_⟩
  have hswitches := h.switches (hfin ▸ hnot)
  rw [htracing, hhost]
  cases htr : s.isTracing <;> rw [htr] at hswitches
  · exact hswitches
  · simp only [Host.disable, if_true, Bool.toNat_true, Bool.toNat_false] at *
    omega

theorem InOrder.of_finalizing (hoff : t.host.enabled = false) (hfin : t.finalizing = true) : InOrder host t where
  tracing_of_enabled hon := by simp [hoff] at hon
  enabled_of_tracing _ hnot := by simp [hfin] at hnot
  switches hnot := by simp [hfin] at hnot

theorem start_inOrder (h : InOrder host s) : InOrder host s.start.1 := by
  rcases start_cases s with ⟨-, heq⟩ | ⟨-, heq⟩ | ⟨-, -, heq⟩ | ⟨hidle, -, heq⟩ <;> rw [heq]
  · exact h
  · exact h
  · exact h.of_same rfl rfl rfl
  · have htracing : s.isTracing = false := by simp [isTracing, hidle]
    refine ⟨fun _ => rfl, fun _ _ => rfl, fun hfin => ?_⟩
    have hswitches := h.switches hfin
    rw [htracing, Bool.toNat_false] at hswitches
    show s.host.enables + 1 + host.disables = s.host.disables + host.enables + 1
    omega

theorem stop_inOrder (h : InOrder host s) : InOrder host s.stop := by
  cases ht : s.isTracing with
  | false => rwa [stop_of_not_tracing ht]
  | true =>
    rw [stop_eq_stopped ht]
    exact h.rests rfl (by rw [ht]; rfl) rfl

theorem mark_inOrder (h : InOrder host s) (label : String) (unwinding : Bool) :
    InOrder host (s.mark label unwinding).1 := by
  obtain ⟨hphase, hhost, hfin, -⟩ := mark_keeps s label unwinding
  exact h.of_same hphase hhost hfin

theorem deliver_inOrder (h : InOrder host s) (hs : s.Sound) (n : Notification) : InOrder host (s.deliver n).1 := by
  rcases deliver_cases hs n with ⟨hfin, heq⟩ | ⟨-, -, heq⟩ | ⟨-, htracing, -, heq⟩ | ⟨-, k⟩
  · rw [heq]
    exact .of_finalizing rfl hfin
  · rw [heq]
    exact h.of_same rfl rfl rfl
  · rw [heq]
    exact h.rests rfl (by rw [htracing]; rfl) rfl
  · exact h.of_same k.phase k.host k.finalizing

theorem close_inOrder (h : InOrder host s) : InOrder host s.close.1 := by
  cases hc : s.isClosed with
  | true => rwa [close_of_closed hc]
  | false =>
    obtain ⟨hphase, hhost, hfin⟩ := close_keeps hc
    exact h.rests (by rw [isTracing, hphase]; rfl) hhost hfin

/-- Every step keeps the session in order. -/
theorem perform_inOrder (h : InOrder host s) (hs : s.Sound) {action : Action} (ha : action.isSimple = true) :
    InOrder host (s.perform action).1 := by
  cases action with
  | start => exact start_inOrder h
  | stop => exact stop_inOrder h
  | mark label unwinding => exact mark_inOrder h label unwinding
  | flush =>
    show InOrder host s.flush.1
    rw [flush_eq]
    exact h.of_same rfl rfl rfl
  | close => exact close_inOrder h
  | deliver n => exact deliver_inOrder h hs n
  | setFaults => exact h.of_same rfl rfl rfl
  | beginFinalize => exact ⟨h.tracing_of_enabled, fun _ => nofun, nofun⟩
  | look => exact h
  | enterProcess => exact ⟨h.tracing_of_enabled, h.enabled_of_tracing, h.switches⟩
  | enterThread => exact ⟨h.tracing_of_enabled, h.enabled_of_tracing, h.switches⟩
  | «scoped» => cases ha

theorem Reaches.inOrder {past : List Step} (h : Reaches s past t) (hs : s.Sound) (hin : InOrder host s) :
    InOrder host t := by
  induction h with
  | nil => exact hin
  | snoc action ha h ih => exact perform_inOrder ih (h.sound hs).1 ha

theorem Fresh.inOrder {settings : Settings} (h : Fresh settings host s) (off : host.enabled = false) :
    InOrder host s := by
  refine ⟨fun hon => ?_, fun htracing => ?_, fun _ => ?_⟩
  · rw [h.host_eq, off] at hon
    cases hon
  · simp [isTracing, h.phase] at htracing
  · rw [h.host_eq, isTracing, h.phase]
    exact Nat.add_comm ..

theorem Fresh.blank {settings : Settings} (h : Fresh settings host s) : Blank s where
  depth_eq := by
    have hcalls : s.stack.calls = [] := h.calls
    rw [depth, CallStack.depth_eq h.sound.stack, hcalls]
    rfl
  seen_eq := h.seen

/-- A session that is dropped holds no output. -/
theorem drop_released (held : s.channel.isHeld = true ↔ s.isClosed = false) : s.drop.channel.isHeld = false := by
  cases hfin : s.finalizing with
  | true =>
    rw [drop_of_finalizing hfin]
    exact s.channel.isHeld_abandon
  | false =>
    obtain ⟨log, heq⟩ := drop_of_not_finalizing hfin
    rw [heq]
    cases hc : s.isClosed with
    | true =>
      rw [close_of_closed hc]
      exact released_of_closed held hc
    | false => exact (close_of_open hc).2.2.2

/-- A session that is dropped is closed with delivery off, whatever it did before. -/
theorem drop_ended (h : InOrder host s) (held : s.channel.isHeld = true ↔ s.isClosed = false) :
    Ended host s.drop := by
  cases hfin : s.finalizing with
  | true =>
    rw [drop_of_finalizing hfin]
    cases hc : s.isClosed with
    | true =>
      have hoff := h.off (isTracing_of_closed hc)
      exact ⟨.of_finalizing hoff hfin, hc, s.channel.isHeld_abandon, hoff⟩
    | false => exact ⟨.of_finalizing rfl hfin, rfl, s.channel.isHeld_abandon, rfl⟩
  | false =>
    obtain ⟨log, heq⟩ := drop_of_not_finalizing hfin
    have hclosed := close_isClosed s
    have hin := close_inOrder h
    have hoff := hin.off (isTracing_of_closed hclosed)
    have hreleased := drop_released held
    rw [heq] at hreleased ⊢
    exact ⟨hin.of_same rfl rfl rfl, hclosed, hreleased, hoff⟩

/-- A line is written by an open session only. -/
theorem open_of_attempts {action : Action} (hx : (s.step action).attempts = true) : s.isClosed = false := by
  refine eq_false_of_ne_true fun hc => ?_
  have hnot : (s.step action).attempts = false := by
    cases action with
    | deliver n =>
      obtain ⟨reason, hignored, -⟩ := deliver_of_closed hc n
      show (s.deliver n).2.isWrite = false
      rw [hignored]
      rfl
    | mark label unwinding =>
      show Step.attempts ⟨s, .mark label unwinding, .result (s.mark label unwinding).2, _⟩ = false
      rw [mark_of_closed hc]
      rfl
    | _ => rfl
  rw [hnot] at hx
  cases hx

/-! ### Stack and rows -/

theorem Blank.of_same (h : Blank s) (hstack : t.stack = s.stack) (hseen : t.seen = s.seen) : Blank t where
  depth_eq := (congrArg CallStack.depth hstack).trans h.depth_eq
  seen_eq := hseen.trans h.seen_eq

theorem Blank.of_reset (hstack : t.stack = s.stack.reset) (hseen : t.seen = {}) : Blank t where
  depth_eq := (congrArg CallStack.depth hstack).trans s.stack.depth_reset
  seen_eq := hseen

theorem calls_of_reset {stack : CallStack} (h : t.stack = stack.reset) : t.calls = [] := by
  have hdepth : stack.reset.calls.length = 0 := by rw [← CallStack.depth_eq stack.reset_sound, stack.depth_reset]
  rw [calls, h]
  exact List.length_eq_zero_iff.mp hdepth

theorem Blank.calls (h : Blank s) (hs : s.Sound) : s.calls = [] :=
  List.length_eq_zero_iff.mp ((CallStack.depth_eq hs.stack).symm.trans h.depth_eq)

theorem Cleared.of_blank (h : Blank s) : Cleared s := ⟨fun _ => h, fun _ _ => h⟩

theorem Cleared.of_tracing (h : s.isTracing = true) : Cleared s where
  closed hc := by simp [isClosed_of_tracing h] at hc
  idle hp := by simp [isTracing, hp] at h

theorem Cleared.of_broken (hopen : s.isClosed = false) (hbroken : s.ownership.broken = true) : Cleared s where
  closed hc := by simp [hopen] at hc
  idle _ hb := by simp [hbroken] at hb

theorem Cleared.of_same (h : Cleared s) (hphase : t.phase = s.phase)
    (hbroken : s.ownership.broken = true → t.ownership.broken = true) (hstack : t.stack = s.stack)
    (hseen : t.seen = s.seen) : Cleared t where
  closed hc := (h.closed (by rwa [isClosed, ← hphase])).of_same hstack hseen
  idle hp hb := by
    have hb' : s.ownership.broken = false := eq_false_of_ne_true fun hs => by simp [hbroken hs] at hb
    exact (h.idle (hphase ▸ hp) hb').of_same hstack hseen

/-- A session that is not tracing has no call open, unless a fork was seen. -/
theorem Cleared.calls (h : Cleared s) (hs : s.Sound) (htracing : s.isTracing = false)
    (unbroken : s.ownership.broken = false) : s.calls = [] := by
  cases hp : s.phase with
  | closed => exact (h.closed (by simp [isClosed, hp])).calls hs
  | idle => exact (h.idle hp unbroken).calls hs
  | tracing => simp [isTracing, hp] at htracing

theorem start_cleared (h : Cleared s) : Cleared s.start.1 := by
  rcases start_cases s with ⟨-, heq⟩ | ⟨-, heq⟩ | ⟨hidle, -, heq⟩ | ⟨-, -, heq⟩ <;> rw [heq]
  · exact h
  · exact h
  · exact .of_broken (by simp [isClosed, say, forked, hidle]) rfl
  · exact .of_tracing rfl

theorem mark_cleared (h : Cleared s) (label : String) (unwinding : Bool) :
    Cleared (s.mark label unwinding).1 := by
  obtain ⟨hphase, -, -, hownership⟩ := mark_keeps s label unwinding
  have hbroken : s.ownership.broken = true → (s.mark label unwinding).1.ownership.broken = true := by
    rw [hownership]
    split
    · exact id
    · exact fun hb => Ownership.check_broken hb _
  have hfate := mark_fate s label unwinding
  generalize (s.mark label unwinding).2 = result at hfate
  cases hfate with
  | closed _ k => exact h.of_same hphase hbroken k.stack k.seen
  | elsewhere _ _ k => exact h.of_same hphase hbroken k.stack k.seen
  | failed _ _ _ hstack hseen => exact h.of_same hphase hbroken hstack hseen
  | written _ _ _ hstack hseen =>
    cases unwinding with
    | true => exact .of_blank (.of_reset hstack hseen)
    | false =>
      -- Forgetting the rows leaves a session cleared.
      have hforget : Cleared s.forgetRows :=
        ⟨fun hc => ⟨(h.closed hc).depth_eq, rfl⟩, fun hp hb => ⟨(h.idle hp hb).depth_eq, rfl⟩⟩
      exact hforget.of_same hphase hbroken hstack hseen

theorem deliver_cleared (h : Cleared s) (hs : s.Sound) (n : Notification) : Cleared (s.deliver n).1 := by
  rcases deliver_cases hs n with ⟨-, heq⟩ | ⟨-, -, heq⟩ | ⟨-, -, -, heq⟩ | ⟨hattentive, k⟩
  · rw [heq]
    exact h.of_same rfl id rfl rfl
  · rw [heq]
    exact h.of_same rfl id rfl rfl
  · rw [heq]
    exact .of_broken rfl rfl
  · obtain ⟨-, htracing, -⟩ := attentive_iff.mp hattentive
    exact .of_tracing (by rwa [isTracing, k.phase, ← isTracing])

theorem perform_cleared (h : Cleared s) (hs : s.Sound) {action : Action} (ha : action.isSimple = true) :
    Cleared (s.perform action).1 := by
  cases action with
  | start => exact start_cleared h
  | stop =>
    show Cleared s.stop
    cases ht : s.isTracing with
    | false => rwa [stop_of_not_tracing ht]
    | true =>
      obtain ⟨-, hstack, hseen, -⟩ := stop_of_tracing ht
      exact .of_blank (.of_reset hstack hseen)
  | mark label unwinding => exact mark_cleared h label unwinding
  | flush =>
    show Cleared s.flush.1
    rw [flush_eq]
    exact h.of_same rfl id rfl rfl
  | close =>
    show Cleared s.close.1
    cases hc : s.isClosed with
    | true => rwa [close_of_closed hc]
    | false =>
      obtain ⟨-, hstack, hseen, -⟩ := close_of_open hc
      exact .of_blank (.of_reset hstack hseen)
  | deliver n => exact deliver_cleared h hs n
  | setFaults => exact h.of_same rfl id rfl rfl
  | beginFinalize => exact h.of_same rfl id rfl rfl
  | look => exact h
  | enterProcess => exact h.of_same rfl id rfl rfl
  | enterThread => exact h.of_same rfl id rfl rfl
  | «scoped» => cases ha

theorem Reaches.cleared {past : List Step} (h : Reaches s past t) (hs : s.Sound) (hin : Cleared s) : Cleared t := by
  induction h with
  | nil => exact hin
  | snoc action ha h ih => exact perform_cleared ih (h.sound hs).1 ha

/-! ### Closed for good -/

theorem perform_shut {received : ByteArray} (h : Shut received s) {action : Action} (ha : action.isSimple = true) :
    Shut received (s.perform action).1 := by
  have hp := phase_of_closed h.closed
  have htracing := isTracing_of_closed h.closed
  cases action with
  | start =>
    show Shut received s.start.1
    rwa [start_of_closed hp]
  | stop =>
    show Shut received s.stop
    rwa [stop_of_not_tracing htracing]
  | mark label unwinding =>
    show Shut received (s.mark label unwinding).1
    rwa [mark_of_closed h.closed]
  | flush =>
    show Shut received s.flush.1
    rwa [flush_of_released h.released]
  | close =>
    show Shut received s.close.1
    rwa [close_of_closed h.closed]
  | deliver n =>
    show Shut received (s.deliver n).1
    cases hfin : s.finalizing with
    | true =>
      rw [deliver_of_finalizing hfin]
      exact ⟨h.closed, h.released, h.received_eq⟩
    | false =>
      rw [deliver_of_not_tracing hfin htracing]
      exact ⟨h.closed, h.released, h.received_eq⟩
  | setFaults faults =>
    exact ⟨h.closed, (s.channel.isHeld_setFaults faults).trans h.released,
      (s.channel.received_setFaults faults).trans h.received_eq⟩
  | beginFinalize => exact ⟨h.closed, h.released, h.received_eq⟩
  | look => exact h
  | enterProcess => exact ⟨h.closed, h.released, h.received_eq⟩
  | enterThread => exact ⟨h.closed, h.released, h.received_eq⟩
  | «scoped» => cases ha

theorem Reaches.shut {past : List Step} {received : ByteArray} (h : Reaches s past t) (hs : Shut received s) :
    Shut received t := by
  induction h with
  | nil => exact hs
  | snoc action ha _ ih => exact perform_shut ih ha

theorem Shut.final {received : ByteArray} (h : Shut received s) : Final s := by
  refine ⟨start_of_closed (phase_of_closed h.closed), perform_scoped_of_closed h.closed, mark_of_closed h.closed,
    flush_of_released h.released, close_of_closed h.closed, ?_, fun actions => ?_⟩
  · cases hfin : s.finalizing with
    | true =>
      rw [drop_of_finalizing hfin, h.closed]
      exact s.channel.destination_abandon
    | false =>
      obtain ⟨log, heq⟩ := drop_of_not_finalizing hfin
      rw [heq, close_of_closed h.closed]
      rfl
  · have hlast := (reaches_stepsOfAll s actions).shut h
    exact ⟨hlast.closed, hlast.received_eq.trans h.received_eq.symm⟩

theorem shut_of_closed (held : s.channel.isHeld = true ↔ s.isClosed = false) (hc : s.isClosed = true) :
    Shut s.destination.received s :=
  ⟨hc, released_of_closed held hc, rfl⟩

/-! ### Shutting down -/

theorem deliver_finalizing (hs : s.Sound) (n : Notification) : (s.deliver n).1.finalizing = s.finalizing := by
  rcases deliver_cases hs n with ⟨-, heq⟩ | ⟨-, -, heq⟩ | ⟨-, -, -, heq⟩ | ⟨-, k⟩
  · rw [heq]
    rfl
  · rw [heq]
    rfl
  · rw [heq]
    rfl
  · exact k.finalizing

/-- Only one action tells a session that its host shuts down. -/
theorem perform_finalizing (hs : s.Sound) {action : Action} (ha : action.isSimple = true)
    (hb : action ≠ .beginFinalize) : (s.perform action).1.finalizing = s.finalizing := by
  cases action with
  | start =>
    show s.start.1.finalizing = s.finalizing
    rcases start_cases s with ⟨-, heq⟩ | ⟨-, heq⟩ | ⟨-, -, heq⟩ | ⟨-, -, heq⟩ <;> rw [heq] <;> rfl
  | stop =>
    show s.stop.finalizing = s.finalizing
    cases ht : s.isTracing with
    | false => rw [stop_of_not_tracing ht]
    | true =>
      rw [stop_eq_stopped ht]
      rfl
  | mark label unwinding =>
    obtain ⟨-, -, hfin, -⟩ := mark_keeps s label unwinding
    exact hfin
  | flush =>
    show s.flush.1.finalizing = s.finalizing
    rw [flush_eq]
  | close =>
    show s.close.1.finalizing = s.finalizing
    cases hc : s.isClosed with
    | true => rw [close_of_closed hc]
    | false => exact (close_keeps hc).2.2
  | deliver n => exact deliver_finalizing hs n
  | beginFinalize => exact absurd rfl hb
  | setFaults => rfl
  | look => rfl
  | enterProcess => rfl
  | enterThread => rfl
  | «scoped» => cases ha

theorem Reaches.finalizing_iff {past : List Step} (h : Reaches s past t) (hs : s.Sound) :
    t.finalizing = true ↔ s.finalizing = true ∨ ∃ x ∈ past, x.action = .beginFinalize := by
  induction h with
  | nil => simp
  | @snoc past t action ha h ih =>
    have hpast : (∃ x ∈ past ++ [t.step action], x.action = .beginFinalize) ↔
        (∃ x ∈ past, x.action = .beginFinalize) ∨ action = .beginFinalize := by
      simp [step, or_and_right, exists_or]
    rw [hpast, ← or_assoc, ← ih]
    by_cases hb : action = .beginFinalize
    · rw [hb]
      exact ⟨fun _ => .inr rfl, fun _ => rfl⟩
    · rw [perform_finalizing (h.sound hs).1 ha hb]
      exact ⟨.inl, fun h => h.resolve_right hb⟩

end

/-! ### Every run -/

/-- At every point of a run phase, switch, output and stack go together, and so they do once the session is dropped
there. -/
theorem inOrder_throughout {settings : Settings} {faults : Faults} {label : String} {host : Host} {s : Session}
    (opened : create settings { destination := { faults }, label } host = .ok s) (off : host.enabled = false)
    (actions : List Action) {past : List Step} (hp : past <+: s.stepsOfAll actions) :
    InOrder host (s.after past) ∧ Cleared (s.after past) ∧
      ((s.after past).channel.isHeld = true ↔ (s.after past).isClosed = false) ∧
      (∀ x ∈ past, x.attempts = true → ∀ line, (x.before.channel.write line).2 ≠ .error .released) ∧
      ((s.after past).finalizing = true ↔ ∃ x ∈ past, x.action = .beginFinalize) ∧
      ((s.after past).isClosed = true → Final (s.after past)) ∧ Ended host (s.after past).drop := by
  have fresh := create_fresh opened
  have reaches := reaches_upTo hp
  have hin := reaches.inOrder fresh.sound (fresh.inOrder off)
  have held := reaches.held_iff fresh.sound fresh.held_iff
  have hfinalizing := reaches.finalizing_iff fresh.sound
  refine ⟨hin, reaches.cleared fresh.sound (.of_blank fresh.blank), held, ?_, ?_, fun hc => (shut_of_closed held hc).final,
    drop_ended hin held⟩
  · intro x hx hattempts line
    obtain ⟨earlier, -, hearlier, action, ha, heq⟩ := reaches.of_mem hx
    rw [heq] at hattempts
    have hheld := hearlier.held_iff fresh.sound fresh.held_iff
    exact Channel.write_ne_released (hheld.mpr (open_of_attempts hattempts)) line
  · simpa [fresh.finalizing] using hfinalizing

/-- A panic in a scope within a scope, then a fork that a notification finds out. -/
theorem inOrder_of_panic_and_fork :
    let call : Notification := { kind := .enter, receiver := .unknown }
    let actions : List Action :=
      [.scoped [.deliver call, .scoped [.mark "inner" true] (some "panic")] none, .start, .deliver call,
        .enterProcess 2, .deliver call, .beginFinalize, .close]
    ∃ s, create {} { destination := { faults := {} }, label := "" } { process := 1 } = .ok s ∧
      InOrder { process := 1 } (s.after (s.stepsOfAll actions)) ∧ Cleared (s.after (s.stepsOfAll actions)) ∧
      Final (s.after (s.stepsOfAll actions)) ∧ Ended { process := 1 } (s.after (s.stepsOfAll actions)).drop := by
  intro call actions
  obtain ⟨s, opened⟩ := create_in_memory {} (by decide)
  obtain ⟨hin, hcleared, -, -, -, hfinal, hended⟩ := inOrder_throughout opened rfl actions (List.prefix_refl _)
  refine ⟨s, opened, hin, hcleared, hfinal ?_, hended⟩
  rw [(reaches_stepsOfAll s actions).after_eq]
  simp only [actions, performAll]
  exact close_isClosed _

end Session
end MethodTrace
