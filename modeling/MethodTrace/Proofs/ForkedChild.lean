import MethodTrace.Proofs.Actions

/-! # Sessions in a forked child

A session that once saw a process other than its owner keeps its hands off the output from that step on, whichever
process it sees later (`Silent`). What it inherited in the buffer is discarded at its end (`Discards`). -/

namespace MethodTrace
open Session

/-- Whether an action is neither a notification nor closing. -/
def Action.isMinor : Action → Bool
  | .deliver _ | .close | .scoped _ _ => false
  | _ => true

/-- Whether an action leads to another process or thread. -/
def Action.moves : Action → Bool
  | .enterProcess _ | .enterThread _ => true
  | _ => false

namespace Session

/-- Whether an action makes the session look at the process it is in. -/
def asks (s : Session) : Action → Bool
  | .start => s.phase == .idle
  | .mark _ _ | .close => !s.isClosed
  | .deliver _ => s.isTracing && !s.finalizing
  | _ => false

/-- A session lets go of its output without the buffer. -/
structure Discards (s t : Session) : Prop where
  channel : t.channel = s.channel.abandon
  received : t.destination.received = s.destination.received
  enables : t.host.enables = s.host.enables
  enabled : t.host.enabled = true → s.host.enabled = true

end Session

namespace Step

/-- Whether a step finds itself in another process than the owner's. -/
def seesFork (owner : ProcessId) (x : Step) : Bool :=
  x.before.asks x.action && x.before.host.process != owner

/-- What a step does in a forked child. -/
structure Silent (x : Step) : Prop where
  received : x.after.destination.received = x.before.destination.received
  unrecorded : x.answer ≠ .outcome .recorded
  enables : x.after.host.enables = x.before.host.enables
  enabled : x.after.host.enabled = true → x.before.host.enabled = true
  stack : ∀ n, x.action = .deliver n → x.after.stack = x.before.stack
  switchedOff : ∀ n, x.action = .deliver n → x.before.isTracing = true →
    x.after.host = x.before.host.disable ∧ x.after.phase = if x.before.finalizing then .tracing else .idle
  discards : x.action = .close → x.after.channel = x.before.channel.abandon

end Step

namespace Session
variable {s t : Session}

/-! ### Whose process it is -/

theorem start_ownership (s : Session) : s.start.1.ownership =
    if s.phase == .idle then (s.ownership.check s.host.process).1 else s.ownership := by
  rcases start_cases s with ⟨hp, heq⟩ | ⟨hp, heq⟩ | ⟨hp, howns, heq⟩ | ⟨hp, howns, heq⟩ <;> rw [heq, hp]
  · rfl
  · rfl
  · rw [Ownership.check_of_not_holds howns]
    rfl
  · rw [Ownership.check_of_holds howns]
    rfl

theorem stop_ownership (s : Session) : s.stop.ownership = s.ownership := by
  cases ht : s.isTracing with
  | false => rw [stop_of_not_tracing ht]
  | true =>
    rw [stop_eq_stopped ht]
    rfl

theorem close_ownership (s : Session) : s.close.1.ownership =
    if !s.isClosed then (s.ownership.check s.host.process).1 else s.ownership := by
  cases hc : s.isClosed with
  | true =>
    rw [close_of_closed hc]
    rfl
  | false =>
    have howner := (closing_eq s).2.2.2.2
    have hclosing : s.closing.ownership = s.ownership := by
      unfold closing
      cases s.isTracing <;> rfl
    rw [close_eq_letGo hc]
    cases howns : s.ownsProcess with
    | false =>
      rw [letGo_of_child (howner.trans howns), Ownership.check_of_not_holds howns]
      exact congrArg (fun o : Ownership => { o with broken := true }) hclosing
    | true =>
      obtain ⟨log, result, hgo⟩ := letGo_of_owner (howner.trans howns)
      rw [hgo, Ownership.check_of_holds howns]
      exact hclosing

theorem deliver_ownership (hs : s.Sound) (n : Notification) : (s.deliver n).1.ownership =
    if s.isTracing && !s.finalizing then (s.ownership.check s.host.process).1 else s.ownership := by
  rcases deliver_cases hs n with ⟨hfin, heq⟩ | ⟨hfin, htracing, heq⟩ | ⟨hfin, htracing, howns, heq⟩ | ⟨hattentive, k⟩
  · rw [heq, hfin, Bool.not_true, Bool.and_false]
    rfl
  · rw [heq, htracing]
    rfl
  · rw [heq, htracing, hfin, Ownership.check_of_not_holds howns]
    rfl
  · obtain ⟨hfin, htracing, howns⟩ := attentive_iff.mp hattentive
    rw [k.ownership, htracing, hfin, Ownership.check_of_holds howns]
    rfl

/-- The process is looked at by the actions that ask for it, and by no other. -/
theorem perform_ownership (hs : s.Sound) {action : Action} (ha : action.isSimple = true) :
    (s.perform action).1.ownership =
      if s.asks action then (s.ownership.check s.host.process).1 else s.ownership := by
  cases action with
  | start => exact start_ownership s
  | stop => exact stop_ownership s
  | mark label unwinding =>
    obtain ⟨-, -, -, hownership⟩ := mark_keeps s label unwinding
    show (s.mark label unwinding).1.ownership = if !s.isClosed then _ else _
    rw [hownership]
    cases s.isClosed <;> rfl
  | flush => exact congrArg (·.ownership) (flush_eq s)
  | close => exact close_ownership s
  | deliver n => exact deliver_ownership hs n
  | setFaults => rfl
  | beginFinalize => rfl
  | look => rfl
  | enterProcess => rfl
  | enterThread => rfl
  | «scoped» => cases ha

theorem Reaches.owner {past : List Step} (h : Reaches s past t) (hs : s.Sound) :
    t.ownership.owner = s.ownership.owner := by
  induction h with
  | nil => rfl
  | @snoc past t action ha h ih =>
    rw [perform_ownership (h.sound hs).1 ha, ← ih]
    split
    · exact t.ownership.check_owner _
    · rfl

theorem Reaches.broken {past : List Step} (h : Reaches s past t) (hs : s.Sound)
    (hb : s.ownership.broken = true) : t.ownership.broken = true := by
  induction h with
  | nil => exact hb
  | @snoc past t action ha h ih =>
    rw [perform_ownership (h.sound hs).1 ha]
    split
    · exact Ownership.check_broken ih _
    · exact ih

theorem not_owns_of_broken (h : s.ownership.broken = true) : s.ownsProcess = false := by
  simp [ownsProcess, Ownership.holds, h]

theorem unbroken_of_owns (h : s.ownsProcess = true) : s.ownership.broken = false :=
  eq_false_of_ne_true fun hb => by simp [not_owns_of_broken hb] at h

theorem not_owns_of_other (h : s.host.process ≠ s.ownership.owner) : s.ownsProcess = false := by
  simp [ownsProcess, Ownership.holds, h]

/-- The owner of the session, and where it is, stay as they are unless the action leads elsewhere. -/
theorem perform_place (hs : s.Sound) {action : Action} (ha : action.isSimple = true) (hmoves : action.moves = false) :
    (s.perform action).1.host.process = s.host.process ∧ (s.perform action).1.host.thread = s.host.thread ∧
      (s.perform action).1.ownerThread = s.ownerThread := by
  have place : ∀ {t}, Stays s t → t.host.process = s.host.process ∧ t.host.thread = s.host.thread ∧
      t.ownerThread = s.ownerThread := fun h => ⟨h.process, h.thread, h.ownerThread⟩
  cases action with
  | start => exact place (start_stays s)
  | stop => exact place (stop_stays s)
  | mark label unwinding => exact place (mark_stays s label unwinding)
  | flush => exact place (flush_stays s)
  | close => exact place (close_stays s)
  | deliver n =>
    show (s.deliver n).1.host.process = _ ∧ (s.deliver n).1.host.thread = _ ∧ (s.deliver n).1.ownerThread = _
    rcases deliver_cases hs n with ⟨-, heq⟩ | ⟨-, -, heq⟩ | ⟨-, -, -, heq⟩ | ⟨-, k⟩
    case inr.inr.inr => exact ⟨congrArg Host.process k.host, congrArg Host.thread k.host, k.ownerThread⟩
    all_goals
      rw [heq]
      exact ⟨rfl, rfl, rfl⟩
  | setFaults => exact ⟨rfl, rfl, rfl⟩
  | beginFinalize => exact ⟨rfl, rfl, rfl⟩
  | look => exact ⟨rfl, rfl, rfl⟩
  | enterProcess => cases hmoves
  | enterThread => cases hmoves
  | «scoped» => cases ha

theorem perform_ownsContext (hs : s.Sound) {action : Action} (ha : action.isSimple = true)
    (hmoves : action.moves = false) (hctx : s.ownsContext = true) : (s.perform action).1.ownsContext = true := by
  obtain ⟨hprocess, hthread, howner⟩ := perform_place hs ha hmoves
  obtain ⟨howns, -⟩ := ownsContext_iff.mp hctx
  have hownership : (s.perform action).1.ownership = s.ownership := by
    rw [perform_ownership hs ha, Ownership.check_of_holds howns, ite_self]
  rw [← hctx, ownsContext, ownsProcess, hownership, hprocess, hthread, howner]
  rfl

/-- A run that leads nowhere else stays in the process and the thread of the session. -/
theorem Reaches.ownsContext {past : List Step} (h : Reaches s past t) (hs : s.Sound)
    (hmoves : ∀ x ∈ past, x.action.moves = false) (hctx : s.ownsContext = true) : t.ownsContext = true := by
  induction h with
  | nil => exact hctx
  | snoc action ha h ih =>
    exact perform_ownsContext (h.sound hs).1 ha (hmoves _ (List.mem_append_right _ (List.mem_singleton.mpr rfl)))
      (ih fun x hx => hmoves x (List.mem_append_left _ hx))

/-- Seeing another process is remembered. -/
theorem broken_of_seesFork (hs : s.Sound) {action : Action} (ha : action.isSimple = true)
    (hfork : (s.step action).seesFork s.ownership.owner = true) : (s.perform action).1.ownership.broken = true := by
  simp only [Step.seesFork, step, Bool.and_eq_true, bne_iff_ne] at hfork
  rw [perform_ownership hs ha, if_pos hfork.1, Ownership.check_of_not_holds (not_owns_of_other hfork.2)]

/-! ### Letting go without the buffer -/

theorem received_of_abandon (h : t.channel = s.channel.abandon) : t.destination.received = s.destination.received := by
  rw [destination, h, Channel.destination_abandon, destination]

theorem close_discards (held : s.channel.isHeld = true ↔ s.isClosed = false) (howns : s.ownsProcess = false) :
    Discards s s.close.1 := by
  cases hc : s.isClosed with
  | true =>
    rw [close_of_closed hc]
    exact ⟨(Channel.abandon_of_released (released_of_closed held hc)).symm, rfl, rfl, id⟩
  | false =>
    obtain ⟨-, -, -, hchannel, howner⟩ := closing_eq s
    obtain ⟨-, hhost, -⟩ := close_keeps hc
    have habandon : s.close.1.channel = s.channel.abandon := by
      rw [close_eq_letGo hc, letGo_of_child (howner.trans howns)]
      exact congrArg Channel.abandon hchannel
    refine ⟨habandon, received_of_abandon habandon, ?_, ?_⟩ <;> rw [hhost] <;> cases s.isTracing
    · rfl
    · rfl
    · exact id
    · exact nofun

theorem drop_discards (held : s.channel.isHeld = true ↔ s.isClosed = false) (howns : s.ownsProcess = false) :
    Discards s s.drop := by
  cases hfin : s.finalizing with
  | true =>
    rw [drop_of_finalizing hfin]
    refine ⟨rfl, received_of_abandon rfl, ?_, ?_⟩ <;> cases s.isClosed
    · rfl
    · rfl
    · exact nofun
    · exact id
  | false =>
    obtain ⟨log, heq⟩ := drop_of_not_finalizing hfin
    have h := close_discards held howns
    rw [heq]
    exact ⟨h.channel, h.received, h.enables, h.enabled⟩

/-! ### Silence -/

theorem silent_of_result {action : Action} {result : Except SessionError Unit} (hminor : action.isMinor = true)
    (hanswer : (s.perform action).2 = .result result)
    (received : (s.perform action).1.destination.received = s.destination.received)
    (enables : (s.perform action).1.host.enables = s.host.enables)
    (enabled : (s.perform action).1.host.enabled = true → s.host.enabled = true) : (s.step action).Silent := by
  have hdeliver : ∀ n, (s.step action).action ≠ .deliver n := by
    rintro n h
    replace h : action = .deliver n := h
    rw [h] at hminor
    cases hminor
  have hclose : (s.step action).action ≠ .close := by
    intro h
    replace h : action = .close := h
    rw [h] at hminor
    cases hminor
  have hunrecorded : (s.step action).answer ≠ .outcome .recorded := by
    intro h
    replace h : (s.perform action).2 = .outcome .recorded := h
    rw [hanswer] at h
    cases h
  exact ⟨received, hunrecorded, enables, enabled, fun n h => absurd h (hdeliver n), fun n h => absurd h (hdeliver n),
    fun h => absurd h hclose⟩

theorem silent_of_same {action : Action} {result : Except SessionError Unit} (hminor : action.isMinor = true)
    (hanswer : (s.perform action).2 = .result result) (hchannel : (s.perform action).1.channel = s.channel)
    (hhost : (s.perform action).1.host = s.host) : (s.step action).Silent :=
  silent_of_result hminor hanswer (congrArg (·.destination.received) hchannel) (congrArg Host.enables hhost)
    (hhost ▸ id)

theorem deliver_silent (hs : s.Sound) (howns : s.ownsProcess = false) (n : Notification) :
    (s.step (.deliver n)).Silent := by
  -- Ignoring the notification leaves the output and the calls as they are; what happens to the switch is left to say.
  have ignored : ∀ {t : Session} {reason : IgnoreReason}, s.deliver n = (t, .ignored reason) → SameTrace s t →
      t.host.enables = s.host.enables → (t.host.enabled = true → s.host.enabled = true) →
      (s.isTracing = true → t.host = s.host.disable ∧ t.phase = if s.finalizing then .tracing else .idle) →
      (s.step (.deliver n)).Silent := by
    intro t reason heq k henables henabled hoff
    have hafter : (s.step (.deliver n)).after = t := congrArg Prod.fst heq
    have hanswer : (s.step (.deliver n)).answer = .outcome (.ignored reason) :=
      congrArg (fun result : Session × Outcome => Answer.outcome result.2) heq
    refine ⟨?_, ?_, ?_, ?_, fun _ _ => ?_, fun _ _ => ?_, nofun⟩
    · rw [hafter, destination, k.channel]
      rfl
    · simp [hanswer]
    · rw [hafter]
      exact henables
    · rw [hafter]
      exact henabled
    · rw [hafter]
      exact k.stack
    · rw [hafter]
      exact hoff
  rcases deliver_cases hs n with ⟨hfin, heq⟩ | ⟨hfin, hidle, heq⟩ | ⟨hfin, htracing, -, heq⟩ | ⟨hattentive, -⟩
  · refine ignored heq ⟨rfl, rfl, rfl, rfl⟩ rfl nofun fun htracing => ⟨rfl, ?_⟩
    rw [hfin]
    exact eq_of_beq htracing
  · exact ignored heq ⟨rfl, rfl, rfl, rfl⟩ rfl id fun htracing => by simp [hidle] at htracing
  · refine ignored heq ⟨rfl, rfl, rfl, rfl⟩ rfl nofun fun _ => ⟨rfl, ?_⟩
    rw [hfin]
    rfl
  · obtain ⟨-, -, howner⟩ := attentive_iff.mp hattentive
    simp [howns] at howner

/-- In a process that is not the owner's, every step but a flush is silent. -/
theorem perform_silent (hs : s.Sound) (held : s.channel.isHeld = true ↔ s.isClosed = false)
    (howns : s.ownsProcess = false) {action : Action} (ha : action.isSimple = true) (hflush : action ≠ .flush) :
    (s.step action).Silent := by
  cases action with
  | start =>
    rcases start_cases s with ⟨-, heq⟩ | ⟨-, heq⟩ | ⟨-, -, heq⟩ | ⟨-, howner, -⟩
    · exact silent_of_same rfl rfl (congrArg (·.1.channel) heq) (congrArg (·.1.host) heq)
    · exact silent_of_same rfl rfl (congrArg (·.1.channel) heq) (congrArg (·.1.host) heq)
    · exact silent_of_same rfl rfl (congrArg (·.1.channel) heq) (congrArg (·.1.host) heq)
    · simp [howns] at howner
  | stop =>
    cases ht : s.isTracing with
    | false =>
      have heq := stop_of_not_tracing ht
      exact silent_of_same rfl rfl (congrArg channel heq) (congrArg host heq)
    | true =>
      have heq := stop_eq_stopped ht
      refine silent_of_result rfl rfl (congrArg (·.destination.received) heq) (congrArg (·.host.enables) heq) ?_
      show s.stop.host.enabled = true → s.host.enabled = true
      rw [heq]
      exact nofun
  | mark label unwinding =>
    rcases mark_cases s label unwinding with ⟨-, heq⟩ | ⟨-, -, heq⟩ | ⟨-, howner, -⟩ | ⟨-, hctx, -⟩ | ⟨-, hctx, -⟩
    · exact silent_of_same rfl rfl (congrArg (·.1.channel) heq) (congrArg (·.1.host) heq)
    · exact silent_of_same rfl rfl (congrArg (·.1.channel) heq) (congrArg (·.1.host) heq)
    · simp [howns] at howner
    · simp [ownsContext, howns] at hctx
    · simp [ownsContext, howns] at hctx
  | flush => exact absurd rfl hflush
  | close =>
    have h := close_discards held howns
    refine ⟨h.received, fun hanswer => ?_, h.enables, h.enabled, fun _ hdeliver => ?_, fun _ hdeliver => ?_,
      fun _ => h.channel⟩
    · cases hanswer
    · cases hdeliver
    · cases hdeliver
  | deliver n => exact deliver_silent hs howns n
  | setFaults faults =>
    exact silent_of_result rfl rfl (s.channel.received_setFaults faults) rfl id
  | beginFinalize => exact silent_of_same rfl rfl rfl rfl
  | look => exact silent_of_same rfl rfl rfl rfl
  | enterProcess => exact silent_of_result rfl rfl rfl rfl id
  | enterThread => exact silent_of_result rfl rfl rfl rfl id
  | «scoped» => cases ha

/-- Once another process was seen, a run without a flush is silent, whatever process it goes on in. -/
theorem Reaches.silent {past : List Step} (h : Reaches s past t) (hs : s.Sound)
    (held : s.channel.isHeld = true ↔ s.isClosed = false) (hbroken : s.ownership.broken = true)
    (hflush : ∀ y ∈ past, y.action ≠ .flush) :
    (∀ y ∈ past, y.Silent) ∧ t.destination.received = s.destination.received := by
  induction h with
  | nil => exact ⟨by simp, rfl⟩
  | @snoc past t action ha h ih =>
    obtain ⟨hsilent, hreceived⟩ := ih fun y hy => hflush y (List.mem_append_left _ hy)
    have hlast : action ≠ .flush := hflush _ (List.mem_append_right _ (List.mem_singleton.mpr rfl))
    have hx : (t.step action).Silent :=
      perform_silent (h.sound hs).1 (h.held_iff hs held) (not_owns_of_broken (h.broken hs hbroken)) ha hlast
    refine ⟨fun y hy => ?_, hx.received.trans hreceived⟩
    rcases List.mem_append.mp hy with hy | hy
    · exact hsilent y hy
    · rw [List.mem_singleton.mp hy]
      exact hx

theorem Reaches.broken_of_fork {past : List Step} (h : Reaches s past t) (hs : s.Sound)
    (hfork : ∃ x ∈ past, x.seesFork s.ownership.owner = true) : t.ownership.broken = true := by
  obtain ⟨x, hx, hfork⟩ := hfork
  obtain ⟨earlier, later, rfl⟩ := List.append_of_mem hx
  obtain ⟨hearlier, hrest⟩ := h.split
  obtain ⟨action, ha, rfl, hlater⟩ := hrest.first
  have hsound := (hearlier.sound hs).1
  rw [← hearlier.owner hs] at hfork
  exact hlater.broken (perform_sound hsound ha).1 (broken_of_seesFork hsound ha hfork)

/-- From the step on that finds itself in another process, every step is silent as long as the session is not told to
flush. At its end the session discards what it inherited. -/
theorem silent_after_fork {settings : Settings} {faults : Faults} {label : String} {host : Host}
    (opened : create settings { destination := { faults }, label } host = .ok s) (actions : List Action)
    {past : List Step} (hp : past <+: s.stepsOfAll actions) :
    (∀ earlier x later, past = earlier ++ x :: later → x.seesFork host.process = true →
        (∀ y ∈ later, y.action ≠ .flush) →
      (∀ y ∈ x :: later, y.Silent) ∧
        (s.after past).destination.received = (s.after earlier).destination.received) ∧
    (((s.after past).host.process ≠ host.process ∨ ∃ x ∈ past, x.seesFork host.process = true) →
      Discards (s.after past) (s.after past).drop) := by
  have fresh := create_fresh opened
  have hs := fresh.sound
  have howner : s.ownership.owner = host.process := by rw [fresh.ownership]
  have reaches := reaches_upTo hp
  rw [← howner]
  refine ⟨?_, fun hfork => ?_⟩
  · rintro earlier x later rfl hfork hflush
    obtain ⟨hearlier, hrest⟩ := reaches.split
    obtain ⟨action, ha, rfl, hlater⟩ := hrest.first
    obtain ⟨hsound, -⟩ := hearlier.sound hs
    rw [← hearlier.owner hs] at hfork
    have hother : (s.after earlier).host.process ≠ (s.after earlier).ownership.owner := by
      simp only [Step.seesFork, Bool.and_eq_true, bne_iff_ne] at hfork
      exact hfork.2
    have hnot : action ≠ .flush := by
      rintro rfl
      cases hfork
    have held := hearlier.held_iff hs fresh.held_iff
    have hx := perform_silent hsound held (not_owns_of_other hother) ha hnot
    obtain ⟨hsilent, hreceived⟩ := hlater.silent (perform_sound hsound ha).1
      ((Reaches.single ha).held_iff hsound held) (broken_of_seesFork hsound ha hfork) hflush
    refine ⟨fun y hy => ?_, hreceived.trans hx.received⟩
    rcases List.mem_cons.mp hy with rfl | hy
    · exact hx
    · exact hsilent y hy
  · refine drop_discards (reaches.held_iff hs fresh.held_iff) ?_
    rcases hfork with hother | hfork
    · exact not_owns_of_other (by rwa [reaches.owner hs])
    · exact not_owns_of_broken (reaches.broken_of_fork hs hfork)

/-- A mark finds out about a fork while tracing. The owner's number comes back, and the trace goes on in silence. -/
theorem silent_of_reverted_process :
    let call : Notification := { kind := .enter, receiver := .unknown }
    let actions : List Action :=
      [.start, .deliver call, .enterProcess 2, .mark "child" true, .enterProcess 1, .deliver call, .start, .close]
    ∃ s, create { rootCalls := true } { destination := { faults := {} }, label := "" } { process := 1 } = .ok s ∧
      ∃ earlier x later, s.stepsOfAll actions = earlier ++ x :: later ∧ x.action = .mark "child" true ∧
        (∀ y ∈ x :: later, y.Silent) ∧
        (s.after (s.stepsOfAll actions)).destination.received = (s.after earlier).destination.received ∧
        Discards (s.after (s.stepsOfAll actions)) (s.after (s.stepsOfAll actions)).drop := by
  intro call actions
  obtain ⟨s, opened⟩ := create_in_memory { rootCalls := true } (by decide)
  have fresh := create_fresh opened
  let started := (s.perform .start).1
  let parent := (started.perform (.deliver call)).1
  let child := (parent.perform (.enterProcess 2)).1
  let later := (child.perform (.mark "child" true)).1.stepsOfAll [.enterProcess 1, .deliver call, .start, .close]
  have hsteps : s.stepsOfAll actions =
      [s.step .start, started.step (.deliver call), parent.step (.enterProcess 2)] ++
        child.step (.mark "child" true) :: later := rfl
  have hfork : (child.step (.mark "child" true)).seesFork 1 = true := by
    have hstarted : started.isClosed = false := (perform_isClosed fresh.sound rfl (by simp)).trans fresh.isClosed_eq
    have hparent : parent.isClosed = false :=
      (perform_isClosed (perform_sound fresh.sound rfl).1 rfl (by simp)).trans hstarted
    show (!parent.isClosed && (2 : ProcessId) != 1) = true
    rw [hparent]
    rfl
  have hflush : ∀ y ∈ later, y.action ≠ .flush := by simp [later, stepsOfAll, steps, step]
  obtain ⟨hsilent, hdiscards⟩ := silent_after_fork opened actions (List.prefix_refl _)
  obtain ⟨hquiet, hreceived⟩ := hsilent _ _ _ hsteps hfork hflush
  refine ⟨s, opened, _, _, _, hsteps, rfl, hquiet, hreceived, hdiscards (.inr ⟨_, ?_, hfork⟩)⟩
  rw [hsteps]
  exact List.mem_append_right _ List.mem_cons_self

end Session
end MethodTrace
