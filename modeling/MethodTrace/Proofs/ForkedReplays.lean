import MethodTrace.Proofs.InheritedBuffer
import MethodTrace.Proofs.Replays

/-! # Replays that go on in a child

A replay flushes the session before it goes on in another process. Nothing is buffered from there on, so that not even
another flush puts anything out, and the first notification that is delivered there switches delivery off (`Hushed`). -/

namespace MethodTrace
open Session

/-- Whether a step delivers a notification while delivery is on. -/
def Step.arrives (x : Step) : Bool := x.delivers && x.before.host.enabled

/-! ### The buffer in a child -/

namespace Channel

theorem buffered_abandon (c : Channel) : c.abandon.buffered = .empty := by
  cases c <;> rfl

theorem flush_of_empty {c : Channel} (h : c.buffered = .empty) :
    c.flush.1.destination.received = c.destination.received ∧ c.flush.1.buffered = .empty := by
  obtain ⟨k, hk, hreceived, hrest, -⟩ := c.flush_split
  rw [h] at hk hreceived hrest
  obtain rfl : k = 0 := Nat.le_zero.mp hk
  exact ⟨hreceived.trans ByteArray.append_empty, hrest⟩

theorem flushed_of_ok {c : Channel} (h : c.flush.2 = some (.ok ())) :
    c.flush.1.destination.received = c.stream ∧ c.flush.1.buffered = .empty := by
  cases c with
  | released => cases h
  | held output =>
    have hempty : output.flush.1.buffer = .empty := Output.flush_empties (Option.some.inj h)
    refine ⟨?_, hempty⟩
    show output.flush.1.destination.received = output.stream
    rw [← output.flush_stream, Output.stream, hempty, ByteArray.append_empty]

end Channel

namespace Session
variable {s : Session}

/-- Nothing comes into the buffer in a process that is not the owner's. -/
theorem perform_empty (hs : s.Sound) (held : s.channel.isHeld = true ↔ s.isClosed = false)
    (howns : s.ownsProcess = false) (hempty : s.channel.buffered = .empty) {action : Action}
    (ha : action.isSimple = true) : (s.perform action).1.channel.buffered = .empty := by
  have of_same : ∀ {t : Session}, t.channel = s.channel → t.channel.buffered = .empty := by
    intro t h
    rwa [h]
  cases action with
  | start => exact of_same (start_sameTrace s).channel
  | stop =>
    cases ht : s.isTracing with
    | false => exact of_same (congrArg channel (stop_of_not_tracing ht))
    | true => exact of_same (stop_of_tracing ht).2.2.2
  | mark label unwinding =>
    rcases mark_cases s label unwinding with ⟨-, heq⟩ | ⟨-, -, heq⟩ | ⟨-, howner, -⟩ | ⟨-, hctx, -⟩ | ⟨-, hctx, -⟩
    · exact of_same (congrArg (·.1.channel) heq)
    · exact of_same (congrArg (·.1.channel) heq)
    · simp [howns] at howner
    · simp [ownsContext, howns] at hctx
    · simp [ownsContext, howns] at hctx
  | flush =>
    show s.flush.1.channel.buffered = .empty
    rw [flush_eq]
    exact (Channel.flush_of_empty hempty).2
  | close =>
    show s.close.1.channel.buffered = .empty
    rw [(close_discards held howns).channel]
    exact s.channel.buffered_abandon
  | deliver n =>
    rcases deliver_cases hs n with ⟨-, heq⟩ | ⟨-, -, heq⟩ | ⟨-, -, -, heq⟩ | ⟨hattentive, -⟩
    · exact of_same (congrArg (·.1.channel) heq)
    · exact of_same (congrArg (·.1.channel) heq)
    · exact of_same (congrArg (·.1.channel) heq)
    · obtain ⟨-, -, howner⟩ := attentive_iff.mp hattentive
      simp [howns] at howner
  | setFaults faults =>
    show (s.channel.setFaults faults).buffered = .empty
    rw [← hempty]
    cases s.channel <;> rfl
  | beginFinalize => exact hempty
  | look => exact hempty
  | enterProcess => exact hempty
  | enterThread => exact hempty
  | «scoped» => cases ha

end Session

namespace Replay

/-- What a move adds to a number that each run counts from its beginning. -/
def Move.gain (total : ReplayTotals → Nat) (x : Move) : Nat :=
  total x.after.totals - if x.operation?.isSome then total x.before.totals else 0

/-- A session that is not in the process that opened it and has nothing to put out. -/
structure Hushed (host : Host) (received : ByteArray) (s : Session) : Prop extends Kept host s where
  elsewhere : s.host.process ≠ host.process
  received_eq : s.destination.received = received
  empty : s.channel.buffered = .empty

section
variable {host : Host} {received : ByteArray} {s t : Session}

/-! ### Steps in a child -/

theorem Hushed.not_owns (h : Hushed host received s) : s.ownsProcess = false :=
  not_owns_of_other (by rw [h.owner]; exact h.elsewhere)

theorem Hushed.of_log (h : Hushed host received s) (log : Array Diagnostic) :
    Hushed host received { s with log } where
  toKept := h.toKept.of_log log
  elsewhere := h.elsewhere
  received_eq := h.received_eq
  empty := h.empty

theorem Hushed.close (h : Hushed host received s) : s.close.1.destination.received = received :=
  (close_discards h.held h.not_owns).received.trans h.received_eq

theorem Hushed.drop (h : Hushed host received s) : s.drop.destination.received = received :=
  (drop_discards h.held h.not_owns).received.trans h.received_eq

theorem answer_of_outcome? {x : Step} {outcome : Outcome} (h : x.outcome? = some outcome) :
    x.answer = .outcome outcome := by
  obtain ⟨before, action, answer, after⟩ := x
  cases answer with
  | outcome => exact congrArg Answer.outcome (Option.some.inj h)
  | _ => cases h

/-- A step in a child reaches the destination in no way. A notification that arrives there switches delivery off. -/
theorem perform_hushed (h : Hushed host received s) {action : Action} (ha : action.isSimple = true)
    (hback : action ≠ .enterProcess host.process) :
    Hushed host received (s.perform action).1 ∧ (s.step action).outcome? ≠ some .recorded ∧
      (host.enabled = false → (s.step action).arrives.toNat + (s.perform action).1.host.enabled.toNat ≤
        s.host.enabled.toNat) := by
  have hkept : Kept host (s.perform action).1 := h.toKept.reaches (.single ha)
  have hempty := perform_empty h.sound h.held h.not_owns h.empty ha
  have helsewhere : (s.perform action).1.host.process ≠ host.process := by
    cases hmoves : action.moves with
    | false =>
      rw [(perform_place h.sound ha hmoves).1]
      exact h.elsewhere
    | true =>
      cases action with
      | enterProcess process => exact fun heq => hback (congrArg Action.enterProcess heq)
      | enterThread => exact h.elsewhere
      | _ => cases hmoves
  -- A flush asks nobody whose process it is in, but there is nothing to put out.
  by_cases hflush : action = .flush
  · subst hflush
    have hreceived : (s.perform .flush).1.destination.received = s.destination.received := by
      show s.flush.1.channel.destination.received = _
      rw [flush_eq]
      exact (Channel.flush_of_empty h.empty).1
    have hhost : (s.perform .flush).1.host = s.host := by
      show s.flush.1.host = s.host
      rw [flush_eq]
    refine ⟨⟨hkept, helsewhere, hreceived.trans h.received_eq, hempty⟩, nofun, fun _ => ?_⟩
    rw [hhost]
    exact Nat.le_of_eq (Nat.zero_add _)
  · have hsilent := perform_silent h.sound h.held h.not_owns ha hflush
    refine ⟨⟨hkept, helsewhere, hsilent.received.trans h.received_eq, hempty⟩, fun hrecorded => ?_, fun off => ?_⟩
    · exact hsilent.unrecorded (answer_of_outcome? hrecorded)
    · cases harrives : (s.step action).arrives with
      | false =>
        rw [Bool.toNat_false, Nat.zero_add]
        exact Bool.toNat_le_toNat hsilent.enabled
      | true =>
        -- Delivery is on while tracing only, and a session that traces switches it off when it finds the fork.
        obtain ⟨hdelivers, hon⟩ := Bool.and_eq_true_iff.mp harrives
        replace hon : s.host.enabled = true := hon
        cases action with
        | deliver n =>
          have htracing := (h.order off).tracing_of_enabled hon
          have hhost : (s.perform (.deliver n)).1.host = s.host.disable := (hsilent.switchedOff n rfl htracing).1
          rw [hhost, hon]
          exact Nat.le_refl 1
        | _ => cases hdelivers

theorem reaches_hushed {past : List Step} (reaches : Reaches s past t) (h : Hushed host received s)
    (hback : ∀ y ∈ past, y.action ≠ .enterProcess host.process) :
    Hushed host received t ∧ answers .recorded past = 0 ∧
      (host.enabled = false → past.countP Step.arrives + t.host.enabled.toNat ≤ s.host.enabled.toNat) := by
  induction reaches with
  | nil => exact ⟨h, rfl, fun _ => Nat.le_of_eq (Nat.zero_add _)⟩
  | @snoc past t action ha _ ih =>
    obtain ⟨hpast, hlast⟩ := List.forall_mem_append.mp hback
    obtain ⟨hbefore, hunrecorded, harrivals⟩ := ih hpast
    obtain ⟨hafter, hanswer, hstep⟩ := perform_hushed hbefore ha (hlast _ List.mem_cons_self)
    have hnone : answers .recorded [t.step action] = 0 := by simp [answers, hanswer]
    refine ⟨hafter, ?_, fun off => ?_⟩
    · rw [answers_append, hunrecorded, hnone]
    · have := harrivals off
      have := hstep off
      rw [List.countP_append, Step.countP_single]
      omega

/-! ### Moves in a child -/

variable {r u : Replay} {x : Move} {later : List Move}

theorem Makes.gain (h : r.Makes x) : x.gain ReplayTotals.delivered = x.steps.countP Step.delivers ∧
    x.gain ReplayTotals.recorded = answers .recorded x.steps := by
  cases h with
  | beginning script =>
    obtain ⟨hdelivers, hrecorded⟩ := (Makes.beginning (r := r) script).untold rfl
    rw [hdelivers, hrecorded]
    exact ⟨rfl, rfl⟩
  | operation position operation =>
    obtain ⟨-, hdelivered, -, hrecorded⟩ := totals_step r position operation
    constructor
    · exact (congrArg (· - r.totals.delivered) hdelivered).trans (Nat.add_sub_cancel_left ..)
    · exact (congrArg (· - r.totals.recorded) hrecorded).trans (Nat.add_sub_cancel_left ..)

/-- What a replay delivers, it delivers while delivery is on. -/
theorem Makes.arrivals (h : r.Makes x) : x.steps.countP Step.delivers = x.steps.countP Step.arrives := by
  refine List.countP_congr fun y hy => ⟨fun hd => ?_, fun ha => (Bool.and_eq_true_iff.mp ha).1⟩
  obtain ⟨hon, thread, n, rfl⟩ := h.delivered hy hd
  exact Bool.and_eq_true_iff.mpr ⟨hd, hon⟩

theorem Makes.hushed (h : r.Makes x) (k : Hushed host received r.session)
    (hfork : x.operation? ≠ some (.fork host.process)) :
    Hushed host received x.after.session ∧ x.gain ReplayTotals.recorded = 0 ∧
      (host.enabled = false → x.gain ReplayTotals.delivered + x.after.session.host.enabled.toNat ≤
        r.session.host.enabled.toNat) := by
  have hback : ∀ y ∈ x.steps, y.action ≠ .enterProcess host.process := by
    intro y hy hback
    obtain ⟨t, action, ha, rfl⟩ := h.step_suits hy
    exact hfork (ha.fork _ hback)
  obtain ⟨t, log, hreaches, hafter⟩ := h.reaches
  obtain ⟨hhushed, hunrecorded, harrivals⟩ := reaches_hushed hreaches k hback
  obtain ⟨hdelivered, hrecorded⟩ := h.gain
  rw [hdelivered, h.arrivals, hrecorded, hafter]
  exact ⟨hhushed.of_log log, hunrecorded, harrivals⟩

theorem Plays.hushed (h : Plays r later u) (k : Hushed host received r.session)
    (hfork : ∀ y ∈ later, y.operation? ≠ some (.fork host.process)) :
    (∀ y ∈ later, Hushed host received y.after.session) ∧ (later.map (Move.gain ReplayTotals.recorded)).sum = 0 ∧
      (host.enabled = false → (later.map (Move.gain ReplayTotals.delivered)).sum + u.session.host.enabled.toNat ≤
        r.session.host.enabled.toNat) := by
  induction h with
  | nil => exact ⟨List.forall_mem_nil _, rfl, fun _ => Nat.le_of_eq (Nat.zero_add _)⟩
  | cons hx _ ih =>
    obtain ⟨hfirst, hrest⟩ := List.forall_mem_cons.mp hfork
    obtain ⟨hafter, hrecorded, hdelivered⟩ := hx.hushed k hfirst
    obtain ⟨hall, hunrecorded, hlater⟩ := ih hafter hrest
    refine ⟨List.forall_mem_cons.mpr ⟨hafter, hall⟩, ?_, fun off => ?_⟩
    · rw [List.map_cons, List.sum_cons, hrecorded, hunrecorded]
    · have := hdelivered off
      have := hlater off
      rw [List.map_cons, List.sum_cons]
      omega

/-! ### Going on in a child -/

/-- A replay that goes on in another process has put out everything, unless the session was closed. -/
theorem fork_puts_out (held : r.session.channel.isHeld = true ↔ r.session.isClosed = false) {process : ProcessId}
    (hok : (r.fork process).2 = .ok ()) :
    let t := (r.fork process).1.session
    t.host.process = process ∧ t.channel.buffered = .empty ∧
      (r.session.isClosed = false → t.destination.received = r.session.channel.stream) := by
  unfold fork at hok ⊢
  cases hclosed : r.session.isClosed with
  | true =>
    have hreleased := released_of_closed held hclosed
    have hempty : r.session.channel.buffered = .empty := by
      cases hchannel : r.session.channel with
      | held => simp [hchannel, Channel.isHeld] at hreleased
      | released => rfl
    exact ⟨rfl, hempty, nofun⟩
  | false =>
    have hchannel : r.session.flush.1.channel = r.session.channel.flush.1 := congrArg channel (flush_eq r.session)
    rw [hclosed] at hok
    simp only [Bool.false_eq_true, if_false] at hok ⊢
    rcases hf : r.session.flush with ⟨t, error | _⟩ <;> rw [hf] at hok hchannel
    · cases hok
    · obtain ⟨hreceived, hempty⟩ := Channel.flushed_of_ok (flush_ok (congrArg Prod.snd hf))
      rw [← hchannel] at hreceived hempty
      exact ⟨rfl, hempty, fun _ => hreceived⟩

theorem Makes.goes_on {process : ProcessId} (h : r.Makes x) (k : Kept host r.session)
    (hfork : x.operation? = some (.fork process)) (hok : x.result = .ok ()) (hother : process ≠ host.process) :
    Hushed host x.after.session.destination.received x.after.session ∧
      (r.session.isClosed = false → x.after.session.destination.received = r.session.channel.stream) := by
  have hkept := h.kept k
  cases h with
  | beginning => cases hfork
  | operation position operation =>
    obtain rfl : operation = .fork process := Option.some.inj hfork
    let counted : Replay := { r with totals := { r.totals with operations := r.totals.operations + 1 } }
    have hforked : (counted.fork process).2 = .ok () := mapError_eq_ok.mp hok
    obtain ⟨hprocess, hempty, hreceived⟩ := fork_puts_out (r := counted) k.held hforked
    exact ⟨⟨hkept, fun heq => hother (hprocess.symm.trans heq), rfl, hempty⟩, hreceived⟩

theorem Plays.stream (h : Plays r later u) (k : Kept host r.session) (held : u.session.channel.isHeld = true) :
    r.session.channel.isHeld = true ∧
      ∃ chunks, List.Forall₂ Step.Puts ((later.flatMap Move.steps).filter Step.attempts) chunks ∧
        u.session.channel.stream = chunks.foldl (· ++ ·) r.session.channel.stream := by
  induction h with
  | nil => exact ⟨held, [], .nil, rfl⟩
  | @cons r u x later hx _ ih =>
    obtain ⟨hheld, chunks, hputs, hstream⟩ := ih (hx.kept k) held
    obtain ⟨t, log, hreaches, hafter⟩ := hx.reaches
    rw [hafter] at hheld hstream
    obtain ⟨hbefore, earlier, hfirst, hfirstStream⟩ := hreaches.stream k.sound hheld
    refine ⟨hbefore, earlier ++ chunks, ?_, ?_⟩
    · rw [List.flatMap_cons, List.filter_append]
      exact List.rel_append hfirst hputs
    · rw [List.foldl_append, ← hfirstStream]
      exact hstream

end

/-! ### Forks that succeed -/

theorem fork_of_harmless {r : Replay} (h : r.session.channel.Harmless) (process : ProcessId) :
    (r.fork process).2 = .ok () := by
  have hflush := h.flush_ok
  unfold fork
  cases r.session.isClosed with
  | true => rfl
  | false =>
    unfold Session.flush
    rcases hf : r.session.channel.flush with ⟨channel, result⟩
    rw [hf] at hflush
    obtain rfl : result = some (.ok ()) := hflush
    rfl

/-! ### Which operations are done -/

theorem operation_of_mem_moves {r : Replay} {position : Nat} {operations : List Operation} {y : Move}
    (hy : y ∈ r.moves position operations) : ∃ operation ∈ operations, y.operation? = some operation := by
  induction operations generalizing r position with
  | nil => cases hy
  | cons operation rest ih =>
    rcases List.mem_cons.mp hy with rfl | hy
    · exact ⟨operation, List.mem_cons_self, rfl⟩
    · split at hy
      · obtain ⟨other, hother, heq⟩ := ih hy
        exact ⟨other, List.mem_cons_of_mem _ hother, heq⟩
      · cases hy

theorem operation_of_mem_movesOfAll {r : Replay} {scripts : List (List Operation)} {y : Move}
    (hy : y ∈ r.movesOfAll scripts) {operation : Operation} (ho : y.operation? = some operation) :
    ∃ script ∈ scripts, operation ∈ script := by
  induction scripts generalizing r with
  | nil => cases hy
  | cons script rest ih =>
    rcases List.mem_append.mp hy with hy | hy
    · refine ⟨script, List.mem_cons_self, ?_⟩
      rcases List.mem_cons.mp hy with rfl | hy
      · cases ho
      · split at hy
        · obtain ⟨other, hother, heq⟩ := operation_of_mem_moves hy
          rwa [Option.some.inj (ho.symm.trans heq)]
        · cases hy
    · obtain ⟨other, hother, hmem⟩ := ih hy
      exact ⟨other, List.mem_cons_of_mem _ hother, hmem⟩

/-- Once a replay has gone on in a process that is not the owner's, and as long as it does not go back to the owner's,
nothing reaches the destination any more, by whatever follows and whichever way the session ends. What was to be written
before is there, unless the session was closed. No row is recorded, and at most one notification is delivered, if
delivery was off when the session was opened. -/
theorem silent_after_forked_replay {settings : Settings} {faults : Faults} {label : String} {host : Host} {s : Session}
    (opened : Session.create settings { destination := { faults }, label } host = .ok s) (actions : List Action)
    (types : TypeTable) (scripts : List (List Operation)) {past later : List Move} {x : Move} {process : ProcessId}
    (hp : past ++ x :: later <+: movesOfAll { session := (s.performAll actions).1, types } scripts)
    (hfork : x.operation? = some (.fork process)) (hok : x.result = .ok ()) (hother : process ≠ host.process)
    (hlater : ∀ y ∈ later, y.operation? ≠ some (.fork host.process)) :
    let received := x.after.session.destination.received
    (x.before.session.isClosed = false → ∃ chunks,
        List.Forall₂ Step.Puts ((s.stepsOfAll actions ++ past.flatMap Move.steps).filter Step.attempts) chunks ∧
        received = chunks.foldl (· ++ ·) settings.layout.header.toUTF8) ∧
      (∀ y ∈ x :: later, y.after.session.destination.received = received ∧
        y.after.session.close.1.destination.received = received ∧
        y.after.session.drop.destination.received = received) ∧
      (later.map (Move.gain ReplayTotals.recorded)).sum = 0 ∧
      (host.enabled = false → (later.map (Move.gain ReplayTotals.delivered)).sum ≤ 1) := by
  intro received
  have fresh := create_fresh opened
  have reaches := reaches_stepsOfAll s actions
  have hfirst : Kept host (s.performAll actions).1 := (Kept.of_fresh fresh).reaches reaches
  obtain ⟨rest, hrest⟩ := hp
  have hplays := plays_movesOfAll { session := (s.performAll actions).1, types } scripts
  rw [← hrest] at hplays
  obtain ⟨t, hmoves, -⟩ := hplays.split
  obtain ⟨r, hpast, hgoes⟩ := hmoves.split
  cases hgoes with
  | cons hx hafter =>
    have hbefore : Kept host r.session := hpast.kept hfirst
    obtain ⟨hhushed, hputs⟩ := hx.goes_on hbefore hfork hok hother
    obtain ⟨hall, hrecorded, hdelivered⟩ := hafter.hushed hhushed hlater
    refine ⟨fun hopen => ?_, ?_, hrecorded, fun off => ?_⟩
    · rw [hx.session.1] at hopen
      obtain ⟨hheld, chunks, hlines, hstream⟩ := hpast.stream hfirst (hbefore.held.mpr hopen)
      obtain ⟨-, earlier, hearlier, hfirstStream⟩ := reaches.stream fresh.sound hheld
      refine ⟨earlier ++ chunks, ?_, ?_⟩
      · rw [List.filter_append]
        exact List.rel_append hearlier hlines
      · rw [List.foldl_append, ← fresh.stream, ← hfirstStream, ← hstream]
        exact hputs hopen
    · exact List.forall_mem_cons.mpr ⟨⟨rfl, hhushed.close, hhushed.drop⟩, fun y hy =>
        ⟨(hall y hy).received_eq, (hall y hy).close, (hall y hy).drop⟩⟩
    · have := hdelivered off
      have := Bool.toNat_le x.after.session.host.enabled
      omega

/-- A row is buffered when the script forks. The child goes on with a notification, a mark and another fork, and another
script closes the session. -/
theorem silent_of_forked_call :
    let call : Operation := .event .call { receiver := .unknown }
    let actions : List Action := [.start, .deliver { kind := .enter, receiver := .unknown }]
    let scripts := [[.fork 2, call, .mark "child" true, .fork 3, call], [.start, call, .close]]
    ∃ s, Session.create { rootCalls := true } { destination := { faults := {} }, label := "" } { process := 1 } =
        .ok s ∧
      let first : Replay := { session := (s.performAll actions).1 }
      ∃ past x later, first.movesOfAll scripts = past ++ x :: later ∧ x.operation? = some (.fork 2) ∧
        x.result = .ok () ∧ (∀ y ∈ later, y.operation? ≠ some (.fork 1)) ∧
        let received := x.after.session.destination.received
        (∃ chunks,
          List.Forall₂ Step.Puts ((s.stepsOfAll actions ++ past.flatMap Move.steps).filter Step.attempts) chunks ∧
          received = chunks.foldl (· ++ ·) Layout.edges.header.toUTF8) ∧
        (∀ y ∈ x :: later, y.after.session.destination.received = received ∧
          y.after.session.close.1.destination.received = received ∧
          y.after.session.drop.destination.received = received) ∧
        (later.map (Move.gain ReplayTotals.recorded)).sum = 0 ∧
        (later.map (Move.gain ReplayTotals.delivered)).sum ≤ 1 := by
  intro call actions scripts
  obtain ⟨s, opened⟩ := create_in_memory { rootCalls := true } (by decide)
  have fresh := create_fresh opened
  have reaches := reaches_stepsOfAll s actions
  have hheld : (s.performAll actions).1.channel.isHeld = true :=
    (reaches.held fresh.sound (by simp [actions, stepsOfAll, Session.steps, Session.step])).trans fresh.held
  have hopen := (reaches.held_iff fresh.sound fresh.held_iff).mp hheld
  have harmless : (s.performAll actions).1.channel.Harmless :=
    (reaches.unfailing fresh.sound fresh.held_iff (create_harmless opened Faults.harmless_of_none)
      (by simp [actions, stepsOfAll, Session.steps, Session.step])).1 hheld
  refine ⟨s, opened, ?_⟩
  intro first
  let script := [.fork 2, call, .mark "child" true, .fork 3, call]
  let r := (first.begun script).1
  have hbegun : (first.begun script).2 = .ok () :=
    mapError_eq_ok.mpr (start_of_open hopen)
  have hok : (r.move 1 (.fork 2)).result = .ok () := by
    have hchannel : r.session.channel.Harmless := (start_sameTrace first.session).channel ▸ harmless
    exact mapError_eq_ok.mpr (fork_of_harmless (r := { r with totals := { operations := 1 } }) hchannel 2)
  obtain ⟨later, hlater⟩ : ∃ later, first.movesOfAll scripts =
      [first.beginning script] ++ r.move 1 (.fork 2) :: later := by
    rw [movesOfAll, movesOf_of_begun hbegun]
    exact ⟨_, rfl⟩
  have hback : ∀ y ∈ later, y.operation? ≠ some (.fork 1) := by
    intro y hy hfork
    have hmem : y ∈ first.movesOfAll scripts := by
      rw [hlater]
      exact List.mem_append_right _ (List.mem_cons_of_mem _ hy)
    obtain ⟨script, hscript, hback⟩ := operation_of_mem_movesOfAll hmem hfork
    have hnone : ∀ script ∈ scripts, .fork 1 ∉ script := by simp [scripts, call]
    exact hnone script hscript hback
  have hstarted : r.session.isClosed = false := by
    have hsame : (first.session.perform .start).1.isClosed = first.session.isClosed :=
      perform_isClosed (reaches.sound fresh.sound).1 rfl (by simp)
    exact hsame.trans hopen
  have hp : [first.beginning script] ++ r.move 1 (.fork 2) :: later <+: first.movesOfAll scripts :=
    ⟨[], (List.append_nil _).trans hlater.symm⟩
  obtain ⟨hputs, hsilent, hrecorded, hdelivered⟩ :=
    silent_after_forked_replay opened actions {} scripts hp rfl hok (by decide) hback
  exact ⟨_, _, _, hlater, rfl, hok, hback, hputs hstarted, hsilent, hrecorded, hdelivered rfl⟩

end Replay
end MethodTrace
