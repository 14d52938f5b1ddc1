import MethodTrace.Proofs.Accounts
import MethodTrace.Proofs.ForkedChild

/-! # Sessions of a host that shuts down

Once its host shuts down a session only switches delivery off (`Step.Disables`). As long as it is not told to write or
to let go of its output, its destination receives nothing more (`Resting`), not even at the end of the session, where the
buffer is given up. Delivery may be switched on again on the way, but it is off in the end. -/

namespace MethodTrace

/-- Whether an action leaves the output alone, by itself. -/
def Action.sparesOutput : Action → Bool
  | .mark _ _ | .flush | .close => false
  | _ => true

/-- A notification is ignored, which is counted, and delivery is switched off. Nothing else changes. -/
structure Step.Disables (x : Step) : Prop where
  answer : x.answer = .outcome (.ignored .finalizing)
  after : x.after =
    { x.before with host := x.before.host.disable, counters := x.before.counters.ignore .finalizing }
  off : x.after.host.enabled = false

/-- The counters with some more notifications ignored because the host shuts down. -/
def Counters.ignoringFinalizing (c : Counters) (more : Nat) : Counters :=
  { c with ignored := { c.ignored with finalizing := c.ignored.finalizing + more } }

namespace Session
variable {s t : Session} {received : ByteArray}

/-- A session of a host that shuts down, and what its destination has received. -/
structure Resting (received : ByteArray) (s : Session) : Prop where
  finalizing : s.finalizing = true
  received_eq : s.destination.received = received

theorem Resting.perform_deliver (h : Resting received s) (n : Notification) :
    s.perform (.deliver n) = ((s.disable.ignore .finalizing).1, .outcome (.ignored .finalizing)) := by
  rw [perform, deliver_of_finalizing h.finalizing n]
  rfl

theorem Resting.disables (h : Resting received s) (n : Notification) : (s.step (.deliver n)).Disables := by
  have hafter : (s.step (.deliver n)).after = (s.disable.ignore .finalizing).1 :=
    congrArg Prod.fst (h.perform_deliver n)
  refine ⟨congrArg Prod.snd (h.perform_deliver n), hafter, ?_⟩
  rw [hafter]
  rfl

theorem Resting.of_channel (h : Resting received s) (hfin : t.finalizing = s.finalizing)
    (hchannel : t.channel = s.channel) : Resting received t where
  finalizing := hfin.trans h.finalizing
  received_eq := by rw [destination, hchannel, ← h.received_eq, destination]

/-- What leaves the output alone leaves a session at rest. -/
theorem perform_resting (hs : s.Sound) (h : Resting received s) {action : Action} (ha : action.isSimple = true)
    (hspares : action.sparesOutput = true) : Resting received (s.perform action).1 := by
  have keep : action ≠ .beginFinalize → (s.perform action).1.channel = s.channel →
      Resting received (s.perform action).1 := fun hb => h.of_channel (perform_finalizing hs ha hb)
  cases action with
  | start => exact keep (by simp) (start_sameTrace s).channel
  | stop =>
    refine keep (by simp) ?_
    rcases htracing : s.isTracing with _ | _
    · exact congrArg channel (stop_of_not_tracing htracing)
    · exact (stop_of_tracing htracing).2.2.2
  | deliver n =>
    refine keep (by simp) ?_
    rw [h.perform_deliver n]
    rfl
  | setFaults faults => exact ⟨h.finalizing, (s.channel.received_setFaults faults).trans h.received_eq⟩
  | beginFinalize => exact ⟨rfl, h.received_eq⟩
  | look => exact h
  | enterProcess => exact keep (by simp) rfl
  | enterThread => exact keep (by simp) rfl
  | mark => cases hspares
  | flush => cases hspares
  | close => cases hspares
  | «scoped» => cases ha

theorem Reaches.resting {past : List Step} (reaches : Reaches s past t) (hs : s.Sound) (h : Resting received s)
    (hspares : ∀ x ∈ past, x.action.sparesOutput = true) : Resting received t := by
  induction reaches with
  | nil => exact h
  | snoc action ha reaches ih =>
    simp only [List.forall_mem_append, List.forall_mem_singleton] at hspares
    exact perform_resting (reaches.sound hs).1 (ih hspares.1) ha hspares.2

/-- Of all that is counted only the ignored notifications become more. -/
theorem Reaches.counters_of_resting {past : List Step} (reaches : Reaches s past t) (hs : s.Sound)
    (h : Resting received s) (hspares : ∀ x ∈ past, x.action.sparesOutput = true) :
    t.counters = s.counters.ignoringFinalizing (past.countP Step.delivers) := by
  induction reaches with
  | nil => rfl
  | @snoc past t action ha reaches ih =>
    simp only [List.forall_mem_append, List.forall_mem_singleton] at hspares
    have hrest := reaches.resting hs h hspares.1
    rw [List.countP_append, Step.countP_single]
    cases hd : action.delivers with
    | false =>
      rw [perform_counters ha hd, ih hspares.1, Step.delivers, step, hd, Bool.toNat_false, Nat.add_zero]
    | true =>
      obtain ⟨n, rfl⟩ : ∃ n, action = .deliver n := by
        cases action <;> first | exact ⟨_, rfl⟩ | cases hd
      have hcounters : (t.perform (.deliver n)).1.counters = t.counters.ignore .finalizing := by
        rw [hrest.perform_deliver n]
        rfl
      rw [hcounters, ih hspares.1]
      rfl

/-- A session at rest is dropped without a byte. -/
theorem Resting.drop (h : Resting received s) :
    s.drop.isClosed = true ∧ s.drop.destination.received = received ∧
      (s.isClosed = false → s.drop.host.enabled = false) := by
  rw [drop_of_finalizing h.finalizing]
  refine ⟨?_, (received_of_abandon rfl).trans h.received_eq, fun hopen => ?_⟩
  · cases hclosed : s.isClosed with
    | true => exact hclosed
    | false => rfl
  · rw [hopen]
    rfl

/-- Once its host shuts down a session does nothing but switch delivery off, and nothing of its trace is received any
more, whatever was buffered and wherever it goes on. Delivery is off once it is dropped. -/
theorem disables_once_finalizing {settings : Settings} {faults : Faults} {label : String} {host : Host}
    (opened : create settings { destination := { faults }, label } host = .ok s) (actions : List Action)
    {past earlier later : List Step} {x : Step} (hp : past <+: s.stepsOfAll actions)
    (hpast : past = earlier ++ x :: later) (hx : x.action = .beginFinalize)
    (hspares : ∀ y ∈ later, y.action.sparesOutput = true) :
    let t := s.after past
    (∀ y ∈ later, ∀ n, y.action = .deliver n → y.Disables) ∧
      t.counters = x.before.counters.ignoringFinalizing (later.countP Step.delivers) ∧
      (∀ y ∈ x :: later, y.after.destination.received = x.before.destination.received) ∧
      t.drop.destination.received = x.before.destination.received ∧ t.drop.isClosed = true ∧
      (t.isClosed = false ∨ host.enabled = false → t.drop.host.enabled = false) := by
  intro t
  subst hpast
  have fresh := create_fresh opened
  have reaches : Reaches s (earlier ++ x :: later) t := reaches_upTo hp
  obtain ⟨hearlier, hrest⟩ := reaches.split
  obtain ⟨action, ha, rfl, hlater⟩ := hrest.first
  obtain rfl : action = .beginFinalize := hx
  have hs := (hearlier.sound fresh.sound).1
  generalize s.after earlier = u at hearlier hs hlater hrest ⊢
  have hsound : (u.perform .beginFinalize).1.Sound := (perform_sound hs ha).1
  have hresting : Resting u.destination.received (u.perform .beginFinalize).1 := ⟨rfl, rfl⟩
  have hlast := hlater.resting hsound hresting hspares
  obtain ⟨hclosed, hreceived, hoff⟩ := hlast.drop
  -- every later step is taken at rest
  have hstep : ∀ y ∈ later, ∃ action : Action, y = y.before.step action ∧ action.isSimple = true ∧
      y.before.Sound ∧ Resting u.destination.received y.before := by
    intro y hy
    obtain ⟨before, hup, hbefore, action, hsimple, heq⟩ := hlater.of_mem hy
    exact ⟨action, heq, hsimple, (hbefore.sound hsound).1, hbefore.resting hsound hresting fun z hz =>
      hspares z (hup.subset (List.mem_append_left _ hz))⟩
  refine ⟨?_, hlater.counters_of_resting hsound hresting hspares, ?_, hreceived, hclosed, ?_⟩
  · intro y hy n hdeliver
    obtain ⟨action, heq, -, -, hrest⟩ := hstep y hy
    obtain rfl : action = .deliver n := by rw [heq] at hdeliver; exact hdeliver
    rw [heq]
    exact hrest.disables n
  · simp only [List.forall_mem_cons]
    refine ⟨rfl, fun y hy => ?_⟩
    obtain ⟨action, heq, hsimple, hbefore, hrest⟩ := hstep y hy
    have hspare : action.sparesOutput = true := by
      have h := hspares y hy
      rw [heq] at h
      exact h
    rw [heq]
    exact (perform_resting hbefore hrest hsimple hspare).received_eq
  · rintro (hopen | hoffHost)
    · exact hoff hopen
    · exact (drop_ended (reaches.inOrder fresh.sound (fresh.inOrder hoffHost))
        (reaches.held_iff fresh.sound fresh.held_iff)).off

/-- The host shuts down inside a scope, after a call has been buffered. The session is started again in a child. -/
theorem disables_once_finalizing_in_scope :
    let call : Notification := { kind := .enter, receiver := .unknown }
    let body : List Action := [.deliver call, .beginFinalize, .deliver call]
    let actions : List Action := [.scoped body (some "boom"), .start, .enterProcess 2, .deliver call]
    ∃ s, create { rootCalls := true } { destination := { faults := {} }, label := "" } { process := 1 } = .ok s ∧
      ∃ earlier x later, s.stepsOfAll actions = earlier ++ x :: later ∧ x.action = .beginFinalize ∧
        let t := s.after (s.stepsOfAll actions)
        (∀ y ∈ later, ∀ n, y.action = .deliver n → y.Disables) ∧
          t.counters = x.before.counters.ignoringFinalizing 2 ∧
          (∀ y ∈ x :: later, y.after.destination.received = x.before.destination.received) ∧
          t.drop.destination.received = x.before.destination.received ∧ t.drop.isClosed = true ∧
          t.drop.host.enabled = false := by
  intro call body actions
  obtain ⟨s, opened⟩ := create_in_memory { rootCalls := true } (by decide)
  let started := s.start.1
  have hstart : s.start = (started, .ok ()) := Prod.ext rfl (create_fresh opened).start.2
  let entered := (started.perform (.deliver call)).1
  let left := (s.perform (.scoped body (some "boom"))).1
  let later := (entered.perform .beginFinalize).1.step (.deliver call) ::
    ((started.performAll body).1.step .stop :: left.stepsOfAll [.start, .enterProcess 2, .deliver call])
  have hsteps : s.stepsOfAll actions =
      [s.step .start, started.step (.deliver call)] ++ entered.step .beginFinalize :: later := by
    have hscope := (scope_entered hstart body (some "boom")).1
    simp only [actions, stepsOfAll, hscope]
    rfl
  have hspares : ∀ y ∈ later, y.action.sparesOutput = true := by
    simp [later, stepsOfAll, steps, step, Action.sparesOutput]
  obtain ⟨hdisables, hcounters, hafter, hreceived, hclosed, hoff⟩ :=
    disables_once_finalizing opened actions (List.prefix_refl _) hsteps rfl hspares
  exact ⟨s, opened, _, _, _, hsteps, rfl, hdisables, hcounters, hafter, hreceived, hclosed, hoff (.inr rfl)⟩

end Session
end MethodTrace
