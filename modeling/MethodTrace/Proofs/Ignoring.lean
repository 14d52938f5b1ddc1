import MethodTrace.Proofs.Actions
import MethodTrace.Proofs.Outcomes

/-! # Notifications that have no effect

A notification is ignored for the first reason that applies, and a return may belong to no open call. Either way the
open calls, the rows known and the output stay as they are, and so does nearly everything else (`Unmoved`): delivery is
switched off where it should not have come through, a fork that is seen is remembered, and what was answered is
counted. -/

namespace MethodTrace
open Session

namespace IgnoreReason

/-- Whether there is this reason to ignore a notification. -/
def applies (s : Session) (n : Notification) : IgnoreReason → Bool
  | finalizing => s.finalizing
  | notTracing => s.phase != .tracing
  | forkedChild => s.ownership.broken || s.host.process != s.ownership.owner
  | foreignThread => s.host.thread != s.ownerThread
  | unclassified => n.kind == .other
  | tracerInternal =>
    s.settings.ownEntity == some n.calledMethod.entity

/-- Every reason, in the order in which they are looked for. -/
def inOrder : List IgnoreReason :=
  [finalizing, notTracing, forkedChild, foreignThread, unclassified, tracerInternal]

end IgnoreReason

namespace Session

/-- What stays as it was between two states of a session, or how it changes, if a notification has no effect. Only what
was said is left open. -/
structure Unmoved (s t : Session) (outcome : Outcome) : Prop where
  settings : t.settings = s.settings
  stack : t.stack = s.stack
  seen : t.seen = s.seen
  channel : t.channel = s.channel
  ownerThread : t.ownerThread = s.ownerThread
  finalizing : t.finalizing = s.finalizing
  phase : t.phase = if outcome = .ignored .forkedChild then .idle else s.phase
  host : t.host =
    if outcome = .ignored .finalizing ∨ outcome = .ignored .forkedChild then s.host.disable else s.host
  ownership : t.ownership =
    if outcome = .ignored .forkedChild then { s.ownership with broken := true } else s.ownership
  ignored : ∀ reason, outcome = .ignored reason →
    t.counters =
      { s.counters with events := s.counters.events + reason.ofEvent.toNat, ignored := t.counters.ignored } ∧
    ∀ asked, t.counters.ignored.count asked = s.counters.ignored.count asked + if asked = reason then 1 else 0
  unmatched : outcome = .unmatched →
    t.counters =
      { s.counters with events := s.counters.events + 1, unmatchedReturns := s.counters.unmatchedReturns + 1 }

variable {s : Session} {n : Notification}

/-! ### Reasons to ignore a notification -/

theorem disregards?_eq (settings : Settings) (n : Notification) :
    settings.disregards? n =
      if n.kind = .other then some .unclassified
      else if settings.ownEntity = some n.calledMethod.entity then
        some .tracerInternal
      else none := by
  unfold Settings.disregards? Notification.event? Notification.eventOf
  cases n.kind <;> rfl

/-- The reason that is given is the first one that applies. -/
theorem find?_applies (s : Session) (n : Notification) :
    IgnoreReason.inOrder.find? (·.applies s n) = s.ignores? n := by
  have hphase : (s.phase != .tracing) = !s.isTracing := rfl
  have hprocess : (s.ownership.broken || s.host.process != s.ownership.owner) = !s.ownsProcess := by
    simp [ownsProcess, Ownership.holds, bne]
  unfold ignores? deafness? IgnoreReason.inOrder
  rw [disregards?_eq]
  simp only [List.find?_cons, List.find?_nil, IgnoreReason.applies, hphase, hprocess]
  cases s.finalizing with
  | true => rfl
  | false =>
    cases s.isTracing with
    | false => rfl
    | true =>
      cases s.ownsProcess with
      | false => rfl
      | true =>
        by_cases hthread : s.host.thread = s.ownerThread
        · by_cases hkind : n.kind = .other
          · simp [hthread, hkind]
          · have hkind' := beq_eq_false_iff_ne.mpr hkind
            by_cases hown : s.settings.ownEntity =
              some n.calledMethod.entity
            · simp [hthread, hkind, hkind', hown]
            · simp [hthread, hkind, hkind', hown, beq_eq_false_iff_ne.mpr hown]
        · simp [hthread, bne_iff_ne.mpr hthread]

theorem unmoved_of_ignores {reason : IgnoreReason} (h : s.ignores? n = some reason) :
    Unmoved s (s.deliver n).1 (.ignored reason) := by
  obtain ⟨-, heq⟩ := deliver_of_ignores h
  have hcounters : (s.deliver n).1.counters = (s.turningAway reason).counters.ignore reason := by rw [heq]; rfl
  rw [turningAway_counters] at hcounters
  have hignored : ∀ r, Outcome.ignored reason = .ignored r → (s.deliver n).1.counters =
        { s.counters with
          events := s.counters.events + r.ofEvent.toNat, ignored := (s.deliver n).1.counters.ignored } ∧
      ∀ asked, (s.deliver n).1.counters.ignored.count asked =
        s.counters.ignored.count asked + if asked = r then 1 else 0 := by
    intro r hr
    cases hr
    rw [hcounters]
    exact ⟨rfl, IgnoreCounts.count_add _ _⟩
  rw [heq] at hignored ⊢
  cases reason <;> exact ⟨rfl, rfl, rfl, rfl, rfl, rfl, rfl, rfl, rfl, hignored, fun h => by cases h⟩

/-! ### Returns that belong to no open call -/

/-- Only a return that finds no call of its method is unmatched. -/
theorem take_of_unmatched {event : Event} (h : (s.take event).2 = .unmatched) : s.take event = s.unmatched event := by
  unfold take at *
  cases hk : event.kind with
  | call =>
    rw [hk] at h
    rcases enter_answer s event with hquiet | hrow
    · rw [h] at hquiet
      split at hquiet <;> cases hquiet
    · rw [h] at hrow
      cases hrow
  | leave =>
    rw [hk] at h
    have hfinished : ∀ (t : Session) (event : Event) (hidden : Bool), (t.finishReturn event hidden).2 ≠ .unmatched := by
      intro t event hidden hunmatched
      rcases finishReturn_answer t event hidden with hquiet | hrow
      · cases hunmatched.symm.trans hquiet
      · rw [hunmatched] at hrow
        cases hrow
    unfold leave at *
    cases hm : s.matchReturn event with
    | none => rfl
    | innermost f =>
      rw [hm] at h
      exact absurd h (hfinished _ _ _)
    | below f =>
      rw [hm] at h
      exact absurd h (hfinished _ _ _)

theorem deliver_of_unmatched (h : (s.deliver n).2 = .unmatched) :
    ∃ event, s.deliver n = s.hearing.unmatched event := by
  cases he : s.hears n with
  | none =>
    obtain ⟨reason, hignored, -⟩ := deliver_of_not_hears he
    cases h.symm.trans hignored
  | some event =>
    rw [deliver_eq_take he] at *
    exact ⟨event, take_of_unmatched h⟩

theorem unmoved_of_unmatched (h : (s.deliver n).2 = .unmatched) : Unmoved s (s.deliver n).1 .unmatched := by
  obtain ⟨event, heq⟩ := deliver_of_unmatched h
  rw [heq]
  refine ⟨rfl, rfl, rfl, rfl, rfl, rfl, ?_, ?_, ?_, ?_, fun _ => rfl⟩ <;> simp [unmatched, hearing, say, count]

/-! ### Every run -/

/-- Wherever a run has led, a notification is ignored if and only if a reason applies, for the first that does. One
that is ignored, and a return that belongs to no open call, have no effect. -/
theorem unmoved_by_ignored_or_unmatched {settings : Settings} {faults : Faults} {label : String} {host : Host}
    {s : Session} (opened : create settings { destination := { faults }, label } host = .ok s)
    (actions : List Action) {past : List Step} (hp : past <+: s.stepsOfAll actions) (n : Notification) :
    let t := s.after past
    let outcome := (t.deliver n).2
    (∀ reason, outcome = .ignored reason ↔ IgnoreReason.inOrder.find? (·.applies t n) = some reason) ∧
      ((∃ reason, outcome = .ignored reason) ∨ outcome = .unmatched → Unmoved t (t.deliver n).1 outcome) := by
  intro t outcome
  have hsound : t.Sound := ((reaches_upTo hp).sound (create_fresh opened).sound).1
  have hignored : ∀ reason, outcome = .ignored reason ↔ t.ignores? n = some reason := by
    intro reason
    refine ⟨fun hout => ?_, fun hi => (deliver_ignored hi).2.1⟩
    cases hi : t.ignores? n with
    | none =>
      obtain ⟨event, he⟩ := hears_of_heeded hi
      exact absurd hout (deliver_heeded hsound he reason)
    | some first =>
      have hfirst : outcome = .ignored first := (deliver_ignored hi).2.1
      cases hout.symm.trans hfirst
      rfl
  refine ⟨fun reason => by rw [hignored, find?_applies], ?_⟩
  rintro (⟨reason, hout⟩ | hout)
  · rw [hout]
    exact unmoved_of_ignores ((hignored reason).mp hout)
  · rw [hout]
    exact unmoved_of_unmatched hout

/-- In a forked child, on another thread, with something that is no call: three reasons apply, and the fork comes
first. -/
theorem unmoved_in_child_on_other_thread :
    let line : Notification := { kind := .other, receiver := .unknown }
    let actions : List Action := [.start, .enterThread 7, .enterProcess 2]
    ∃ s, create {} { destination := { faults := {} }, label := "" } { process := 1 } = .ok s ∧
      let t := s.after (s.stepsOfAll actions)
      [.forkedChild, .foreignThread, .unclassified] = IgnoreReason.inOrder.filter (·.applies t line) ∧
        (t.deliver line).2 = .ignored .forkedChild ∧ Unmoved t (t.deliver line).1 (.ignored .forkedChild) := by
  intro line actions
  obtain ⟨s, opened⟩ := create_in_memory {} (by decide)
  have fresh := create_fresh opened
  obtain ⟨hreason, hunmoved⟩ := unmoved_by_ignored_or_unmatched opened actions (List.prefix_refl _) line
  have hafter : s.after (s.stepsOfAll actions) =
      { (s.enable.inPhase .tracing).say .tracingStarted with host := (s.host.enable.inThread 7).inProcess 2 } := by
    rw [(reaches_stepsOfAll s actions).after_eq]
    simp only [actions, performAll, perform, start_of_owner fresh.phase (ownsContext_iff.mp fresh.ownsContext).1]
    rfl
  have happlies : IgnoreReason.inOrder.filter (·.applies (s.after (s.stepsOfAll actions)) line) =
      [.forkedChild, .foreignThread, .unclassified] := by
    rw [hafter]
    simp only [IgnoreReason.inOrder, IgnoreReason.applies, say, inPhase, enable, fresh.finalizing, fresh.ownership,
      fresh.ownerThread, fresh.settings_eq]
    rfl
  have hfirst := (hreason .forkedChild).mpr (by rw [← List.head?_filter, happlies]; rfl)
  exact ⟨s, opened, happlies.symm, hfirst, by simpa [hfirst] using hunmoved (.inl ⟨_, hfirst⟩)⟩

end Session
end MethodTrace
