import MethodTrace.Proofs.Hearing

/-! # What a notification is answered

A notification is ignored for the first reason that applies. An event without a row is answered by what it does to the
open calls, and one with a row by what becomes of the row. What is counted for it follows from the calls that it opens
or closes and from the answer (`deliver_counters`). -/

namespace MethodTrace
open Session

/-! ### More of everything -/

/-- The counts with those of something else added. -/
def IgnoreCounts.plus (c gain : IgnoreCounts) : IgnoreCounts where
  notTracing := c.notTracing + gain.notTracing
  finalizing := c.finalizing + gain.finalizing
  forkedChild := c.forkedChild + gain.forkedChild
  foreignThread := c.foreignThread + gain.foreignThread
  tracerInternal := c.tracerInternal + gain.tracerInternal
  unclassified := c.unclassified + gain.unclassified

/-- The counters with those of something else added. The greater depth counts. -/
def Counters.plus (c gain : Counters) : Counters where
  events := c.events + gain.events
  calls := c.calls + gain.calls
  returns := c.returns + gain.returns
  records := c.records + gain.records
  duplicates := c.duplicates + gain.duplicates
  suppressed := c.suppressed + gain.suppressed
  unmatchedReturns := c.unmatchedReturns + gain.unmatchedReturns
  blockReturns := c.blockReturns + gain.blockReturns
  writeErrors := c.writeErrors + gain.writeErrors
  maxDepth := max c.maxDepth gain.maxDepth
  ignored := c.ignored.plus gain.ignored

theorem IgnoreCounts.plus_assoc (a b c : IgnoreCounts) : (a.plus b).plus c = a.plus (b.plus c) := by
  simp [plus, Nat.add_assoc]

@[simp] theorem IgnoreCounts.plus_none (c : IgnoreCounts) : c.plus {} = c := rfl

theorem IgnoreCounts.plus_add (c : IgnoreCounts) (reason : IgnoreReason) :
    c.plus (IgnoreCounts.add {} reason) = c.add reason := by
  cases reason <;> rfl

namespace Counters

theorem plus_assoc (a b c : Counters) : (a.plus b).plus c = a.plus (b.plus c) := by
  simp [plus, Nat.add_assoc, Nat.max_assoc, IgnoreCounts.plus_assoc]

@[simp] theorem plus_none (c : Counters) : c.plus {} = c := by
  simp [plus]

end Counters

/-- What an answer counts for. -/
def Outcome.gain : Outcome → Counters
  | ignored reason => { ignored := IgnoreCounts.add {} reason }
  | suppressed => { suppressed := 1 }
  | recorded => { records := 1 }
  | duplicate => { duplicates := 1 }
  | unmatched => { unmatchedReturns := 1 }
  | writeFailed => { writeErrors := 1 }
  | tracked | popped => {}

/-- Whether a notification that is ignored for this reason counts as an event. -/
def IgnoreReason.ofEvent : IgnoreReason → Bool
  | unclassified | tracerInternal => true
  | finalizing | notTracing | forkedChild | foreignThread => false

namespace Settings

/-- What an event without a row is answered. -/
def quietOutcome (settings : Settings) (calls : List OpenCall) (event : Event) : Outcome :=
  match event.kind with
  | .call => if settings.filter.hides event then .suppressed else .tracked
  | .leave =>
    match settings.closing calls event with
    | .none => .unmatched
    | .innermost _ | .below _ => .popped

/-- What an event counts for by the calls that it opens or closes. -/
def gain (settings : Settings) (calls : List OpenCall) (event : Event) : Counters :=
  match event.kind with
  | .call => { calls := 1, maxDepth := calls.length + 1 }
  | .leave =>
    match settings.closing calls event with
    | .none => {}
    | .innermost _ => { returns := 1 }
    | .below _ => { returns := 1, blockReturns := 1 }

/-- Why a notification is ignored also by a session that takes some. -/
def disregards? (settings : Settings) (n : Notification) : Option IgnoreReason :=
  match n.event? with
  | none => some .unclassified
  | some event => if settings.ownEntity = some event.method.entity then some .tracerInternal else none

end Settings

namespace Session
variable {s : Session}

/-- Why a session takes no notifications, if it takes none: the first reason that applies. -/
def deafness? (s : Session) : Option IgnoreReason :=
  if s.finalizing then some .finalizing
  else if !s.isTracing then some .notTracing
  else if !s.ownsProcess then some .forkedChild
  else if s.host.thread ≠ s.ownerThread then some .foreignThread
  else none

/-- Why a notification is ignored, if it is. -/
def ignores? (s : Session) (n : Notification) : Option IgnoreReason :=
  s.deafness?.or (s.settings.disregards? n)

/-- The session that ignores a notification, but for the count of those ignored. -/
def turningAway (s : Session) : IgnoreReason → Session
  | .finalizing => s.disable
  | .forkedChild => (s.forked.say (.forkDetected s.ownership.owner s.host.process)).disable.inPhase .idle
  | .unclassified | .tracerInternal => s.count fun c => { c with events := c.events + 1 }
  | .notTracing | .foreignThread => s

/-! ### Answers to events -/

theorem isOfRow_of_fate {t : Session} {row : String} {outcome : Outcome} (h : Fate s t (some row) outcome) :
    outcome.isOfRow = true := by
  cases h <;> rfl

theorem record_isOfRow (s : Session) (row : String) : (s.record row).2.isOfRow = true := by
  unfold record
  rcases s.write row with ⟨t, fault | _⟩ <;> rfl

theorem recordEdge_isOfRow (s : Session) (row : String) : (s.recordEdge row).2.isOfRow = true := by
  unfold recordEdge
  rcases s.seen.meet row.toUTF8 with ⟨seen, _ | _⟩
  · rfl
  · exact record_isOfRow _ row

theorem enter_answer (s : Session) (event : Event) :
    (s.enter event).2 = (if s.settings.filter.hides event then .suppressed else .tracked) ∨
      (s.enter event).2.isOfRow = true := by
  unfold enter
  dsimp only
  split
  next hhides => exact .inl rfl
  next hhides =>
    split
    · exact .inr (record_isOfRow _ _)
    · split
      · exact .inl rfl
      · split
        · exact .inl rfl
        · exact .inr (recordEdge_isOfRow _ _)

theorem finishReturn_answer (s : Session) (event : Event) (hidden : Bool) :
    (s.finishReturn event hidden).2 = .popped ∨ (s.finishReturn event hidden).2.isOfRow = true := by
  unfold finishReturn
  split
  · exact .inl rfl
  · split
    · exact .inl rfl
    · exact .inr (record_isOfRow _ _)

theorem leave_answer (h : s.Sound) (event : Event) :
    (s.leave event).2 = (match s.settings.closing s.calls event with
      | .none => .unmatched
      | .innermost _ | .below _ => .popped) ∨ (s.leave event).2.isOfRow = true := by
  unfold leave
  rw [← matchReturn_closing h event]
  cases s.matchReturn event with
  | none => exact .inl rfl
  | innermost f => exact finishReturn_answer _ _ _
  | below f => exact finishReturn_answer _ _ _

/-- An event without a row is answered by what it does to the open calls. -/
theorem take_answer (h : s.Sound) {event : Event} (hrow : s.settings.row? s.calls event = none) :
    (s.take event).2 = s.settings.quietOutcome s.calls event := by
  obtain ⟨-, -, -, hfate⟩ := take_spec h event
  have hquiet : (s.take event).2.isOfRow ≠ true := by
    rw [hrow] at hfate
    cases hfate with
    | quiet hnot => simp [hnot]
  unfold take Settings.quietOutcome at *
  cases hk : event.kind with
  | call =>
    rw [hk] at hquiet
    exact (enter_answer s event).resolve_right hquiet
  | leave =>
    rw [hk] at hquiet
    exact (leave_answer h event).resolve_right hquiet

/-! ### What events count for -/

theorem record_counters (s : Session) (row : String) :
    (s.record row).1.counters = s.counters.plus (s.record row).2.gain := by
  rcases hw : s.channel.write row.toUTF8 with ⟨channel, fault | _⟩
  · obtain ⟨log, heq⟩ := record_of_error hw
    rw [heq]
    simp [Outcome.gain, Counters.plus, count]
  · rw [record_of_ok hw]
    simp [Outcome.gain, Counters.plus, count]

theorem recordEdge_counters (s : Session) (row : String) :
    (s.recordEdge row).1.counters = s.counters.plus (s.recordEdge row).2.gain := by
  unfold recordEdge
  rcases s.seen.meet row.toUTF8 with ⟨seen, _ | _⟩
  · simp [Outcome.gain, Counters.plus, count]
  · exact record_counters _ row

theorem enter_counters (h : s.Sound) (event : Event) :
    (s.enter event).1.counters =
      (s.counters.plus { calls := 1, maxDepth := s.calls.length + 1 }).plus (s.enter event).2.gain := by
  have hopen : ∀ hidden, (s.openCall event hidden).1.counters =
      s.counters.plus { calls := 1, maxDepth := s.calls.length + 1 } := by
    intro hidden
    have hdepth : (s.stack.push event hidden).1.depth = s.calls.length + 1 := by
      rw [CallStack.depth_eq (h.stack.push event hidden), CallStack.calls_push h.stack]
      rfl
    simp [openCall, count, Counters.observeDepth, Counters.plus, hdepth]
  unfold enter
  dsimp only
  split
  · rw [← hopen (s.settings.filter.hides event)]
    simp [Outcome.gain, Counters.plus, count]
  · split
    · rw [record_counters, hopen]
    · split
      · rw [hopen]
        exact (Counters.plus_none _).symm
      · split
        · rw [hopen]
          exact (Counters.plus_none _).symm
        · rw [recordEdge_counters, hopen]

theorem finishReturn_counters (s : Session) (event : Event) (hidden : Bool) :
    (s.finishReturn event hidden).1.counters = s.counters.plus (s.finishReturn event hidden).2.gain := by
  unfold finishReturn
  split
  · exact (Counters.plus_none _).symm
  · split
    · exact (Counters.plus_none _).symm
    · exact record_counters s _

theorem take_counters (h : s.Sound) (event : Event) :
    (s.take event).1.counters = (s.counters.plus (s.settings.gain s.calls event)).plus (s.take event).2.gain := by
  unfold take Settings.gain
  cases event.kind with
  | call => exact enter_counters h event
  | leave =>
    rw [← matchReturn_closing h event]
    unfold leave
    cases s.matchReturn event with
    | none => simp [unmatched, Match.closing, Outcome.gain, Counters.plus, count, say]
    | innermost f =>
      rw [finishReturn_counters]
      simp [closeCall, Match.closing, Counters.plus, count]
    | below f =>
      rw [finishReturn_counters]
      simp [closeCall, Match.closing, Counters.plus, count]

/-! ### Notifications as a whole -/

theorem ignore_counters (s : Session) (reason : IgnoreReason) :
    (s.ignore reason).1.counters = s.counters.plus (s.ignore reason).2.gain := by
  show s.counters.ignore reason = s.counters.plus { ignored := IgnoreCounts.add {} reason }
  simp [Counters.ignore, Counters.plus, IgnoreCounts.plus_add]

theorem listens_of_deafness (h : s.deafness? = none) : s.listens = true := by
  cases hfin : s.finalizing <;> cases htracing : s.isTracing <;> cases howns : s.ownsProcess <;>
    simp [deafness?, listens, ownsContext, hfin, htracing, howns] at h ⊢
  exact h

theorem deliver_of_deafness {reason : IgnoreReason} (h : s.deafness? = some reason) (n : Notification) :
    s.listens = false ∧ s.deliver n = (s.turningAway reason).ignore reason := by
  unfold deafness? at h
  cases hfin : s.finalizing with
  | true =>
    rw [hfin] at h
    cases h
    exact ⟨by simp [listens, hfin], deliver_of_finalizing hfin n⟩
  | false =>
    cases htracing : s.isTracing with
    | false =>
      rw [hfin, htracing] at h
      cases h
      exact ⟨by simp [listens, htracing], deliver_of_not_tracing hfin htracing n⟩
    | true =>
      cases howns : s.ownsProcess with
      | false =>
        rw [hfin, htracing, howns] at h
        cases h
        exact ⟨by simp [listens, ownsContext, howns], deliver_of_child hfin htracing howns n⟩
      | true =>
        by_cases hthread : s.host.thread = s.ownerThread
        · simp [hfin, htracing, howns, hthread] at h
        · obtain rfl : .foreignThread = reason := by simpa [hfin, htracing, howns, hthread] using h
          exact ⟨by simp [listens, ownsContext, hthread], deliver_of_foreign hfin htracing howns hthread n⟩

/-- A session that takes notifications counts one as an event before it looks at what it is. -/
theorem deliver_of_disregarded {n : Notification} {reason : IgnoreReason} (hlistens : s.listens = true)
    (h : s.settings.disregards? n = some reason) : s.hears n = none ∧
      (reason = .unclassified ∨ reason = .tracerInternal) ∧
      s.deliver n = (s.turningAway reason).ignore reason := by
  unfold Settings.disregards? at h
  have hunheard : (n.event?.filter fun event => s.settings.ownEntity ≠ some event.method.entity) = none ∧
      (if n.event?.isNone then IgnoreReason.unclassified else .tracerInternal) = reason ∧
      (reason = .unclassified ∨ reason = .tracerInternal) := by
    cases he : n.event? with
    | none =>
      rw [he] at h
      cases h
      exact ⟨rfl, rfl, .inl rfl⟩
    | some event =>
      rw [he] at h
      dsimp only at h
      split at h
      next hown =>
        cases h
        exact ⟨by simp [hown], rfl, .inr rfl⟩
      · cases h
  obtain ⟨hnone, hreason, hkind⟩ := hunheard
  refine ⟨by rw [hears, if_pos hlistens, hnone], hkind, ?_⟩
  rw [deliver_of_listens hlistens, process_of_no_event (s := s.hearing) hnone, hreason]
  rcases hkind with rfl | rfl <;> rfl

/-- What a notification does that there is a reason to ignore. -/
theorem deliver_of_ignores {n : Notification} {reason : IgnoreReason} (h : s.ignores? n = some reason) :
    s.hears n = none ∧ s.deliver n = (s.turningAway reason).ignore reason := by
  unfold ignores? at h
  cases hd : s.deafness? with
  | some first =>
    rw [hd] at h
    cases h
    obtain ⟨hdeaf, heq⟩ := deliver_of_deafness hd n
    exact ⟨by simp [hears, hdeaf], heq⟩
  | none =>
    rw [hd, Option.none_or] at h
    obtain ⟨hunheard, -, heq⟩ := deliver_of_disregarded (listens_of_deafness hd) h
    exact ⟨hunheard, heq⟩

theorem turningAway_counters (s : Session) (reason : IgnoreReason) :
    (s.turningAway reason).counters =
      { s.counters with events := s.counters.events + reason.ofEvent.toNat } := by
  cases reason <;> rfl

/-- What is ignored counts as an event if it is ignored for what it is, and not for when or where it comes. -/
theorem listens_of_ignored {n : Notification} {reason : IgnoreReason} (h : s.ignores? n = some reason) :
    s.listens = reason.ofEvent := by
  unfold ignores? at h
  cases hd : s.deafness? with
  | some first =>
    obtain ⟨hdeaf, -⟩ := deliver_of_deafness hd n
    rw [hd, Option.some_or, Option.some.injEq] at h
    rw [hdeaf, ← h]
    unfold deafness? at hd
    split_ifs at hd <;> cases hd <;> rfl
  | none =>
    have hlistens := listens_of_deafness hd
    rw [hd, Option.none_or] at h
    obtain ⟨-, hkind, -⟩ := deliver_of_disregarded hlistens h
    rw [hlistens]
    rcases hkind with rfl | rfl <;> rfl

/-- What is answered to a notification that there is a reason to ignore, and counted for it. -/
theorem deliver_ignored {n : Notification} {reason : IgnoreReason} (h : s.ignores? n = some reason) :
    s.hears n = none ∧ (s.deliver n).2 = .ignored reason ∧
      (s.deliver n).1.counters =
        (s.counters.plus { events := s.listens.toNat }).plus (Outcome.ignored reason).gain := by
  obtain ⟨hunheard, heq⟩ := deliver_of_ignores h
  refine ⟨hunheard, by rw [heq]; rfl, ?_⟩
  rw [heq, ignore_counters, listens_of_ignored h]
  refine congrArg (Counters.plus · _) ?_
  show (s.turningAway reason).counters = _
  simp [turningAway_counters, Counters.plus]

theorem hears_of_heeded {n : Notification} (h : s.ignores? n = none) : ∃ event, s.hears n = some event := by
  obtain ⟨hd, hn⟩ := Option.or_eq_none_iff.mp h
  unfold Settings.disregards? at hn
  rw [hears, if_pos (listens_of_deafness hd)]
  cases he : n.event? with
  | none =>
    rw [he] at hn
    cases hn
  | some event =>
    rw [he] at hn
    dsimp only at hn
    split at hn
    · cases hn
    next hown => exact ⟨event, by simp [hown]⟩

/-- What is answered to an event that is heard and has no row. -/
theorem deliver_quiet (h : s.Sound) {n : Notification} {event : Event} (he : s.hears n = some event)
    (hdue : s.dueRow? n = none) : (s.deliver n).2 = s.settings.quietOutcome s.calls event := by
  rw [dueRow?, he, Option.bind_some] at hdue
  rw [deliver_eq_take he]
  exact take_answer (s := s.hearing) ⟨h.stack, h.rooted⟩ hdue

/-- What is counted for a notification that is heard. -/
theorem deliver_counters (h : s.Sound) {n : Notification} {event : Event} (he : s.hears n = some event) :
    (s.deliver n).1.counters =
      ((s.counters.plus { events := 1 }).plus (s.settings.gain s.calls event)).plus (s.deliver n).2.gain := by
  have hheard : s.hearing.counters = s.counters.plus { events := 1 } := by simp [hearing, count, Counters.plus]
  rw [deliver_eq_take he, take_counters (s := s.hearing) ⟨h.stack, h.rooted⟩, hheard]
  rfl

/-- What is heard is not ignored. -/
theorem deliver_heeded (h : s.Sound) {n : Notification} {event : Event} (he : s.hears n = some event)
    (reason : IgnoreReason) : (s.deliver n).2 ≠ .ignored reason := by
  have hfate := deliver_fate h n
  intro hignored
  rw [hignored] at hfate
  cases hdue : s.dueRow? n with
  | some row =>
    rw [hdue] at hfate
    cases hfate
  | none =>
    rw [deliver_quiet h he hdue] at hignored
    unfold Settings.quietOutcome at hignored
    cases hk : event.kind with
    | call =>
      rw [hk] at hignored
      dsimp only at hignored
      split at hignored <;> cases hignored
    | leave =>
      rw [hk] at hignored
      cases hc : s.settings.closing s.calls event <;> rw [hc] at hignored <;> cases hignored

theorem hears_iff_not_ignored (h : s.Sound) (n : Notification) :
    (∃ event, s.hears n = some event) ↔ ∀ reason, (s.deliver n).2 ≠ .ignored reason := by
  constructor
  · rintro ⟨event, he⟩
    exact deliver_heeded h he
  · intro hheeded
    cases hi : s.ignores? n with
    | none => exact hears_of_heeded hi
    | some reason => exact absurd (deliver_ignored hi).2.1 (hheeded reason)

end Session
end MethodTrace
