import Mathlib.Algebra.GroupWithZero.Nat
import Mathlib.Order.Bounds.Basic
import MethodTrace.Proofs.Nesting

/-! # The accounts of a run

Every notification gets one answer, and the counters add up. Each of them is the number of the answers that it counts,
and a call that was opened was closed by a return, was closed together with all others, or is still open. What a step
adds to the counters is in balance by itself (`perform_posts`), and what is in balance can be put together. -/

namespace MethodTrace
open Session

/-- Whether an action delivers a notification. -/
def Action.delivers : Action → Bool
  | .deliver _ => true
  | _ => false

namespace Step

/-- Whether a step delivers a notification. -/
def delivers (x : Step) : Bool := x.action.delivers

/-- Whether a step tells of a return that closes a call which is not hidden. -/
def returnsShown (x : Step) : Bool :=
  match x.event? with
  | some event => event.kind == .leave &&
      (Settings.returned event (x.before.settings.closing x.before.calls event)).any (!·.2.hidden)
  | none => false

/-- How many open calls a step closes all at once. -/
def unwound (x : Step) : Nat := if x.resets && x.unwinds then x.before.depth else 0

end Step

/-- How often an answer was given. -/
def answers (outcome : Outcome) (past : List Step) : Nat := past.countP (·.outcome? == some outcome)

/-- How many open calls were closed all at once. -/
def callsUnwound (past : List Step) : Nat := (past.map Step.unwound).sum

/-- All numbers among the counters. -/
def Counters.numbers (c : Counters) : List Nat :=
  [c.events, c.calls, c.returns, c.records, c.duplicates, c.suppressed, c.unmatchedReturns, c.blockReturns,
    c.writeErrors, c.maxDepth, c.ignored.total]

/-- Each answer to the notifications of some steps is counted once. -/
structure Counted (past : List Step) (c : Counters) : Prop where
  answered : ∀ x ∈ past, x.outcome?.isSome = x.delivers
  records : c.records = answers .recorded past
  duplicates : c.duplicates = answers .duplicate past
  suppressed : c.suppressed = answers .suppressed past
  unmatchedReturns : c.unmatchedReturns = answers .unmatched past
  writeErrors : c.writeErrors = answers .writeFailed past
  ignored : ∀ reason, c.ignored.count reason = answers (.ignored reason) past

/-- The counters agree with the answers and with each other. -/
structure Balanced (settings : Settings) (past : List Step) (c : Counters) : Prop extends Counted past c where
  events : c.events =
    c.calls + c.returns + c.unmatchedReturns + c.ignored.tracerInternal + c.ignored.unclassified
  deliveries : past.countP Step.delivers =
    c.events + c.ignored.notTracing + c.ignored.finalizing + c.ignored.forkedChild + c.ignored.foreignThread
  eventRows : settings.layout = .events →
    c.records + c.writeErrors + c.suppressed = c.calls + past.countP Step.returnsShown
  edgeRows : settings.layout = .edges →
    c.records + c.writeErrors + c.duplicates + answers .tracked past + c.suppressed = c.calls
  suppressed_le : c.suppressed ≤ c.calls
  blockReturns_le : c.blockReturns ≤ c.returns

/-- What a step adds to the counters, with the open calls before it and after. -/
structure Posts (x : Step) (gain : Counters) : Prop where
  counters : x.after.counters = x.before.counters.plus gain
  balanced : Balanced x.before.settings [x] gain
  depth : x.after.depth + gain.returns + gain.blockReturns + x.unwound = x.before.depth + gain.calls
  maxDepth : gain.maxDepth = x.after.depth ∨ gain.maxDepth = 0 ∧ x.after.depth ≤ x.before.depth

/-- What an event is answered, by its kind and the calls that are open. -/
inductive Entry (settings : Settings) (calls : List OpenCall) (event : Event) : Outcome → Prop
  | hiddenCall : event.kind = .call → Entry settings calls event .suppressed
  | trackedCall : event.kind = .call → settings.layout = .edges → Entry settings calls event .tracked
  | knownCall : event.kind = .call → settings.layout = .edges → Entry settings calls event .duplicate
  | writtenCall {outcome : Outcome} : event.kind = .call → outcome.isWrite = true → Entry settings calls event outcome
  | unmatched : event.kind = .leave → settings.closing calls event = .none → Entry settings calls event .unmatched
  | quietReturn {back : Event × OpenCall} : event.kind = .leave →
      Settings.returned event (settings.closing calls event) = some back →
      (settings.layout = .events → back.2.hidden = true) → Entry settings calls event .popped
  | writtenReturn {outcome : Outcome} {back : Event × OpenCall} : event.kind = .leave → settings.layout = .events →
      Settings.returned event (settings.closing calls event) = some back → back.2.hidden = false →
      outcome.isWrite = true → Entry settings calls event outcome

/-! ### Putting accounts together -/

theorem answers_append (outcome : Outcome) (past later : List Step) :
    answers outcome (past ++ later) = answers outcome past + answers outcome later := List.countP_append

theorem answers_single {x : Step} {given : Outcome} (h : x.outcome? = some given) (outcome : Outcome) :
    answers outcome [x] = if given = outcome then 1 else 0 := by
  simp [answers, List.countP_singleton, h]

theorem callsUnwound_append (past later : List Step) :
    callsUnwound (past ++ later) = callsUnwound past + callsUnwound later := by
  simp [callsUnwound]

theorem IgnoreCounts.count_plus (c gain : IgnoreCounts) (reason : IgnoreReason) :
    (c.plus gain).count reason = c.count reason + gain.count reason := by
  cases reason <;> rfl

theorem event?_of_unanswered {x : Step} (h : x.outcome? = none) : x.event? = none := by
  obtain ⟨before, action, answer, after⟩ := x
  cases answer with
  | outcome => cases h
  | _ => cases action <;> rfl

/-- Steps that deliver nothing add nothing. -/
theorem Balanced.of_quiet {settings : Settings} {past : List Step}
    (h : ∀ x ∈ past, x.delivers = false ∧ x.outcome? = none) : Balanced settings past {} := by
  have hnone : ∀ outcome, answers outcome past = 0 := fun outcome =>
    List.countP_eq_zero.mpr fun x hx => by simp [(h x hx).2]
  refine ⟨⟨fun x hx => ?_, ?_, ?_, ?_, ?_, ?_, fun reason => ?_⟩, rfl, ?_, fun _ => ?_, fun _ => ?_, Nat.le_refl 0,
    Nat.le_refl 0⟩
  case refine_1 => simp [h x hx]
  case refine_8 => exact List.countP_eq_zero.mpr fun x hx => by simp [(h x hx).1]
  case refine_9 =>
    have hshown : past.countP Step.returnsShown = 0 := List.countP_eq_zero.mpr fun x hx => by
      simp [Step.returnsShown, event?_of_unanswered (h x hx).2]
    rw [hshown]
    rfl
  all_goals rw [hnone]
  case refine_7 => cases reason <;> rfl
  case refine_10 => rfl

theorem Counted.append {past later : List Step} {c gain : Counters} (h : Counted past c) (more : Counted later gain) :
    Counted (past ++ later) (c.plus gain) where
  answered x hx := (List.mem_append.mp hx).elim (h.answered x) (more.answered x)
  records := by rw [answers_append, ← h.records, ← more.records]; rfl
  duplicates := by rw [answers_append, ← h.duplicates, ← more.duplicates]; rfl
  suppressed := by rw [answers_append, ← h.suppressed, ← more.suppressed]; rfl
  unmatchedReturns := by rw [answers_append, ← h.unmatchedReturns, ← more.unmatchedReturns]; rfl
  writeErrors := by rw [answers_append, ← h.writeErrors, ← more.writeErrors]; rfl
  ignored reason := by rw [answers_append, ← h.ignored, ← more.ignored]; exact c.ignored.count_plus _ reason

theorem Balanced.append {settings : Settings} {past later : List Step} {c gain : Counters}
    (h : Balanced settings past c) (more : Balanced settings later gain) :
    Balanced settings (past ++ later) (c.plus gain) where
  toCounted := h.toCounted.append more.toCounted
  events := by
    have := h.events
    have := more.events
    simp only [Counters.plus, IgnoreCounts.plus]
    omega
  deliveries := by
    have := h.deliveries
    have := more.deliveries
    simp only [List.countP_append, Counters.plus, IgnoreCounts.plus]
    omega
  eventRows hlayout := by
    have := h.eventRows hlayout
    have := more.eventRows hlayout
    simp only [List.countP_append, Counters.plus]
    omega
  edgeRows hlayout := by
    have := h.edgeRows hlayout
    have := more.edgeRows hlayout
    simp only [answers_append, Counters.plus]
    omega
  suppressed_le := Nat.add_le_add h.suppressed_le more.suppressed_le
  blockReturns_le := Nat.add_le_add h.blockReturns_le more.blockReturns_le

/-! ### What an event adds -/

namespace Settings
variable {settings : Settings} {calls : List OpenCall} {event : Event}

theorem gain_call (hk : event.kind = .call) :
    ({ events := 1 } : Counters).plus (settings.gain calls event) =
      { events := 1, calls := 1, maxDepth := calls.length + 1 } := by
  simp [gain, hk, Counters.plus]

theorem gain_unmatched (hk : event.kind = .leave) (h : settings.closing calls event = .none) :
    ({ events := 1 } : Counters).plus (settings.gain calls event) = { events := 1 } := by
  simp [gain, hk, h]

theorem gain_return (hk : event.kind = .leave) {back : Event × OpenCall}
    (h : returned event (settings.closing calls event) = some back) :
    ∃ blocks ≤ 1, ({ events := 1 } : Counters).plus (settings.gain calls event) =
      { events := 1, returns := 1, blockReturns := blocks } := by
  unfold gain
  rw [hk]
  cases hc : settings.closing calls event with
  | none =>
    rw [hc] at h
    cases h
  | innermost call => exact ⟨0, Nat.zero_le 1, rfl⟩
  | below call => exact ⟨1, Nat.le_refl 1, rfl⟩

/-- A call that is opened makes the stack deeper by one, and a return less deep by one or two. -/
theorem length_callsAfter (settings : Settings) (calls : List OpenCall) (event : Event) :
    (settings.callsAfter calls event).length + (settings.gain calls event).returns +
      (settings.gain calls event).blockReturns = calls.length + (settings.gain calls event).calls := by
  unfold callsAfter gain
  cases event.kind with
  | call => rfl
  | leave =>
    cases hc : settings.closing calls event with
    | none => rfl
    | innermost call =>
      obtain ⟨rest, rfl, -⟩ := closing_innermost hc
      rfl
    | below call =>
      obtain ⟨top, rest, rfl, -⟩ := closing_below hc
      rfl

theorem maxDepth_gain (settings : Settings) (calls : List OpenCall) (event : Event) :
    (settings.gain calls event).maxDepth = (settings.callsAfter calls event).length ∨
      (settings.gain calls event).maxDepth = 0 ∧ (settings.callsAfter calls event).length ≤ calls.length := by
  unfold gain callsAfter
  cases event.kind with
  | call => exact .inl rfl
  | leave =>
    refine .inr ?_
    cases settings.closing calls event with
    | none => exact ⟨rfl, Nat.le_refl _⟩
    | innermost call => exact ⟨rfl, by simp⟩
    | below call => exact ⟨rfl, by simp; omega⟩

end Settings

namespace Session
variable {s t : Session}

/-- A row is written or not, unless it is known in a trace of edges. -/
theorem write_of_fate {row : String} {outcome : Outcome} (h : Fate s t (some row) outcome) :
    outcome.isWrite = true ∨ outcome = .duplicate ∧ s.settings.layout = .edges := by
  cases h with
  | duplicate hedges => exact .inr ⟨rfl, hedges⟩
  | recorded => exact .inl rfl
  | writeFailed => exact .inl rfl

theorem deliver_entry (hs : s.Sound) {n : Notification} {event : Event} (he : s.hears n = some event) :
    Entry s.settings s.calls event (s.deliver n).2 := by
  obtain ⟨-, -, -, hfate⟩ := deliver_of_hears hs he
  cases hrow : s.settings.row? s.calls event with
  | none =>
    have hdue : s.dueRow? n = none := by rw [dueRow?, he, Option.bind_some, hrow]
    rw [deliver_quiet hs he hdue, Settings.quietOutcome]
    cases hk : event.kind with
    | call =>
      simp only [Settings.row?, hk, Settings.callRow?] at hrow
      dsimp only
      split at hrow
      next hhides =>
        rw [if_pos hhides]
        exact .hiddenCall hk
      next hshown =>
        rw [if_neg hshown]
        refine .trackedCall hk ?_
        split at hrow
        · cases hrow
        next hedges => exact hedges
    | leave =>
      simp only [Settings.row?, hk, Settings.returnRow?] at hrow
      have quiet : ∀ back, Settings.returned event (s.settings.closing s.calls event) = some back →
          Entry s.settings s.calls event .popped := by
        intro back hback
        refine .quietReturn hk hback fun events => ?_
        simpa [events, hback] using hrow
      cases hc : s.settings.closing s.calls event with
      | none => exact .unmatched hk hc
      | innermost call => exact quiet (event, call) (congrArg _ hc)
      | below call => exact quiet (Settings.blockReturn event.method call.event, call) (congrArg _ hc)
  | some row =>
    rw [hrow] at hfate
    have hwrite := write_of_fate hfate
    cases hk : event.kind with
    | call =>
      rcases hwrite with hwrite | ⟨hknown, hedges⟩
      · exact .writtenCall hk hwrite
      · rw [hknown]
        exact .knownCall hk hedges
    | leave =>
      simp only [Settings.row?, hk, Settings.returnRow?] at hrow
      split at hrow
      next _ _ back call events hback =>
        have hshown : call.hidden = false := eq_false_of_ne_true (Option.ite_none_left_eq_some.mp hrow).1
        refine .writtenReturn hk events hback hshown (hwrite.resolve_right ?_)
        simp [events]
      · cases hrow

end Session

theorem Outcome.gain_ignored (outcome : Outcome) (reason : IgnoreReason) :
    outcome.gain.ignored.count reason = if outcome = .ignored reason then 1 else 0 := by
  cases outcome with
  | ignored given => cases given <;> cases reason <;> rfl
  | _ => cases reason <;> rfl

/-- An answer counts for nothing but itself. -/
theorem Outcome.gain_bare (outcome : Outcome) :
    outcome.gain.events = 0 ∧ outcome.gain.calls = 0 ∧ outcome.gain.returns = 0 ∧ outcome.gain.blockReturns = 0 ∧
      outcome.gain.maxDepth = 0 := by
  cases outcome <;> exact ⟨rfl, rfl, rfl, rfl, rfl⟩

/-- An answer is counted once, whatever calls and returns are counted with it. -/
theorem counted_of_answer {x : Step} {outcome : Outcome} (hd : x.delivers = true) (ho : x.outcome? = some outcome)
    (events calls returns blockReturns maxDepth : Nat) :
    Counted [x] (({ events, calls, returns, blockReturns, maxDepth } : Counters).plus outcome.gain) := by
  have counted : ∀ asked, answers asked [x] = if outcome = asked then 1 else 0 := answers_single ho
  refine ⟨by simp [ho, hd], ?_, ?_, ?_, ?_, ?_, fun reason => ?_⟩ <;> rw [counted]
  case refine_6 =>
    rw [← outcome.gain_ignored]
    exact (IgnoreCounts.count_plus {} _ reason).trans (by cases reason <;> exact Nat.zero_add _)
  all_goals cases outcome <;> rfl

/-- What an event adds is in balance with its answer. -/
theorem Entry.balanced {x : Step} {event : Event} {outcome : Outcome} (hd : x.delivers = true)
    (ho : x.outcome? = some outcome) (he : x.event? = some event)
    (h : Entry x.before.settings x.before.calls event outcome) :
    Balanced x.before.settings [x]
      ((({ events := 1 } : Counters).plus (x.before.settings.gain x.before.calls event)).plus outcome.gain) := by
  have counted := counted_of_answer hd ho
  have delivered : [x].countP Step.delivers = 1 := by simp [hd]
  have shown : x.returnsShown = (event.kind == .leave && (Settings.returned event
      (x.before.settings.closing x.before.calls event)).any (!·.2.hidden)) := by rw [Step.returnsShown, he]
  have eventRows : ∀ {c : Counters}, x.returnsShown = false → c.records + c.writeErrors + c.suppressed = c.calls →
      c.records + c.writeErrors + c.suppressed = c.calls + [x].countP Step.returnsShown := by
    intro c hx h
    simp [hx, h]
  have edgeRows : ∀ {c : Counters},
      c.records + c.writeErrors + c.duplicates + (if outcome = .tracked then 1 else 0) + c.suppressed = c.calls →
      c.records + c.writeErrors + c.duplicates + answers .tracked [x] + c.suppressed = c.calls := by
    intro c h
    rwa [answers_single ho]
  cases h with
  | hiddenCall hk =>
    have hshown : x.returnsShown = false := by rw [shown, hk]; rfl
    rw [Settings.gain_call hk]
    exact ⟨counted .., rfl, delivered, fun _ => eventRows hshown rfl, fun _ => edgeRows rfl, Nat.le_refl 1,
      Nat.le_refl 0⟩
  | trackedCall hk hedges =>
    rw [Settings.gain_call hk]
    exact ⟨counted .., rfl, delivered, fun events => by simp [hedges] at events, fun _ => edgeRows rfl, Nat.zero_le 1,
      Nat.le_refl 0⟩
  | knownCall hk hedges =>
    rw [Settings.gain_call hk]
    exact ⟨counted .., rfl, delivered, fun events => by simp [hedges] at events, fun _ => edgeRows rfl, Nat.zero_le 1,
      Nat.le_refl 0⟩
  | writtenCall hk hwrite =>
    have hshown : x.returnsShown = false := by rw [shown, hk]; rfl
    rw [Settings.gain_call hk]
    rcases (isWrite_iff outcome).mp hwrite with rfl | rfl <;>
      exact ⟨counted .., rfl, delivered, fun _ => eventRows hshown rfl, fun _ => edgeRows rfl, Nat.zero_le 1,
        Nat.le_refl 0⟩
  | unmatched hk hnone =>
    have hshown : x.returnsShown = false := by rw [shown, hk, hnone]; rfl
    rw [Settings.gain_unmatched hk hnone]
    exact ⟨counted .., rfl, delivered, fun _ => eventRows hshown rfl, fun _ => edgeRows rfl, Nat.le_refl 0,
      Nat.le_refl 0⟩
  | quietReturn hk hback hhidden =>
    obtain ⟨blocks, hblocks, hgain⟩ := Settings.gain_return hk hback
    rw [hgain]
    refine ⟨counted .., rfl, delivered, fun events => eventRows ?_ rfl, fun _ => edgeRows rfl, Nat.zero_le 0, hblocks⟩
    simp [shown, hback, hhidden events]
  | writtenReturn hk events hback hshown hwrite =>
    obtain ⟨blocks, hblocks, hgain⟩ := Settings.gain_return hk hback
    have hcount : [x].countP Step.returnsShown = 1 := by simp [shown, hk, hback, hshown]
    rw [hgain]
    rcases (isWrite_iff outcome).mp hwrite with rfl | rfl
    all_goals
      refine ⟨counted .., rfl, delivered, fun _ => ?_, fun edges => by simp [events] at edges, Nat.zero_le 0, hblocks⟩
      rw [hcount]
      rfl

/-! ### What a step adds -/

namespace Session
variable {s t : Session}

theorem depth_eq (hs : s.Sound) : s.depth = s.calls.length := CallStack.depth_eq hs.stack

theorem posts_of_heard (hs : s.Sound) {n : Notification} {event : Event} (he : s.hears n = some event) :
    Posts (s.step (.deliver n))
      ((({ events := 1 } : Counters).plus (s.settings.gain s.calls event)).plus (s.deliver n).2.gain) := by
  have hevent : (s.step (.deliver n)).event? = some event := (event?_deliver hs n).trans he
  obtain ⟨-, hsound, hcalls, -⟩ := deliver_of_hears hs he
  obtain ⟨-, hnocalls, hnoreturns, hnoblocks, hnodepth⟩ := (s.deliver n).2.gain_bare
  have hafter : (s.deliver n).1.depth = (s.settings.callsAfter s.calls event).length := by
    rw [depth_eq hsound, hcalls]
  refine ⟨?_, (deliver_entry hs he).balanced rfl rfl hevent, ?_, ?_⟩
  · rw [← Counters.plus_assoc, ← Counters.plus_assoc]
    exact deliver_counters hs he
  · have hlength := s.settings.length_callsAfter s.calls event
    show (s.deliver n).1.depth + _ + _ + 0 = s.depth + _
    rw [hafter, depth_eq hs]
    simpa [Counters.plus, hnocalls, hnoreturns, hnoblocks] using hlength
  · have hdepth := s.settings.maxDepth_gain s.calls event
    show _ = (s.deliver n).1.depth ∨ _ = 0 ∧ (s.deliver n).1.depth ≤ s.depth
    rw [hafter, depth_eq hs]
    simpa [Counters.plus, hnodepth] using hdepth

theorem posts_of_ignored {n : Notification} {reason : IgnoreReason} (h : s.ignores? n = some reason) :
    Posts (s.step (.deliver n))
      (({ events := s.listens.toNat } : Counters).plus (Outcome.ignored reason).gain) := by
  obtain ⟨hunheard, hanswer, hcounters⟩ := deliver_ignored h
  obtain ⟨-, -, k⟩ := deliver_of_not_hears hunheard
  have hdepth : (s.deliver n).1.depth = s.depth := congrArg CallStack.depth k.stack
  have ho : (s.step (.deliver n)).outcome? = some (.ignored reason) := congrArg some hanswer
  have hshown : [s.step (.deliver n)].countP Step.returnsShown = 0 := by
    have hevent : (s.step (.deliver n)).event? = none := by
      show Step.event? ⟨s, .deliver n, .outcome (s.deliver n).2, _⟩ = none
      rw [hanswer]
      rfl
    simp [Step.returnsShown, hevent]
  refine ⟨?_, ?_, ?_, .inr ⟨rfl, Nat.le_of_eq hdepth⟩⟩
  · rw [← Counters.plus_assoc]
    exact hcounters
  · rw [listens_of_ignored h]
    refine ⟨counted_of_answer rfl ho .., ?_, ?_, fun _ => ?_, fun _ => ?_, Nat.le_refl 0, Nat.le_refl 0⟩
    · cases reason <;> rfl
    · cases reason <;> rfl
    · rw [hshown]
      rfl
    · rw [answers_single ho]
      rfl
  · show (s.deliver n).1.depth + 0 + 0 + 0 = s.depth + 0
    rw [hdepth]

/-- A step that delivers nothing adds nothing. -/
theorem posts_of_quiet {x : Step} (hd : x.delivers = false) (ho : x.outcome? = none)
    (hcounters : x.after.counters = x.before.counters) (hdepth : x.after.depth + x.unwound = x.before.depth) :
    Posts x {} := by
  refine ⟨by rw [hcounters, Counters.plus_none], .of_quiet ?_, hdepth, .inr ⟨rfl, by omega⟩⟩
  simp [hd, ho]

/-- Only notifications are counted. -/
theorem perform_counters {action : Action} (ha : action.isSimple = true) (hd : action.delivers = false) :
    (s.perform action).1.counters = s.counters := by
  cases action with
  | deliver n => cases hd
  | start => exact (start_stays s).counters
  | stop => exact (stop_stays s).counters
  | mark label unwinding => exact (mark_stays s label unwinding).counters
  | flush => exact (flush_stays s).counters
  | close => exact (close_stays s).counters
  | beginFinalize => rfl
  | look => rfl
  | enterProcess => rfl
  | enterThread => rfl
  | setFaults => rfl
  | «scoped» => cases ha

section
variable {action : Action}

/-- A step that leaves the stack as it is adds nothing. -/
theorem posts_of_kept (ha : action.isSimple = true) (hd : action.delivers = false)
    (ho : (s.step action).outcome? = none) (hstack : (s.perform action).1.stack = s.stack)
    (hunwound : (s.step action).unwound = 0) : Posts (s.step action) {} := by
  refine posts_of_quiet hd ho (perform_counters ha hd) ?_
  rw [hunwound]
  exact congrArg CallStack.depth hstack

/-- A step that closes all calls adds nothing, as they are counted apart. -/
theorem posts_of_reset (ha : action.isSimple = true) (hd : action.delivers = false)
    (ho : (s.step action).outcome? = none) (hstack : (s.perform action).1.stack = s.stack.reset)
    (hunwound : (s.step action).unwound = s.depth) : Posts (s.step action) {} := by
  refine posts_of_quiet hd ho (perform_counters ha hd) ?_
  have hdepth : (s.perform action).1.depth = 0 := (congrArg CallStack.depth hstack).trans s.stack.depth_reset
  show (s.perform action).1.depth + (s.step action).unwound = s.depth
  rw [hdepth, hunwound, Nat.zero_add]

end

theorem mark_posts (s : Session) (label : String) (unwinding : Bool) : Posts (s.step (.mark label unwinding)) {} := by
  have hunwound : ∀ result, (s.mark label unwinding).2 = result → (s.step (.mark label unwinding)).unwound =
      Step.unwound ⟨s, .mark label unwinding, .result result, (s.mark label unwinding).1⟩ := fun _ h => h ▸ rfl
  have hfate := mark_fate s label unwinding
  generalize (s.mark label unwinding).2 = result at hfate hunwound
  replace hunwound := hunwound _ rfl
  cases hfate with
  | closed _ k => exact posts_of_kept rfl rfl rfl k.stack hunwound
  | elsewhere _ hctx k =>
    refine posts_of_kept rfl rfl rfl k.stack (hunwound.trans ?_)
    simp [Step.unwound, Step.resets, hctx]
  | failed _ _ _ hstack => exact posts_of_kept rfl rfl rfl hstack hunwound
  | written _ hctx _ hstack =>
    cases unwinding with
    | true =>
      refine posts_of_reset rfl rfl rfl hstack (hunwound.trans ?_)
      simp [Step.unwound, Step.resets, Step.unwinds, hctx]
    | false =>
      refine posts_of_kept rfl rfl rfl hstack (hunwound.trans ?_)
      simp [Step.unwound, Step.unwinds]

/-- What a step adds to the counters is in balance by itself. -/
theorem perform_posts (hs : s.Sound) {action : Action} (ha : action.isSimple = true) :
    ∃ gain, Posts (s.step action) gain := by
  cases action with
  | deliver n =>
    cases hi : s.ignores? n with
    | some reason => exact ⟨_, posts_of_ignored hi⟩
    | none =>
      obtain ⟨event, he⟩ := hears_of_heeded hi
      exact ⟨_, posts_of_heard hs he⟩
  | mark label unwinding => exact ⟨_, mark_posts s label unwinding⟩
  | start => exact ⟨_, posts_of_kept rfl rfl rfl (start_sameTrace s).stack rfl⟩
  | stop =>
    cases ht : s.isTracing with
    | false =>
      refine ⟨_, posts_of_kept rfl rfl rfl (congrArg stack (stop_of_not_tracing ht)) ?_⟩
      simp [Step.unwound, Step.resets, step, ht]
    | true =>
      refine ⟨_, posts_of_reset rfl rfl rfl (stop_of_tracing ht).2.1 ?_⟩
      simp [Step.unwound, Step.resets, Step.unwinds, step, ht]
  | close =>
    cases hc : s.isClosed with
    | true =>
      refine ⟨_, posts_of_kept rfl rfl rfl (congrArg (·.1.stack) (close_of_closed hc)) ?_⟩
      simp [Step.unwound, Step.resets, step, hc]
    | false =>
      refine ⟨_, posts_of_reset rfl rfl rfl (close_of_open hc).2.1 ?_⟩
      simp [Step.unwound, Step.resets, Step.unwinds, step, hc]
  | flush => exact ⟨_, posts_of_kept rfl rfl rfl (congrArg (·.stack) (flush_eq s)) rfl⟩
  | beginFinalize => exact ⟨_, posts_of_kept rfl rfl rfl rfl rfl⟩
  | look => exact ⟨_, posts_of_kept rfl rfl rfl rfl rfl⟩
  | enterProcess => exact ⟨_, posts_of_kept rfl rfl rfl rfl rfl⟩
  | enterThread => exact ⟨_, posts_of_kept rfl rfl rfl rfl rfl⟩
  | setFaults => exact ⟨_, posts_of_kept rfl rfl rfl rfl rfl⟩
  | «scoped» => cases ha

/-! ### Every run -/

theorem Reaches.posts {past : List Step} (h : Reaches s past t) (hs : s.Sound) :
    ∃ gain, t.counters = s.counters.plus gain ∧ Balanced s.settings past gain ∧
      t.depth + gain.returns + gain.blockReturns + callsUnwound past = s.depth + gain.calls := by
  induction h with
  | nil => exact ⟨{}, (Counters.plus_none _).symm, .of_quiet (by simp), rfl⟩
  | @snoc past t action ha h ih =>
    obtain ⟨gain, hcounters, hbalanced, hdepth⟩ := ih
    obtain ⟨hsound, hsettings⟩ := h.sound hs
    obtain ⟨extra, posts⟩ := perform_posts hsound ha
    refine ⟨gain.plus extra, ?_, hbalanced.append (hsettings ▸ posts.balanced), ?_⟩
    · rw [← Counters.plus_assoc, ← hcounters]
      exact posts.counters
    · have hlast := posts.depth
      rw [callsUnwound_append]
      simp only [Counters.plus, callsUnwound, step, List.map_singleton, List.sum_singleton] at *
      omega

theorem Reaches.counters {past : List Step} (h : Reaches s past t) (hd : ∀ x ∈ past, x.delivers = false) :
    t.counters = s.counters := by
  induction h with
  | nil => rfl
  | snoc action ha _ ih =>
    obtain ⟨hpast, hlast⟩ := List.forall_mem_append.mp hd
    exact (perform_counters ha (hlast _ List.mem_cons_self)).trans (ih hpast)

/-- The deepest stack on the way is remembered. -/
theorem Reaches.maxDepth {past : List Step} (h : Reaches s past t) (hs : s.Sound)
    (hin : s.counters.maxDepth = s.depth) :
    IsGreatest {depth | ∃ earlier, earlier <+: past ∧ (s.after earlier).depth = depth} t.counters.maxDepth := by
  induction h with
  | nil =>
    refine ⟨⟨[], List.prefix_refl _, hin.symm⟩, ?_⟩
    rintro depth ⟨earlier, hearlier, rfl⟩
    rw [List.prefix_nil.mp hearlier, hin]
    rfl
  | @snoc past t action ha h ih =>
    obtain ⟨gain, posts⟩ := perform_posts (h.sound hs).1 ha
    have hafter : s.after (past ++ [t.step action]) = (t.perform action).1 := (h.snoc action ha).after_eq
    have hset : {depth | ∃ earlier, earlier <+: past ++ [t.step action] ∧ (s.after earlier).depth = depth} =
        insert (t.perform action).1.depth {depth | ∃ earlier, earlier <+: past ∧ (s.after earlier).depth = depth} := by
      ext depth
      simp only [List.prefix_concat_iff, or_and_right, exists_or, exists_eq_left, hafter, Set.mem_ofPred_eq,
        Set.mem_insert_iff, eq_comm]
    have hbefore : t.depth ≤ t.counters.maxDepth := ih.2 ⟨past, List.prefix_refl _, by rw [h.after_eq]⟩
    have hmax : (t.perform action).1.counters.maxDepth = max (t.perform action).1.depth t.counters.maxDepth := by
      have hcounters : (t.perform action).1.counters = t.counters.plus gain := posts.counters
      have hgain := posts.maxDepth
      rw [hcounters]
      simp only [Counters.plus, step] at *
      omega
    rw [hset, hmax]
    exact ih.insert _

end Session

theorem Counted.answers_le {past : List Step} {c : Counters} (h : Counted past c) (outcome : Outcome) :
    answers outcome past ≤ past.countP Step.delivers := by
  refine List.countP_mono_left fun x hx hanswer => ?_
  rw [← h.answered x hx, eq_of_beq hanswer]
  rfl

/-- There are as many notifications as any number among the counters, or more. -/
theorem Balanced.numbers_le {settings : Settings} {past : List Step} {c : Counters} (h : Balanced settings past c)
    (hdepth : c.maxDepth ≤ past.countP Step.delivers) : ∀ number ∈ c.numbers, number ≤ past.countP Step.delivers := by
  have hrecords := h.answers_le .recorded
  have hduplicates := h.answers_le .duplicate
  have hfailed := h.answers_le .writeFailed
  have hevents := h.events
  have hdeliveries := h.deliveries
  have hsuppressed := h.suppressed_le
  have hblocks := h.blockReturns_le
  rw [← h.records] at hrecords
  rw [← h.duplicates] at hduplicates
  rw [← h.writeErrors] at hfailed
  simp only [Counters.numbers, IgnoreCounts.total, List.forall_mem_cons, List.not_mem_nil, false_implies, implies_true,
    and_true]
  refine ⟨?_, ?_, ?_, hrecords, hduplicates, ?_, ?_, ?_, hfailed, hdepth, ?_⟩ <;> omega

theorem Counters.none_plus (c : Counters) : ({} : Counters).plus c = c := by
  simp [plus, IgnoreCounts.plus]

namespace Session
variable {s : Session}

/-- At every point of a run the counters are in balance. The calls counted are those that returned, those that a block's
return closed with its own, those that were closed all at once and those still open. The greatest depth counted is the
greatest that there was. No number exceeds that of the notifications. -/
theorem balanced_throughout {settings : Settings} {faults : Faults} {label : String} {host : Host}
    (opened : create settings { destination := { faults }, label } host = .ok s) (actions : List Action)
    {past : List Step} (hp : past <+: s.stepsOfAll actions) :
    let c := (s.after past).counters
    Balanced settings past c ∧ (s.after past).depth + c.returns + c.blockReturns + callsUnwound past = c.calls ∧
      IsGreatest {depth | ∃ earlier, earlier <+: past ∧ (s.after earlier).depth = depth} c.maxDepth ∧
      ∀ number ∈ c.numbers, number ≤ past.countP Step.delivers := by
  intro c
  have fresh := create_fresh opened
  have hcounters := create_counters opened
  have hdepth : s.depth = 0 := fresh.blank.depth_eq
  have accounts : ∀ {earlier : List Step}, earlier <+: past → Balanced settings earlier (s.after earlier).counters ∧
      (s.after earlier).depth + (s.after earlier).counters.returns + (s.after earlier).counters.blockReturns +
        callsUnwound earlier = (s.after earlier).counters.calls := by
    intro earlier hearlier
    obtain ⟨gain, hgain, hbalanced, hcalls⟩ := (reaches_upTo (hearlier.trans hp)).posts fresh.sound
    rw [hcounters, Counters.none_plus] at hgain
    rw [hgain, ← fresh.settings_eq]
    exact ⟨hbalanced, by omega⟩
  obtain ⟨hbalanced, hcalls⟩ := accounts (List.prefix_refl _)
  have hgreatest := (reaches_upTo hp).maxDepth fresh.sound (by rw [hcounters, hdepth])
  refine ⟨hbalanced, hcalls, hgreatest, hbalanced.numbers_le ?_⟩
  -- The stack was never deeper than the number of calls until then.
  obtain ⟨earlier, hearlier, hdeepest⟩ := hgreatest.1
  obtain ⟨hearly, hopen⟩ := accounts hearlier
  have hevents := hearly.events
  have hdeliveries := hearly.deliveries
  have hmore : earlier.countP Step.delivers ≤ past.countP Step.delivers := hearlier.sublist.countP_le
  omega

/-- A block's return closes a hidden call and the call around it. A mark closes the call that is left. Then come a
notification of another thread, one after a fork, and one after that. -/
theorem balanced_of_block_and_fork :
    let call (name path : String) : Notification :=
      { kind := .enter, receiver := .unknown, method := some name, path := some path }
    let back : Notification := { kind := .leave, receiver := .unknown, method := some "run", fromBlock := true }
    let actions : List Action :=
      [.start, .deliver (call "main" "main.rb"), .deliver (call "run" "main.rb"), .deliver (call "each" "lib/each.rb"),
        .deliver back, .mark "next" true, .enterThread 2, .deliver (call "other" "main.rb"), .enterThread 1,
        .enterProcess 2, .deliver (call "child" "main.rb"), .deliver (call "child" "main.rb"), .close]
    let settings : Settings := { flatten := false, filter := .paths ["lib/"] }
    ∃ s, create settings { destination := { faults := {} }, label := "" } { process := 1 } = .ok s ∧
      let past := s.stepsOfAll actions
      let c := (s.after past).counters
      Balanced settings past c ∧ c.events + c.ignored.notTracing + c.ignored.finalizing + c.ignored.forkedChild +
          c.ignored.foreignThread = 7 ∧
        (s.after past).depth + c.returns + c.blockReturns + callsUnwound past = c.calls ∧
        IsGreatest {depth | ∃ earlier, earlier <+: past ∧ (s.after earlier).depth = depth} c.maxDepth ∧
        ∀ number ∈ c.numbers, number ≤ 7 := by
  intro call back actions settings
  obtain ⟨s, opened⟩ := create_in_memory settings (by decide)
  obtain ⟨hbalanced, hcalls, hgreatest, hnumbers⟩ := balanced_throughout opened actions (List.prefix_refl _)
  have hcount : (s.stepsOfAll actions).countP Step.delivers = 7 := rfl
  rw [hcount] at hnumbers
  exact ⟨s, opened, hbalanced, hbalanced.deliveries.symm.trans hcount, hcalls, hgreatest, hnumbers⟩

end Session
end MethodTrace
