import MethodTrace.Proofs.CallForest
import MethodTrace.Proofs.Outcomes
import MethodTrace.Proofs.StackAsList

/-! # Which frames a return closes

A return that is heard closes the innermost frame if that is a call of its method. A block's return may close the frame
below as well (`PastBlock`). Every other return leaves the stack, the rows known and the output alone (`Settled`). The
frames are popped off a stack that holds them, and the root is not among them. -/

namespace MethodTrace

/-- A frame holds a call of a method. The root holds none, whatever the method is called. -/
structure Frame.IsCallOf (f : Frame) (method : Method) : Prop where
  call : f.isRoot = false
  method_eq : f.event.method = method

namespace Settings

/-- A block's return belongs to the frame below the innermost one. -/
structure PastBlock (settings : Settings) (event : Event) (top lower : Frame) : Prop where
  other : ¬top.IsCallOf event.method
  call : top.isRoot = false
  fromBlock : event.fromBlock = true
  reattribute : settings.blockReturns = .reattribute
  lower : lower.IsCallOf event.method

/-- The row that is due for a return that closed a call. -/
def closedRow? (settings : Settings) (event : Event) (hidden : Bool) : Option String :=
  match settings.layout with
  | .events => if hidden then none else some (Row.ofEvent event)
  | .edges => none

end Settings

/-- What a return finds on a stack: everything that it looks up is there. -/
structure CallStack.Found (s : CallStack) (top : Frame) (below : List Frame) : Prop where
  live : s.live = top :: below
  slot : s.top = some below.length
  peek : s.peek = some top
  frame : s.frame below.length = .ok top
  below : s.below below.length = .ok below.head?

/-- Some frames are closed, one after the other, and the others stay. What is counted for that, the row that is due and
what becomes of it is all that there is to the return. -/
structure Closed (s t : Session) (frames others : List Frame) (counted : Counters) (row : Option String)
    (outcome : Outcome) : Prop where
  popped : s.stack.actAll (frames.map fun _ => .pop) = (t.stack, frames.map fun f => .popped (.ok f))
  live : t.stack.live = others
  seen : t.seen = s.seen
  counters : t.counters = ((s.counters.plus { events := 1 }).plus counted).plus outcome.gain
  fate : Fate s t row outcome
  quiet : row = none → outcome = .popped

/-- What a return does, by the innermost frame and the ones below it. -/
structure Settled (s t : Session) (event : Event) (top : Frame) (below : List Frame) (outcome : Outcome) : Prop where
  innermost : top.IsCallOf event.method →
    Closed s t [top] below { returns := 1 } (s.settings.closedRow? event top.hidden) outcome
  pastBlock : ∀ lower others, below = lower :: others → s.settings.PastBlock event top lower →
    Closed s t [top, lower] others { returns := 1, blockReturns := 1 }
      (s.settings.closedRow? (Settings.blockReturn event.method lower.event) lower.hidden) outcome
  unmatched : ¬top.IsCallOf event.method →
    (∀ lower others, below = lower :: others → ¬s.settings.PastBlock event top lower) →
    outcome = .unmatched ∧ t.stack = s.stack ∧ t.seen = s.seen ∧ t.channel = s.channel ∧
      t.counters = (s.counters.plus { events := 1 }).plus { unmatchedReturns := 1 }

namespace CallStack

theorem Linked.root_last {rooted : Bool} {frames : List Frame} (h : Linked rooted frames) (hr : rooted = true) :
    frames.getLast? = some .root := by
  induction h with
  | empty => cases hr
  | root => rfl
  | call _ _ _ ih => rw [List.getLast?_cons, ih hr, Option.getD_some]

theorem Sound.found {s : CallStack} (h : s.Sound) {top : Frame} {below : List Frame} (hlive : s.live = top :: below) :
    Found s top below := by
  have hsuffix : top :: below <:+ s.live := hlive ▸ List.suffix_refl _
  refine ⟨hlive, ?_, ?_, ?_, below_of_suffix h hsuffix⟩
  · rw [top_eq h.within, hlive, topOf]
  · rw [peek_eq h.within, hlive, List.head?_cons]
  · simp [frame, slots_of_suffix hsuffix, isLive_of_suffix h.within hsuffix]

end CallStack

namespace Session
variable {s : Session} {event : Event} {top lower : Frame} {below others : List Frame}

/-! ### Which calls are closed -/

theorem Match.of_iff (f : Frame) (event : Event) : Match.of f event = true ↔ f.IsCallOf event.method := by
  simp only [Match.of, Bool.and_eq_true, Bool.not_eq_true', Event.sameMethod_iff]
  exact ⟨fun h => ⟨h.1, h.2⟩, fun h => ⟨h.call, h.method_eq⟩⟩

theorem closing_of_innermost (hlive : s.stack.live = top :: below) (h : top.IsCallOf event.method) :
    s.settings.closing s.calls event = .innermost top.openCall := by
  have hsame : top.openCall.event.method = event.method := h.method_eq
  rw [calls, CallStack.calls, hlive, CallStack.callsOf_cons h.call]
  simp [Settings.closing, hsame]

theorem closing_of_pastBlock (hlive : s.stack.live = top :: lower :: others)
    (h : s.settings.PastBlock event top lower) : s.settings.closing s.calls event = .below lower.openCall := by
  have hother : top.openCall.event.method ≠ event.method := fun hsame => h.other ⟨h.call, hsame⟩
  have hlower : lower.openCall.event.method = event.method := h.lower.method_eq
  rw [calls, CallStack.calls, hlive, CallStack.callsOf_cons h.call, CallStack.callsOf_cons h.lower.call]
  simp [Settings.closing, hother, hlower, h.fromBlock, h.reattribute]

theorem closing_of_unmatched (hs : s.Sound) (hlive : s.stack.live = top :: below)
    (htop : ¬top.IsCallOf event.method)
    (hblock : ∀ lower others, below = lower :: others → ¬s.settings.PastBlock event top lower) :
    s.settings.closing s.calls event = .none := by
  have hlinked : CallStack.Linked true s.stack.live := hs.rooted ▸ hs.stack.linked
  rw [hlive] at hlinked
  rw [calls, CallStack.calls, hlive]
  cases hlinked with
  | root => rfl
  | call hbelow _ hcall =>
    have hother : top.openCall.event.method ≠ event.method := fun hsame => htop ⟨hcall, hsame⟩
    simp only [CallStack.callsOf_cons hcall, Settings.closing, if_neg hother]
    split
    next hpolicy =>
      simp only [Bool.and_eq_true, beq_iff_eq] at hpolicy
      cases hbelow with
      | root => rfl
      | @call _ g rest _ _ hg =>
        have hlower : g.openCall.event.method ≠ event.method := fun hsame =>
          hblock g rest rfl ⟨htop, hcall, hpolicy.1, hpolicy.2, hg, hsame⟩
        rw [CallStack.callsOf_cons hg]
        exact if_neg hlower
    next => rfl

/-! ### What a return does -/

theorem seen_of_closed {t : Session} {hidden : Bool} {outcome : Outcome}
    (h : Fate s t (s.settings.closedRow? event hidden) outcome) : t.seen = s.seen := by
  unfold Settings.closedRow? at h
  cases hlayout : s.settings.layout with
  | edges =>
    rw [hlayout] at h
    cases h with
    | quiet _ hseen => exact hseen
  | events =>
    rw [hlayout] at h
    have hwith : ∀ row, s.seenWith row = s.seen := fun row => by rw [seenWith, hlayout]
    cases hidden with
    | true =>
      cases h with
      | quiet _ hseen => exact hseen
    | false =>
      cases h with
      | duplicate hedges =>
        rw [hlayout] at hedges
        cases hedges
      | recorded _ hseen => exact hseen.trans (hwith _)
      | writeFailed _ hseen => exact hseen.trans (hwith _)

/-- A return as far as the calls that it closes decide. -/
theorem deliver_leave (hs : s.Sound) {n : Notification} (he : s.hears n = some event) (hk : event.kind = .leave) :
    (s.deliver n).1.stack = (match s.settings.closing s.calls event with
      | .none => s.stack
      | .innermost _ => s.stack.pop.1
      | .below _ => s.stack.pop.1.pop.1) ∧
      Fate s (s.deliver n).1 (s.settings.returnRow? s.calls event) (s.deliver n).2 ∧
      (s.settings.returnRow? s.calls event = none →
        (s.deliver n).2 = s.settings.quietOutcome s.calls event) ∧
      (s.deliver n).1.counters =
        ((s.counters.plus { events := 1 }).plus (s.settings.gain s.calls event)).plus (s.deliver n).2.gain := by
  have heq : s.deliver n = s.hearing.leave event := by
    rw [deliver_eq_take he, take, hk]
  obtain ⟨-, hstack, hfate⟩ := leave_spec (s := s.hearing) ⟨hs.stack, hs.rooted⟩ event
  refine ⟨heq ▸ hstack, heq ▸ hfate.of_eq rfl rfl rfl, fun hrow => deliver_quiet hs he ?_, deliver_counters hs he⟩
  rw [dueRow?, he, Option.bind_some, Settings.row?, hk]
  exact hrow

/-- Closed calls have the row of the one that the return belongs to. -/
theorem returnRow?_of_returned {settings : Settings} {calls : List OpenCall} {placed : Event} {call : OpenCall}
    (h : Settings.returned event (settings.closing calls event) = some (placed, call)) :
    settings.returnRow? calls event = settings.closedRow? placed call.hidden := by
  rw [Settings.returnRow?, h, Settings.closedRow?]
  cases settings.layout <;> rfl

theorem closed_of_pops (hs : s.Sound) {t : Session} {frames : List Frame} {counted : Counters} {hidden : Bool}
    {outcome : Outcome} (hlive : s.stack.live = frames ++ others) (hcalls : ∀ f ∈ frames, f.isRoot = false)
    (hstack : t.stack = (s.stack.actAll (frames.map fun _ => .pop)).1)
    (hcounters : t.counters = ((s.counters.plus { events := 1 }).plus counted).plus outcome.gain)
    (hfate : Fate s t (s.settings.closedRow? event hidden) outcome)
    (hquiet : s.settings.closedRow? event hidden = none → outcome = .popped) :
    Closed s t frames others counted (s.settings.closedRow? event hidden) outcome := by
  obtain ⟨hpopped, hrest⟩ := CallStack.pop_calls hs.stack hlive hcalls
  exact ⟨Prod.ext hstack.symm hpopped, hstack ▸ hrest, seen_of_closed hfate, hcounters, hfate, hquiet⟩

theorem settled_of_hears (hs : s.Sound) {n : Notification} (he : s.hears n = some event) (hk : event.kind = .leave)
    (hlive : s.stack.live = top :: below) : Settled s (s.deliver n).1 event top below (s.deliver n).2 := by
  obtain ⟨hstack, hfate, hquiet, hcounters⟩ := deliver_leave hs he hk
  rw [Settings.quietOutcome, hk] at hquiet
  rw [Settings.gain, hk] at hcounters
  refine ⟨fun htop => ?_, ?_, fun htop hblock => ?_⟩
  · have hclosing := closing_of_innermost hlive htop
    have hrow := returnRow?_of_returned (congrArg (Settings.returned event) hclosing)
    rw [hclosing] at hstack hquiet hcounters
    rw [hrow] at hfate hquiet
    exact closed_of_pops hs hlive (List.forall_mem_singleton.mpr htop.call) hstack hcounters hfate hquiet
  · rintro lower others rfl hblock
    have hclosing := closing_of_pastBlock hlive hblock
    have hrow := returnRow?_of_returned (congrArg (Settings.returned event) hclosing)
    rw [hclosing] at hstack hquiet hcounters
    rw [hrow] at hfate hquiet
    have hcalls : ∀ f ∈ [top, lower], f.isRoot = false := by simp [hblock.call, hblock.lower.call]
    exact closed_of_pops hs hlive hcalls hstack hcounters hfate hquiet
  · have hclosing := closing_of_unmatched hs hlive htop hblock
    have hrow : s.settings.returnRow? s.calls event = none := by
      rw [Settings.returnRow?, hclosing]
      cases s.settings.layout <;> rfl
    rw [hclosing] at hstack hquiet hcounters
    rw [hrow] at hfate
    have houtcome := hquiet hrow
    rw [houtcome] at hcounters
    cases hfate with
    | quiet _ hseen hchannel =>
      refine ⟨houtcome, hstack, hseen, hchannel, hcounters.trans ?_⟩
      exact congrArg (Counters.plus · _) (Counters.plus_none _)

theorem deliver_slots (hs : s.Sound) {n : Notification} (he : s.hears n = some event) (hk : event.kind = .leave) :
    (s.deliver n).1.stack.slots = s.stack.slots := by
  rw [(deliver_leave hs he hk).1]
  cases s.settings.closing s.calls event with
  | none => rfl
  | innermost => exact (CallStack.pop_slots _).1
  | below => exact (CallStack.pop_slots _).1.trans (CallStack.pop_slots _).1

/-- A return that is not ignored closes the innermost frame, or that and the one below, or nothing, by the method that
it is of. Whatever it looks up is on the stack, no slot is written, and the root stays. Frames are told apart by their
methods, whatever their tokens. -/
theorem return_settles {settings : Settings} {faults : Faults} {label : String} {host : Host}
    (opened : create settings { destination := { faults }, label } host = .ok s) (actions : List Action)
    {past : List Step} (hp : past <+: s.stepsOfAll actions) {n : Notification} (he : n.event? = some event)
    (hk : event.kind = .leave) (heeded : ∀ reason, ((s.after past).deliver n).2 ≠ .ignored reason) :
    let t := s.after past
    let u := (t.deliver n).1
    (∃ top below, t.stack.Found top below ∧ Settled t u event top below (t.deliver n).2) ∧
      u.stack.slots = t.stack.slots ∧ u.stack.live.getLast? = some .root ∧
      ∀ f, Match.of f event = true ↔ f.IsCallOf event.method := by
  intro t u
  have fresh := create_fresh opened
  have hs : t.Sound := ((reaches_upTo hp).sound fresh.sound).1
  obtain ⟨heard, hhears⟩ := (hears_iff_not_ignored hs n).mpr heeded
  obtain rfl : heard = event := by
    have hev := (hears_eq_some_iff.mp hhears).2.1
    exact Option.some.inj (hev.symm.trans he)
  have hu : u.Sound := (deliver_of_hears hs hhears).2.1
  refine ⟨?_, deliver_slots hs hhears hk, hu.stack.linked.root_last hu.rooted, fun f => Match.of_iff f heard⟩
  have hlast := hs.stack.linked.root_last hs.rooted
  cases hlive : t.stack.live with
  | nil =>
    rw [hlive] at hlast
    cases hlast
  | cons top below => exact ⟨top, below, hs.stack.found hlive, settled_of_hears hs hhears hk hlive⟩

/-- The return of a block closes the call of its method and the one inside. Its row is placed where the call was made. -/
theorem block_return_settles :
    let outer : TracedCall :=
      { receiver := .instanceOf (.named 1 .ofClasses "Outer"), method := some "run"
        entered := { path := some "app/run.rb", line := 3 }, left := { path := some "lib/each.rb", fromBlock := true } }
    let inner : TracedCall := { receiver := .typeItself (.named 2 .ofClasses "Inner"), method := some "run" }
    let settings : Settings := { flatten := false }
    ∃ s top lower, create settings { destination := { faults := {} }, label := "" } { process := 1 } = .ok s ∧
      let t := s.after (s.stepsOfAll (traced [outer.enter, inner.enter]))
      t.stack.live = [top, lower, .root] ∧ lower.event = outer.entering ∧
        Closed t (t.deliver outer.leave).1 [top, lower] [.root] { returns := 1, blockReturns := 1 }
          (some (Row.ofEvent (Settings.blockReturn outer.tracedMethod outer.entering))) (t.deliver outer.leave).2 := by
  intro outer inner settings
  obtain ⟨s, opened⟩ := create_in_memory settings (by decide)
  have hstart : Tracks settings [] s.start.1 := (create_fresh opened).start.1
  obtain ⟨-, houter, -⟩ := hstart.deliver outer.enter_event (by decide)
  obtain ⟨-, hinner, -⟩ := houter.deliver inner.enter_event (by decide)
  rw [Settings.callsAfter_entering] at houter hinner
  rw [Settings.callsAfter_entering] at hinner
  let t := s.after (s.stepsOfAll (traced [outer.enter, inner.enter]))
  have tracks : Tracks settings [inner.opened settings, outer.opened settings] t := hinner
  have hears := tracks.hears outer.leave_event (by decide)
  have hlive : t.stack.live = [CallStack.frameOf (inner.opened settings) (some 1),
      CallStack.frameOf (outer.opened settings) (some 0), .root] := by
    have hframes := tracks.sound.stack.linked.eq_framesOf
    rwa [tracks.sound.rooted, ← CallStack.calls, ← Session.calls, tracks.calls_eq] at hframes
  obtain ⟨⟨top, below, found, settled⟩, -⟩ := return_settles opened (traced [outer.enter, inner.enter])
    (List.prefix_refl _) outer.leave_event rfl ((hears_iff_not_ignored tracks.sound _).mp ⟨_, hears⟩)
  obtain ⟨rfl, rfl⟩ := List.cons.inj (found.live.symm.trans hlive)
  have hclosed := settled.pastBlock _ _ rfl
    ⟨fun hsame => absurd hsame.method_eq (by decide), rfl, rfl, by rw [tracks.settings_eq], rfl, rfl⟩
  rw [tracks.settings_eq] at hclosed
  exact ⟨s, _, _, opened, hlive, rfl, hclosed⟩

end Session
end MethodTrace
