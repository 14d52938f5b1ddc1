import MethodTrace.Proofs.EventRows
import MethodTrace.Proofs.PendingCalls

/-! # The nesting of a trace of events

A return that has a row closes a call that has one, and all calls that are pending inside it. So calls and returns are
nested in every trace in which no write failed, however the notifications fit together. -/

namespace MethodTrace
open Session

/-- A step wrote the row of an event, which is of the kind and the method that the step tells of. -/
structure Step.Writes (x : Step) (event : Event) : Prop where
  recorded : x.outcome? = some .recorded
  told : ∃ told, x.event? = some told ∧ told.kind = event.kind ∧ told.method = event.method
  written : x.before.channel.write (Row.ofEvent event).toUTF8 = (x.after.channel, .ok ())

/-- The step at a place wrote the row of a return. -/
def ReturnAt (past : List Step) (j : Nat) : Prop :=
  ∃ x back, past[j]? = some x ∧ x.Writes back ∧ back.kind = .leave

/-- The rows of returns are matched with the rows of earlier calls, each of the same method, and no two with the same
one. A return that stands between a call and its return has its own call between them too, and nowhere between them are
all calls closed at once. -/
structure WellNested (past : List Step) (partner : Nat → Nat) : Prop where
  earlier : ∀ {j x back}, past[j]? = some x → x.Writes back → back.kind = .leave → partner j < j ∧
    ∃ y call, past[partner j]? = some y ∧ y.Writes call ∧ call.kind = .call ∧ call.method = back.method
  injective : ∀ {j k}, ReturnAt past j → ReturnAt past k → partner j = partner k → j = k
  noncrossing : ∀ {j k}, ReturnAt past j → ReturnAt past k → partner j < k → k < j → partner j < partner k
  uncut : ∀ {j k z}, ReturnAt past j → past[k]? = some z → partner j < k → k < j → z.unwinds = false

namespace Settings

/-- The event in the row of an event, if it has one in a trace of events. -/
def shown? (settings : Settings) (calls : List OpenCall) (event : Event) : Option Event :=
  match event.kind with
  | .call => if settings.filter.hides event then none else some event
  | .leave =>
    match returned event (settings.closing calls event) with
    | some (back, call) => if call.hidden then none else some back
    | none => none

/-- The pending call that an event is the return of. -/
def closed? (settings : Settings) (pending : List PendingCall) (event : Event) : Option PendingCall :=
  match settings.closing (pending.map PendingCall.toOpenCall) event with
  | .none => none
  | .innermost _ => pending[0]?
  | .below _ => pending[1]?

/-- The place of the call that the step at a place is the return of. -/
def partner (settings : Settings) (past : List Step) (j : Nat) : Nat :=
  ((past[j]?.bind Step.event?).bind (settings.closed? (settings.pending (past.take j)))).elim 0 PendingCall.place

section
variable {settings : Settings}

theorem row?_of_events (events : settings.layout = .events) (calls : List OpenCall) (event : Event) :
    settings.row? calls event = (settings.shown? calls event).map Row.ofEvent := by
  unfold row? shown?
  cases event.kind with
  | call =>
    simp only [callRow?, events]
    split <;> rfl
  | leave =>
    simp only [returnRow?, events]
    cases returned event (settings.closing calls event) with
    | none => rfl
    | some back =>
      dsimp only
      split <;> rfl

theorem closing_innermost {calls : List OpenCall} {event : Event} {call : OpenCall}
    (h : settings.closing calls event = .innermost call) :
    ∃ rest, calls = call :: rest ∧ call.event.method = event.method := by
  unfold closing at h
  split at h
  · cases h
  next top rest =>
    split at h
    next same =>
      cases h
      exact ⟨rest, rfl, same⟩
    · split at h
      · split at h
        · split at h <;> cases h
        · cases h
      · cases h

theorem closing_below {calls : List OpenCall} {event : Event} {call : OpenCall}
    (h : settings.closing calls event = .below call) :
    ∃ top rest, calls = top :: call :: rest ∧ call.event.method = event.method := by
  unfold closing at h
  split at h
  · cases h
  next top rest =>
    split at h
    · cases h
    · split at h
      · split at h
        next lower outer =>
          split at h
          next same =>
            cases h
            exact ⟨top, outer, rfl, same⟩
          · cases h
        · cases h
      · cases h

/-- The call that is returned from is pending, and the calls that stay pending were opened before it. -/
theorem closed?_of_returned {pending : List PendingCall}
    (sorted : pending.Pairwise fun inner outer => outer.place < inner.place) {event : Event} {back : Event × OpenCall}
    (h : returned event (settings.closing (pending.map PendingCall.toOpenCall) event) = some back) :
    ∃ c ∈ pending, settings.closed? pending event = some c ∧ c.toOpenCall = back.2 ∧ c.event.method = event.method ∧
      ∀ d ∈ pending.drop (settings.closing (pending.map PendingCall.toOpenCall) event).count, d.place < c.place := by
  unfold closed?
  cases hclosing : settings.closing (pending.map PendingCall.toOpenCall) event with
  | none =>
    rw [hclosing] at h
    cases h
  | innermost call =>
    rw [hclosing] at h
    cases h
    obtain ⟨rest, hpending, hmethod⟩ := closing_innermost hclosing
    obtain ⟨c, outer, rfl, rfl, -⟩ := List.map_eq_cons_iff.mp hpending
    exact ⟨c, List.mem_cons_self, rfl, rfl, hmethod, (List.pairwise_cons.mp sorted).1⟩
  | below call =>
    rw [hclosing] at h
    cases h
    obtain ⟨top, rest, hpending, hmethod⟩ := closing_below hclosing
    obtain ⟨inner, lower, rfl, -, hlower⟩ := List.map_eq_cons_iff.mp hpending
    obtain ⟨c, outer, rfl, rfl, -⟩ := List.map_eq_cons_iff.mp hlower
    obtain ⟨-, hsorted⟩ := List.pairwise_cons.mp sorted
    exact ⟨c, by simp, rfl, rfl, hmethod, (List.pairwise_cons.mp hsorted).1⟩

theorem shown?_eq {calls : List OpenCall} {event shown : Event} (h : settings.shown? calls event = some shown) :
    shown.kind = event.kind ∧ shown.method = event.method := by
  unfold shown? at h
  cases hk : event.kind with
  | call =>
    simp only [hk] at h
    split at h <;> cases h
    exact ⟨hk, rfl⟩
  | leave =>
    simp only [hk] at h
    cases hclosing : settings.closing calls event <;> rw [hclosing, returned] at h
    · cases h
    all_goals
      simp only at h
      split at h <;> cases h
    · exact ⟨hk, rfl⟩
    · exact ⟨rfl, rfl⟩

end
end Settings

namespace Session
variable {s t : Session}

/-! ### Rows of events -/

/-- In a trace of events, an event has a row exactly if it is shown, and the row is written unless the write fails. -/
theorem deliver_writes (hs : s.Sound) (events : s.settings.layout = .events) {n : Notification} {event : Event}
    (he : s.hears n = some event) :
    (∀ shown, s.settings.shown? s.calls event = some shown → (s.deliver n).2 ≠ .writeFailed →
      (s.step (.deliver n)).Writes shown) ∧
    ((s.deliver n).2 = .recorded → ∃ shown, s.settings.shown? s.calls event = some shown) := by
  obtain ⟨-, -, -, hfate⟩ := deliver_of_hears hs he
  have hevent : (s.step (.deliver n)).event? = some event := (event?_deliver hs n).trans he
  rw [Settings.row?_of_events events] at hfate
  refine ⟨fun shown hshown hwritten => ?_, fun hrecorded => ?_⟩
  · obtain ⟨hkind, hmethod⟩ := Settings.shown?_eq hshown
    rw [hshown] at hfate
    generalize hanswer : (s.deliver n).2 = outcome at hfate hwritten
    cases hfate with
    | duplicate hedges => simp [events] at hedges
    | recorded _ _ hw => exact ⟨congrArg some hanswer, ⟨event, hevent, hkind.symm, hmethod.symm⟩, hw⟩
    | writeFailed => exact absurd rfl hwritten
  · rw [hrecorded] at hfate
    cases hshown : s.settings.shown? s.calls event with
    | some shown => exact ⟨shown, rfl⟩
    | none =>
      rw [hshown] at hfate
      cases hfate with
      | quiet hnot => cases hnot

section
variable {past : List Step} (h : Reaches s past t) (hs : s.Sound) (blank : Blank s)
  (events : s.settings.layout = .events)
include h hs blank events

theorem Reaches.writes {j : Nat} {x : Step} (hx : past[j]? = some x) {event shown : Event} (he : x.event? = some event)
    (hshown : s.settings.shown? ((s.settings.pending (past.take j)).map PendingCall.toOpenCall) event = some shown)
    (written : x.outcome? ≠ some .writeFailed) : x.Writes shown := by
  obtain ⟨n, hstep, hears, hsound, hsettings, hcalls⟩ := h.heard hs blank hx he
  rw [← hcalls, ← hsettings] at hshown
  rw [hstep] at written ⊢
  exact (deliver_writes hsound (hsettings ▸ events) hears).1 shown hshown fun hfailed =>
    written (congrArg some hfailed)

theorem Reaches.writes_of_recorded {j : Nat} {x : Step} (hx : past[j]? = some x)
    (ho : x.outcome? = some .recorded) : ∃ event shown, x.event? = some event ∧
      s.settings.shown? ((s.settings.pending (past.take j)).map PendingCall.toOpenCall) event = some shown ∧
      x.Writes shown := by
  obtain ⟨-, hbefore, action, ha, hstep⟩ := h.of_getElem? hx
  obtain ⟨event, he⟩ : ∃ event, x.event? = some event := by
    rw [hstep] at ho ⊢
    cases action with
    | deliver n =>
      have hsound := (hbefore.sound hs).1
      have hanswer : (x.before.deliver n).2 = .recorded := Option.some.inj ho
      obtain ⟨event, hears⟩ := (hears_iff_not_ignored hsound n).mpr fun reason => by simp [hanswer]
      exact ⟨event, (event?_deliver hsound n).trans hears⟩
    | «scoped» => cases ha
    | _ => cases ho
  obtain ⟨n, hn, hears, hsound, hsettings, hcalls⟩ := h.heard hs blank hx he
  have hanswer : (x.before.deliver n).2 = .recorded := by
    rw [hn] at ho
    exact Option.some.inj ho
  obtain ⟨shown, hshown⟩ := (deliver_writes hsound (hsettings ▸ events) hears).2 hanswer
  rw [hsettings, hcalls] at hshown
  exact ⟨event, shown, he, hshown, h.writes hs blank events hx he hshown (by simp [ho])⟩

/-- A return with a row closes a pending call with a row, and the calls that stay pending were opened before that. -/
theorem Reaches.matched {j : Nat} {x : Step} (hx : past[j]? = some x) {back : Event} (hback : x.Writes back)
    (hk : back.kind = .leave) :
    ∃ c ∈ s.settings.pending (past.take j), s.settings.partner past j = c.place ∧ c.hidden = false ∧
      c.event.method = back.method ∧ ∀ d ∈ s.settings.pending (past.take (j + 1)), d.place < c.place := by
  obtain ⟨event, shown, he, hshown, -⟩ := h.writes_of_recorded hs blank events hx hback.recorded
  obtain ⟨told, htold, hkind, hmethod⟩ := hback.told
  obtain rfl : told = event := Option.some.inj (htold.symm.trans he)
  have hleave : told.kind = .leave := hkind.trans hk
  unfold Settings.shown? at hshown
  simp only [hleave] at hshown
  split at hshown
  next back call hreturned =>
    split at hshown
    · cases hshown
    next hvisible =>
      obtain ⟨c, hc, hclosed, hcall, hsame, hstay⟩ :=
        Settings.closed?_of_returned (s.settings.pending_sorted (past.take j)).1 hreturned
      refine ⟨c, hc, ?_, ?_, hsame.trans hmethod, ?_⟩
      · simp [Settings.partner, hx, he, hclosed]
      · rw [hcall]
        exact eq_false_of_ne_true hvisible
      · rw [Settings.pending_take_succ hx, Settings.pendingAfter_leave he hleave]
        exact hstay
  · cases hshown

/-- The row of a return is matched with the row of a call that stayed pending until then. -/
theorem Reaches.partner_of_return {j : Nat} (hj : ReturnAt past j) :
    ∃ c ∈ s.settings.pending (past.take j), s.settings.partner past j = c.place ∧
      ∀ d ∈ s.settings.pending (past.take (j + 1)), d.place < s.settings.partner past j := by
  obtain ⟨x, back, hx, hback, hk⟩ := hj
  obtain ⟨c, hc, hpartner, -, -, hstay⟩ := h.matched hs blank events hx hback hk
  exact ⟨c, hc, hpartner, hpartner ▸ hstay⟩

theorem Reaches.wellNested (written : ∀ x ∈ past, x.outcome? ≠ some .writeFailed) :
    WellNested past (s.settings.partner past) := by
  -- A partner is pending at all places between the call and the return.
  have between : ∀ {j k}, ReturnAt past j → s.settings.partner past j < k → k ≤ j →
      ∃ c ∈ s.settings.pending (past.take k), s.settings.partner past j = c.place := by
    intro j k hj hlt hle
    obtain ⟨c, hc, hpartner, -⟩ := h.partner_of_return hs blank events hj
    have hsince := Settings.pending_since hc (hpartner ▸ hlt)
    rw [List.take_take, Nat.min_eq_left hle] at hsince
    exact ⟨c, hsince, hpartner⟩
  have inside : ∀ {j k}, ReturnAt past j → ReturnAt past k → s.settings.partner past j < k → k < j →
      s.settings.partner past j < s.settings.partner past k := by
    intro j k hj hk hlt hkj
    obtain ⟨c, hc, hpartner⟩ := between hj (Nat.lt_succ_of_lt hlt) hkj
    obtain ⟨-, -, -, hstay⟩ := h.partner_of_return hs blank events hk
    exact hpartner ▸ hstay c hc
  have before : ∀ {j}, ReturnAt past j → s.settings.partner past j < j := by
    intro j hj
    obtain ⟨x, -, hx, -⟩ := id hj
    obtain ⟨c, hc, hpartner, -⟩ := h.partner_of_return hs blank events hj
    have hlt := (s.settings.pending_sorted (past.take j)).2 c hc
    rw [List.length_take] at hlt
    omega
  refine ⟨fun {j x back} hx hback hk => ⟨before ⟨x, back, hx, hback, hk⟩, ?_⟩, fun {j k} hj hk hsame => ?_, inside,
    fun {j k z} hj hz hlt hkj => ?_⟩
  · obtain ⟨c, hc, hpartner, hvisible, hmethod, -⟩ := h.matched hs blank events hx hback hk
    obtain ⟨⟨y, hy, hopens⟩, -⟩ := Settings.mem_pending_iff.mp hc
    replace hy : past[c.place]? = some y := by
      rw [List.getElem?_take] at hy
      split at hy
      · exact hy
      · cases hy
    have hshown : s.settings.shown? ((s.settings.pending (past.take c.place)).map PendingCall.toOpenCall) c.event =
        some c.event := by
      simp [Settings.shown?, hopens.call, ← hopens.hidden, hvisible]
    rw [hpartner]
    exact ⟨y, c.event, hy, h.writes hs blank events hy hopens.told hshown (written y (List.mem_of_getElem? hy)),
      hopens.call, hmethod⟩
  · rcases Nat.lt_trichotomy j k with hjk | hjk | hkj
    · have := inside hk hj (hsame ▸ before hj) hjk
      omega
    · exact hjk
    · have := inside hj hk (hsame ▸ before hk) hkj
      omega
  · obtain ⟨c, hc, -⟩ := between hj (Nat.lt_succ_of_lt hlt) hkj
    rw [Settings.pending_take_succ hz, Settings.pendingAfter] at hc
    refine eq_false_of_ne_true fun hunwinds => ?_
    rw [if_pos hunwinds] at hc
    cases hc

end

/-- A trace of events is well nested on every run on which no write of a row failed. Each step that recorded something
wrote the row of one call or return. On a run that leads to no other process and thread, every mark that unwinds and
succeeds closes all calls. -/
theorem wellNested_of_run {settings : Settings} {faults : Faults} {label : String} {host : Host}
    (opened : create settings { destination := { faults }, label } host = .ok s) (events : settings.flatten = false)
    (actions : List Action) {past : List Step} (hp : past <+: s.stepsOfAll actions)
    (written : ∀ x ∈ past, x.outcome? ≠ some .writeFailed) :
    WellNested past (settings.partner past) ∧
      (∀ x ∈ past, x.outcome? = some .recorded → ∃ event, x.Writes event) ∧
      ((∀ x ∈ past, x.action.moves = false) → ∀ x ∈ past, ∀ label, x.action = .mark label true →
        x.answer = .result (.ok ()) → x.unwinds = true) := by
  have fresh := create_fresh opened
  have hlayout : s.settings.layout = .events := by rw [fresh.settings_eq, Settings.layout, events]; rfl
  have reaches := reaches_upTo hp
  refine ⟨fresh.settings_eq ▸ reaches.wellNested fresh.sound fresh.blank hlayout written, fun x hx ho => ?_,
    fun hmoves x hx label hmark hok => ?_⟩
  · obtain ⟨j, hj⟩ := List.mem_iff_getElem?.mp hx
    obtain ⟨-, shown, -, -, hwrites⟩ := reaches.writes_of_recorded fresh.sound fresh.blank hlayout hj ho
    exact ⟨shown, hwrites⟩
  · obtain ⟨earlier, hup, hbefore, -⟩ := reaches.of_mem hx
    have hctx := hbefore.ownsContext fresh.sound
      (fun y hy => hmoves y ((List.prefix_append _ _).trans hup |>.subset hy)) fresh.ownsContext
    simp [Step.unwinds, hmark, hok, hctx]

/-- A block ends in the outer call, and the inner one never returned. The row of the return is matched with that of the
outer call. -/
theorem partner_of_block_return :
    let outer : TracedCall :=
      { receiver := .instanceOf (.named 1 .ofClasses "Outer"), method := some "run"
        entered := { path := some "app/run.rb", line := 3 }, left := { fromBlock := true } }
    let inner : TracedCall := { receiver := .typeItself (.named 2 .ofClasses "Inner"), method := some "run" }
    let run := traced [outer.enter, inner.enter, outer.leave]
    let settings : Settings := { flatten := false }
    ∃ s, create settings { destination := { faults := { chunk := some 3 } }, label := "" } { process := 1 } = .ok s ∧
      ReturnAt (s.stepsOfAll run) 3 ∧ settings.partner (s.stepsOfAll run) 3 = 1 := by
  intro outer inner run settings
  have harmless : Faults.Harmless { chunk := some 3 } := .of_chunk (by decide)
  obtain ⟨s, opened⟩ : ∃ s, create settings { destination := { faults := { chunk := some 3 } }, label := "" }
      { process := 1 } = .ok s := create_ok _ _ harmless (by decide)
  have fresh := create_fresh opened
  have written := fun x hx => (traced_steps fresh.sound (create_harmless opened harmless)
    [outer.enter, inner.enter, outer.leave] x hx).2
  obtain ⟨hnested, -, -⟩ := wellNested_of_run opened rfl run (List.prefix_refl _) written
  have hstart : Tracks settings [] s.start.1 := fresh.start.1
  obtain ⟨-, houter, -⟩ := hstart.deliver outer.enter_event (by decide)
  obtain ⟨-, hinner, -⟩ := houter.deliver inner.enter_event (by decide)
  rw [Settings.callsAfter_entering] at houter hinner
  rw [Settings.callsAfter_entering] at hinner
  have hsteps : s.stepsOfAll run = [s.step .start, s.start.1.step (.deliver outer.enter),
      (s.start.1.deliver outer.enter).1.step (.deliver inner.enter),
      ((s.start.1.deliver outer.enter).1.deliver inner.enter).1.step (.deliver outer.leave)] := rfl
  refine ⟨s, opened, ?_⟩
  rw [hsteps] at hnested written ⊢
  generalize ((s.start.1.deliver outer.enter).1.deliver inner.enter).1 = u at hinner hnested written ⊢
  generalize (s.start.1.deliver outer.enter).1 = t at houter hnested written ⊢
  obtain ⟨back, hshown⟩ := Option.isSome_iff_exists.mp
    (show (settings.shown? [inner.opened settings, outer.opened settings] outer.leaving).isSome = true by decide)
  obtain ⟨hkind, hmethod⟩ := Settings.shown?_eq hshown
  have hback : (u.step (.deliver outer.leave)).Writes back := by
    have hears := hinner.hears outer.leave_event (by decide)
    rw [← hinner.calls_eq, ← hinner.settings_eq] at hshown
    have hlayout : u.settings.layout = .events := by rw [hinner.settings_eq]; rfl
    exact (deliver_writes hinner.sound hlayout hears).1 back hshown fun hfailed =>
      written (u.step (.deliver outer.leave)) (by simp) (congrArg some hfailed)
  refine ⟨⟨_, back, rfl, hback, hkind⟩, ?_⟩
  obtain ⟨hlt, y, call, hy, hcall, -, hsame⟩ := hnested.earlier (j := 3) rfl hback hkind
  generalize settings.partner _ 3 = place at hlt hy ⊢
  obtain rfl | rfl | rfl : place = 0 ∨ place = 1 ∨ place = 2 := by omega
  · cases hy
    cases hcall.recorded
  · rfl
  · -- The call inside is of another method.
    cases hy
    obtain ⟨told, htold, -, htoldMethod⟩ := hcall.told
    rw [event?_deliver houter.sound, houter.hears inner.enter_event (by decide)] at htold
    cases htold
    exact absurd (htoldMethod.trans (hsame.trans hmethod)) (by decide)

end Session
end MethodTrace
