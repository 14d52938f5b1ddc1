import MethodTrace.Proofs.Lifecycle
import MethodTrace.Proofs.ForkedChild
import MethodTrace.Proofs.Outcomes

/-! # The calls that are pending

Which calls are pending is told from what a run did and answered, without a look at the stack: a call that was taken is
pending until a return closes it or all calls are closed at once. The open calls of a session are the pending ones, as
long as no fork was seen (`Reaches.calls_eq_pending`). -/

namespace MethodTrace
open Session

/-- A call that was opened by a step of a run, with the place of the step in it. -/
structure PendingCall extends OpenCall where
  place : Nat

/-- How many of the innermost calls a return closes. -/
def Closing.count : Closing → Nat
  | .none => 0
  | .innermost _ => 1
  | .below _ => 2

namespace Step

/-- The event that a step tells of, unless it is ignored. -/
def event? (x : Step) : Option Event :=
  match x.action, x.answer with
  | .deliver _, .outcome (.ignored _) => none
  | .deliver n, .outcome _ => n.event?
  | _, _ => none

/-- Whether a step closes all calls. A mark does so only in the process and the thread of the session. -/
def unwinds (x : Step) : Bool :=
  match x.action, x.answer with
  | .mark _ unwinding, .result (.ok ()) => unwinding && x.before.ownsContext
  | .stop, _ | .close, _ => true
  | _, _ => false

end Step

namespace Settings

/-- The calls that are pending after a step, innermost first. -/
def pendingAfter (settings : Settings) (pending : List PendingCall) (x : Step) (place : Nat) : List PendingCall :=
  if x.unwinds then []
  else
    match x.event? with
    | none => pending
    | some event =>
      match event.kind with
      | .call => { event, hidden := settings.filter.hides event, place } :: pending
      | .leave => pending.drop (settings.closing (pending.map PendingCall.toOpenCall) event).count

/-- The calls that are pending after some steps of a run, innermost first: those that were opened and not closed since
(`mem_pending_iff`). -/
def pending (settings : Settings) (past : List Step) : List PendingCall :=
  past.zipIdx.foldl (fun pending x => settings.pendingAfter pending x.1 x.2) []

/-- A step opens a call. -/
structure Opens (settings : Settings) (x : Step) (c : PendingCall) : Prop where
  told : x.event? = some c.event
  call : c.event.kind = .call
  hidden : c.hidden = settings.filter.hides c.event

/-- A step closes a pending call, together with all others or as the one or two innermost ones that a return closes. -/
def Closes (settings : Settings) (pending : List PendingCall) (x : Step) (c : PendingCall) : Prop :=
  x.unwinds = true ∨ ∃ event, x.event? = some event ∧ event.kind = .leave ∧
    c ∈ pending.take (settings.closing (pending.map PendingCall.toOpenCall) event).count

/-! ### Pending calls and their places -/

section
variable {settings : Settings} {past : List Step}

@[simp] theorem pending_nil : settings.pending [] = [] := rfl

theorem pending_concat (past : List Step) (x : Step) :
    settings.pending (past ++ [x]) = settings.pendingAfter (settings.pending past) x past.length := by
  simp [pending, List.zipIdx_append, List.foldl_append]

theorem eq_of_getElem?_concat {x y : Step} {j : Nat} (hy : (past ++ [x])[j]? = some y) (hj : past.length ≤ j) :
    j = past.length ∧ y = x := by
  obtain ⟨hlt, rfl⟩ := List.getElem?_eq_some_iff.mp hy
  obtain rfl : j = past.length := by simp at hlt; omega
  exact ⟨rfl, List.getElem_concat_length rfl hlt⟩

theorem pending_take_succ {j : Nat} {x : Step} (hx : past[j]? = some x) :
    settings.pending (past.take (j + 1)) = settings.pendingAfter (settings.pending (past.take j)) x j := by
  obtain ⟨hj, -⟩ := List.getElem?_eq_some_iff.mp hx
  rw [List.take_add_one, hx, Option.toList_some, pending_concat, List.length_take_of_le (Nat.le_of_lt hj)]

theorem unwinds_of_event? {x : Step} {event : Event} (he : x.event? = some event) : x.unwinds = false := by
  obtain ⟨before, action, answer, after⟩ := x
  cases action with
  | deliver n => rfl
  | _ => cases he

theorem pendingAfter_leave {x : Step} {event : Event} (he : x.event? = some event) (hk : event.kind = .leave)
    (pending : List PendingCall) (place : Nat) : settings.pendingAfter pending x place =
      pending.drop (settings.closing (pending.map PendingCall.toOpenCall) event).count := by
  simp [pendingAfter, unwinds_of_event? he, he, hk]

/-- The calls inside others were opened later. -/
theorem pending_sorted (settings : Settings) (past : List Step) :
    ((settings.pending past).Pairwise fun inner outer => outer.place < inner.place) ∧
      ∀ c ∈ settings.pending past, c.place < past.length := by
  induction past using List.reverseRecOn with
  | nil => simp
  | append_singleton past x ih =>
    obtain ⟨hsorted, hlt⟩ := ih
    have hlater : ∀ c ∈ settings.pending past, c.place < (past ++ [x]).length := fun c hc => by
      simpa using Nat.lt_succ_of_lt (hlt c hc)
    rw [pending_concat, pendingAfter]
    split
    · simp
    · split
      · exact ⟨hsorted, hlater⟩
      · split
        · exact ⟨.cons hlt hsorted, List.forall_mem_cons.mpr ⟨by simp, hlater⟩⟩
        · exact ⟨hsorted.drop, fun c hc => hlater c (List.mem_of_mem_drop hc)⟩

theorem pending_nodup (settings : Settings) (past : List Step) : (settings.pending past).Nodup := by
  refine (settings.pending_sorted past).1.imp ?_
  rintro inner outer hlt rfl
  exact Nat.lt_irrefl _ hlt

theorem mem_pendingAfter_iff {pending : List PendingCall} (nodup : pending.Nodup) {x : Step} {place : Nat}
    {c : PendingCall} : c ∈ settings.pendingAfter pending x place ↔
      c ∈ pending ∧ ¬settings.Closes pending x c ∨ c.place = place ∧ settings.Opens x c := by
  cases he : x.event? with
  | none =>
    have hopens : ¬settings.Opens x c := fun h => by
      have htold := h.told
      simp [he] at htold
    unfold pendingAfter Closes
    cases x.unwinds <;> simp [he, hopens]
  | some event =>
    have hunwinds := unwinds_of_event? he
    cases hk : event.kind with
    | call =>
      have hcloses : ¬settings.Closes pending x c := by simp [Closes, hunwinds, he, hk]
      have hafter : settings.pendingAfter pending x place =
          { event, hidden := settings.filter.hides event, place } :: pending := by
        simp [pendingAfter, hunwinds, he, hk]
      rw [hafter, List.mem_cons]
      constructor
      · rintro (rfl | hc)
        · exact .inr ⟨rfl, he, hk, rfl⟩
        · exact .inl ⟨hc, hcloses⟩
      · rintro (⟨hc, -⟩ | ⟨rfl, hopens⟩)
        · exact .inr hc
        · obtain rfl : event = c.event := Option.some.inj (he.symm.trans hopens.told)
          rw [← hopens.hidden]
          exact .inl rfl
    | leave =>
      have hopens : ¬settings.Opens x c := fun h => by
        obtain rfl : event = c.event := Option.some.inj (he.symm.trans h.told)
        simp [h.call] at hk
      rw [pendingAfter_leave he hk]
      generalize hn : (settings.closing (pending.map PendingCall.toOpenCall) event).count = n
      have hcloses : settings.Closes pending x c ↔ c ∈ pending.take n := by
        simp [Closes, hunwinds, he, hk, hn]
      simp only [hcloses, hopens, and_false, or_false]
      -- No pending call is listed twice, so one that stays is none of those that are taken.
      constructor
      · intro hc
        exact ⟨List.mem_of_mem_drop hc, fun htaken => List.disjoint_take_drop nodup (Nat.le_refl n) htaken hc⟩
      · rintro ⟨hc, hkept⟩
        rw [← List.take_append_drop n pending] at hc
        exact (List.mem_append.mp hc).resolve_left hkept

/-- A call is pending if a step opened it and none closed it since. -/
theorem mem_pending_iff {c : PendingCall} : c ∈ settings.pending past ↔
    (∃ x, past[c.place]? = some x ∧ settings.Opens x c) ∧
      ∀ j x, c.place < j → past[j]? = some x → ¬settings.Closes (settings.pending (past.take j)) x c := by
  induction past using List.reverseRecOn with
  | nil => simp
  | append_singleton past x ih =>
    have hup : (past ++ [x]).take past.length = past := List.take_left
    rw [pending_concat, mem_pendingAfter_iff (settings.pending_nodup past), ih]
    constructor
    · rintro (⟨⟨⟨y, hy, hopens⟩, hkept⟩, hlast⟩ | ⟨hplace, hopens⟩)
      · have hlt := (List.getElem?_eq_some_iff.mp hy).1
        refine ⟨⟨y, by rw [List.getElem?_append_left hlt, hy], hopens⟩, fun j z hj hz => ?_⟩
        rcases Nat.lt_or_ge j past.length with hearlier | hlater
        · rw [List.getElem?_append_left hearlier] at hz
          rw [List.take_append_of_le_length (Nat.le_of_lt hearlier)]
          exact hkept j z hj hz
        · obtain ⟨rfl, rfl⟩ := eq_of_getElem?_concat hz hlater
          rwa [hup]
      · refine ⟨⟨x, by rw [hplace, List.getElem?_concat_length], hopens⟩, fun j z hj hz => ?_⟩
        obtain ⟨hlast, -⟩ := eq_of_getElem?_concat hz (by omega)
        omega
    · rintro ⟨⟨y, hy, hopens⟩, hkept⟩
      rcases Nat.lt_or_ge c.place past.length with hearlier | hlast
      · rw [List.getElem?_append_left hearlier] at hy
        have hx := hkept past.length x hearlier List.getElem?_concat_length
        rw [hup] at hx
        refine .inl ⟨⟨⟨y, hy, hopens⟩, fun j z hj hz => ?_⟩, hx⟩
        have hlt := (List.getElem?_eq_some_iff.mp hz).1
        have hz' := hkept j z hj (by rw [List.getElem?_append_left hlt, hz])
        rwa [List.take_append_of_le_length (Nat.le_of_lt hlt)] at hz'
      · obtain ⟨hplace, rfl⟩ := eq_of_getElem?_concat hy hlast
        exact .inr ⟨hplace, hopens⟩

/-- A call was pending from its place on. -/
theorem pending_since {c : PendingCall} (hc : c ∈ settings.pending past) {k : Nat} (hk : c.place < k) :
    c ∈ settings.pending (past.take k) := by
  obtain ⟨⟨x, hx, hopens⟩, hkept⟩ := mem_pending_iff.mp hc
  refine mem_pending_iff.mpr ⟨⟨x, by rw [List.getElem?_take_of_lt hk, hx], hopens⟩, fun j z hj hz => ?_⟩
  have hlt : j < k := by
    have hlength := (List.getElem?_eq_some_iff.mp hz).1
    rw [List.length_take] at hlength
    omega
  rw [List.getElem?_take_of_lt hlt] at hz
  rw [List.take_take, Nat.min_eq_left (Nat.le_of_lt hlt)]
  exact hkept j z hj hz

end

end Settings

namespace Session
variable {s t : Session}

/-! ### Pending calls are the open calls -/

theorem unbroken_of_listens (h : s.listens = true) : s.ownership.broken = false := by
  obtain ⟨-, -, context⟩ := listens_iff.mp h
  exact unbroken_of_owns (ownsContext_iff.mp context).1

/-- The event that is heard is known from the answer. -/
theorem event?_deliver (hs : s.Sound) (n : Notification) : (s.step (.deliver n)).event? = s.hears n := by
  cases he : s.hears n with
  | none =>
    obtain ⟨reason, hignored, -⟩ := deliver_of_not_hears he
    show Step.event? ⟨s, .deliver n, .outcome (s.deliver n).2, _⟩ = none
    rw [hignored]
    rfl
  | some event =>
    have hheeded := deliver_heeded hs he
    obtain ⟨-, hevent, -⟩ := hears_eq_some_iff.mp he
    show Step.event? ⟨s, .deliver n, .outcome (s.deliver n).2, _⟩ = some event
    cases ho : (s.deliver n).2 with
    | ignored reason => exact absurd ho (hheeded reason)
    | _ => exact hevent

theorem map_pendingAfter_event (settings : Settings) (pending : List PendingCall) {x : Step} {event : Event}
    (hx : x.unwinds = false) (he : x.event? = some event) (place : Nat) :
    (settings.pendingAfter pending x place).map PendingCall.toOpenCall =
      settings.callsAfter (pending.map PendingCall.toOpenCall) event := by
  unfold Settings.pendingAfter Settings.callsAfter
  simp only [hx, he, Bool.false_eq_true, if_false]
  cases event.kind with
  | call => rfl
  | leave =>
    simp only [List.map_drop]
    cases settings.closing (pending.map PendingCall.toOpenCall) event with
    | none => rfl
    | innermost call => exact List.drop_one
    | below call =>
      simp only [← List.drop_one, List.drop_drop]
      rfl

theorem unwinds_mark (s : Session) (label : String) (unwinding : Bool) :
    (s.step (.mark label unwinding)).unwinds =
      match (s.mark label unwinding).2 with
      | .ok () => unwinding && s.ownsContext
      | .error _ => false := by
  show Step.unwinds ⟨s, .mark label unwinding, .result (s.mark label unwinding).2, _⟩ = _
  rcases (s.mark label unwinding).2 with error | _ <;> rfl

section
variable {pending : List PendingCall}

theorem calls_of_kept (action : Action) (h : s.calls = pending.map PendingCall.toOpenCall)
    (hstack : (s.perform action).1.stack = s.stack) (hx : (s.step action).unwinds = false)
    (he : (s.step action).event? = none) (place : Nat) : (s.perform action).1.calls =
      (s.settings.pendingAfter pending (s.step action) place).map PendingCall.toOpenCall := by
  rw [Settings.pendingAfter, hx, he, calls, hstack]
  exact h

theorem calls_of_unwound (action : Action) (hcalls : (s.perform action).1.calls = [])
    (hx : (s.step action).unwinds = true) (place : Nat) : (s.perform action).1.calls =
      (s.settings.pendingAfter pending (s.step action) place).map PendingCall.toOpenCall := by
  rw [Settings.pendingAfter, hx, hcalls]
  rfl

theorem mark_pending (h : s.calls = pending.map PendingCall.toOpenCall) (label : String) (unwinding : Bool)
    (place : Nat) : (s.mark label unwinding).1.calls =
      (s.settings.pendingAfter pending (s.step (.mark label unwinding)) place).map PendingCall.toOpenCall := by
  have hfate := mark_fate s label unwinding
  have hunwinds := unwinds_mark s label unwinding
  generalize (s.mark label unwinding).2 = result at hfate hunwinds
  cases hfate with
  | closed _ k => exact calls_of_kept (.mark label unwinding) h k.stack hunwinds rfl place
  | elsewhere _ hctx k =>
    rw [hctx, Bool.and_false] at hunwinds
    exact calls_of_kept (.mark label unwinding) h k.stack hunwinds rfl place
  | failed _ _ _ hstack => exact calls_of_kept (.mark label unwinding) h hstack hunwinds rfl place
  | written _ hctx _ hstack =>
    cases unwinding with
    | true => exact calls_of_unwound (.mark label _) (calls_of_reset hstack) (hunwinds.trans (by rw [hctx]; rfl)) place
    | false => exact calls_of_kept (.mark label _) h hstack hunwinds rfl place

end

/-- A step does with the pending calls what it does with the open ones: it leaves them as they are, closes all of them,
or is a notification that is heard. -/
theorem perform_pending (hs : s.Sound) (cleared : Cleared s) (unbroken : s.ownership.broken = false)
    {pending : List PendingCall} (h : s.calls = pending.map PendingCall.toOpenCall) {action : Action}
    (ha : action.isSimple = true) (place : Nat) : (s.perform action).1.calls =
      (s.settings.pendingAfter pending (s.step action) place).map PendingCall.toOpenCall := by
  cases action with
  | deliver n =>
    have hevent := event?_deliver hs n
    cases he : s.hears n with
    | none =>
      obtain ⟨-, -, k⟩ := deliver_of_not_hears he
      exact calls_of_kept (.deliver n) h k.stack rfl (hevent.trans he) place
    | some event =>
      obtain ⟨-, -, hcalls, -⟩ := deliver_of_hears hs he
      rw [map_pendingAfter_event s.settings pending rfl (hevent.trans he), ← h]
      exact hcalls
  | mark label unwinding => exact mark_pending h label unwinding place
  | stop =>
    refine calls_of_unwound .stop ?_ rfl place
    show s.stop.calls = []
    cases ht : s.isTracing with
    | true => exact calls_of_reset (stop_of_tracing ht).2.1
    | false =>
      rw [stop_of_not_tracing ht]
      exact cleared.calls hs ht unbroken
  | close =>
    refine calls_of_unwound .close ?_ rfl place
    show s.close.1.calls = []
    cases hc : s.isClosed with
    | true =>
      rw [close_of_closed hc]
      exact (cleared.closed hc).calls hs
    | false => exact calls_of_reset (close_of_open hc).2.1
  | start => exact calls_of_kept .start h (start_sameTrace s).stack rfl rfl place
  | flush => exact calls_of_kept .flush h (congrArg (·.stack) (flush_eq s)) rfl rfl place
  | beginFinalize => exact calls_of_kept .beginFinalize h rfl rfl rfl place
  | look => exact calls_of_kept .look h rfl rfl rfl place
  | enterProcess => exact calls_of_kept (.enterProcess _) h rfl rfl rfl place
  | enterThread => exact calls_of_kept (.enterThread _) h rfl rfl rfl place
  | setFaults => exact calls_of_kept (.setFaults _) h rfl rfl rfl place
  | «scoped» => cases ha

/-- As long as no fork was seen, the open calls are the pending ones. -/
theorem Reaches.calls_eq_pending {past : List Step} (h : Reaches s past t) (hs : s.Sound) (blank : Blank s)
    (unbroken : t.ownership.broken = false) :
    t.calls = (s.settings.pending past).map PendingCall.toOpenCall := by
  induction h with
  | nil => exact blank.calls hs
  | @snoc past t action ha h ih =>
    obtain ⟨hsound, hsettings⟩ := h.sound hs
    have hbefore : t.ownership.broken = false :=
      eq_false_of_ne_true fun hb => by simp [(Reaches.single ha).broken hsound hb] at unbroken
    rw [Settings.pending_concat, ← hsettings]
    rw [← hsettings] at ih
    exact perform_pending hsound (h.cleared hs (.of_blank blank)) hbefore (ih hbefore) ha _

theorem hears_of_event? (hs : s.Sound) {action : Action} {event : Event} (ha : action.isSimple = true)
    (he : (s.step action).event? = some event) : ∃ n, action = .deliver n ∧ s.hears n = some event := by
  cases action with
  | deliver n => exact ⟨n, rfl, (event?_deliver hs n).symm.trans he⟩
  | «scoped» => cases ha
  | _ => cases he

/-- A step that tells of an event is a notification that was heard while the pending calls were open. -/
theorem Reaches.heard {past : List Step} (h : Reaches s past t) (hs : s.Sound) (blank : Blank s) {j : Nat} {x : Step}
    (hx : past[j]? = some x) {event : Event} (he : x.event? = some event) :
    ∃ n, x = x.before.step (.deliver n) ∧ x.before.hears n = some event ∧ x.before.Sound ∧
      x.before.settings = s.settings ∧
      x.before.calls = (s.settings.pending (past.take j)).map PendingCall.toOpenCall := by
  obtain ⟨-, hbefore, action, ha, hstep⟩ := h.of_getElem? hx
  obtain ⟨hsound, hsettings⟩ := hbefore.sound hs
  rw [hstep] at he
  obtain ⟨n, rfl, hears⟩ := hears_of_event? hsound ha he
  obtain ⟨hlistens, -⟩ := hears_eq_some_iff.mp hears
  exact ⟨n, hstep, hears, hsound, hsettings, hbefore.calls_eq_pending hs blank (unbroken_of_listens hlistens)⟩

end Session
end MethodTrace
