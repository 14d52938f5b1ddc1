import Mathlib.Data.List.Forall2
import Mathlib.Tactic.Tauto
import MethodTrace.Proofs.Actions

/-! # The rows of a run

Which rows were due in the steps of a run, and which of them were written. The rows that are due for notifications that
follow each other depend on the settings and the open calls alone. -/

namespace MethodTrace
open Session

/-! ### Steps and their rows -/

namespace Step

/-- What became of the notification that a step delivers. -/
def outcome? (x : Step) : Option Outcome :=
  match x.answer with
  | .outcome outcome => some outcome
  | _ => none

/-- The row that is due for the notification that a step delivers. -/
def due? (x : Step) : Option String :=
  match x.action with
  | .deliver n => x.before.dueRow? n
  | _ => none

/-- The row of a step that answers as asked. -/
def rowIf (p : Outcome → Bool) (x : Step) : Option String := if x.outcome?.any p then x.due? else none

/-- Whether a step forgets the rows known. -/
def resets (x : Step) : Bool :=
  match x.action, x.answer with
  | .mark _ _, .result (.ok ()) => x.before.ownsContext
  | .stop, _ => x.before.isTracing
  | .close, _ => !x.before.isClosed
  | _, _ => false

end Step

/-- The rows that were due. -/
def dueRows (past : List Step) : List String := past.filterMap Step.due?

/-- The rows that were written. -/
def recordedRows (past : List Step) : List String := past.filterMap (Step.rowIf (· == .recorded))

/-- The rows that could not be written. -/
def failedRows (past : List Step) : List String := past.filterMap (Step.rowIf (· == .writeFailed))

/-- The rows that were to be written. -/
def triedRows (past : List Step) : List String := past.filterMap (Step.rowIf Outcome.isWrite)

theorem rowIf_eq_some {p : Outcome → Bool} {x : Step} {row : String} :
    x.rowIf p = some row ↔ ∃ outcome, x.outcome? = some outcome ∧ p outcome = true ∧ x.due? = some row := by
  unfold Step.rowIf
  cases x.outcome? with
  | none => simp
  | some outcome => simp [Option.ite_none_right_eq_some]

theorem isWrite_iff (outcome : Outcome) :
    outcome.isWrite = true ↔ outcome = .recorded ∨ outcome = .writeFailed := by
  cases outcome <;> simp [Outcome.isWrite]

theorem recordedRows_eq_triedRows {past : List Step} (h : ∀ x ∈ past, x.outcome? ≠ some .writeFailed) :
    recordedRows past = triedRows past := by
  refine List.filterMap_congr fun x hx => ?_
  have hne := h x hx
  unfold Step.rowIf
  cases ho : x.outcome? with
  | none => rfl
  | some outcome =>
    rw [ho] at hne
    cases outcome <;> first | rfl | exact absurd rfl hne

theorem rowIf_isWrite {x : Step} {row : String} :
    x.rowIf Outcome.isWrite = some row ↔
      x.rowIf (· == .recorded) = some row ∨ x.rowIf (· == .writeFailed) = some row := by
  simp only [rowIf_eq_some, isWrite_iff, beq_iff_eq, ← exists_or]
  exact exists_congr fun outcome => by tauto

theorem mem_triedRows {past : List Step} {row : String} :
    row ∈ triedRows past ↔ row ∈ recordedRows past ∨ row ∈ failedRows past := by
  simp only [triedRows, recordedRows, failedRows, List.mem_filterMap, rowIf_isWrite, and_or_left, exists_or]

/-! ### Runs without a failed write -/

namespace Session
variable {s t : Session}

theorem perform_unfailing (hs : s.Sound) (held : s.channel.isHeld = true ↔ s.isClosed = false)
    (h : s.channel.isHeld = true → s.channel.Harmless) {action : Action} (ha : action.isSimple = true)
    (hf : ∀ faults, action = .setFaults faults → faults.Harmless) :
    ((s.perform action).1.channel.isHeld = true → (s.perform action).1.channel.Harmless) ∧
      (s.step action).outcome? ≠ some .writeFailed := by
  cases action with
  | deliver n =>
    show ((s.deliver n).1.channel.isHeld = true → (s.deliver n).1.channel.Harmless) ∧
      some (s.deliver n).2 ≠ some .writeFailed
    have hfate := deliver_fate hs n
    cases hheld : s.channel.isHeld with
    | true =>
      obtain ⟨hnext, hwritten⟩ := harmless_of_fate hfate (h hheld)
      exact ⟨fun _ => hnext, fun ho => hwritten (Option.some.inj ho)⟩
    | false =>
      have hclosed : s.isClosed = true := by
        by_contra hopen
        simp [held.mpr (eq_false_of_ne_true hopen)] at hheld
      obtain ⟨reason, hignored, -⟩ := deliver_of_closed hclosed n
      rw [held_of_fate hfate, hheld, hignored]
      exact ⟨nofun, nofun⟩
  | mark label unwinding =>
    exact ⟨fun hheld => mark_harmless (h ((mark_held s label unwinding).symm.trans hheld)) label unwinding, nofun⟩
  | flush =>
    refine ⟨?_, nofun⟩
    show s.flush.1.channel.isHeld = true → s.flush.1.channel.Harmless
    rw [flush_eq]
    exact fun hheld => (h (s.channel.isHeld_flush.symm.trans hheld)).flush
  | setFaults faults =>
    exact ⟨fun hheld => Channel.harmless_of_setFaults ((s.channel.isHeld_setFaults faults).symm.trans hheld)
      (hf faults rfl), nofun⟩
  | start => exact ⟨(start_sameTrace s).channel ▸ h, nofun⟩
  | stop =>
    refine ⟨?_, nofun⟩
    show s.stop.channel.isHeld = true → s.stop.channel.Harmless
    cases ht : s.isTracing with
    | false => rwa [stop_of_not_tracing ht]
    | true => rwa [(stop_of_tracing ht).2.2.2]
  | close =>
    refine ⟨?_, nofun⟩
    show s.close.1.channel.isHeld = true → s.close.1.channel.Harmless
    cases hc : s.isClosed with
    | true => rwa [close_of_closed hc]
    | false =>
      rw [(close_of_open hc).2.2.2]
      exact nofun
  | beginFinalize => exact ⟨h, nofun⟩
  | look => exact ⟨h, nofun⟩
  | enterProcess => exact ⟨h, nofun⟩
  | enterThread => exact ⟨h, nofun⟩
  | «scoped» => cases ha

/-- No write fails on a run whose destination does no harm, also after it is changed. -/
theorem Reaches.unfailing {past : List Step} (h : Reaches s past t) (hs : s.Sound)
    (held : s.channel.isHeld = true ↔ s.isClosed = false) (harmless : s.channel.Harmless)
    (hf : ∀ x ∈ past, ∀ faults, x.action = .setFaults faults → faults.Harmless) :
    (t.channel.isHeld = true → t.channel.Harmless) ∧ ∀ x ∈ past, x.outcome? ≠ some .writeFailed := by
  induction h with
  | nil => exact ⟨fun _ => harmless, by simp⟩
  | @snoc past t action ha h ih =>
    obtain ⟨hbefore, hwritten⟩ := ih fun x hx => hf x (List.mem_append_left _ hx)
    obtain ⟨hafter, hlast⟩ := perform_unfailing (h.sound hs).1 (h.held_iff hs held) hbefore ha
      (hf _ (List.mem_append_right _ (List.mem_singleton.mpr rfl)))
    refine ⟨hafter, fun x hx => ?_⟩
    rcases List.mem_append.mp hx with hx | hx
    · exact hwritten x hx
    · rw [List.mem_singleton.mp hx]
      exact hlast

end Session

/-! ### Notifications in a row -/

/-- The calls that are open after some events. -/
def Settings.callsAlong (settings : Settings) (calls : List OpenCall) (events : List Event) : List OpenCall :=
  events.foldl settings.callsAfter calls

/-- The rows that are due for some events. -/
def Settings.rowsAlong (settings : Settings) : List OpenCall → List Event → List String
  | _, [] => []
  | calls, event :: rest =>
    (settings.row? calls event).toList ++ settings.rowsAlong (settings.callsAfter calls event) rest

theorem Session.filterMap_deliver {s : Session} (f : Step → Option String) (n : Notification) :
    (s.steps (.deliver n)).filterMap f = (f (s.step (.deliver n))).toList := by
  show [s.step (.deliver n)].filterMap f = _
  cases hx : f (s.step (.deliver n)) with
  | none => exact List.filterMap_cons_none hx
  | some row => exact List.filterMap_cons_some hx

theorem Session.Tracks.deliverAll {settings : Settings} {calls : List OpenCall} {s : Session}
    (h : Tracks settings calls s) {notifications : List Notification} {events : List Event}
    (he : List.Forall₂ (fun n event => n.event? = some event) notifications events)
    (outside : ∀ event ∈ events, settings.ownEntity ≠ some event.method.entity) :
    Tracks settings (settings.callsAlong calls events) (s.performAll (notifications.map .deliver)).1 ∧
      dueRows (s.stepsOfAll (notifications.map .deliver)) = settings.rowsAlong calls events := by
  induction he generalizing s calls with
  | nil => exact ⟨h, rfl⟩
  | @cons n event _ _ hn _ ih =>
    obtain ⟨hdue, hnext, -⟩ := h.deliver hn (outside event List.mem_cons_self)
    obtain ⟨hlast, hrows⟩ := ih hnext fun other hother => outside other (List.mem_cons_of_mem _ hother)
    refine ⟨hlast, ?_⟩
    have hfirst : dueRows (s.steps (.deliver n)) = (settings.row? calls event).toList := by
      rw [← hdue]
      exact filterMap_deliver Step.due? n
    rw [Settings.rowsAlong, ← hfirst, ← hrows]
    exact List.filterMap_append

theorem Session.deliverAll_steps {s : Session} (hs : s.Sound) (h : s.channel.Harmless)
    (notifications : List Notification) :
    ∀ x ∈ s.stepsOfAll (notifications.map .deliver), x.resets = false ∧ x.outcome? ≠ some .writeFailed := by
  induction notifications generalizing s with
  | nil =>
    intro x hx
    cases hx
  | cons n rest ih =>
    obtain ⟨hnext, hwritten⟩ := harmless_of_fate (deliver_fate hs n) h
    intro x hx
    rcases List.mem_append.mp (show x ∈ s.steps (.deliver n) ++ _ from hx) with hx | hx
    · rw [List.mem_singleton.mp hx]
      exact ⟨rfl, fun ho => hwritten (Option.some.inj ho)⟩
    · exact ih (deliver_sound hs n).1 hnext x hx

namespace Session

/-- The actions of a run that takes some notifications. -/
def traced (notifications : List Notification) : List Action := .start :: notifications.map .deliver

theorem traced_steps {s : Session} (hs : s.Sound) (h : s.channel.Harmless) (notifications : List Notification) :
    ∀ x ∈ s.stepsOfAll (traced notifications), x.resets = false ∧ x.outcome? ≠ some .writeFailed := by
  have hsame := start_sameTrace s
  exact List.forall_mem_cons.mpr
    ⟨⟨rfl, fun ho => by cases ho⟩, deliverAll_steps (hsame.sound hs) (hsame.channel ▸ h) notifications⟩

theorem dueRows_traced {settings : Settings} {host : Host} {s : Session} (fresh : Fresh settings host s)
    {notifications : List Notification} {events : List Event}
    (he : List.Forall₂ (fun n event => n.event? = some event) notifications events)
    (outside : ∀ event ∈ events, settings.ownEntity ≠ some event.method.entity) :
    dueRows (s.stepsOfAll (traced notifications)) = settings.rowsAlong [] events :=
  (fresh.start.1.deliverAll he outside).2

end Session

end MethodTrace
