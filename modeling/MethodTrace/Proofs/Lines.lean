import MethodTrace.Proofs.ForkedChild
import MethodTrace.Proofs.Rows
import MethodTrace.Proofs.Stream

/-! # The lines of a run

As long as the output does no harm, every row that is recorded and every mark that is written is a line of the trace,
and the trace is the header and its lines. -/

namespace MethodTrace
open Session

namespace Step

/-- The mark that a step writes. -/
def mark? (x : Step) : Option String :=
  match x.action, x.answer with
  | .mark label _, .result (.ok ()) => if x.before.ownsContext then some (Row.ofMark label) else none
  | _, _ => none

/-- The line that a step puts out: a mark, or the row that is recorded. -/
def line? (x : Step) : Option String := x.mark?.or (x.rowIf (· == .recorded))

variable {x y : Step}

theorem mark?_congr (haction : x.action = y.action) (hanswer : x.answer = y.answer)
    (hctx : x.before.ownsContext = y.before.ownsContext) : x.mark? = y.mark? := by
  rw [mark?, haction, hanswer, hctx, ← mark?]

/-- A step that delivers nothing puts out a mark, if anything. -/
theorem line?_of_undelivered (hx : ∀ n, x.action ≠ .deliver n) : x.line? = x.mark? := by
  obtain ⟨before, action, answer, after⟩ := x
  cases action with
  | deliver n => exact absurd rfl (hx n)
  | _ => simp [line?, rowIf, due?]

end Step

/-- The lines that the steps of a run put out. -/
def lines (past : List Step) : List String := past.filterMap Step.line?

theorem lines_concat (past : List Step) (x : Step) : lines (past ++ [x]) = lines past ++ x.line?.toList := by
  unfold lines
  rw [List.filterMap_append]
  cases hx : x.line? <;> simp [hx]

namespace Session

/-- A session whose output does no harm as long as it is held. -/
structure Reliable (s : Session) : Prop where
  sound : s.Sound
  held_iff : s.channel.isHeld = true ↔ s.isClosed = false
  harmless : s.channel.isHeld = true → s.channel.Harmless

section
variable {s t : Session}

theorem line?_deliver (s : Session) (n : Notification) :
    (s.step (.deliver n)).line? = if (s.deliver n).2 == Outcome.recorded then s.dueRow? n else none := rfl

theorem line?_mark (s : Session) (label : String) (unwinding : Bool) :
    (s.step (.mark label unwinding)).line? =
      match (s.mark label unwinding).2 with
      | .ok () => if s.ownsContext then some (Row.ofMark label) else none
      | .error _ => none := by
  show (Step.mark? ⟨s, .mark label unwinding, .result (s.mark label unwinding).2, s⟩).or none = _
  rw [Option.or_none]
  rcases (s.mark label unwinding).2 with error | _ <;> rfl

namespace Reliable

theorem perform (h : Reliable s) {action : Action} (ha : action.isSimple = true)
    (hf : ∀ faults, action = .setFaults faults → faults.Harmless) : Reliable (s.perform action).1 where
  sound := (perform_sound h.sound ha).1
  held_iff := (Reaches.single ha).held_iff h.sound h.held_iff
  harmless := (perform_unfailing h.sound h.held_iff h.harmless ha hf).1

/-- A mark of an open session in its own process and thread is written, and ends the segment. -/
theorem mark (h : Reliable s) (label : String) (unwinding : Bool) :
    (s.mark label unwinding).2 = (if s.isClosed then .error .closed else .ok ()) ∧
      (s.mark label unwinding).1.stack =
        (if !s.isClosed && s.ownsContext && unwinding then s.stack.reset else s.stack) ∧
      (s.mark label unwinding).1.seen = if !s.isClosed && s.ownsContext then {} else s.seen := by
  have hfate := mark_fate s label unwinding
  generalize (s.mark label unwinding).2 = result at hfate ⊢
  cases hfate with
  | closed hc k => simp [hc, k.stack, k.seen]
  | elsewhere hc hctx k => simp [hc, hctx, k.stack, k.seen]
  | written hc hctx _ hstack hseen => simp [hc, hctx, hstack, hseen]
  | failed hc _ _ _ _ hw =>
    have hok := ((h.harmless (h.held_iff.mpr hc)).write (Row.ofMark label).toUTF8).2
    rw [hw] at hok
    cases hok

theorem flush (h : Reliable s) : s.flush.2 = if s.isClosed then .error .closed else .ok () := by
  cases hc : s.isClosed with
  | true => rw [flush_of_released (released_of_closed h.held_iff hc), if_pos rfl]
  | false =>
    have hok := (h.harmless (h.held_iff.mpr hc)).flush_ok
    unfold Session.flush
    rcases hf : s.channel.flush with ⟨channel, result⟩
    rw [hf] at hok
    cases hok
    rfl

theorem close (h : Reliable s) : s.close.2 = .ok () := by
  cases hc : s.isClosed with
  | true => rw [close_of_closed hc]
  | false =>
    rw [close_eq_letGo hc]
    cases howns : s.closing.ownsProcess with
    | false => rw [letGo_of_child howns]
    | true =>
      have hok := (h.harmless (h.held_iff.mpr hc)).close_ok
      obtain ⟨-, -, -, hchannel, -⟩ := closing_eq s
      unfold letGo
      simp only [checkOwner_of_owns howns, hchannel]
      rcases hclose : s.channel.close with ⟨channel, result⟩
      rw [hclose] at hok
      cases hok
      rfl

/-- What a notification or a mark puts out is its line, in full. -/
theorem line (h : Reliable s) {action : Action} (ha : action.isSimple = true)
    (held : (s.perform action).1.channel.isHeld = true) :
    (s.perform action).1.channel.stream = s.channel.stream ++ ((s.step action).line?.getD "").toUTF8 := by
  have hextends := perform_extends h.sound ha held
  have hheld : s.channel.isHeld = true := hextends.held
  have silent : ∀ {t : Session}, t.channel.stream = s.channel.stream →
      t.channel.stream = s.channel.stream ++ "".toUTF8 := fun hstream => hstream.trans ByteArray.append_empty.symm
  cases action with
  | deliver n =>
    have hfate := deliver_fate h.sound n
    obtain ⟨-, hwritten⟩ := harmless_of_fate hfate (h.harmless hheld)
    show (s.deliver n).1.channel.stream = _
    rw [line?_deliver]
    generalize s.dueRow? n = row? at hfate
    generalize (s.deliver n).2 = outcome at hfate hwritten
    cases hfate with
    | quiet _ _ hc =>
      rw [ite_self]
      exact silent (congrArg Channel.stream hc)
    | duplicate _ _ _ hc => exact silent (congrArg Channel.stream hc)
    | recorded _ _ hw => exact (h.harmless hheld).stream_of_write hw
    | writeFailed => exact absurd rfl hwritten
  | mark label unwinding =>
    have hfate := mark_fate s label unwinding
    obtain ⟨hanswer, -⟩ := h.mark label unwinding
    show (s.mark label unwinding).1.channel.stream = _
    rw [line?_mark]
    generalize (s.mark label unwinding).2 = result at hfate hanswer
    cases hfate with
    | closed _ k => exact silent (congrArg Channel.stream k.channel)
    | elsewhere _ hctx k =>
      rw [hctx]
      exact silent (congrArg Channel.stream k.channel)
    | written _ hctx _ _ _ hw =>
      rw [hctx]
      exact (h.harmless hheld).stream_of_write hw
    | failed hc =>
      rw [hc] at hanswer
      cases hanswer
  | «scoped» => cases ha
  | _ => exact silent (hextends.quiet rfl)

end Reliable

/-- The trace of a run to an output that does no harm: its lines, after what was there before. -/
theorem Reaches.stream_eq_lines {past : List Step} {text : String} (h : Reaches s past t) (hs : Reliable s)
    (hstart : s.channel.stream = text.toUTF8)
    (hf : ∀ x ∈ past, ∀ faults, x.action = .setFaults faults → faults.Harmless) :
    Reliable t ∧ (t.channel.isHeld = true → t.channel.stream = ((lines past).foldl (· ++ ·) text).toUTF8) := by
  induction h with
  | nil => exact ⟨hs, fun _ => hstart⟩
  | @snoc past t action ha h ih =>
    obtain ⟨hbefore, hstream⟩ := ih fun x hx => hf x (List.mem_append_left _ hx)
    refine ⟨hbefore.perform ha (hf _ (List.mem_append_right _ (List.mem_singleton.mpr rfl))), fun held => ?_⟩
    have hheld : t.channel.isHeld = true := (perform_extends hbefore.sound ha held).held
    rw [hbefore.line ha held, hstream hheld, lines_concat, List.foldl_append]
    cases (t.step action).line? with
    | none => exact ByteArray.append_empty
    | some line => rfl

variable {settings : Settings} {host : Host}

theorem Fresh.reliable (fresh : Fresh settings host s) (harmless : s.channel.Harmless) : Reliable s :=
  ⟨fresh.sound, fresh.held_iff, fun _ => harmless⟩

theorem stream_of_opened {faults : Faults} {label : String}
    (opened : create settings { destination := { faults }, label } host = .ok s) (harmless : faults.Harmless)
    {actions : List Action} (hf : ∀ x ∈ s.stepsOfAll actions, ∀ faults, x.action = .setFaults faults → faults.Harmless)
    {past : List Step} (hp : past <+: s.stepsOfAll actions) (held : (s.after past).channel.isHeld = true) :
    (s.after past).channel.stream = ((lines past).foldl (· ++ ·) settings.layout.header).toUTF8 := by
  have fresh := create_fresh opened
  have reliable := fresh.reliable (create_harmless opened harmless)
  exact ((reaches_upTo hp).stream_eq_lines reliable fresh.stream fun x hx => hf x (hp.subset hx)).2 held

end
end Session
end MethodTrace
