import MethodTrace.Proofs.InheritedBuffer
import MethodTrace.Proofs.Lifecycle

/-! # Letting go of the output

A session lets go of its output once: at its first close, or else at its end. In the process that owns it, it passes on
what is buffered before, as much of it as the destination takes, and says if that was not all. Anywhere else, and when
the host shuts down, what the destination received stays as it is. -/

namespace MethodTrace
open Session

/-- Whether a step lets go of the output. -/
def Step.releases (x : Step) : Bool := x.before.channel.isHeld && !x.after.channel.isHeld

namespace Session

/-- How an open session lets go of its output, by the trace until then and the host that it was opened on. -/
structure LetsGo (host : Host) (trace : ByteArray) (s : Session) : Prop where
  complete : s.ownsProcess = true → s.close.2 = .ok () → s.close.1.destination.received = trace
  failed : ∀ error, s.close.2 = .error error →
    (∃ fault, error = .output fault) ∧ ∃ lost, s.close.1.destination.received ++ lost = trace
  inherited : s.ownsProcess = false → s.close.2 = .ok () ∧ s.close.1.destination.received = s.destination.received
  closed : s.close.1.isClosed = true
  blank : Blank s.close.1
  off : host.enabled = false → s.close.1.host.enabled = false
  final : Final s.close.1
  dropped : s.finalizing = false → ∃ log, s.drop = { s.close.1 with log }
  finalized : s.finalizing = true → s.drop.destination.received = s.destination.received

end Session

/-! ### Closing an output -/

namespace Output

theorem drain_of_empty {o : Output} (h : o.buffer = .empty) : o.drain = (o, .ok ()) := by
  unfold drain Destination.writeAll
  rw [if_pos (by rw [h]; rfl)]

/-- What the destination has in the end is the front of the stream. -/
theorem release_front (o : Output) : ∃ lost, o.release.received ++ lost = o.stream :=
  ⟨o.drain.1.buffer, o.drain_stream⟩

theorem close_front (o : Output) : ∃ lost, o.close.1.received ++ lost = o.stream := by
  obtain ⟨lost, hlost⟩ := o.flush.1.release_front
  exact ⟨lost, hlost.trans o.flush_stream⟩

theorem close_full {o : Output} (h : o.destination.faults = { limit := some 0 }) (hb : o.buffer.size ≠ 0) :
    o.close.2 = .error .full := by
  have hfull := Destination.writeAll_full h hb .bufferStuck
  show o.flush.2 = .error .full
  unfold flush drain
  rcases hw : o.destination.writeAll o.buffer .bufferStuck with ⟨destination, rest, result⟩
  rw [hw] at hfull
  rw [show result = .error .full from hfull]

/-- A close that does not fail passes on everything. -/
theorem close_complete {o : Output} (h : o.close.2 = .ok ()) : o.close.1.received = o.stream := by
  have hempty := Output.flush_empties h
  show o.flush.1.drain.1.destination.received = o.stream
  rw [drain_of_empty hempty, ← o.flush_stream, stream, hempty, ByteArray.append_empty]

end Output

namespace Channel
variable {c : Channel}

theorem close_front (held : c.isHeld = true) : ∃ lost, c.close.1.destination.received ++ lost = c.stream := by
  cases c with
  | held output => exact output.close_front
  | released => cases held

theorem close_complete (held : c.isHeld = true) (h : c.close.2 = .ok ()) :
    c.close.1.destination.received = c.stream := by
  cases c with
  | held output => exact Output.close_complete h
  | released => cases held

end Channel

/-! ### Closing a session -/

namespace Session
variable {s t : Session}

theorem close_of_child (hopen : s.isClosed = false) (howns : s.ownsProcess = false) : s.close.2 = .ok () := by
  obtain ⟨-, -, -, -, howner⟩ := closing_eq s
  rw [close_eq_letGo hopen, letGo_of_child (howner.trans howns)]

theorem close_of_owner (hopen : s.isClosed = false) (howns : s.ownsProcess = true) :
    s.close.1.channel = s.channel.close.1 ∧ s.close.2 = s.channel.close.2.mapError .output := by
  obtain ⟨-, -, -, hchannel, howner⟩ := closing_eq s
  rw [close_eq_letGo hopen, ← hchannel]
  unfold letGo
  simp only [checkOwner_of_owns (howner.trans howns)]
  rcases s.closing.channel.close with ⟨channel, fault | _⟩ <;> exact ⟨rfl, rfl⟩

theorem letsGo_of_open {host : Host} (held : s.channel.isHeld = true ↔ s.isClosed = false)
    (order : host.enabled = false → InOrder host s) (hopen : s.isClosed = false) :
    LetsGo host s.channel.stream s := by
  have hheld := held.mpr hopen
  have hclosed := close_isClosed s
  obtain ⟨-, hstack, hseen, hreleased⟩ := close_of_open hopen
  refine ⟨fun howns hok => ?_, fun error herror => ?_, fun howns => ?_, hclosed, .of_reset hstack hseen, fun off => ?_,
    Shut.final ⟨hclosed, hreleased, rfl⟩, drop_of_not_finalizing, fun hfin => ?_⟩
  · obtain ⟨hchannel, hresult⟩ := close_of_owner hopen howns
    rw [destination, hchannel]
    rw [hresult] at hok
    exact Channel.close_complete hheld (mapError_eq_ok.mp hok)
  · cases howns : s.ownsProcess with
    | false =>
      rw [close_of_child hopen howns] at herror
      cases herror
    | true =>
      obtain ⟨hchannel, hresult⟩ := close_of_owner hopen howns
      rw [hresult] at herror
      obtain ⟨fault, -, hfault⟩ := mapError_eq_error.mp herror
      refine ⟨⟨fault, hfault.symm⟩, ?_⟩
      rw [destination, hchannel]
      exact Channel.close_front hheld
  · exact ⟨close_of_child hopen howns, (close_discards held howns).received⟩
  · exact (close_inOrder (order off)).off (isTracing_of_closed hclosed)
  · rw [drop_of_finalizing hfin]
    exact received_of_abandon rfl

/-! ### Letting go once -/

/-- A step lets go of the output that is held before it, or leaves it as it is. -/
theorem perform_releases (hs : s.Sound) (held : s.channel.isHeld = true ↔ s.isClosed = false) {action : Action}
    (ha : action.isSimple = true) :
    ((s.step action).releases = true ↔ action = .close ∧ s.channel.isHeld = true) ∧
      ((s.perform action).1.channel.isHeld = true ↔ action ≠ .close ∧ s.channel.isHeld = true) := by
  by_cases hc : action = .close
  · subst hc
    have hreleased : s.close.1.channel.isHeld = false := by
      cases hclosed : s.isClosed with
      | true =>
        rw [close_of_closed hclosed]
        exact released_of_closed held hclosed
      | false => exact (close_of_open hclosed).2.2.2
    have hafter : (s.perform .close).1.channel.isHeld = false := hreleased
    simp [Step.releases, step, hafter]
  · simp [Step.releases, step, perform_held hs ha hc, hc]

/-- The output is held as long as the session was not told to close. -/
theorem Reaches.held_iff_unclosed {past : List Step} (h : Reaches s past t) (hs : s.Sound)
    (hin : s.channel.isHeld = true ↔ s.isClosed = false) :
    t.channel.isHeld = true ↔ s.channel.isHeld = true ∧ ∀ x ∈ past, x.action ≠ .close := by
  induction h with
  | nil => simp
  | @snoc past t action ha h ih =>
    rw [(perform_releases (h.sound hs).1 (h.held_iff hs hin) ha).2, ih]
    simp only [List.forall_mem_append, List.forall_mem_singleton, step]
    tauto

/-- What is let go on the way is not held at the end. -/
theorem Reaches.releases {past : List Step} (h : Reaches s past t) (hs : s.Sound)
    (hin : s.channel.isHeld = true ↔ s.isClosed = false) :
    past.countP Step.releases + t.channel.isHeld.toNat = s.channel.isHeld.toNat := by
  induction h with
  | nil => exact Nat.zero_add _
  | @snoc past t action ha h ih =>
    have hheld := (perform_releases (h.sound hs).1 (h.held_iff hs hin) ha).2
    have hlast : (t.step action).releases.toNat + (t.perform action).1.channel.isHeld.toNat =
        t.channel.isHeld.toNat := by
      have hsame : (t.step action).releases = (t.channel.isHeld && !(t.perform action).1.channel.isHeld) := rfl
      rw [hsame]
      cases hbefore : t.channel.isHeld <;> cases hafter : (t.perform action).1.channel.isHeld
      case false.true => simp [hbefore, hafter] at hheld
      all_goals rfl
    rw [List.countP_append, Step.countP_single, ← ih]
    omega

/-- The first close lets go of the output, or else the end of the session does. Nothing reaches the destination after
it. A session that still holds its output has a trace, and lets go of it as its process and its destination allow. -/
theorem released_once {settings : Settings} {faults : Faults} {label : String} {host : Host}
    (opened : create settings { destination := { faults }, label } host = .ok s) (actions : List Action)
    {past : List Step} (hp : past <+: s.stepsOfAll actions) :
    let t := s.after past
    past.countP Step.releases + (t.channel.isHeld && !t.drop.channel.isHeld).toNat = 1 ∧
      (∀ earlier x later, past = earlier ++ x :: later →
        (x.releases = true ↔ x.action = .close ∧ ∀ y ∈ earlier, y.action ≠ .close) ∧
        (x.releases = true → t.destination.received = x.after.destination.received ∧
          t.drop.destination.received = x.after.destination.received)) ∧
      (t.ownsProcess = true ↔ t.ownership.broken = false ∧ t.host.process = host.process) ∧
      (t.channel.isHeld = true → ∃ chunks, List.Forall₂ Step.Puts (past.filter Step.attempts) chunks ∧
        LetsGo host (chunks.foldl (· ++ ·) settings.layout.header.toUTF8) t) := by
  intro t
  have fresh := create_fresh opened
  have hs := fresh.sound
  have reaches : Reaches s past t := reaches_upTo hp
  have held := reaches.held_iff hs fresh.held_iff
  refine ⟨?_, ?_, ?_, fun hheld => ?_⟩
  · have hcount := reaches.releases hs fresh.held_iff
    rw [fresh.held] at hcount
    rw [drop_released held, Bool.not_false, Bool.and_true, hcount]
    rfl
  · rintro earlier x later rfl
    obtain ⟨hearlier, hrest⟩ := reaches.split
    obtain ⟨action, ha, rfl, hlater⟩ := hrest.first
    have hbefore := hearlier.held_iff hs fresh.held_iff
    have hreleases := (perform_releases (hearlier.sound hs).1 hbefore ha).1
    rw [hearlier.held_iff_unclosed hs fresh.held_iff, fresh.held] at hreleases
    refine ⟨by simpa [step] using hreleases, fun hx => ?_⟩
    obtain ⟨rfl, -⟩ := hreleases.mp hx
    have hshut := hlater.shut (shut_of_closed ((Reaches.single ha).held_iff (hearlier.sound hs).1 hbefore)
      (close_isClosed _))
    exact ⟨hshut.received_eq, (congrArg Destination.received hshut.final.drop).trans hshut.received_eq⟩
  · have howner : t.ownership.owner = host.process := by rw [reaches.owner hs, fresh.ownership]
    simp [ownsProcess, Ownership.holds, howner]
  · obtain ⟨-, chunks, hputs, hstream⟩ := reaches.stream hs hheld
    rw [fresh.stream] at hstream
    refine ⟨chunks, hputs, ?_⟩
    rw [← hstream]
    exact letsGo_of_open held (fun off => reaches.inOrder hs (fresh.inOrder off)) (held.mp hheld)

/-- The destination has no room left for the row that is buffered when the session is closed. -/
theorem released_with_loss :
    let call : Notification := { kind := .enter, receiver := .unknown }
    let actions : List Action := [.start, .deliver call, .setFaults { limit := some 0 }]
    ∃ s, create { rootCalls := true } { destination := { faults := {} }, label := "" } { process := 1 } = .ok s ∧
      let past := s.stepsOfAll actions
      let t := s.after past
      t.close.2 = .error (.output .full) ∧ ∃ chunks, List.Forall₂ Step.Puts (past.filter Step.attempts) chunks ∧
        LetsGo { process := 1 } (chunks.foldl (· ++ ·) Layout.edges.header.toUTF8) t := by
  intro call actions
  obtain ⟨s, opened⟩ := create_in_memory { rootCalls := true } (by decide)
  have fresh := create_fresh opened
  obtain ⟨output, hheld, hempty⟩ := create_drained opened
  have hsame := start_sameTrace s
  obtain ⟨event, row, hevent, outside, hrow, hsize⟩ : ∃ event row, call.event? = some event ∧
      some "Calltrace::Session" ≠ some event.method.entity ∧
      Settings.row? { rootCalls := true } [] event = some row ∧ row.toUTF8.size = 66 :=
    ⟨_, "\"<UNKNOWN>\",\"<UNKNOWN>\",instance,\"\",0,\"<ROOT>\",\"<ROOT>\",<UNKNOWN>\n", rfl, by decide,
      by decide +kernel, by decide +kernel⟩
  have hkept : ((s.performAll [.start, .deliver call]).1).channel = .held (output.keep row.toUTF8) :=
    fresh.start.1.deliver_kept hevent outside hrow (by rw [hsame.seen, fresh.seen]; simp [SeenRows.Has])
      (hsame.channel.trans hheld) (by rw [hempty, hsize]; decide)
  refine ⟨s, opened, ?_⟩
  intro past t
  have reaches : Reaches s past t := reaches_upTo (List.prefix_refl _)
  obtain ⟨full, hchannel, hfaults, hbuffer⟩ : ∃ full : Output, t.channel = .held full ∧
      full.destination.faults = { limit := some 0 } ∧ full.buffer = output.buffer ++ row.toUTF8 := by
    rw [← reaches.after_eq, (reaches_stepsOfAll s actions).after_eq]
    exact ⟨_, congrArg (Channel.setFaults { limit := some 0 }) hkept, rfl, rfl⟩
  have hheld : t.channel.isHeld = true := by
    rw [hchannel]
    rfl
  have hopen : t.isClosed = false := (reaches.held_iff fresh.sound fresh.held_iff).mp hheld
  have hmoves : ∀ x ∈ past, x.action.moves = false := by
    simp [past, actions, stepsOfAll, steps, step, Action.moves]
  have howns := (ownsContext_iff.mp (reaches.ownsContext fresh.sound hmoves fresh.ownsContext)).1
  obtain ⟨-, -, -, hlast⟩ := released_once opened actions (List.prefix_refl past)
  refine ⟨?_, hlast hheld⟩
  rw [hempty, ByteArray.empty_append] at hbuffer
  rw [(close_of_owner hopen howns).2, hchannel, Channel.close]
  exact congrArg (Except.mapError SessionError.output) (Output.close_full hfaults (by rw [hbuffer, hsize]; decide))

end Session
end MethodTrace
