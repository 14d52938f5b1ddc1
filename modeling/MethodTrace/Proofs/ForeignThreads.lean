import Mathlib.Data.List.Forall2
import MethodTrace.Proofs.ForkedChild
import MethodTrace.Proofs.Lifecycle

/-! # Other threads leave no trace

Notifications and marks on a thread that is not the owner's are counted as ignored, if at all, and change nothing else
(`SameButIgnored`). No step reads those counts, so a run goes as it does without them (`owned`). -/

namespace MethodTrace
open Session

namespace Session

/-- The session with other counts of what it ignored. -/
def ignoring (s : Session) (counts : IgnoreCounts) : Session := s.count fun c => { c with ignored := counts }

/-- Two sessions are the same but for how often they ignored something on another thread or while not tracing. -/
def SameButIgnored (s t : Session) : Prop :=
  ∃ counts, t = s.ignoring counts ∧ ∀ reason, reason ≠ .foreignThread → reason ≠ .notTracing →
    counts.count reason = s.counters.ignored.count reason

end Session

/-- Whether a step is a notification or a mark on a thread that is not the owner's. -/
def Step.intrudes (x : Step) : Bool :=
  match x.action with
  | .deliver _ | .mark _ _ => x.before.host.thread != x.before.ownerThread
  | _ => false

/-- Two steps do the same, in sessions that are the same but for what they ignored. -/
structure SameStep (x y : Step) : Prop where
  action : y.action = x.action
  answer : y.answer = x.answer
  before : SameButIgnored x.before y.before
  after : SameButIgnored x.after y.after

namespace Session

mutual

/-- What is left of an action without the notifications and marks on other threads. -/
def owned (s : Session) : Action → List Action
  | .deliver n => if s.host.thread = s.ownerThread then [.deliver n] else []
  | .mark label unwinding => if s.host.thread = s.ownerThread then [.mark label unwinding] else []
  | .scoped body panic =>
    match s.start with
    | (_, .error _) => [.scoped body panic]
    | (t, .ok ()) => [.scoped (t.ownedAll body) panic]
  | .start => [.start]
  | .stop => [.stop]
  | .flush => [.flush]
  | .close => [.close]
  | .beginFinalize => [.beginFinalize]
  | .look => [.look]
  | .enterProcess process => [.enterProcess process]
  | .enterThread thread => [.enterThread thread]
  | .setFaults faults => [.setFaults faults]

/-- What is left of actions without the notifications and marks on other threads. -/
def ownedAll (s : Session) : List Action → List Action
  | [] => []
  | action :: rest => s.owned action ++ (s.perform action).1.ownedAll rest

end

/-- An operation neither looks at what was ignored before nor ignores anything. -/
def Unaware {α : Type} (op : Session → Session × α) : Prop :=
  ∀ s counts, op (s.ignoring counts) = (op s).map (·.ignoring counts) id

section
variable {s t u : Session}

namespace SameButIgnored

theorem refl (s : Session) : SameButIgnored s s := ⟨s.counters.ignored, rfl, fun _ _ _ => rfl⟩

theorem symm (h : SameButIgnored s t) : SameButIgnored t s := by
  obtain ⟨counts, rfl, hagree⟩ := h
  exact ⟨s.counters.ignored, rfl, fun reason hforeign htracing => (hagree reason hforeign htracing).symm⟩

theorem trans (h₁ : SameButIgnored s t) (h₂ : SameButIgnored t u) : SameButIgnored s u := by
  obtain ⟨counts, rfl, hagree⟩ := h₁
  obtain ⟨others, rfl, hagree'⟩ := h₂
  exact ⟨others, rfl, fun reason hforeign htracing =>
    (hagree' reason hforeign htracing).trans (hagree reason hforeign htracing)⟩

theorem ignore (h : SameButIgnored s t) (reason : IgnoreReason) :
    SameButIgnored (s.ignore reason).1 (t.ignore reason).1 := by
  obtain ⟨counts, rfl, hagree⟩ := h
  refine ⟨counts.add reason, rfl, fun asked hforeign htracing => ?_⟩
  show (counts.add reason).count asked = (s.counters.ignored.add reason).count asked
  rw [IgnoreCounts.count_add, IgnoreCounts.count_add, hagree asked hforeign htracing]

end SameButIgnored

theorem Unaware.same {α : Type} {op : Session → Session × α} (h : Unaware op) (hst : SameButIgnored s t) :
    SameButIgnored (op s).1 (op t).1 ∧ (op t).2 = (op s).2 := by
  obtain ⟨counts, rfl, hagree⟩ := hst
  -- With the counts that it has already, the session is what it was.
  have hkeeps : (op s).1.counters.ignored = s.counters.ignored :=
    congrArg (fun p : Session × α => p.1.counters.ignored) (h s s.counters.ignored)
  rw [h s counts]
  exact ⟨⟨counts, rfl, fun reason => hkeeps ▸ hagree reason⟩, rfl⟩

theorem SameButIgnored.map {f : Session → Session} (hf : ∀ s counts, f (s.ignoring counts) = (f s).ignoring counts)
    (h : SameButIgnored s t) : SameButIgnored (f s) (f t) := by
  have hop : Unaware fun s => (f s, ()) := fun s counts => congrArg (·, ()) (hf s counts)
  exact (hop.same h).1

/-! ### Events -/

theorem unaware_record (row : String) : Unaware (·.record row) := by
  intro s counts
  have hchannel : (s.ignoring counts).channel = s.channel := rfl
  unfold record write
  beta_reduce
  rw [hchannel]
  rcases s.channel.write row.toUTF8 with ⟨channel, fault | _⟩
  · let failed := { s with channel }.count fun c => { c with writeErrors := c.writeErrors + 1 }
    exact congrArg (·, Outcome.writeFailed)
      (apply_ite (ignoring · counts) (failed.counters.writeErrors = 1) (failed.say (.recordFailed fault)) failed).symm
  · rfl

theorem unaware_recordEdge (row : String) : Unaware (·.recordEdge row) := by
  intro s counts
  have hseen : (s.ignoring counts).seen = s.seen := rfl
  unfold recordEdge
  beta_reduce
  rw [hseen]
  rcases s.seen.meet row.toUTF8 with ⟨seen, _ | _⟩
  · rfl
  · exact unaware_record row { s with seen } counts

theorem unaware_enter (event : Event) : Unaware (·.enter event) := by
  intro s counts
  have hsettings : (s.ignoring counts).settings = s.settings := rfl
  have hopen : ∀ hidden, (s.ignoring counts).openCall event hidden =
      (s.openCall event hidden).map (·.ignoring counts) id := fun _ => rfl
  unfold enter
  beta_reduce
  rw [hsettings]
  dsimp only
  cases s.settings.filter.hides event with
  | true => rfl
  | false =>
    rw [hopen]
    rcases s.openCall event false with ⟨u, slot⟩
    have hcaller : (u.ignoring counts).callerOf slot = u.callerOf slot := rfl
    have hlayout : (u.ignoring counts).settings = u.settings := rfl
    simp only [Prod.map, id, hlayout, hcaller, Bool.false_eq_true, if_false]
    cases u.settings.layout with
    | events => exact unaware_record _ u counts
    | edges =>
      dsimp only
      cases u.callerOf slot with
      | none => rfl
      | some caller =>
        dsimp only
        split
        · rfl
        · exact unaware_recordEdge _ u counts

theorem unaware_finishReturn (event : Event) (hidden : Bool) : Unaware (·.finishReturn event hidden) := by
  intro s counts
  have hsettings : (s.ignoring counts).settings = s.settings := rfl
  unfold finishReturn
  beta_reduce
  rw [hsettings]
  cases s.settings.layout with
  | edges => rfl
  | events =>
    cases hidden with
    | true => rfl
    | false => exact unaware_record _ s counts

theorem unaware_leave (event : Event) : Unaware (·.leave event) := by
  intro s counts
  have hmatch : (s.ignoring counts).matchReturn event = s.matchReturn event := rfl
  unfold leave
  beta_reduce
  rw [hmatch]
  cases s.matchReturn event with
  | none => rfl
  | innermost frame =>
    exact unaware_finishReturn event frame.hidden (s.closeCall.count fun c => { c with returns := c.returns + 1 })
      counts
  | below frame =>
    exact unaware_finishReturn _ frame.hidden (s.closeCall.closeCall.count fun c =>
      { c with returns := c.returns + 1, blockReturns := c.blockReturns + 1 }) counts

theorem process_same (h : SameButIgnored s t) (event? : Option Event) :
    SameButIgnored (s.process event?).1 (t.process event?).1 ∧ (t.process event?).2 = (s.process event?).2 := by
  have hsettings : t.settings = s.settings := by
    obtain ⟨counts, rfl, -⟩ := h
    rfl
  unfold process
  cases event? with
  | none => exact ⟨h.ignore _, rfl⟩
  | some event =>
    dsimp only
    rw [hsettings]
    split
    · exact ⟨h.ignore _, rfl⟩
    · unfold take
      cases event.kind with
      | call => exact (unaware_enter _).same h
      | leave => exact (unaware_leave _).same h

theorem deliver_same (h : SameButIgnored s t) (n : Notification) :
    SameButIgnored (s.deliver n).1 (t.deliver n).1 ∧ (t.deliver n).2 = (s.deliver n).2 := by
  have hsame := h
  obtain ⟨counts, rfl, -⟩ := h
  cases hfin : s.finalizing with
  | true =>
    rw [deliver_of_finalizing hfin, deliver_of_finalizing (s := s.ignoring counts) hfin]
    exact ⟨(hsame.map (f := disable) fun _ _ => rfl).ignore _, rfl⟩
  | false =>
    cases htracing : s.isTracing with
    | false =>
      rw [deliver_of_not_tracing hfin htracing, deliver_of_not_tracing (s := s.ignoring counts) hfin htracing]
      exact ⟨hsame.ignore _, rfl⟩
    | true =>
      cases howns : s.ownsProcess with
      | false =>
        rw [deliver_of_child hfin htracing howns, deliver_of_child (s := s.ignoring counts) hfin htracing howns]
        let f (u : Session) := (u.forked.say (.forkDetected s.ownership.owner s.host.process)).disable.inPhase .idle
        exact ⟨(hsame.map (f := f) fun _ _ => rfl).ignore _, rfl⟩
      | true =>
        by_cases hthread : s.host.thread = s.ownerThread
        · have hl : s.listens = true := listens_iff.mpr ⟨hfin, htracing, ownsContext_iff.mpr ⟨howns, hthread⟩⟩
          rw [deliver_of_listens hl, deliver_of_listens (s := s.ignoring counts) hl]
          exact process_same (hsame.map (f := hearing) fun _ _ => rfl) n.event?
        · rw [deliver_of_foreign hfin htracing howns hthread,
            deliver_of_foreign (s := s.ignoring counts) hfin htracing howns hthread]
          exact ⟨hsame.ignore _, rfl⟩

/-! ### Other actions -/

theorem unaware_start : Unaware start := by
  intro s counts
  rcases start_cases s with ⟨hp, heq⟩ | ⟨hp, heq⟩ | ⟨hp, howns, heq⟩ | ⟨hp, howns, heq⟩ <;> rw [heq]
  · exact start_of_closed (s := s.ignoring counts) hp
  · exact start_of_tracing (s := s.ignoring counts) hp
  · exact start_of_child (s := s.ignoring counts) hp howns
  · exact start_of_owner (s := s.ignoring counts) hp howns

theorem stop_ignoring (s : Session) (counts : IgnoreCounts) : (s.ignoring counts).stop = s.stop.ignoring counts := by
  cases ht : s.isTracing with
  | false => rw [stop_of_not_tracing ht, stop_of_not_tracing (s := s.ignoring counts) ht]
  | true =>
    rw [stop_eq_stopped ht, stop_eq_stopped (s := s.ignoring counts) ht]
    rfl

theorem unaware_mark (label : String) (unwinding : Bool) : Unaware (·.mark label unwinding) := by
  intro s counts
  beta_reduce
  rcases mark_cases s label unwinding with ⟨hc, heq⟩ | ⟨hopen, howns, heq⟩ | ⟨hopen, howns, hthread, heq⟩ |
    ⟨hopen, hctx, channel, hw, heq⟩ | ⟨hopen, hctx, channel, fault, hw, heq⟩ <;> rw [heq]
  · exact mark_of_closed (s := s.ignoring counts) hc label unwinding
  · exact mark_of_child (s := s.ignoring counts) hopen howns label unwinding
  · exact mark_of_foreign (s := s.ignoring counts) hopen howns hthread label unwinding
  · rw [mark_of_ok (s := s.ignoring counts) hopen hctx hw]
    cases unwinding <;> rfl
  · exact mark_of_error (s := s.ignoring counts) hopen hctx hw unwinding

theorem unaware_flush : Unaware flush := by
  intro s counts
  have hchannel : (s.ignoring counts).channel = s.channel := rfl
  unfold flush
  rw [hchannel]
  rcases s.channel.flush with ⟨channel, _ | result⟩ <;> rfl

theorem unaware_letGo : Unaware letGo := by
  intro s counts
  have hchannel : (s.ignoring counts).channel = s.channel := rfl
  cases howns : s.ownsProcess with
  | false =>
    rw [letGo_of_child howns, letGo_of_child (s := s.ignoring counts) howns]
    rfl
  | true =>
    unfold letGo
    rw [checkOwner_of_owns howns, checkOwner_of_owns (s := s.ignoring counts) howns]
    dsimp only
    rw [hchannel]
    rcases s.channel.close with ⟨channel, fault | _⟩ <;> rfl

theorem unaware_close : Unaware close := by
  intro s counts
  cases hc : s.isClosed with
  | true => rw [close_of_closed hc, close_of_closed (s := s.ignoring counts) hc]; rfl
  | false =>
    have hclosing : (s.ignoring counts).closing = s.closing.ignoring counts := by
      have htracing : (s.ignoring counts).isTracing = s.isTracing := rfl
      unfold closing
      rw [htracing]
      cases s.isTracing <;> rfl
    rw [close_eq_letGo hc, close_eq_letGo (s := s.ignoring counts) hc, hclosing]
    exact unaware_letGo s.closing counts

theorem drop_ignoring (s : Session) (counts : IgnoreCounts) :
    (s.ignoring counts).drop = s.drop.ignoring counts := by
  have hclose := unaware_close s counts
  have hfin : (s.ignoring counts).finalizing = s.finalizing := rfl
  have hclosed : (s.ignoring counts).isClosed = s.isClosed := rfl
  unfold drop
  rw [hfin, hclosed, hclose]
  cases s.finalizing with
  | true => cases s.isClosed <;> rfl
  | false => rcases s.close with ⟨t, error | _⟩ <;> rfl

/-- Two sessions that are the same but for what they ignored do the same. -/
theorem perform_same (h : SameButIgnored s t) {action : Action} (ha : action.isSimple = true) :
    SameStep (s.step action) (t.step action) := by
  have hstep : SameButIgnored (s.perform action).1 (t.perform action).1 ∧
      (t.perform action).2 = (s.perform action).2 := by
    cases action with
    | start =>
      obtain ⟨hafter, hanswer⟩ := unaware_start.same h
      exact ⟨hafter, congrArg Answer.result hanswer⟩
    | stop => exact ⟨h.map stop_ignoring, rfl⟩
    | mark label unwinding =>
      obtain ⟨hafter, hanswer⟩ := (unaware_mark label unwinding).same h
      exact ⟨hafter, congrArg Answer.result hanswer⟩
    | flush =>
      obtain ⟨hafter, hanswer⟩ := unaware_flush.same h
      exact ⟨hafter, congrArg Answer.result hanswer⟩
    | close =>
      obtain ⟨hafter, hanswer⟩ := unaware_close.same h
      exact ⟨hafter, congrArg Answer.result hanswer⟩
    | deliver n =>
      obtain ⟨hafter, hanswer⟩ := deliver_same h n
      exact ⟨hafter, congrArg Answer.outcome hanswer⟩
    | beginFinalize => exact ⟨h.map (f := beginFinalize) fun _ _ => rfl, rfl⟩
    | look => exact ⟨h, rfl⟩
    | enterProcess process => exact ⟨h.map (f := fun u => (u.perform (.enterProcess process)).1) fun _ _ => rfl, rfl⟩
    | enterThread thread => exact ⟨h.map (f := fun u => (u.perform (.enterThread thread)).1) fun _ _ => rfl, rfl⟩
    | setFaults faults => exact ⟨h.map (f := fun u => (u.perform (.setFaults faults)).1) fun _ _ => rfl, rfl⟩
    | «scoped» => cases ha
  exact ⟨rfl, hstep.2, h, hstep.1⟩

/-! ### On another thread -/

theorem same_ignore {reason : IgnoreReason} (h : reason = .foreignThread ∨ reason = .notTracing) (s : Session) :
    SameButIgnored s (s.ignore reason).1 := by
  refine ⟨s.counters.ignored.add reason, rfl, fun asked hforeign htracing => ?_⟩
  have hne : asked ≠ reason := by
    rintro rfl
    exact h.elim hforeign htracing
  simp [hne]

theorem foreign_deliver_same (howns : s.ownsProcess = true) (hfin : s.finalizing = false)
    (hthread : s.host.thread ≠ s.ownerThread) (n : Notification) : SameButIgnored s (s.deliver n).1 := by
  cases htracing : s.isTracing with
  | false =>
    rw [deliver_of_not_tracing hfin htracing]
    exact same_ignore (.inr rfl) s
  | true =>
    rw [deliver_of_foreign hfin htracing howns hthread]
    exact same_ignore (.inl rfl) s

theorem foreign_mark_eq (howns : s.ownsProcess = true) (hthread : s.host.thread ≠ s.ownerThread) (label : String)
    (unwinding : Bool) : (s.mark label unwinding).1 = s := by
  cases hc : s.isClosed with
  | true => rw [mark_of_closed hc]
  | false => rw [mark_of_foreign hc howns (beq_false_of_ne hthread)]

theorem perform_ownsProcess (hs : s.Sound) {action : Action} (ha : action.isSimple = true)
    (hstays : ∀ process, action = .enterProcess process → process = s.host.process) (howns : s.ownsProcess = true) :
    (s.perform action).1.ownsProcess = true ∧ (s.perform action).1.host.process = s.host.process := by
  have hownership : (s.perform action).1.ownership = s.ownership := by
    rw [perform_ownership hs ha, Ownership.check_of_holds howns, ite_self]
  have hprocess : (s.perform action).1.host.process = s.host.process := by
    cases hm : action.moves with
    | false => exact (perform_place hs ha hm).1
    | true =>
      cases action with
      | enterProcess process => exact hstays process rfl
      | enterThread thread => rfl
      | _ => cases hm
  rw [Session.ownsProcess, hownership, hprocess]
  exact ⟨howns, rfl⟩

theorem Reaches.ownsProcess {past : List Step} (h : Reaches s past t) (hs : s.Sound)
    (hstays : ∀ x ∈ past, ∀ process, x.action = .enterProcess process → process = s.host.process)
    (howns : s.ownsProcess = true) : t.ownsProcess = true ∧ t.host.process = s.host.process := by
  induction h with
  | nil => exact ⟨howns, rfl⟩
  | snoc action ha h ih =>
    obtain ⟨hbefore, hprocess⟩ := ih fun x hx => hstays x (List.mem_append_left _ hx)
    have hlast := hstays _ (List.mem_append_right _ (List.mem_singleton.mpr rfl))
    obtain ⟨hafter, hsame⟩ := perform_ownsProcess (h.sound hs).1 ha
      (fun process heq => hprocess ▸ hlast process heq) hbefore
    exact ⟨hafter, hsame.trans hprocess⟩

/-! ### Runs without other threads -/

/-- Whether a step is in the process of its session, before the host shuts down. -/
def Inside (x : Step) : Prop := x.before.ownsProcess = true ∧ x.before.finalizing = false

/-- The steps of a run, and where they lead, are those of a run without other threads. -/
structure Follows (steps : List Step) (t : Session) (owned : List Step) (u : Session) : Prop where
  steps : List.Forall₂ SameStep (steps.filter (!·.intrudes)) owned
  last : SameButIgnored t u

theorem Follows.append {steps more owned others : List Step} {t' u' : Session} (h₁ : Follows steps t owned u)
    (h₂ : Follows more t' others u') : Follows (steps ++ more) t' (owned ++ others) u' where
  steps := by
    rw [List.filter_append]
    exact List.rel_append h₁.steps h₂.steps
  last := h₂.last

theorem follows_kept (h : SameButIgnored s t) {action : Action} (ha : action.isSimple = true)
    (hown : (s.step action).intrudes = false) :
    Follows [s.step action] (s.perform action).1 [t.step action] (t.perform action).1 where
  steps := by simpa [hown] using perform_same h ha
  last := (perform_same h ha).after

theorem follows_left_out (h : SameButIgnored s t) {action : Action} (hforeign : (s.step action).intrudes = true)
    (hsame : SameButIgnored s (s.perform action).1) : Follows [s.step action] (s.perform action).1 [] t where
  steps := by simp [hforeign]
  last := hsame.symm.trans h

mutual

theorem follows_owned {s t : Session} (h : SameButIgnored s t) : ∀ action, (∀ x ∈ s.steps action, Inside x) →
    Follows (s.steps action) (s.perform action).1 (t.stepsOfAll (s.owned action)) (t.performAll (s.owned action)).1
  | .deliver n, hinside => by
    obtain ⟨howns, hfin⟩ := hinside (s.step (.deliver n)) List.mem_cons_self
    unfold owned
    by_cases hthread : s.host.thread = s.ownerThread
    · rw [if_pos hthread]
      exact follows_kept h rfl (bne_eq_false_iff_eq.mpr hthread)
    · rw [if_neg hthread]
      exact follows_left_out h (bne_iff_ne.mpr hthread) (foreign_deliver_same howns hfin hthread n)
  | .mark label unwinding, hinside => by
    obtain ⟨howns, -⟩ : s.ownsProcess = true ∧ _ := hinside (s.step (.mark label unwinding)) List.mem_cons_self
    unfold owned
    by_cases hthread : s.host.thread = s.ownerThread
    · rw [if_pos hthread]
      exact follows_kept h rfl (bne_eq_false_iff_eq.mpr hthread)
    · rw [if_neg hthread]
      refine follows_left_out h (bne_iff_ne.mpr hthread) ?_
      show SameButIgnored s (s.mark label unwinding).1
      rw [foreign_mark_eq howns hthread]
      exact .refl s
  | .scoped body panic, hinside => by
    have hstart : Follows [s.step .start] s.start.1 [t.step .start] t.start.1 := follows_kept h rfl rfl
    have hanswer : t.start.2 = s.start.2 := (unaware_start.same h).2
    rcases hs : s.start with ⟨s', error | _⟩ <;> rcases ht : t.start with ⟨t', other | _⟩ <;>
      rw [hs, ht] at hstart hanswer
    · obtain ⟨hsteps, hlast⟩ := scope_refused hs body panic
      obtain ⟨hsteps', hlast'⟩ := scope_refused ht body panic
      rw [hsteps, hlast, owned, hs, stepsOfAll_single, hsteps', performAll_single, hlast']
      exact hstart
    · cases hanswer
    · cases hanswer
    · obtain ⟨hsteps, hlast⟩ := scope_entered hs body panic
      obtain ⟨hsteps', hlast'⟩ := scope_entered ht (s'.ownedAll body) panic
      rw [hsteps] at hinside ⊢
      have hbody := follows_ownedAll hstart.last body fun x hx =>
        hinside x (List.mem_cons_of_mem _ (List.mem_append_left _ hx))
      rw [hlast, owned, hs, stepsOfAll_single, hsteps', performAll_single, hlast']
      exact hstart.append (hbody.append (follows_kept hbody.last rfl rfl))
  | .start, _ => follows_kept h rfl rfl
  | .stop, _ => follows_kept h rfl rfl
  | .flush, _ => follows_kept h rfl rfl
  | .close, _ => follows_kept h rfl rfl
  | .beginFinalize, _ => follows_kept h rfl rfl
  | .look, _ => follows_kept h rfl rfl
  | .enterProcess _, _ => follows_kept h rfl rfl
  | .enterThread _, _ => follows_kept h rfl rfl
  | .setFaults _, _ => follows_kept h rfl rfl

theorem follows_ownedAll {s t : Session} (h : SameButIgnored s t) : ∀ actions, (∀ x ∈ s.stepsOfAll actions, Inside x) →
    Follows (s.stepsOfAll actions) (s.performAll actions).1 (t.stepsOfAll (s.ownedAll actions))
      (t.performAll (s.ownedAll actions)).1
  | [], _ => ⟨.nil, h⟩
  | action :: rest, hinside => by
    have hfirst := follows_owned h action fun x hx => hinside x (List.mem_append_left _ hx)
    have hrest := follows_ownedAll hfirst.last rest fun x hx => hinside x (List.mem_append_right _ hx)
    show Follows _ _ (t.stepsOfAll (s.owned action ++ _)) (t.performAll (s.owned action ++ _)).1
    rw [stepsOfAll_append, performAll_append]
    exact hfirst.append hrest

end

/-! ### Every run -/

/-- A run in one process goes as it does without the notifications and marks on other threads. -/
theorem unmoved_by_other_threads {settings : Settings} {faults : Faults} {label : String} {host : Host} {s : Session}
    (opened : create settings { destination := { faults }, label } host = .ok s) (actions : List Action)
    (stays : ∀ x ∈ s.stepsOfAll actions,
      x.action ≠ .beginFinalize ∧ ∀ process, x.action = .enterProcess process → process = host.process) :
    List.Forall₂ SameStep ((s.stepsOfAll actions).filter (!·.intrudes)) (s.stepsOfAll (s.ownedAll actions)) ∧
      SameButIgnored (s.performAll actions).1 (s.performAll (s.ownedAll actions)).1 ∧
      SameButIgnored (s.performAll actions).1.drop (s.performAll (s.ownedAll actions)).1.drop := by
  have fresh := create_fresh opened
  obtain ⟨howns, -⟩ := ownsContext_iff.mp fresh.ownsContext
  have hinside : ∀ x ∈ s.stepsOfAll actions, Inside x := by
    intro x hx
    obtain ⟨earlier, hprefix, hearlier, -⟩ := (reaches_stepsOfAll s actions).of_mem hx
    have hsubset : ∀ y ∈ earlier, y ∈ s.stepsOfAll actions := fun y hy =>
      hprefix.subset (List.mem_append_left _ hy)
    constructor
    · refine (hearlier.ownsProcess fresh.sound (fun y hy process heq => ?_) howns).1
      rw [fresh.host_eq]
      exact (stays y (hsubset y hy)).2 process heq
    · refine eq_false_of_ne_true fun hfin => ?_
      rcases (hearlier.finalizing_iff fresh.sound).mp hfin with hfin | ⟨y, hy, hbegin⟩
      · simp [fresh.finalizing] at hfin
      · exact (stays y (hsubset y hy)).1 hbegin
  have h := follows_ownedAll (.refl s) actions hinside
  exact ⟨h.steps, h.last, h.last.map drop_ignoring⟩

/-- A call and a mark on another thread, while tracing and not. -/
theorem unmoved_by_mark_on_other_thread :
    let call : Notification := { kind := .enter, receiver := .unknown }
    let actions : List Action :=
      [.enterThread 2, .deliver call, .start, .deliver call, .mark "aside" true, .enterThread 1, .deliver call, .close]
    ∃ s, create {} { destination := { faults := {} }, label := "" } { process := 1 } = .ok s ∧
      (∃ x ∈ s.stepsOfAll actions, x.intrudes = true) ∧
      List.Forall₂ SameStep ((s.stepsOfAll actions).filter (!·.intrudes)) (s.stepsOfAll (s.ownedAll actions)) := by
  intro call actions
  obtain ⟨s, opened⟩ := create_in_memory {} (by decide)
  have hstays : ∀ x ∈ s.stepsOfAll actions,
      x.action ≠ .beginFinalize ∧ ∀ process, x.action = .enterProcess process → process = 1 := by
    simp [actions, stepsOfAll, steps, step]
  obtain ⟨hsteps, -⟩ := unmoved_by_other_threads opened actions hstays
  refine ⟨s, opened, ⟨(s.perform (.enterThread 2)).1.step (.deliver call), ?_, ?_⟩, hsteps⟩
  · simp [actions, stepsOfAll, steps]
  · have howner : s.ownerThread = mainThread := (create_fresh opened).ownerThread
    show ((2 : ThreadId) != s.ownerThread) = true
    rw [howner]
    rfl

end
end Session
end MethodTrace
