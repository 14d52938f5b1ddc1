import MethodTrace.Proofs.Lifecycle

/-! # Tracing confined to a scope

A scope that can be entered does its body once, answers how the body ended and leaves the session stopped, whatever the
body did to it (`Entered`, `Stopped`). The scopes in a body are scopes like any other (`Within`). A body that panics
past its own scope is one that ends there: the scope around it panics with the same text. -/

namespace MethodTrace
namespace Session

/-- What a session does on the way of an action: the action itself, or something in the body of a scope, at any depth. -/
inductive Within : Session → Action → Session → Action → Prop
  | here {s : Session} {action : Action} : Within s action s action
  | deeper {s t u : Session} {earlier later : List Action} {action inner : Action} {panic : Option String} :
      s.start = (t, .ok ()) → Within (t.performAll earlier).1 action u inner →
      Within s (.scoped (earlier ++ action :: later) panic) u inner

/-- The session in which the body of a scope ends. -/
def bodyEnd (s : Session) (body : List Action) : Session := (s.start.1.performAll body).1

/-- How the body of a scope ends there. -/
def ending (s : Session) : Option String → ScopeEnd
  | some text => .panicked text
  | none => .returned s.isTracing

/-- A scope is entered, its body is done once, and the scope ends as the body does. -/
structure Entered (s : Session) (body : List Action) (panic : Option String) : Prop where
  start : s.start.2 = .ok ()
  steps : s.steps (.scoped body panic) =
    s.step .start :: (s.start.1.stepsOfAll body ++ [(s.bodyEnd body).step .stop])
  answer : (s.perform (.scoped body panic)).2 =
    .scope (s.start.1.performAll body).2 ((s.bodyEnd body).ending panic)

/-- Nothing is traced, and tracing can be started again where it could be in any session. -/
structure Stopped (s : Session) : Prop where
  not_tracing : s.isTracing = false
  off : s.host.enabled = false
  blank : s.isClosed = true ∨ s.ownership.broken = false → Blank s
  restart : s.phase = .idle → s.ownsProcess = true →
    s.start.2 = .ok () ∧ s.start.1.isTracing = true ∧ s.start.1.host.enabled = true

section
variable {s t u : Session} {host : Host}

theorem stop_isTracing (s : Session) : s.stop.isTracing = false := by
  cases h : s.isTracing with
  | true => rw [stop_eq_stopped h]; rfl
  | false => rw [stop_of_not_tracing h, h]

/-! ### One scope -/

/-- A scope leaves the session that its body ends in, stopped. -/
theorem entered_of_open (h : s.isClosed = false) (body : List Action) (panic : Option String) :
    Entered s body panic ∧ (s.perform (.scoped body panic)).1 = (s.bodyEnd body).stop := by
  have hstart : s.start = (s.start.1, .ok ()) := Prod.ext rfl (start_of_open h)
  obtain ⟨hsteps, hlast⟩ := scope_entered hstart body panic
  refine ⟨⟨start_of_open h, hsteps, ?_⟩, hlast⟩
  unfold perform
  rw [hstart]
  cases panic <;> rfl

theorem InOrder.stopped (h : InOrder host s) (hcleared : Cleared s) (hoff : s.isTracing = false) : Stopped s where
  not_tracing := hoff
  off := h.off hoff
  blank := by
    intro hwhole
    cases hp : s.phase with
    | tracing => simp [isTracing, hp] at hoff
    | closed => exact hcleared.closed (by simp [isClosed, hp])
    | idle =>
      rcases hwhole with hclosed | hbroken
      · simp [isClosed, hp] at hclosed
      · exact hcleared.idle hp hbroken
  restart hidle howns := by
    rw [start_of_owner hidle howns]
    exact ⟨rfl, rfl, rfl⟩

/-! ### Scopes in scopes -/

theorem Within.reaches {outer inner : Action} (h : Within s outer u inner) : ∃ past, Reaches s past u := by
  induction h with
  | here => exact ⟨[], .nil⟩
  | @deeper s t u earlier _ _ _ _ hstart _ ih =>
    obtain ⟨past, hpast⟩ := ih
    have hfirst : Reaches s [s.step .start] t := by
      have h : Reaches s [s.step .start] s.start.1 := .single rfl
      rwa [hstart] at h
    exact ⟨_, (hfirst.trans (reaches_stepsOfAll t earlier)).trans hpast⟩

/-- A scope is refused by a closed session, which stays as it is. Otherwise its body is done once, the scope ends as the
body does, and tracing has stopped. This holds of every scope in a scope, and wherever a run got to before. -/
theorem stopped_after_scope {settings : Settings} {faults : Faults} {label : String}
    (opened : create settings { destination := { faults }, label } host = .ok s) (off : host.enabled = false)
    (actions : List Action) {past : List Step} (hp : past <+: s.stepsOfAll actions) {outer : Action}
    {body : List Action} {panic : Option String} (within : Within (s.after past) outer u (.scoped body panic)) :
    (u.isClosed = true →
      u.perform (.scoped body panic) = (u, .scope [] (.refused .closed)) ∧
        u.steps (.scoped body panic) = [u.step .start]) ∧
    (u.isClosed = false → Entered u body panic ∧ Stopped (u.perform (.scoped body panic)).1) := by
  refine ⟨fun hclosed => ⟨perform_scoped_of_closed hclosed body panic, ?_⟩, fun hopen => ?_⟩
  · exact (scope_refused (start_of_closed (phase_of_closed hclosed)) body panic).1
  obtain ⟨hentered, hlast⟩ := entered_of_open hopen body panic
  have fresh := create_fresh opened
  obtain ⟨before, hbefore⟩ := within.reaches
  have reaches := ((reaches_upTo hp).trans hbefore).trans (reaches_steps u (.scoped body panic))
  have hin := reaches.inOrder fresh.sound (fresh.inOrder off)
  have hcleared := reaches.cleared fresh.sound (.of_blank fresh.blank)
  refine ⟨hentered, hin.stopped hcleared ?_⟩
  rw [hlast]
  exact stop_isTracing _

/-- A body panics in a scope within a scope, after a fork that a notification found out. -/
theorem stopped_after_panic_in_child :
    let call : Notification := { kind := .enter, receiver := .unknown }
    let body : List Action := [.mark "inner" true, .enterProcess 2, .deliver call]
    let outer : Action := .scoped [.deliver call, .scoped body (some "panic"), .close] (some "panic")
    ∃ s u, create {} { destination := { faults := {} }, label := "" } { process := 1 } = .ok s ∧
      Within s outer u (.scoped body (some "panic")) ∧ Entered u body (some "panic") ∧
      Stopped (u.perform (.scoped body (some "panic"))).1 := by
  intro call body outer
  obtain ⟨s, opened⟩ := create_in_memory {} (by decide)
  have fresh := create_fresh opened
  let started := (s.perform .start).1
  let u := (started.perform (.deliver call)).1
  have hstart : s.start = (started, .ok ()) := Prod.ext rfl fresh.start.2
  have within : Within (s.after []) outer u (.scoped body (some "panic")) :=
    @Within.deeper s started u [.deliver call] [.close] _ _ _ hstart .here
  have hopen : u.isClosed = false := by
    have hsound : started.Sound := (perform_sound fresh.sound rfl).1
    have hstarted : started.isClosed = false := (perform_isClosed fresh.sound rfl (by simp)).trans fresh.isClosed_eq
    exact (perform_isClosed hsound rfl (by simp)).trans hstarted
  obtain ⟨hentered, hstopped⟩ := (stopped_after_scope opened rfl [] (List.prefix_refl []) within).2 hopen
  exact ⟨s, u, opened, within, hentered, hstopped⟩

end

end Session
end MethodTrace
