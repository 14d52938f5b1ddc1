import MethodTrace.Proofs.Hearing
import MethodTrace.Proofs.Steps
import MethodTrace.Proofs.TypeNames

/-! # Asking a cache for names

A cache of generated names looks only at numbers. What it answers once, it answers always, but it answers by the rule
only if what it keeps under a type's number is that type's name. Among types with numbers of their own that stays so
(`NameCache.Keeps`), whatever the cache is asked about them, and a session that named methods through a cache would do
what it does without one. -/

namespace MethodTrace

/-- What a cache of names is asked. -/
inductive NameQuery where
  | owner (receiver : Receiver) (method : String) (definedOn : Option TypeObject)
  | name (type : TypeObject)

inductive NameAnswer where
  | owner (owner : Owner)
  | name (name : String)
  deriving DecidableEq

namespace NameQuery

/-- The answer, from the query alone. -/
def answer : NameQuery → NameAnswer
  | owner receiver method definedOn => .owner (ownerOf receiver method definedOn)
  | name type => .name type.entity

/-- Whether a query is about types of a list. -/
def About (types : List TypeObject) : NameQuery → Prop
  | owner receiver _ definedOn =>
    (∀ type, receiver.type? = some type → type ∈ types) ∧ ∀ type, definedOn = some type → type ∈ types
  | name type => type ∈ types

/-- The type whose name the answer has. -/
def named? : NameQuery → Option TypeObject
  | owner (.typeItself type) method _ => if method = constructorMethod then none else some type.behindSingletons
  | owner (.instanceOf type) _ _ => some type.behindSingletons
  | owner .unknown _ definedOn => definedOn.map TypeObject.behindSingletons
  | name type => some type

theorem About.named_mem {types : List TypeObject} (h : Apart types) {query : NameQuery} (about : query.About types)
    {type : TypeObject} (hnamed : query.named? = some type) : type ∈ types := by
  cases query with
  | name asked =>
    obtain rfl : asked = type := Option.some.inj hnamed
    exact about
  | owner receiver method definedOn =>
    obtain ⟨hreceiver, hdefined⟩ := about
    cases receiver with
    | instanceOf base =>
      obtain rfl : base.behindSingletons = type := Option.some.inj hnamed
      exact h.behind_mem (hreceiver base rfl)
    | typeItself base =>
      simp only [named?] at hnamed
      split at hnamed
      · cases hnamed
      · obtain rfl : base.behindSingletons = type := Option.some.inj hnamed
        exact h.behind_mem (hreceiver base rfl)
    | unknown =>
      obtain ⟨base, hbase, rfl⟩ := Option.map_eq_some_iff.mp hnamed
      exact h.behind_mem (hdefined base hbase)

end NameQuery

namespace NameCache

def ask (cache : NameCache) : NameQuery → NameCache × NameAnswer
  | .owner receiver method definedOn => (cache.resolve receiver method definedOn).map id .owner
  | .name type => (cache.nameOf type).map id .name

/-- Ask one query after the other. -/
def askAll (cache : NameCache) : List NameQuery → NameCache × List NameAnswer
  | [] => (cache, [])
  | query :: queries =>
    let asked := cache.ask query
    (asked.1.askAll queries).map id (asked.2 :: ·)

section
variable {cache later : NameCache} {query : NameQuery}

theorem ask_fst (cache : NameCache) (query : NameQuery) :
    (cache.ask query).1 = match query.named? with
      | some type => (cache.nameOf type).1
      | none => cache := by
  cases query with
  | name type => rfl
  | owner receiver method definedOn =>
    cases receiver with
    | instanceOf type => rfl
    | typeItself type => by_cases made : method = constructorMethod <;> simp [ask, resolve, NameQuery.named?, made]
    | unknown => cases definedOn <;> rfl

/-- An answer depends on a cache only in the name of one type. -/
theorem ask_snd_eq (h : ∀ type, query.named? = some type → (cache.nameOf type).2 = (later.nameOf type).2) :
    (cache.ask query).2 = (later.ask query).2 := by
  cases query with
  | name type => exact congrArg NameAnswer.name (h type rfl)
  | owner receiver method definedOn =>
    cases receiver with
    | instanceOf type => exact congrArg (NameAnswer.owner ⟨·, .onInstance⟩) (h _ rfl)
    | typeItself type =>
      by_cases made : method = constructorMethod
      · simp [ask, resolve, made]
      · have same := h type.behindSingletons (if_neg made)
        simp only [ask, resolve_typeItself made, Prod.map_snd, same]
    | unknown =>
      cases definedOn with
      | none => rfl
      | some type => exact congrArg (NameAnswer.owner ⟨·, .onInstance⟩) (h _ rfl)

theorem trueTo_empty (type : TypeObject) : TrueTo {} type := by
  intro _ name hname
  simp at hname

/-- A cache that keeps nothing yet answers by the rule. -/
theorem ask_empty_snd (query : NameQuery) : (({} : NameCache).ask query).2 = query.answer := by
  have named (type : TypeObject) : (({} : NameCache).nameOf type).2 = type.entity := (trueTo_empty type).nameOf_snd
  cases query with
  | name type => exact congrArg NameAnswer.name (named type)
  | owner receiver method definedOn =>
    cases receiver with
    | instanceOf type => exact congrArg (NameAnswer.owner ⟨·, .onInstance⟩) (named _)
    | typeItself type =>
      by_cases made : method = constructorMethod
      · simp [ask, resolve, NameQuery.answer, ownerOf, made]
      · simp [ask, resolve_typeItself made, NameQuery.answer, ownerOf, made, named]
    | unknown =>
      cases definedOn with
      | none => rfl
      | some type => exact congrArg (NameAnswer.owner ⟨·, .onInstance⟩) (named _)

theorem ask_snd_of_trueTo (h : ∀ type, query.named? = some type → cache.TrueTo type) :
    (cache.ask query).2 = query.answer := by
  rw [← ask_empty_snd query]
  exact ask_snd_eq fun type hnamed => (h type hnamed).nameOf_snd.trans (trueTo_empty type).nameOf_snd.symm

/-! ### Names stay as they were made -/

/-- What one cache keeps, the other one keeps too. -/
def Within (cache later : NameCache) : Prop :=
  ∀ (number : ObjectId) name, cache.names[number]? = some name → later.names[number]? = some name

theorem within_nameOf (cache : NameCache) (type : TypeObject) : cache.Within (cache.nameOf type).1 := by
  intro number name hname
  cases own : type.name? with
  | some _ => rwa [nameOf_of_named own]
  | none =>
    cases kept : cache.names[type.id]? with
    | some _ => rwa [nameOf_of_kept own kept]
    | none =>
      have hne : ¬ type.id = number := by
        rintro rfl
        rw [kept] at hname
        cases hname
      rw [nameOf_of_new own kept, Std.HashMap.getElem?_insert, if_neg (by simpa using hne)]
      exact hname

theorem within_ask (cache : NameCache) (query : NameQuery) : cache.Within (cache.ask query).1 := by
  rw [ask_fst]
  split
  · exact within_nameOf cache _
  · exact fun _ _ h => h

theorem within_askAll (cache : NameCache) (queries : List NameQuery) : cache.Within (cache.askAll queries).1 := by
  induction queries generalizing cache with
  | nil => exact fun _ _ h => h
  | cons query queries ih => exact fun number name h => ih _ number name (within_ask cache query number name h)

theorem nameOf_of_within {type : TypeObject} (h : (cache.nameOf type).1.Within later) :
    (later.nameOf type).2 = (cache.nameOf type).2 := by
  cases own : type.name? with
  | some name => rw [nameOf_of_named own, nameOf_of_named own]
  | none =>
    have hkept : (cache.nameOf type).1.names[type.id]? = some (cache.nameOf type).2 := by
      cases kept : cache.names[type.id]? with
      | some name => rwa [nameOf_of_kept own kept]
      | none =>
        rw [nameOf_of_new own kept]
        exact Std.HashMap.getElem?_insert_self
    rw [nameOf_of_kept own (h _ _ hkept)]

/-- A query is answered as it was before, whatever was asked in between. -/
theorem ask_again (cache : NameCache) (query : NameQuery) (queries : List NameQuery) :
    (((cache.ask query).1.askAll queries).1.ask query).2 = (cache.ask query).2 := by
  refine ask_snd_eq fun type hnamed => nameOf_of_within ?_
  have hwithin := within_askAll (cache.ask query).1 queries
  rw [ask_fst, hnamed] at hwithin ⊢
  exact hwithin

end

/-! ### Types with numbers of their own -/

/-- A name that is kept is the one made for a type of a list, which alone has the number that it is kept under. -/
def Keeps (types : List TypeObject) (cache : NameCache) : Prop :=
  ∀ (number : ObjectId) name, cache.names[number]? = some name →
    ∃ type ∈ types, type.id = number ∧ type.name? = none ∧ type.entity = name ∧
      ∀ other ∈ types, other.id = number → other = type

section
variable {types : List TypeObject} {cache : NameCache}

theorem keeps_empty (types : List TypeObject) : Keeps types {} := by
  intro number name hname
  simp at hname

theorem Keeps.trueTo (h : Keeps types cache) {type : TypeObject} (hmem : type ∈ types) : cache.TrueTo type := by
  intro _ name kept
  obtain ⟨owner, -, -, -, rfl, alone⟩ := h type.id name kept
  rw [alone type hmem rfl]

theorem Keeps.nameOf (h : Keeps types cache) (apart : Apart types) {type : TypeObject} (hmem : type ∈ types) :
    Keeps types (cache.nameOf type).1 := by
  cases own : type.name? with
  | some _ => rwa [nameOf_of_named own]
  | none =>
    cases kept : cache.names[type.id]? with
    | some _ => rwa [nameOf_of_kept own kept]
    | none =>
      rw [nameOf_of_new own kept]
      intro number name hname
      rw [Std.HashMap.getElem?_insert] at hname
      split at hname
      next same =>
        -- The name is new, and no other type has this number.
        cases eq_of_beq same
        exact ⟨type, hmem, rfl, own, Option.some.inj hname, fun other hother hid => apart.eq_of_id other hother type hmem hid⟩
      next => exact h number name hname

theorem Keeps.named (h : Keeps types cache) (apart : Apart types) {query : NameQuery} (about : query.About types) :
    ∀ type, query.named? = some type → cache.TrueTo type :=
  fun _ hnamed => h.trueTo (about.named_mem apart hnamed)

theorem Keeps.ask (h : Keeps types cache) (apart : Apart types) {query : NameQuery} (about : query.About types) :
    Keeps types (cache.ask query).1 ∧ (cache.ask query).2 = query.answer := by
  refine ⟨?_, ask_snd_of_trueTo (h.named apart about)⟩
  rw [ask_fst]
  split
  next type hnamed => exact h.nameOf apart (about.named_mem apart hnamed)
  next => exact h

theorem Keeps.askAll (h : Keeps types cache) (apart : Apart types) {queries : List NameQuery}
    (about : ∀ query ∈ queries, query.About types) :
    Keeps types (cache.askAll queries).1 ∧ (cache.askAll queries).2 = queries.map NameQuery.answer := by
  induction queries generalizing cache with
  | nil => exact ⟨h, rfl⟩
  | cons query queries ih =>
    obtain ⟨hquery, hqueries⟩ := List.forall_mem_cons.mp about
    obtain ⟨hkeeps, hanswer⟩ := h.ask apart hquery
    obtain ⟨hlast, hanswers⟩ := ih hkeeps hqueries
    exact ⟨hlast, List.cons_eq_cons.mpr ⟨hanswer, hanswers⟩⟩

end

/-- A cache that was asked about nothing but types of a list. -/
def Asked (types : List TypeObject) (cache : NameCache) : Prop :=
  ∃ queries : List NameQuery, (∀ query ∈ queries, query.About types) ∧ cache = (({} : NameCache).askAll queries).1

theorem Asked.keeps {types : List TypeObject} {cache : NameCache} (h : Asked types cache) (apart : Apart types) :
    Keeps types cache := by
  obtain ⟨queries, about, rfl⟩ := h
  exact ((keeps_empty types).askAll apart about).1

/-! ### Notifications -/

/-- The method of the call that a notification reports, named through a cache. -/
def methodOf (cache : NameCache) (n : Notification) : NameCache × Method :=
  (cache.resolve n.receiver n.methodName n.definedOn).map id (·.method n.methodName)

end NameCache

/-- What has to be known to name the method of a call. -/
def Notification.query (n : Notification) : NameQuery := .owner n.receiver n.methodName n.definedOn

namespace NameCache
variable {types : List TypeObject} {cache : NameCache} {n m : Notification}

theorem resolve_snd (h : ∀ type, n.query.named? = some type → cache.TrueTo type) :
    (cache.resolve n.receiver n.methodName n.definedOn).2 = n.owner :=
  NameAnswer.owner.inj (ask_snd_of_trueTo h)

theorem methodOf_snd (h : ∀ type, n.query.named? = some type → cache.TrueTo type) :
    (cache.methodOf n).2 = n.calledMethod :=
  congrArg (Owner.method · n.methodName) (resolve_snd h)

/-- A call that is like one before is named alike, whatever was asked in between. -/
theorem methodOf_again (same : n.query = m.query) (cache : NameCache) (queries : List NameQuery) :
    (((cache.methodOf n).1.askAll queries).1.methodOf m).2 = (cache.methodOf n).2 := by
  obtain ⟨hreceiver, hname, hdefined⟩ := NameQuery.owner.inj same
  have alike : cache.methodOf n = cache.methodOf m := by simp only [methodOf, hreceiver, hname, hdefined]
  rw [alike]
  exact congrArg (Owner.method · m.methodName) (NameAnswer.owner.inj (ask_again cache m.query queries))

end NameCache

namespace Session

/-- What a session does with a notification if it finds owners through a cache, and the cache after it. The cache is
asked only if there is an event. -/
def deliverThrough (s : Session) (cache : NameCache) (n : Notification) : NameCache × Session × Outcome :=
  if s.listens && n.kind.event?.isSome then
    let (cache, owner) := cache.resolve n.receiver n.methodName n.definedOn
    (cache, s.hearing.process (n.eventOf owner))
  else (cache, s.deliver n)

/-- An owner that is the one by the rule makes no difference. -/
theorem deliverThrough_snd {s : Session} {cache : NameCache} {n : Notification}
    (h : (cache.resolve n.receiver n.methodName n.definedOn).2 = n.owner) :
    (s.deliverThrough cache n).2 = s.deliver n := by
  unfold deliverThrough
  split
  next hl =>
    have hlistens : s.listens = true := (Bool.and_eq_true_iff.mp hl).1
    rw [deliver_of_listens hlistens]
    exact congrArg (fun owner => s.hearing.process (n.eventOf owner)) h
  next => rfl

end Session

/-- What a cache keeps after a step of a session that names methods through it. -/
def Step.keeping (x : Step) (cache : NameCache) : NameCache :=
  match x.action with
  | .deliver n => (x.before.deliverThrough cache n).1
  | _ => cache

/-- The cache of a session after the steps of a run, if it was empty before. -/
def NameCache.after (past : List Step) : NameCache :=
  past.foldl (fun cache x => x.keeping cache) {}

/-- The notifications in some steps are about types of a list. -/
def Step.About (types : List TypeObject) (x : Step) : Prop :=
  ∀ n, x.action = .deliver n → n.query.About types

namespace NameCache
variable {types : List TypeObject}

theorem Keeps.keeping {cache : NameCache} (h : Keeps types cache) (apart : Apart types) {x : Step}
    (about : x.About types) : Keeps types (x.keeping cache) := by
  unfold Step.keeping
  split
  next n hn =>
    unfold Session.deliverThrough
    split
    · exact (h.ask apart (about n hn)).1
    · exact h
  next => exact h

theorem keeps_after (apart : Apart types) {past : List Step} (about : ∀ x ∈ past, x.About types) :
    Keeps types (after past) := by
  have run : ∀ (past : List Step) (cache : NameCache), Keeps types cache → (∀ x ∈ past, x.About types) →
      Keeps types (past.foldl (fun cache x => x.keeping cache) cache) := by
    intro past
    induction past with
    | nil => exact fun _ h _ => h
    | cons x past ih =>
      intro cache h about
      obtain ⟨hx, hpast⟩ := List.forall_mem_cons.mp about
      exact ih _ (h.keeping apart hx) hpast
  exact run past {} (keeps_empty types) about

end NameCache

/-- A session that kept a cache would do what it does, if all that it is notified of is about types with numbers of
their own. -/
theorem Session.deliverThrough_after {types : List TypeObject} (apart : Apart types) {past later : List Step} {x : Step}
    (about : ∀ y ∈ past ++ x :: later, y.About types) {n : Notification} (hn : x.action = .deliver n) :
    (x.before.deliverThrough (.after past) n).2 = x.before.deliver n := by
  have hkeeps := NameCache.keeps_after apart fun y hy => about y (List.mem_append_left _ hy)
  exact deliverThrough_snd (NameCache.resolve_snd (hkeeps.named apart (about x (by simp) n hn)))

/-! ### Every sequence of queries -/

/-- Whose a call is and on which level it is made, told from the call alone. -/
structure Owns (owner : Owner) (receiver : Receiver) (method : String) (definedOn : Option TypeObject) : Prop where
  level : owner.level = .onType ↔ (∃ type, receiver = .typeItself type) ∧ method ≠ "initialize"
  ofInstance : ∀ type, receiver = .instanceOf type → owner.entity = type.behindSingletons.entity
  ofType : ∀ type, receiver = .typeItself type → method ≠ "initialize" → owner.entity = type.behindSingletons.entity
  ofMetatype : ∀ type, receiver = .typeItself type → method = "initialize" →
    owner.entity = if type.behindSingletons.metatype = .ofClasses then "Class" else "Module"
  ofDefining : ∀ type, receiver = .unknown → definedOn = some type → owner.entity = type.behindSingletons.entity
  unknown : receiver = .unknown → definedOn = none → owner.entity = "<UNKNOWN>"

theorem owns_ownerOf (receiver : Receiver) (method : String) (definedOn : Option TypeObject) :
    Owns (ownerOf receiver method definedOn) receiver method definedOn := by
  cases receiver with
  | instanceOf type => constructor <;> simp [ownerOf]
  | typeItself type =>
    by_cases made : method = "initialize"
    · constructor <;> simp [ownerOf, constructorMethod, made]
      cases type.behindSingletons.metatype <;> rfl
    · constructor <;> simp [ownerOf, constructorMethod, made]
  | unknown => cases definedOn <;> constructor <;> simp [ownerOf, unknownName]

/-- Whatever it was asked about types that were made one after the other, fewer than `2 ^ 60`, a cache answers each query
as a cache that was asked nothing else, which is told from the query alone. What it keeps under a number is the name of
the one type that has it, and two types without a name have one name only if they are the same. So a session that kept
such a cache would do in every step of every run about these types what a session does. And whether or not two types have
one number, a query is answered as it was answered before. -/
theorem answers_and_names_apart :
    (∀ query, (({} : NameCache).ask query).2 = query.answer) ∧
      (∀ receiver method definedOn, Owns (ownerOf receiver method definedOn) receiver method definedOn) ∧
      (∀ (cache : NameCache) query queries,
        (((cache.ask query).1.askAll queries).1.ask query).2 = (cache.ask query).2) ∧
      ∀ types ids, Made types ids → types.length < 2 ^ 60 →
        (∀ queries : List NameQuery, (∀ query ∈ queries, query.About types) →
          (({} : NameCache).askAll queries).2 = queries.map NameQuery.answer ∧
            NameCache.Keeps types (({} : NameCache).askAll queries).1) ∧
        (∀ (i j : Nat) (a b : TypeObject), types[i]? = some a → types[j]? = some b → a.name? = none → b.name? = none →
          (a.entity = b.entity ↔ i = j)) ∧
        ∀ (s : Session) (actions : List Action), (∀ x ∈ s.stepsOfAll actions, x.About types) →
          ∀ past x later, s.stepsOfAll actions = past ++ x :: later → ∀ n, x.action = .deliver n →
            (x.before.deliverThrough (.after past) n).2 = x.before.deliver n := by
  refine ⟨NameCache.ask_empty_snd, owns_ownerOf, NameCache.ask_again, fun types ids made hlen => ?_⟩
  have apart := Apart.of_made made hlen
  refine ⟨fun queries about => ?_, ?_, fun s actions about past x later hsteps n hn => ?_⟩
  · exact ((NameCache.keeps_empty types).askAll apart about).symm
  · intro i j a b hi hj ha hb
    exact made.entity_eq_iff hlen hi hj ha hb
  · exact Session.deliverThrough_after apart (hsteps ▸ about) hn

/-- A class and a module without names, and the singleton of the module, among which a class has a name. The module is
named first by a call, then as what stands behind its singleton, and once more by itself. -/
theorem apart_of_unnamed_module :
    let unnamed : TypeObject := .anonymous 0x7f100050 .ofModules
    let types : List TypeObject :=
      [.named 0x7f100000 .ofClasses "A", .anonymous 0x7f100028 .ofClasses, unnamed, .singletonOfType 0x7f100078 unnamed]
    let queries : List NameQuery :=
      [.owner (.typeItself unnamed) "extend" none, .owner .unknown "puts" (some (.singletonOfType 0x7f100078 unnamed)),
        .owner (.typeItself unnamed) "initialize" none, .name unnamed]
    let asked := ({} : NameCache).askAll queries
    (∃ ids, Made types ids) ∧ types.length < 2 ^ 60 ∧ (∀ query ∈ queries, query.About types) ∧
      asked.2 = [.owner ⟨"#<Module:0x000000007f100050>", .onType⟩, .owner ⟨"#<Module:0x000000007f100050>", .onInstance⟩,
        .owner ⟨"Module", .onInstance⟩, .name "#<Module:0x000000007f100050>"] ∧
      NameCache.Keeps types asked.1 ∧ (TypeObject.anonymous 0x7f100028 .ofClasses).entity ≠ unnamed.entity := by
  intro unnamed types queries asked
  obtain ⟨-, -, -, hmade⟩ := answers_and_names_apart
  have made : Made types ⟨0x7f1000a0⟩ :=
    (((Made.nil.concat (.named .ofClasses "A") nofun).concat (.anonymous .ofClasses) nofun).concat
      (.anonymous .ofModules) nofun).concat (.singleton (.typeItself unnamed)) (by
        rintro owner ⟨⟩
        exact List.mem_append_right _ (List.mem_singleton_self _))
  have hlen : types.length < 2 ^ 60 := by decide
  have about : ∀ query ∈ queries, query.About types := by
    simp [queries, types, NameQuery.About, Receiver.type?]
  obtain ⟨hqueries, hapart, -⟩ := hmade types _ made hlen
  obtain ⟨hanswers, hkeeps⟩ := hqueries queries about
  refine ⟨⟨_, made⟩, hlen, about, hanswers.trans (by decide +kernel), hkeeps, fun same => ?_⟩
  exact absurd ((hapart 1 2 _ _ rfl rfl rfl rfl).mp same) (by decide)

end MethodTrace
