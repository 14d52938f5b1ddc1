import MethodTrace.Proofs.OneByteApart

/-! # The method of an event

The bytes that a token is made of are those of one method only: no text holds the byte that parts the two names, so it
stands at one place whatever the names are. Tokens of two methods agree only if these bytes collide, and then the names
tell the methods apart (`Event.sameMethod_iff`). So asking for the token first changes no answer. -/

namespace MethodTrace

/-! ### The bytes of a method -/

theorem Script.not_mem_encoded_of_large {b : UInt8} (hb : 0xf8 ≤ b.toNat) (text : String) : b ∉ encoded text := by
  rw [encoded_eq]
  intro hmem
  obtain ⟨c, -, hbyte⟩ := List.mem_flatMap.mp hmem
  rcases mem_utf8EncodeChar hbyte with ⟨-, -, hsmall⟩ | ⟨-, hlarge⟩ <;> omega

theorem Level.byte_inj {level other : Level} : level.byte = other.byte ↔ level = other := by
  cases level <;> cases other <;> decide

namespace Method
open Script

variable {m other : Method}

theorem eq_iff : m = other ↔ m.entity = other.entity ∧ m.name = other.name ∧ m.level = other.level := by
  cases m
  cases other
  rw [mk.injEq]

theorem toList_bytes (m : Method) :
    m.bytes.data.toList = encoded m.entity ++ 0xff :: (encoded m.name ++ [m.level.byte]) := by
  simp [bytes, encoded]

theorem not_mem_behind (m : Method) : 0xff ∉ encoded m.name ++ [m.level.byte] := by
  rw [List.mem_append, not_or]
  refine ⟨not_mem_encoded_of_large (by decide) m.name, ?_⟩
  cases m.level <;> decide

/-- Whatever the names are, they are parted at one place. -/
theorem toList_bytes_eq_iff {before after : List UInt8} :
    m.bytes.data.toList = before ++ 0xff :: after ↔
      encoded m.entity = before ∧ encoded m.name ++ [m.level.byte] = after := by
  have hentity : 0xff ∉ encoded m.entity := not_mem_encoded_of_large (by decide) m.entity
  rw [toList_bytes, List.append_cons_inj_of_notMem hentity m.not_mem_behind, and_iff_right rfl]

theorem bytes_inj : m.bytes = other.bytes ↔ m = other := by
  refine ⟨fun same => ?_, fun same => same ▸ rfl⟩
  have hlist : m.bytes.data.toList = other.bytes.data.toList := by rw [same]
  obtain ⟨hentity, hbehind⟩ := toList_bytes_eq_iff.mp (hlist.trans other.toList_bytes)
  -- The level takes the last byte, so that the name is all that stands before it.
  obtain ⟨hname, hlevel⟩ := List.append_inj' hbehind rfl
  exact eq_iff.mpr ⟨encoded_inj.mp hentity, encoded_inj.mp hname, Level.byte_inj.mp (List.singleton_inj.mp hlevel)⟩

/-! ### Tokens that agree -/

theorem token_eq_absorbAll (m : Method) :
    m.token = Fingerprint.absorbAll (fingerprint m.entity.toUTF8) (0xff :: (encoded m.name ++ [m.level.byte])) := by
  rw [token, fingerprint, toList_bytes, Fingerprint.absorbAll_append]
  rfl

/-- Two entities collide by themselves or for no method at all. -/
theorem token_eq_iff_of_entities {entity entity' name : String} {level : Level} :
    token ⟨entity, name, level⟩ = token ⟨entity', name, level⟩ ↔
      fingerprint entity.toUTF8 = fingerprint entity'.toUTF8 := by
  rw [token_eq_absorbAll, token_eq_absorbAll]
  exact Fingerprint.absorbAll_inj _

end Method

/-- Two runs of bytes with one fingerprint. -/
def Collide (first second : ByteArray) : Prop :=
  first ≠ second ∧ fingerprint first = fingerprint second

theorem Method.token_eq_iff {m other : Method} : m.token = other.token ↔ m = other ∨ Collide m.bytes other.bytes := by
  constructor
  · intro same
    by_cases hsame : m.bytes = other.bytes
    · exact .inl (bytes_inj.mp hsame)
    · exact .inr ⟨hsame, same⟩
  · rintro (rfl | ⟨-, same⟩)
    · rfl
    · exact same

/-! ### Events of one method -/

namespace Event

theorem token_eq_iff {a b : Event} :
    a.token = b.token ↔ a.sameMethod b = true ∨ Collide a.method.bytes b.method.bytes := by
  rw [a.token_eq, b.token_eq, Method.token_eq_iff, sameMethod_iff]

theorem sameMethod_equivalence : Equivalence fun a b : Event => a.sameMethod b = true where
  refl _ := sameMethod_iff.mpr rfl
  symm same := sameMethod_iff.mpr (sameMethod_iff.mp same).symm
  trans same more := sameMethod_iff.mpr ((sameMethod_iff.mp same).trans (sameMethod_iff.mp more))

theorem eq_built (e : Event) :
    e = { kind := e.kind, method := e.method, path := e.path, line := e.line, fromBlock := e.fromBlock } := by
  obtain ⟨kind, method, path, line, fromBlock, token, rfl⟩ := e
  rfl

end Event

/-- No text holds `0xff`, so that the bytes of a method can be cut there in one way only, and no two methods have the
same bytes. An event holds nothing but what it was built from. Two events are of one method if and only if their
entities, names and levels are the same, whatever else they say and whether or not there is a collision: tokens agree if
the method is the same, and otherwise just when the bytes of the two methods collide. So it is an equivalence. -/
theorem told_apart_by_names :
    (∀ text, 0xff ∉ Script.encoded text) ∧
      (∀ (m : Method) (before after : List UInt8), m.bytes.data.toList = before ++ 0xff :: after ↔
        Script.encoded m.entity = before ∧ Script.encoded m.name ++ [m.level.byte] = after) ∧
      (∀ m other : Method, m.bytes = other.bytes ↔
        m.entity = other.entity ∧ m.name = other.name ∧ m.level = other.level) ∧
      (∀ e : Event,
        e = { kind := e.kind, method := e.method, path := e.path, line := e.line, fromBlock := e.fromBlock }) ∧
      (∀ a b : Event, a.sameMethod b = true ↔
        a.method.entity = b.method.entity ∧ a.method.name = b.method.name ∧ a.method.level = b.method.level) ∧
      (∀ a b : Event, a.token = b.token ↔ a.sameMethod b = true ∨ Collide a.method.bytes b.method.bytes) ∧
      Equivalence fun a b : Event => a.sameMethod b = true := by
  refine ⟨Script.not_mem_encoded_of_large (by decide), fun m before after => Method.toList_bytes_eq_iff,
    fun m other => ?_, Event.eq_built, fun a b => ?_, fun a b => Event.token_eq_iff, Event.sameMethod_equivalence⟩
  · rw [Method.bytes_inj, Method.eq_iff]
  · rw [Event.sameMethod_iff, Method.eq_iff]

/-- The calls of one name on two entities that collide. A return of the other entity is told apart from the call though
the tokens agree, and one of its own entity is of the same method wherever it comes from. -/
theorem told_apart_behind_one_token :
    let event (kind : EventKind) (entity path : String) : Event :=
      { kind, method := ⟨entity, "run", .onInstance⟩, path, line := 3 }
    let call := event .call "8yn0iYCKYHlIj4-BwPqk" "app.rb"
    let leave := event .leave "GReLUrM4wMqfg9yzV3KQ" "app.rb"
    call.token = leave.token ∧ Collide call.method.bytes leave.method.bytes ∧ call.sameMethod leave = false ∧
      call.sameMethod (event .leave "8yn0iYCKYHlIj4-BwPqk" "") = true := by
  intro event call leave
  obtain ⟨-, -, -, -, same, tokens, -⟩ := told_apart_by_names
  have htokens : call.token = leave.token := Method.token_eq_iff_of_entities.mpr (by decide +kernel)
  have hapart : ¬call.sameMethod leave = true := fun hsame => absurd ((same call leave).mp hsame).1 (by decide)
  refine ⟨htokens, ((tokens call leave).mp htokens).resolve_left hapart, Bool.of_not_eq_true hapart, ?_⟩
  exact (same call _).mpr ⟨rfl, rfl, rfl⟩

end MethodTrace
