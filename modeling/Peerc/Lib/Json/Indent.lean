import Peerc.Lib.Json.RoundTrip

namespace Json

-- The start of a line inside of this many lists and objects
def newline (level : Nat) : Str :=
  0x0A :: List.replicate (2 * level) 0x20

mutual

-- `json.dumps(v, indent=2)`
def dumpsIndent (F : FloatFormat) : (level : Nat) → Json → Option Str
  | level, arr items  => do
    let ts ← dumpsIndentItems F (level + 1) items
    return if items.isEmpty then [0x5B, 0x5D]
      else 0x5B :: newline (level + 1) ++ ts ++ newline level ++ [0x5D]
  | level, obj fields => do
    let ts ← dumpsIndentFields F (level + 1) fields
    return if fields.isEmpty then [0x7B, 0x7D]
      else 0x7B :: newline (level + 1) ++ ts ++ newline level ++ [0x7D]
  | _,     v          => dumps F .default v

def dumpsIndentItems (F : FloatFormat) : (level : Nat) → List Json → Option Str
  | _,     []           => some []
  | level, [v]          => dumpsIndent F level v
  | level, v :: w :: vs => do
    return (← dumpsIndent F level v) ++ 0x2C :: newline level ++ (← dumpsIndentItems F level (w :: vs))

def dumpsIndentFields (F : FloatFormat) : (level : Nat) → List (Text × Json) → Option Str
  | _,     []                  => some []
  | level, [(k, v)]            => do
    return escape k.val ++ Style.default.key ++ (← dumpsIndent F level v)
  | level, (k, v) :: kv :: kvs => do
    return escape k.val ++ Style.default.key ++ (← dumpsIndent F level v) ++ 0x2C :: newline level ++
      (← dumpsIndentFields F level (kv :: kvs))

end

variable {F : FloatFormat}

theorem isBlank_newline (level : Nat) : IsBlank (newline level) := by
  intro c hc
  rcases List.mem_cons.mp hc with rfl | hc
  · rfl
  · exact List.eq_of_mem_replicate hc ▸ rfl

mutual

theorem renders_dumpsIndent : (level : Nat) → (v : Json) → (t : Str) →
    dumpsIndent F level v = some t → Renders F v t
  | _, null, _, h | _, bool true, _, h | _, bool false, _, h | _, int _, _, h | _, float _, _, h
  | _, str _, _, h => h
  | level, arr items, t, h => by
    simp only [dumpsIndent, Option.pure_def, Option.bind_eq_bind, Option.bind_eq_some_iff,
      Option.some.injEq] at h
    obtain ⟨ts, h, rfl⟩ := h
    have hr := rendersItems_dumpsIndent (level + 1) items ts _ h (isBlank_newline level)
    cases items
    case nil => exact ⟨[], isBlank_nil, rfl⟩
    case cons => exact ⟨_, rendersItems_blank (isBlank_newline (level + 1)) hr, by simp⟩
  | level, obj fields, t, h => by
    simp only [dumpsIndent, Option.pure_def, Option.bind_eq_bind, Option.bind_eq_some_iff,
      Option.some.injEq] at h
    obtain ⟨ts, h, rfl⟩ := h
    have hr := rendersFields_dumpsIndent (level + 1) fields ts _ h (isBlank_newline level)
    cases fields
    case nil => exact ⟨[], isBlank_nil, rfl⟩
    case cons => exact ⟨_, rendersFields_blank (isBlank_newline (level + 1)) hr, by simp⟩

theorem rendersItems_dumpsIndent : (level : Nat) → (vs : List Json) → (t u : Str) →
    dumpsIndentItems F level vs = some t → IsBlank u → RendersItems F vs (t ++ u)
  | _, [], _, u, h, hu => by
    cases h
    exact hu
  | level, [v], t, u, h, hu =>
    ⟨[], t, u, [], isBlank_nil, renders_dumpsIndent level v t h, hu, by simp, .inl ⟨rfl, rfl⟩⟩
  | level, v :: w :: vs, t, u, h, hu => by
    simp only [dumpsIndentItems, Option.pure_def, Option.bind_eq_bind, Option.bind_eq_some_iff,
      Option.some.injEq] at h
    obtain ⟨tv, hv, ts, hvs, rfl⟩ := h
    have hts := rendersItems_blank (isBlank_newline level)
      (rendersItems_dumpsIndent level (w :: vs) ts u hvs hu)
    exact ⟨[], tv, [], _, isBlank_nil, renders_dumpsIndent level v tv hv, isBlank_nil, by simp,
      .inr ⟨_, by simp, hts, rfl⟩⟩

theorem rendersFields_dumpsIndent : (level : Nat) → (kvs : List (Text × Json)) → (t u : Str) →
    dumpsIndentFields F level kvs = some t → IsBlank u → RendersFields F kvs (t ++ u)
  | _, [], _, u, h, hu => by
    cases h
    exact hu
  | level, [(k, v)], t, u, h, hu => by
    simp only [dumpsIndentFields, Option.pure_def, Option.bind_eq_bind, Option.bind_eq_some_iff,
      Option.some.injEq] at h
    obtain ⟨tv, hv, rfl⟩ := h
    exact ⟨[], _, tv, u, [], isBlank_nil, isBlank_pad .default, renders_dumpsIndent level v tv hv, hu,
      by simp [Style.key_eq], .inl ⟨rfl, rfl⟩⟩
  | level, (k, v) :: kv :: kvs, t, u, h, hu => by
    simp only [dumpsIndentFields, Option.pure_def, Option.bind_eq_bind, Option.bind_eq_some_iff,
      Option.some.injEq] at h
    obtain ⟨tv, hv, ts, hkvs, rfl⟩ := h
    have hts := rendersFields_blank (isBlank_newline level)
      (rendersFields_dumpsIndent level (kv :: kvs) ts u hkvs hu)
    exact ⟨[], _, tv, [], _, isBlank_nil, isBlank_pad .default, renders_dumpsIndent level v tv hv,
      isBlank_nil, by simp [Style.key_eq], .inr ⟨_, by simp, hts, rfl⟩⟩

end

end Json
