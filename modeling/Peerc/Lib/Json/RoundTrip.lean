import Peerc.Lib.Json.Render

-- `json.loads` inverts `json.dumps`.

namespace Json

variable {F : FloatFormat} {style : Style} {s : Str}

-- The whitespace after a separator
def Style.pad : Style → Str
  | default => [0x20]
  | compact => []

theorem Style.item_eq : style.item = 0x2C :: style.pad := by
  cases style <;> rfl

theorem Style.key_eq : style.key = 0x3A :: style.pad := by
  cases style <;> rfl

-- The texts of lists and objects, with the separators in front of what is left

theorem dumpsItems_cons {v : Json} {vs : List Json} {t : Str}
    (h : dumpsItems F style (v :: vs) = some t) : ∃ tv, dumps F style v = some tv ∧
      ((vs = [] ∧ t = tv) ∨ ∃ w ws tvs, vs = w :: ws ∧ dumpsItems F style vs = some tvs ∧
        t = tv ++ 0x2C :: style.pad ++ tvs) := by
  cases vs
  case nil => exact ⟨t, h, .inl ⟨rfl, rfl⟩⟩
  case cons w ws =>
    simp only [dumpsItems, Option.pure_def, Option.bind_eq_bind, Option.bind_eq_some_iff,
      Option.some.injEq] at h
    obtain ⟨tv, hv, tvs, hvs, rfl⟩ := h
    exact ⟨tv, hv, .inr ⟨w, ws, tvs, rfl, hvs, by rw [Style.item_eq]⟩⟩

theorem dumpsFields_cons {k : Text} {v : Json} {kvs : List (Text × Json)} {t : Str}
    (h : dumpsFields F style ((k, v) :: kvs) = some t) : ∃ tv, dumps F style v = some tv ∧
      ((kvs = [] ∧ t = escape k.val ++ 0x3A :: style.pad ++ tv) ∨
      ∃ kw kws tvs, kvs = kw :: kws ∧ dumpsFields F style kvs = some tvs ∧
        t = escape k.val ++ 0x3A :: style.pad ++ tv ++ 0x2C :: style.pad ++ tvs) := by
  cases kvs
  case nil =>
    simp only [dumpsFields, Option.pure_def, Option.bind_eq_bind, Option.bind_eq_some_iff,
      Option.some.injEq] at h
    obtain ⟨tv, hv, rfl⟩ := h
    exact ⟨tv, hv, .inl ⟨rfl, by rw [Style.key_eq]⟩⟩
  case cons kw kws =>
    simp only [dumpsFields, Option.pure_def, Option.bind_eq_bind, Option.bind_eq_some_iff,
      Option.some.injEq] at h
    obtain ⟨tv, hv, tvs, hvs, rfl⟩ := h
    exact ⟨tv, hv, .inr ⟨kw, kws, tvs, rfl, hvs, by rw [Style.item_eq, Style.key_eq]⟩⟩

theorem isBlank_pad (style : Style) : IsBlank style.pad := by
  cases style
  case default => exact List.forall_mem_singleton.mpr rfl
  case compact => exact isBlank_nil

mutual

theorem renders_dumps : (v : Json) → (t : Str) → dumps F style v = some t → Renders F v t
  | null, _, h | bool true, _, h | bool false, _, h | int _, _, h | float _, _, h | str _, _, h => h
  | arr items, t, h => by
    simp only [dumps, Option.pure_def, Option.bind_eq_bind, Option.bind_eq_some_iff,
      Option.some.injEq] at h
    obtain ⟨ts, h, rfl⟩ := h
    exact ⟨ts, rendersItems_dumps items ts h, rfl⟩
  | obj fields, t, h => by
    simp only [dumps, Option.pure_def, Option.bind_eq_bind, Option.bind_eq_some_iff,
      Option.some.injEq] at h
    obtain ⟨ts, h, rfl⟩ := h
    exact ⟨ts, rendersFields_dumps fields ts h, rfl⟩

theorem rendersItems_dumps : (vs : List Json) → (t : Str) → dumpsItems F style vs = some t →
    RendersItems F vs t
  | [], _, h => by
    cases h
    exact isBlank_nil
  | v :: vs, t, h => by
    obtain ⟨tv, hv, htl⟩ := dumpsItems_cons h
    have hv := renders_dumps v tv hv
    rcases htl with ⟨rfl, rfl⟩ | ⟨v', vs', tvs, he, hvs, rfl⟩
    · exact ⟨[], t, [], [], isBlank_nil, hv, isBlank_nil, by simp, .inl ⟨rfl, rfl⟩⟩
    · have hts := rendersItems_blank (isBlank_pad style) (rendersItems_dumps vs tvs hvs)
      exact ⟨[], tv, [], _, isBlank_nil, hv, isBlank_nil, by simp, .inr ⟨_, by simp [he], hts, rfl⟩⟩

theorem rendersFields_dumps : (kvs : List (Text × Json)) → (t : Str) →
    dumpsFields F style kvs = some t → RendersFields F kvs t
  | [], _, h => by
    cases h
    exact isBlank_nil
  | (k, v) :: kvs, t, h => by
    obtain ⟨tv, hv, htl⟩ := dumpsFields_cons h
    have hv := renders_dumps v tv hv
    rcases htl with ⟨rfl, rfl⟩ | ⟨kv, kvs', tvs, he, hkvs, rfl⟩
    · exact ⟨[], _, tv, [], [], isBlank_nil, isBlank_pad style, hv, isBlank_nil, by simp, .inl ⟨rfl, rfl⟩⟩
    · have hts := rendersFields_blank (isBlank_pad style) (rendersFields_dumps kvs tvs hkvs)
      exact ⟨[], _, tv, [], _, isBlank_nil, isBlank_pad style, hv, isBlank_nil, by simp,
        .inr ⟨_, by simp [he], hts, rfl⟩⟩

end

-- With `ensure_ascii`, the encoder writes printable ASCII characters only.

def Printable (s : Str) : Prop :=
  ∀ c ∈ s, 0x20 ≤ c.val ∧ c.val < 0x7F

-- Not the instance for `Fin`, which goes through all code points.
instance decidablePrintable : DecidablePred Printable := fun s => List.decidableBAll _ s

theorem printable_cons {c : CodePoint} {s : Str} :
    Printable (c :: s) ↔ (0x20 ≤ c.val ∧ c.val < 0x7F) ∧ Printable s :=
  List.forall_mem_cons

theorem printable_append {s t : Str} : Printable (s ++ t) ↔ Printable s ∧ Printable t :=
  List.forall_mem_append

theorem printable_of_isDigit {c : CodePoint} (h : isDigit c) : 0x20 ≤ c.val ∧ c.val < 0x7F := by
  simp only [isDigit, Bool.and_eq_true, decide_eq_true_eq] at h
  omega

theorem decimal_printable (n : Nat) : Printable (decimal n) :=
  fun _ h => printable_of_isDigit (isDigit_of_mem_decimal h)

theorem numberSign_printable (negative : Bool) : Printable (numberSign negative) := by
  cases negative <;> decide

theorem digits_printable (ds : List (Fin 10)) : Printable (FloatToken.digits ds) :=
  fun _ h => printable_of_isDigit (isDigit_of_mem_digits h)

theorem render_printable (t : FloatToken) : Printable t.render := by
  rw [render_eq]
  have hf : Printable (fractionText t) := by
    rw [fractionText]
    split
    case h_1 => exact List.forall_mem_nil _
    case h_2 => exact printable_cons.mpr ⟨by decide, digits_printable _⟩
  have he : Printable (exponentText t) := by
    rw [exponentText]
    split
    case h_1 => exact List.forall_mem_nil _
    case h_2 neg _ _ =>
      refine printable_cons.mpr ⟨by decide, printable_cons.mpr ⟨?_, digits_printable _⟩⟩
      cases neg <;> decide
  simp only [printable_append]
  exact ⟨⟨numberSign_printable _, decimal_printable _⟩, hf, he⟩

theorem hexDigit_printable : ∀ n < 16, 0x20 ≤ (Bytes.hexDigit n).val ∧ (Bytes.hexDigit n).val < 0x7F := by
  decide

theorem escapeUnit_printable (u : Nat) : Printable (escapeUnit u) := by
  simp only [escapeUnit, printable_cons]
  refine ⟨by decide, by decide, ?_, ?_, ?_, ?_, List.forall_mem_nil _⟩ <;>
    exact hexDigit_printable _ (by omega)

theorem escapeChar_printable (c : CodePoint) : Printable (escapeChar c) := by
  simp only [escapeChar]
  iterate 7
    split
    case isTrue => decide
  split
  case isTrue h =>
    refine printable_cons.mpr ⟨by omega, List.forall_mem_nil _⟩
  split
  case isTrue => exact escapeUnit_printable _
  case isFalse => exact printable_append.mpr ⟨escapeUnit_printable _, escapeUnit_printable _⟩

theorem escape_printable (t : Str) : Printable (escape t) := by
  have hf : Printable (t.flatMap escapeChar) := by
    intro c hc
    have ⟨d, _, hd⟩ := List.mem_flatMap.mp hc
    exact escapeChar_printable d c hd
  exact printable_append.mpr ⟨printable_cons.mpr ⟨by decide, hf⟩, by decide⟩

theorem dumpsFloat_printable (x : Double) : Printable (dumpsFloat F x) := by
  rw [dumpsFloat]
  split
  case isTrue => decide
  split
  case isTrue => exact render_printable _
  split <;> decide

theorem pad_printable : Printable style.pad := by
  cases style <;> decide

mutual

theorem dumps_printable : (v : Json) → (t : Str) → dumps F style v = some t → Printable t
  | null, _, h => by
    cases h
    decide
  | bool true, _, h | bool false, _, h => by
    cases h
    decide
  | int n, t, h => by
    rw [dumps] at h
    rw [dumpsInt_eq h]
    exact printable_append.mpr ⟨numberSign_printable _, decimal_printable _⟩
  | float x, t, h => by
    cases h
    exact dumpsFloat_printable x
  | str x, t, h => by
    cases h
    exact escape_printable x.val
  | arr items, t, h => by
    simp only [dumps, Option.pure_def, Option.bind_eq_bind, Option.bind_eq_some_iff,
      Option.some.injEq] at h
    obtain ⟨ts, h, rfl⟩ := h
    have := dumpsItems_printable items ts h
    exact printable_append.mpr ⟨printable_cons.mpr ⟨by decide, this⟩, by decide⟩
  | obj fields, t, h => by
    simp only [dumps, Option.pure_def, Option.bind_eq_bind, Option.bind_eq_some_iff,
      Option.some.injEq] at h
    obtain ⟨ts, h, rfl⟩ := h
    have := dumpsFields_printable fields ts h
    exact printable_append.mpr ⟨printable_cons.mpr ⟨by decide, this⟩, by decide⟩

theorem dumpsItems_printable : (vs : List Json) → (t : Str) → dumpsItems F style vs = some t → Printable t
  | [], _, h => by
    cases h
    exact fun _ h => nomatch h
  | v :: vs, t, h => by
    obtain ⟨tv, hv, ⟨rfl, rfl⟩ | ⟨_, _, tvs, -, hvs, rfl⟩⟩ := dumpsItems_cons h
    · exact dumps_printable v _ hv
    · simp only [printable_append, printable_cons]
      exact ⟨⟨dumps_printable v _ hv, by decide, pad_printable⟩, dumpsItems_printable vs _ hvs⟩

theorem dumpsFields_printable : (kvs : List (Text × Json)) → (t : Str) →
    dumpsFields F style kvs = some t → Printable t
  | [], _, h => by
    cases h
    exact fun _ h => nomatch h
  | (k, v) :: kvs, t, h => by
    obtain ⟨tv, hv, ⟨rfl, rfl⟩ | ⟨_, _, tvs, -, hvs, rfl⟩⟩ := dumpsFields_cons h
    · simp only [printable_append, printable_cons]
      exact ⟨⟨escape_printable k.val, by decide, pad_printable⟩, dumps_printable v _ hv⟩
    · simp only [printable_append, printable_cons]
      exact ⟨⟨⟨⟨escape_printable k.val, by decide, pad_printable⟩, dumps_printable v _ hv⟩, by decide,
        pad_printable⟩, dumpsFields_printable kvs _ hvs⟩

end

theorem dumps_isAscii (v : Json) (t : Str) (h : dumps F style v = some t) : t.IsAscii := by
  intro c hc
  have := dumps_printable v t h c hc
  omega

theorem loads_dumps {v : Json} {t : Str} (hw : v.WellFormed) (h : dumps F style v = some t) :
    loads F t = .ok v :=
  loads_renders hw (renders_dumps v t h)

end Json
