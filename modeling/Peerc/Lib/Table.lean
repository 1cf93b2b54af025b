import Mathlib.Data.List.Nodup

-- A table with a primary key: rows in insertion order, no two of them with the same key.
structure Table (κ ρ : Type) (key : ρ → κ) where
  rows  : List ρ
  nodup : (rows.map key).Nodup

namespace Table

variable {κ ρ : Type} {key : ρ → κ}

@[ext]
theorem ext {t₁ t₂ : Table κ ρ key} (h : t₁.rows = t₂.rows) : t₁ = t₂ := by
  cases t₁; cases t₂; simp_all

def empty : Table κ ρ key :=
  ⟨[], .nil⟩

variable [DecidableEq κ]

def find? (t : Table κ ρ key) (k : κ) : Option ρ :=
  t.rows.find? (key · = k)

-- `INSERT`: refused when the key is taken.
def insert? (t : Table κ ρ key) (r : ρ) : Option (Table κ ρ key) :=
  if h : key r ∈ t.rows.map key then none
  else some ⟨t.rows ++ [r], by
    rw [List.map_append, List.map_singleton]
    exact List.nodup_append.mpr ⟨t.nodup, List.nodup_singleton _, by grind⟩⟩

-- `INSERT OR REPLACE`: a row with the same key is deleted first.
def replace (t : Table κ ρ key) (r : ρ) : Table κ ρ key where
  rows  := t.rows.filter (key · ≠ key r) ++ [r]
  nodup := by
    rw [List.map_append, List.map_singleton]
    refine List.nodup_append.mpr ⟨?_, List.nodup_singleton _, ?_⟩
    · exact t.nodup.sublist (List.filter_sublist.map key)
    · grind

-- `UPDATE ... WHERE key = k`: columns other than the key are changed.
def update (t : Table κ ρ key) (k : κ) (f : ρ → ρ) (hf : ∀ r, key (f r) = key r) :
    Table κ ρ key where
  rows  := t.rows.map fun r => if key r = k then f r else r
  nodup := by
    have h : key ∘ (fun r => if key r = k then f r else r) = key := by
      funext r
      simp only [Function.comp]
      split <;> simp [hf]
    rw [List.map_map, h]
    exact t.nodup

-- `DELETE ... WHERE key = k`
def erase (t : Table κ ρ key) (k : κ) : Table κ ρ key where
  rows  := t.rows.filter (key · ≠ k)
  nodup := t.nodup.sublist (List.filter_sublist.map key)

variable {t t' : Table κ ρ key} {r r' : ρ} {k k' : κ}

@[simp]
theorem find?_empty : (empty : Table κ ρ key).find? k = none := rfl

-- A table with one row

theorem replace_replace_empty (h : key r' = key r) :
    (replace empty r).replace r' = (replace empty r' : Table κ ρ key) := by
  ext1
  simp [replace, empty, h]

theorem erase_replace_empty : (replace empty r).erase (key r) = (empty : Table κ ρ key) := by
  ext1
  simp [erase, replace, empty]

theorem key_of_find? (h : t.find? k = some r) : key r = k := by
  simpa using List.find?_some h

theorem mem_of_find? (h : t.find? k = some r) : r ∈ t.rows :=
  List.mem_of_find?_eq_some h

theorem find?_of_mem (h : r ∈ t.rows) : t.find? (key r) = some r := by
  obtain ⟨rows, nodup⟩ := t
  simp only [find?] at h ⊢
  induction rows
  case nil => cases h
  case cons r' rows hi =>
    simp only [List.map_cons, List.nodup_cons, List.mem_map, not_exists, not_and] at nodup
    rcases List.mem_cons.mp h with rfl | h
    · simp
    · have hne : key r' ≠ key r := fun he => nodup.left r h he.symm
      simp [hne, hi nodup.right h]

theorem find?_eq_none_iff : t.find? k = none ↔ k ∉ t.rows.map key := by
  simp [find?]

theorem insert?_eq_none_iff : t.insert? r = none ↔ (t.find? (key r)).isSome := by
  rw [insert?, ← Option.ne_none_iff_isSome, ne_eq, find?_eq_none_iff, not_not]
  split <;> simp_all

theorem insert?_rows (h : t.insert? r = some t') : t'.rows = t.rows ++ [r] := by
  simp only [insert?] at h
  split at h
  · cases h
  · cases h; rfl

theorem insert?_of_find?_eq_none (h : t.find? (key r) = none) : ∃ t', t.insert? r = some t' := by
  have hn : ¬(t.insert? r = none) := by simp [insert?_eq_none_iff, h]
  exact Option.ne_none_iff_exists'.mp hn

theorem find?_insert? (h : t.insert? r = some t') :
    t'.find? k = if k = key r then some r else t.find? k := by
  have hn : t.find? (key r) = none := by
    by_contra hc
    have := insert?_eq_none_iff.mpr (Option.ne_none_iff_isSome.mp hc)
    simp [this] at h
  simp only [find?, insert?_rows h, List.find?_append] at hn ⊢
  split
  case isTrue hk => subst hk; simp [hn]
  case isFalse hk => simp [Ne.symm hk]

theorem find?_update {f : ρ → ρ} {hf : ∀ r, key (f r) = key r} :
    (t.update k f hf).find? k' = if k' = k then (t.find? k).map f else t.find? k' := by
  have hp : ((fun r => decide (key r = k')) ∘ fun r => if key r = k then f r else r)
      = fun r => decide (key r = k') := by
    funext r
    simp only [Function.comp]
    split <;> simp [hf]
  simp only [find?, update, List.find?_map, hp]
  split
  case isTrue hk =>
    subst hk
    cases h : t.rows.find? (fun r => decide (key r = k'))
    case none => rfl
    case some r =>
      have hr := List.find?_some h
      simp_all
  case isFalse hk =>
    cases h : t.rows.find? (fun r => decide (key r = k'))
    case none => rfl
    case some r =>
      have hr := List.find?_some h
      simp_all

theorem update_eq_self {f : ρ → ρ} {hf : ∀ r, key (f r) = key r}
    (h : ∀ r, t.find? k = some r → f r = r) : t.update k f hf = t := by
  refine Table.ext <| (List.map_congr_left fun r hr => ?_).trans (List.map_id _)
  split
  case isTrue hk => exact h r (hk ▸ find?_of_mem hr)
  case isFalse => rfl

theorem mem_replace : r' ∈ (t.replace r).rows ↔ r' = r ∨ (r' ∈ t.rows ∧ key r' ≠ key r) := by
  simp only [replace, List.mem_append, List.mem_filter, List.mem_singleton]
  grind

theorem find?_replace : (t.replace r).find? k = if k = key r then some r else t.find? k := by
  by_cases hk : k = key r
  · subst hk
    rw [if_pos rfl]
    exact find?_of_mem (mem_replace.mpr <| .inl rfl)
  · rw [if_neg hk]
    ext r'
    constructor <;> intro h
    · have hk' := key_of_find? h
      rcases mem_replace.mp (mem_of_find? h) with rfl | ⟨hm, -⟩
      · exact absurd hk'.symm hk
      · exact hk' ▸ find?_of_mem hm
    · have hk' := key_of_find? h
      have hm := mem_replace.mpr <| .inr ⟨mem_of_find? h, hk'.symm ▸ hk⟩
      exact hk' ▸ find?_of_mem hm

theorem find?_erase : (t.erase k).find? k' = if k' = k then none else t.find? k' := by
  simp only [find?, erase, List.find?_filter]
  split
  case isTrue hk => subst hk; simp
  case isFalse hk =>
    congr 1
    funext r
    by_cases hr : key r = k' <;> simp [hr, hk]

theorem mem_erase : r ∈ (t.erase k).rows ↔ r ∈ t.rows ∧ key r ≠ k := by
  simp only [erase, List.mem_filter, decide_eq_true_eq]

theorem replace_rows : (t.replace r).rows = (t.erase (key r)).rows ++ [r] := rfl

-- The rows with a property are still there.
def Keeps (q : ρ → Prop) (t t' : Table κ ρ key) : Prop :=
  ∀ r ∈ t.rows, q r → r ∈ t'.rows

section Keeps

variable {q : ρ → Prop}

omit [DecidableEq κ] in
theorem Keeps.refl : Keeps q t t :=
  fun _ hr _ => hr

theorem keeps_erase : Keeps q t (t.erase k) ↔ ∀ r, t.find? k = some r → ¬q r := by
  constructor
  case mp =>
    intro h r hr hq
    exact (mem_erase.mp (h r (mem_of_find? hr) hq)).right (key_of_find? hr)
  case mpr =>
    intro h r hr hq
    refine mem_erase.mpr ⟨hr, fun hk => ?_⟩
    exact h r (hk ▸ find?_of_mem hr) hq

theorem keeps_replace :
    Keeps q t (t.replace r') ↔ ∀ r, t.find? (key r') = some r → q r → r = r' := by
  constructor
  case mp =>
    intro h r hr hq
    rcases mem_replace.mp (h r (mem_of_find? hr) hq) with he | ⟨_, hk⟩
    · exact he
    · exact (hk (key_of_find? hr)).elim
  case mpr =>
    intro h r hr hq
    by_cases hk : key r = key r'
    case pos => exact mem_replace.mpr (.inl (h r (hk ▸ find?_of_mem hr) hq))
    case neg => exact mem_replace.mpr (.inr ⟨hr, hk⟩)

-- A row is erased, or replaced by another one with its key.

theorem keeps_erase_of_mem (h : r ∈ t.rows) : Keeps q t (t.erase (key r)) ↔ ¬q r := by
  simp only [keeps_erase, find?_of_mem h, Option.some.injEq, forall_eq']

theorem keeps_replace_of_mem (h : r ∈ t.rows) (hk : key r' = key r) :
    Keeps q t (t.replace r') ↔ (q r → r = r') := by
  simp only [keeps_replace, hk, find?_of_mem h, Option.some.injEq, forall_eq']

end Keeps

-- A row is the only one with its key.
theorem perm_erase (h : r ∈ t.rows) : t.rows.Perm (r :: (t.erase (key r)).rows) := by
  have hn : r ∉ (t.erase (key r)).rows := fun hm => (mem_erase.mp hm).right rfl
  have hd : (r :: (t.erase (key r)).rows).Nodup :=
    List.nodup_cons.mpr ⟨hn, (t.erase (key r)).nodup.of_map⟩
  refine (List.perm_ext_iff_of_nodup t.nodup.of_map hd).mpr fun r' => ?_
  rw [List.mem_cons, mem_erase]
  constructor
  case mp =>
    intro hr
    by_cases hk : key r' = key r
    case pos => exact .inl (Option.some.inj ((hk ▸ find?_of_mem hr).symm.trans (find?_of_mem h)))
    case neg => exact .inr ⟨hr, hk⟩
  case mpr =>
    rintro (rfl | hr)
    · exact h
    · exact hr.left

end Table
