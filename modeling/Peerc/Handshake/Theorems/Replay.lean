import Peerc.Handshake.Basic
import Peerc.Lib.Machine

-- The calls of `check_and_add` on one cache

namespace Handshake

-- A call and its result
structure Use where
  nonce    : Text
  time     : Clock
  accepted : Bool

-- A cache and the calls it has seen so far, the last one at the end
structure CacheSystem where
  cache : NonceCache
  uses  : List Use

namespace CacheSystem

def step (s : CacheSystem) (nonce : Text) (now : Clock) : CacheSystem :=
  let (accepted, cache) := s.cache.checkAndAdd nonce now.val
  ⟨cache, s.uses ++ [⟨nonce, now, accepted⟩]⟩

def machine (ttl : Double) : Machine CacheSystem (Text × Clock) where
  Init s := s = ⟨⟨ttl, []⟩, []⟩
  step s e := some (s.step e.fst e.snd)

-- The clock does not go back.
def Forward (s : CacheSystem) (e : Text × Clock) : Prop :=
  ∀ u ∈ s.uses, u.time.val.units ≤ e.snd.val.units

variable {ttl : Double} {s s' : CacheSystem} {nonce : Text} {now later : Clock} {e : Text × Clock}

-- What a call finds after it has removed the expired nonces
def live (s : CacheSystem) (now : Clock) : List (Text × Double) :=
  s.cache.seen.filter (!s.cache.expired now.val ·.snd)

theorem step_of_live (h : (s.live now).any (·.fst = nonce)) :
    s.step nonce now = ⟨⟨s.cache.ttl, s.live now⟩, s.uses ++ [⟨nonce, now, false⟩]⟩ := by
  have hc : s.cache.checkAndAdd nonce now.val = (false, ⟨s.cache.ttl, s.live now⟩) := if_pos h
  rw [step, hc]

theorem step_of_not_live (h : ¬(s.live now).any (·.fst = nonce)) :
    s.step nonce now =
      ⟨⟨s.cache.ttl, s.live now ++ [(nonce, now.val)]⟩, s.uses ++ [⟨nonce, now, true⟩]⟩ := by
  have hc : s.cache.checkAndAdd nonce now.val = (true, ⟨s.cache.ttl, s.live now ++ [(nonce, now.val)]⟩) :=
    if_neg h
  rw [step, hc]

-- The cache holds what was accepted, except for what an earlier call has found expired.
structure Window (ttl : Double) (s : CacheSystem) : Prop where
  ttl_eq : s.cache.ttl = ttl
  seen   : ∀ e ∈ s.cache.seen, ∃ u ∈ s.uses, u.accepted ∧ (u.nonce, u.time.val) = e
  kept   : ∀ u ∈ s.uses, u.accepted → (u.nonce, u.time.val) ∈ s.cache.seen ∨
    ∃ v ∈ s.uses, u.time.val.units ≤ v.time.val.units ∧ Double.subGt v.time.val u.time.val ttl
  nodup  : (s.cache.seen.map Prod.fst).Nodup
  apart  : s.uses.Pairwise fun u v => u.accepted → v.accepted → u.nonce = v.nonce →
    u.time.val.units ≤ v.time.val.units ∧ Double.subGt v.time.val u.time.val ttl

namespace Window

theorem mem_live (h : Window ttl s) (hf : Forward s (nonce, now)) {n : Text} {t : Double} :
    (n, t) ∈ s.live now ↔
      ∃ u ∈ s.uses, u.accepted ∧ u.nonce = n ∧ u.time.val = t ∧ ¬Double.subGt now.val t ttl := by
  simp only [live, NonceCache.expired, h.ttl_eq, List.mem_filter, Bool.not_eq_true']
  constructor
  case mp =>
    rintro ⟨hm, he⟩
    obtain ⟨u, hu, ha, hn⟩ := h.seen _ hm
    cases hn
    exact ⟨u, hu, ha, rfl, rfl, Bool.eq_false_iff.mp he⟩
  case mpr =>
    rintro ⟨u, hu, ha, rfl, rfl, he⟩
    refine ⟨(h.kept u hu ha).resolve_right ?_, Bool.eq_false_iff.mpr he⟩
    -- What was expired before still is.
    rintro ⟨v, hv, hl, hx⟩
    exact he (Double.subGt_mono hl (hf v hv) hx)

theorem any_live (h : Window ttl s) (hf : Forward s (nonce, now)) :
    (s.live now).any (·.fst = nonce) ↔
      ∃ u ∈ s.uses, u.accepted ∧ u.nonce = nonce ∧ ¬Double.subGt now.val u.time.val ttl := by
  simp only [List.any_eq_true, decide_eq_true_eq]
  constructor
  case mp =>
    rintro ⟨⟨n, t⟩, hm, rfl⟩
    obtain ⟨u, hu, ha, hn, rfl, he⟩ := (h.mem_live hf).mp hm
    exact ⟨u, hu, ha, hn, he⟩
  case mpr =>
    rintro ⟨u, hu, ha, hn, he⟩
    exact ⟨(nonce, u.time.val), (h.mem_live hf).mpr ⟨u, hu, ha, hn, rfl, he⟩, rfl⟩

theorem live_nodup (h : Window ttl s) : ((s.live now).map Prod.fst).Nodup :=
  h.nodup.sublist (List.filter_sublist.map Prod.fst)

theorem rejected (h : Window ttl s) (hf : Forward s (nonce, now)) :
    Window ttl ⟨⟨s.cache.ttl, s.live now⟩, s.uses ++ [⟨nonce, now, false⟩]⟩ where
  ttl_eq := h.ttl_eq
  seen e he := by
    obtain ⟨u, hu, ha⟩ := h.seen e (List.mem_of_mem_filter he)
    exact ⟨u, List.mem_append_left _ hu, ha⟩
  kept u hu ha := by
    rcases List.mem_append.mp hu with hu | hu
    · by_cases he : Double.subGt now.val u.time.val ttl
      case pos => exact .inr ⟨_, List.mem_append_right _ List.mem_cons_self, hf u hu, he⟩
      case neg => exact .inl ((h.mem_live hf).mpr ⟨u, hu, ha, rfl, rfl, he⟩)
    · obtain rfl := List.mem_singleton.mp hu
      cases ha
  nodup := h.live_nodup
  apart := by
    refine List.pairwise_append.mpr ⟨h.apart, List.pairwise_singleton .., ?_⟩
    intro u _ v hv _ ha
    obtain rfl := List.mem_singleton.mp hv
    cases ha

theorem accepted (h : Window ttl s) (hf : Forward s (nonce, now))
    (hn : ¬(s.live now).any (·.fst = nonce)) :
    Window ttl ⟨⟨s.cache.ttl, s.live now ++ [(nonce, now.val)]⟩, s.uses ++ [⟨nonce, now, true⟩]⟩ where
  ttl_eq := h.ttl_eq
  seen e he := by
    rcases List.mem_append.mp he with he | he
    · obtain ⟨u, hu, ha⟩ := h.seen e (List.mem_of_mem_filter he)
      exact ⟨u, List.mem_append_left _ hu, ha⟩
    · obtain rfl := List.mem_singleton.mp he
      exact ⟨_, List.mem_append_right _ List.mem_cons_self, rfl, rfl⟩
  kept u hu ha := by
    rcases List.mem_append.mp hu with hu | hu
    · by_cases he : Double.subGt now.val u.time.val ttl
      case pos => exact .inr ⟨_, List.mem_append_right _ List.mem_cons_self, hf u hu, he⟩
      case neg => exact .inl (List.mem_append_left _ ((h.mem_live hf).mpr ⟨u, hu, ha, rfl, rfl, he⟩))
    · obtain rfl := List.mem_singleton.mp hu
      exact .inl (List.mem_append_right _ List.mem_cons_self)
  nodup := by
    rw [List.map_append, List.map_singleton]
    refine List.nodup_append.mpr ⟨h.live_nodup, List.nodup_singleton _, ?_⟩
    rintro _ hm n hs rfl
    obtain rfl := List.mem_singleton.mp hs
    obtain ⟨e, he, hn'⟩ := List.mem_map.mp hm
    exact hn (List.any_eq_true.mpr ⟨e, he, decide_eq_true hn'⟩)
  apart := by
    refine List.pairwise_append.mpr ⟨h.apart, List.pairwise_singleton .., ?_⟩
    intro u hu v hv ha _ he
    obtain rfl := List.mem_singleton.mp hv
    refine ⟨hf u hu, ?_⟩
    by_contra hx
    exact hn ((h.any_live hf).mpr ⟨u, hu, ha, he, hx⟩)

theorem step (h : Window ttl s) (hf : Forward s (nonce, now)) : Window ttl (s.step nonce now) := by
  by_cases hn : (s.live now).any (·.fst = nonce)
  case pos => exact step_of_live hn ▸ h.rejected hf
  case neg => exact step_of_not_live hn ▸ h.accepted hf hn

theorem of_run (run : (machine ttl).Run Forward s) : Window ttl s := by
  induction run
  case init h =>
    obtain rfl := h
    exact ⟨rfl, nofun, nofun, List.nodup_nil, .nil⟩
  case step hg hs hi =>
    obtain rfl := Option.some.inj hs
    exact hi.step hg

-- A call that only removes expired nonces leaves the same for every later one.
theorem live_filter (h : Window ttl s) (hf : Forward s (nonce, now)) (hl : now.val.units ≤ later.val.units) :
    (s.live now).filter (!s.cache.expired later.val ·.snd) = s.live later := by
  rw [live, List.filter_filter, live]
  refine List.filter_congr fun e he => ?_
  obtain ⟨u, hu, -, rfl⟩ := h.seen e he
  by_cases hx : Double.subGt now.val u.time.val ttl
  case pos =>
    have hx' := Double.subGt_mono (hf u hu) hl hx
    simp only [NonceCache.expired, h.ttl_eq, hx, hx', Bool.not_true, Bool.and_self]
  case neg => simp only [NonceCache.expired, h.ttl_eq, hx, Bool.not_false, Bool.and_true]

end Window

-- The calls that were accepted, without the others
theorem exists_accepted (run : (machine ttl).Run Forward s) :
    ∃ s₁, (machine ttl).Run Forward s₁ ∧ s₁.uses = s.uses.filter (·.accepted) ∧
      ∀ nonce now, Forward s (nonce, now) → s₁.live now = s.live now := by
  induction run
  case init s h => exact ⟨s, .init h, by rw [h]; rfl, fun _ _ _ => rfl⟩
  case step s s' e run hg hs hi =>
    obtain rfl := Option.some.inj hs
    obtain ⟨s₁, run₁, hu, hl⟩ := hi
    have hw := Window.of_run run
    have hg₁ : Forward s₁ e := fun u hm => hg u (List.mem_of_mem_filter (hu ▸ hm))
    have hle {nonce : Text} {now : Clock} (hf : Forward (s.step e.fst e.snd) (nonce, now)) :
        e.snd.val.units ≤ now.val.units :=
      hf ⟨e.fst, e.snd, _⟩ (List.mem_append_right _ List.mem_cons_self)
    by_cases hn : (s.live e.snd).any (·.fst = e.fst)
    case pos =>
      refine ⟨s₁, run₁, ?_, ?_⟩
      · rw [step_of_live hn, hu, List.filter_append]
        exact (List.append_nil _).symm
      · intro nonce now hf
        have hf₀ : Forward s (nonce, now) := fun u hm => (hg u hm).trans (hle hf)
        rw [hl nonce now hf₀, step_of_live hn]
        exact (hw.live_filter hg (hle hf)).symm
    case neg =>
      have hn₁ : ¬(s₁.live e.snd).any (·.fst = e.fst) := by rwa [hl e.fst e.snd hg]
      refine ⟨s₁.step e.fst e.snd, run₁.step hg₁ rfl, ?_, ?_⟩
      · rw [step_of_not_live hn, step_of_not_live hn₁, hu, List.filter_append]
        rfl
      · intro nonce now _
        rw [step_of_not_live hn, step_of_not_live hn₁, hl e.fst e.snd hg, hw.ttl_eq,
          (Window.of_run run₁).ttl_eq]
        rfl

end CacheSystem

open CacheSystem

-- In every sequence of calls with a clock that does not go back: a nonce is fresh unless it was accepted
-- within the window. Two calls that accept it are further apart than the window. Without the calls that
-- were rejected the next one would have the same result. It leaves exactly what was accepted within the
-- window, and the nonce it has accepted itself.
theorem nonce_cache_window {ttl : Double} {s : CacheSystem} (run : (machine ttl).Run Forward s)
    {nonce : Text} {now : Clock} (hf : Forward s (nonce, now)) :
    ((s.cache.checkAndAdd nonce now.val).fst ↔
      ¬∃ u ∈ s.uses, u.accepted ∧ u.nonce = nonce ∧ ¬Double.subGt now.val u.time.val ttl) ∧
    ((s.step nonce now).uses.Pairwise fun u v => u.accepted → v.accepted → u.nonce = v.nonce →
      Double.subGt v.time.val u.time.val ttl ∧ ttl.units < v.time.val.units - u.time.val.units) ∧
    (∃ s₁, (machine ttl).Run Forward s₁ ∧ s₁.uses = s.uses.filter (·.accepted) ∧
      s₁.cache.checkAndAdd nonce now.val = s.cache.checkAndAdd nonce now.val) ∧
    ((s.step nonce now).cache.seen.map Prod.fst).Nodup ∧
    ∀ n t, (n, t) ∈ (s.step nonce now).cache.seen ↔
      (∃ u ∈ s.uses, u.accepted ∧ u.nonce = n ∧ u.time.val = t ∧ ¬Double.subGt now.val t ttl) ∨
      ((s.cache.checkAndAdd nonce now.val).fst ∧ n = nonce ∧ t = now.val) := by
  have hw := Window.of_run run
  have hw' := hw.step hf
  have hfresh : (s.cache.checkAndAdd nonce now.val).fst ↔ ¬(s.live now).any (·.fst = nonce) := by
    simp only [NonceCache.checkAndAdd, live]
    split_ifs with h <;> simp [h]
  refine ⟨hfresh.trans (not_congr (hw.any_live hf)), ?apart, ?replays, hw'.nodup, ?holds⟩
  case apart =>
    refine hw'.apart.imp fun h hu hv hn => ?_
    obtain ⟨hl, hx⟩ := h hu hv hn
    exact ⟨hx, Double.units_lt_of_subGt hl hx⟩
  case replays =>
    obtain ⟨s₁, run₁, hu, hl⟩ := exists_accepted run
    refine ⟨s₁, run₁, hu, ?_⟩
    have ht : s₁.cache.ttl = s.cache.ttl := (Window.of_run run₁).ttl_eq.trans hw.ttl_eq.symm
    have hl := hl nonce now hf
    simp only [live] at hl
    simp only [NonceCache.checkAndAdd, hl, ht]
  case holds =>
    intro n t
    rw [← hw.mem_live hf, hfresh]
    by_cases hn : (s.live now).any (·.fst = nonce)
    case pos => simp [step_of_live hn, hn]
    case neg => simp [step_of_not_live hn, hn]

theorem nonce_cache_window_replayed : ∃ (s : CacheSystem) (now : Clock),
    (machine NonceCache.defaultTtl).Run Forward s ∧ Forward s (.ofString "00", now) ∧
    s.uses.map (·.accepted) = [true] ∧ ¬(s.cache.checkAndAdd (.ofString "00") now.val).fst := by
  let now : Clock := ⟨.zero, by decide⟩
  have run : (machine NonceCache.defaultTtl).Run Forward _ :=
    .step (.init rfl) (e := (.ofString "00", now)) nofun rfl
  have hf : Forward (step ⟨⟨NonceCache.defaultTtl, []⟩, []⟩ (.ofString "00") now) (.ofString "00", now) := by
    intro u hu
    obtain rfl := List.mem_singleton.mp hu
    exact Int.le_refl _
  refine ⟨_, now, run, hf, rfl, fun h => ?_⟩
  exact (nonce_cache_window run hf).left.mp h ⟨_, List.mem_cons_self, rfl, rfl, by decide +kernel⟩

end Handshake
