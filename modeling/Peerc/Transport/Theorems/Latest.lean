import Mathlib.Logic.Function.Basic
import Peerc.Transport.Manager

-- The sessions that were registered last

namespace Table

variable {κ ρ : Type} {key : ρ → κ} [DecidableEq κ] {t : Table κ ρ key}

theorem find?_foldl_erase (ks : List κ) (k : κ) :
    (ks.foldl erase t).find? k = if k ∈ ks then none else t.find? k := by
  induction ks generalizing t
  case nil => rfl
  case cons k' ks hi =>
    rw [List.foldl_cons, hi, find?_erase]
    by_cases h : k = k' <;> simp [h]

end Table

-- What a manager is for: it knows the session that was registered last for a device, until it is removed or
-- all are closed.
abbrev Latest := Str → Option SessionRef

namespace Latest

def after (l : Latest) : SessionsEvent → Latest
  | .register session => Function.update l session.peerDeviceId (some session)
  | .remove deviceId  => Function.update l deviceId none
  | .closeAll         => fun _ => none
  | _                 => l

def ofEvents (es : List SessionsEvent) : Latest :=
  es.foldl after fun _ => none

theorem ofEvents_concat (es : List SessionsEvent) (e : SessionsEvent) :
    ofEvents (es ++ [e]) = (ofEvents es).after e := by
  rw [ofEvents, List.foldl_append]
  rfl

end Latest

namespace SessionsState

variable {s s' : SessionsState} {x session : SessionRef} {d : Str} {es : List SessionsEvent} {e : SessionsEvent}

-- Somebody is going to close the session, or has been given it to do so.
def InOtherHands (s : SessionsState) (x : SessionRef) : Prop :=
  x ∈ s.closing ∨ (∃ xs ∈ s.closingAll, x ∈ xs) ∨ x ∈ s.removed

structure Inv (es : List SessionsEvent) (s : SessionsState) : Prop where
  made      : ∀ x ∈ s.alive, x ∈ s.made
  known     : ∀ x, .register x ∈ es → x ∈ s.made
  latest    : ∀ d x, Latest.ofEvents es d = some x → x.peerDeviceId = d ∧ .register x ∈ es
  entry     : ∀ d x, s.sessions.find? d = some x → Latest.ofEvents es d = some x
  live      : ∀ d x, Latest.ofEvents es d = some x → x ∈ s.alive → s.sessions.find? d = some x
  accounted : ∀ x, .register x ∈ es → x ∈ s.alive →
    Latest.ofEvents es x.peerDeviceId = some x ∨ s.InOtherHands x

theorem Inv.init : Inv [] {} := by
  constructor <;> intro x <;> simp [Latest.ofEvents]

theorem InOtherHands.mono (h : s.InOtherHands x) (hc : x ∈ s.closing → x ∈ s'.closing)
    (ha : (∃ xs ∈ s.closingAll, x ∈ xs) → ∃ xs ∈ s'.closingAll, x ∈ xs) (hr : s.removed ⊆ s'.removed) :
    s'.InOtherHands x := by
  obtain h | h | h := h
  · exact .inl (hc h)
  · exact .inr (.inl (ha h))
  · exact .inr (.inr (hr h))

-- What a device's session is does not change, although entries of dead sessions may go.
theorem Inv.quiet (h : Inv es s) (hl : ∀ l : Latest, l.after e = l) (he : ∀ x, e ≠ .register x)
    (hm : s'.made = s.made) (ha : s'.alive ⊆ s.alive)
    (hf : ∀ d x, s'.sessions.find? d = some x → s.sessions.find? d = some x)
    (hk : ∀ d x, s.sessions.find? d = some x → x ∈ s'.alive → s'.sessions.find? d = some x)
    (ho : ∀ x ∈ s'.alive, s.InOtherHands x → s'.InOtherHands x) : Inv (es ++ [e]) s' := by
  have hr : ∀ x, .register x ∈ es ++ [e] ↔ .register x ∈ es := by
    intro x
    simp only [List.mem_append, List.mem_singleton, or_iff_left (he x).symm]
  constructor <;> simp only [Latest.ofEvents_concat, hl, hr, hm]
  case made => exact fun x hx => h.made x (ha hx)
  case known => exact h.known
  case latest => exact h.latest
  case entry => exact fun d x hx => h.entry d x (hf d x hx)
  case live => exact fun d x hx hx' => hk d x (h.live d x hx (ha hx')) hx'
  case accounted => exact fun x hx hx' => (h.accounted x hx (ha hx')).imp_right (ho x hx')

theorem mem_alive_close : x ∈ (s.close session).alive ↔ x ∈ s.alive ∧ x ≠ session := by
  simp [close]

theorem Inv.lost (h : Inv es s) : Inv (es ++ [.lost session]) (s.close session) :=
  h.quiet (fun _ => rfl) (by simp) rfl (fun _ hx => (mem_alive_close.mp hx).left) (fun _ _ => id)
    (fun _ _ hx _ => hx) fun _ _ => id

theorem Inv.closeTask (h : Inv es s) :
    Inv (es ++ [.closeTask session]) ({ s with closing := s.closing.erase session }.close session) := by
  refine h.quiet (fun _ => rfl) (by simp) rfl (fun _ hx => (mem_alive_close.mp hx).left) (fun _ _ => id)
    (fun _ _ hx _ => hx) fun x hx ho => ho.mono (fun hc => ?_) id (List.Subset.refl _)
  exact (List.mem_erase_of_ne (mem_alive_close.mp hx).right).mpr hc

theorem Inv.closeNext {i : Nat} {rest : List SessionRef} (h : Inv es s)
    (hi : s.closingAll[i]? = some (session :: rest)) :
    Inv (es ++ [.closeNext i]) ({ s with closingAll := s.closingAll.set i rest }.close session) := by
  refine h.quiet (fun _ => rfl) (by simp) rfl (fun _ hx => (mem_alive_close.mp hx).left) (fun _ _ => id)
    (fun _ _ hx _ => hx) fun x hx ho => ho.mono id (fun hc => ?_) (List.Subset.refl _)
  obtain ⟨xs, hxs, hc⟩ := hc
  obtain ⟨j, hj⟩ := List.mem_iff_getElem?.mp hxs
  have hlt := (List.getElem?_eq_some_iff.mp hi).fst
  by_cases hij : i = j
  case pos =>
    cases hi.symm.trans (hij ▸ hj)
    refine ⟨rest, List.mem_iff_getElem?.mpr ⟨i, List.getElem?_set_self hlt⟩, ?_⟩
    exact (List.mem_cons.mp hc).resolve_left (mem_alive_close.mp hx).right
  case neg =>
    refine ⟨xs, List.mem_iff_getElem?.mpr ⟨j, ?_⟩, hc⟩
    exact (List.getElem?_set_ne hij).trans hj

theorem Inv.get (h : Inv es s) : Inv (es ++ [.get d]) (s.get d).snd := by
  cases hf : s.sessions.find? d
  case none =>
    rw [SessionsState.get, hf]
    exact h.quiet (fun _ => rfl) (by simp) rfl (List.Subset.refl _) (fun _ _ => id) (fun _ _ hx _ => hx)
      fun _ _ => id
  case some y =>
    by_cases hy : y ∈ s.alive
    case pos =>
      simp only [SessionsState.get, hf, if_pos hy]
      exact h.quiet (fun _ => rfl) (by simp) rfl (List.Subset.refl _) (fun _ _ => id) (fun _ _ hx _ => hx)
        fun _ _ => id
    case neg =>
      simp only [SessionsState.get, hf, if_neg hy]
      refine h.quiet (fun _ => rfl) (by simp) rfl (List.Subset.refl _) (fun d' x hx => ?_)
        (fun d' x hx ha => ?_) fun _ _ => id
      · rw [Table.find?_erase] at hx
        exact (Option.ite_none_left_eq_some.mp hx).right
      · refine Table.find?_erase.trans ((if_neg fun hd => ?_).trans hx)
        subst hd
        cases hf.symm.trans hx
        exact hy ha

-- The entries of dead sessions are deleted, and no others.
theorem mem_dead (hf : s.sessions.find? d = some x) :
    d ∈ (s.sessions.rows.filter (· ∉ s.alive)).map (·.peerDeviceId) ↔ x ∉ s.alive := by
  simp only [List.mem_map, List.mem_filter, decide_eq_true_eq]
  constructor
  · rintro ⟨y, ⟨hy, ha⟩, rfl⟩
    cases hf.symm.trans (Table.find?_of_mem hy)
    exact ha
  · exact fun ha => ⟨x, ⟨Table.mem_of_find? hf, ha⟩, Table.key_of_find? hf⟩

theorem find?_activeDeviceIds :
    s.activeDeviceIds.snd.sessions.find? d = (s.sessions.find? d).filter (· ∈ s.alive) := by
  rw [activeDeviceIds, Table.find?_foldl_erase]
  cases hf : s.sessions.find? d
  case none => exact ite_self none
  case some x =>
    rw [Option.filter_some]
    by_cases hx : x ∈ s.alive
    · rw [if_neg fun hd => (mem_dead hf).mp hd hx, if_pos (decide_eq_true hx)]
    · rw [if_pos ((mem_dead hf).mpr hx), if_neg (by simpa using hx)]

theorem Inv.activeDeviceIds (h : Inv es s) : Inv (es ++ [.activeDeviceIds]) s.activeDeviceIds.snd := by
  refine h.quiet (fun _ => rfl) (by simp) rfl (List.Subset.refl _) (fun d x hx => ?_) (fun d x hx ha => ?_)
    fun _ _ => id
  · rw [find?_activeDeviceIds, Option.filter_eq_some_iff] at hx
    exact hx.left
  · rw [find?_activeDeviceIds, hx, Option.filter_some]
    exact if_pos (decide_eq_true ha)

-- A new session has not been registered.
theorem Inv.made' (h : Inv es s) (hn : session ∉ s.made) :
    Inv (es ++ [.made session]) { s with made := session :: s.made, alive := session :: s.alive } := by
  have hr : ∀ x, .register x ∈ es ++ [.made session] ↔ .register x ∈ es := by simp
  have hnew : ∀ x, .register x ∈ es → x ∈ session :: s.alive → x ∈ s.alive := by
    intro x hx ha
    refine (List.mem_cons.mp ha).resolve_left fun hs => ?_
    exact hn (hs ▸ h.known x hx)
  constructor <;> simp only [Latest.ofEvents_concat, Latest.after, hr]
  case made =>
    intro x hx
    obtain rfl | hx := List.mem_cons.mp hx
    · exact List.mem_cons_self
    · exact List.mem_cons_of_mem _ (h.made x hx)
  case known => exact fun x hx => List.mem_cons_of_mem _ (h.known x hx)
  case latest => exact h.latest
  case entry => exact h.entry
  case live => exact fun d x hx ha => h.live d x hx (hnew x (h.latest d x hx).right ha)
  case accounted => exact fun x hx ha => h.accounted x hx (hnew x hx ha)

theorem mem_closing_register (h : x ∈ s.closing) : x ∈ (s.register session).closing := by
  simp only [register]
  split
  · split
    · exact List.mem_cons_of_mem _ h
    · exact h
  · exact h

-- The session that was registered before is going to be closed.
theorem mem_closing_of_replaced (hf : s.sessions.find? session.peerDeviceId = some x) (ha : x ∈ s.alive)
    (hx : x ≠ session) : x ∈ (s.register session).closing := by
  simp only [register, hf, if_pos (And.intro ha hx)]
  exact List.mem_cons_self

theorem Inv.register (h : Inv es s) (hm : session ∈ s.made) :
    Inv (es ++ [.register session]) (s.register session) := by
  have hr : ∀ x, .register x ∈ es ++ [.register session] ↔ .register x ∈ es ∨ x = session := by simp
  constructor
  case made => exact h.made
  all_goals simp only [Latest.ofEvents_concat, Latest.after, hr]
  case known =>
    rintro x (hx | rfl)
    · exact h.known x hx
    · exact hm
  case latest =>
    intro d x hx
    by_cases hd : d = session.peerDeviceId
    · subst hd
      rw [Function.update_self, Option.some.injEq] at hx
      exact ⟨hx ▸ rfl, .inr hx.symm⟩
    · rw [Function.update_of_ne hd] at hx
      exact (h.latest d x hx).imp_right .inl
  case entry =>
    intro d x hx
    rw [show (s.register session).sessions = s.sessions.replace session from rfl, Table.find?_replace] at hx
    by_cases hd : d = session.peerDeviceId
    · rw [if_pos hd] at hx
      rw [hd, Function.update_self, hx]
    · rw [if_neg hd] at hx
      rw [Function.update_of_ne hd]
      exact h.entry d x hx
  case live =>
    intro d x hx ha
    rw [show (s.register session).sessions = s.sessions.replace session from rfl, Table.find?_replace]
    by_cases hd : d = session.peerDeviceId
    · rw [hd, Function.update_self] at hx
      rw [if_pos hd, hx]
    · rw [Function.update_of_ne hd] at hx
      rw [if_neg hd]
      exact h.live d x hx ha
  case accounted =>
    intro x hx ha
    by_cases hs : x = session
    case pos =>
      subst hs
      exact .inl (Function.update_self ..)
    case neg =>
      obtain hl | ho := h.accounted x (hx.resolve_right hs) ha
      case inr => exact .inr (ho.mono mem_closing_register id (List.Subset.refl _))
      case inl =>
        by_cases hd : x.peerDeviceId = session.peerDeviceId
        · have hf := hd ▸ h.live _ x hl ha
          exact .inr (.inl (mem_closing_of_replaced hf ha hs))
        · exact .inl ((Function.update_of_ne hd ..).trans hl)

theorem Inv.remove (h : Inv es s) : Inv (es ++ [.remove d]) (s.remove d).snd := by
  have hr : ∀ x, .register x ∈ es ++ [.remove d] ↔ .register x ∈ es := by simp
  constructor
  case made => exact h.made
  all_goals simp only [Latest.ofEvents_concat, Latest.after, hr]
  case known => exact h.known
  case latest =>
    intro d' x hx
    by_cases hd : d' = d
    · rw [hd, Function.update_self] at hx
      cases hx
    · rw [Function.update_of_ne hd] at hx
      exact h.latest d' x hx
  case entry =>
    intro d' x hx
    simp only [SessionsState.remove, Table.find?_erase, Option.ite_none_left_eq_some] at hx
    rw [Function.update_of_ne hx.left]
    exact h.entry d' x hx.right
  case live =>
    intro d' x hx ha
    by_cases hd : d' = d
    · rw [hd, Function.update_self] at hx
      cases hx
    · rw [Function.update_of_ne hd] at hx
      exact Table.find?_erase.trans ((if_neg hd).trans (h.live d' x hx ha))
  case accounted =>
    intro x hx ha
    have hsub : s.removed ⊆ (s.remove d).snd.removed := List.subset_append_right _ _
    obtain hl | ho := h.accounted x hx ha
    case inr => exact .inr (ho.mono id id hsub)
    case inl =>
      by_cases hd : x.peerDeviceId = d
      · have hf := hd ▸ h.live _ x hl ha
        refine .inr (.inr (.inr (List.mem_append_left _ ?_)))
        rw [hf]
        exact List.mem_singleton_self x
      · exact .inl ((Function.update_of_ne hd ..).trans hl)

theorem Inv.closeAll (h : Inv es s) : Inv (es ++ [.closeAll])
    { s with sessions := .empty, closingAll := s.sessions.rows :: s.closingAll } := by
  have hr : ∀ x, .register x ∈ es ++ [.closeAll] ↔ .register x ∈ es := by simp
  constructor <;> simp only [Latest.ofEvents_concat, Latest.after, hr]
  case made => exact h.made
  case known => exact h.known
  case latest | live =>
    intro _ _ hx
    cases hx
  case entry =>
    intro _ _ hx
    cases hx
  case accounted =>
    intro x hx ha
    obtain hl | ho := h.accounted x hx ha
    case inl =>
      exact .inr (.inr (.inl ⟨_, List.mem_cons_self, Table.mem_of_find? (h.live _ x hl ha)⟩))
    case inr =>
      refine .inr (ho.mono id (fun hc => ?_) (List.Subset.refl _))
      obtain ⟨xs, hxs, hc⟩ := hc
      exact ⟨xs, List.mem_cons_of_mem _ hxs, hc⟩

theorem Inv.step (h : Inv es s) (hs : s.step e = some s') : Inv (es ++ [e]) s' := by
  cases e <;> simp only [SessionsState.step, Option.ite_none_left_eq_some, Option.ite_none_right_eq_some,
    Option.some.injEq] at hs
  case made session => exact hs.right ▸ h.made' hs.left
  case lost session => exact hs ▸ h.lost
  case register session => exact hs.right ▸ h.register hs.left
  case get d => exact hs ▸ h.get
  case remove d => exact hs ▸ h.remove
  case activeDeviceIds => exact hs ▸ h.activeDeviceIds
  case closeAll => exact hs ▸ h.closeAll
  case closeTask session => exact hs.right ▸ h.closeTask
  case closeNext i =>
    split at hs
    case h_1 session rest hi => exact Option.some.inj hs ▸ h.closeNext hi
    case h_2 => cases hs

end SessionsState

namespace SessionsState.Reconnect

-- A peer connects twice. The first session is about to be closed when the second one is lost.

def first : SessionRef := ⟨0, .ofString "ab"⟩

def second : SessionRef := ⟨1, .ofString "ab"⟩

def events : List SessionsEvent :=
  [.made first, .register first, .made second, .register second, .get (.ofString "ab"), .lost second,
    .activeDeviceIds]

end SessionsState.Reconnect
