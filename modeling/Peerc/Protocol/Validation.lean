import Peerc.Lib.Refines
import Peerc.Protocol.Messages

-- What is known of a message that has been validated

namespace Protocol

variable {message : Json} {msgType field : String} {required : List String}

theorem checkPresent_eq_ok (h : checkPresent msgType required message = .ok ()) :
    ∀ f ∈ required, ∃ v, message.get? (.ofString f) = some v := by
  intro f hf
  apply Option.isSome_iff_exists.mp
  by_contra hn
  have hm : f ∈ required.filter fun f => (message.get? (.ofString f)).isNone :=
    List.mem_filter.mpr ⟨hf, by simpa using hn⟩
  rw [checkPresent, if_pos (List.ne_nil_of_mem hm)] at h
  cases h

theorem checkNonEmptyText_eq_ok (h : checkNonEmptyText msgType field message = .ok ()) :
    ∃ s, message.text? field = some s := by
  unfold checkNonEmptyText at h
  split at h
  case h_1 s hs => exact ⟨s, hs⟩
  case h_2 => cases h

theorem checkNatural_eq_ok (h : checkNatural msgType field message = .ok ()) :
    ∃ n, (message.get? (.ofString field)).bind Json.int? = some n ∧ 0 ≤ n := by
  unfold checkNatural at h
  split at h
  case h_2 => cases h
  case h_1 n hn =>
    split at h
    case isTrue => cases h
    case isFalse hl => exact ⟨n, hn, Int.not_lt.mp hl⟩

theorem checkFileOffer_eq_ok (h : checkFileOffer message = .ok ()) :
    (∃ filename, message.text? "filename" = some filename) ∧
      ∃ size, (message.get? (.ofString "size")).bind Json.int? = some size ∧ 0 ≤ size := by
  have ⟨_, hf, h⟩ := Except.bind_eq_ok.mp h
  have ⟨_, hs, _⟩ := Except.bind_eq_ok.mp h
  exact ⟨checkNonEmptyText_eq_ok hf, checkNatural_eq_ok hs⟩

-- The type of a validated message is a string, and the fields of a known type pass its checks.
theorem validateMessage_eq_ok (h : validateMessage message = .ok ()) :
    ∃ t, message.text? "type" = some t ∧
      ∀ msgType required, requiredFields.find? (Str.ofString ·.fst = t.val) = some (msgType, required) →
        checkPresent msgType required message = .ok () ∧ checkFields msgType message = .ok () := by
  unfold validateMessage at h
  split at h
  case h_2 => cases h
  case h_1 =>
    split at h
    case h_1 => cases h
    case h_2 t ht =>
      split at h
      case isTrue => cases h
      case isFalse =>
        refine ⟨t, ht, fun msgType required hr => ?_⟩
        have ⟨_, _, h⟩ := Except.bind_eq_ok.mp h
        rw [hr] at h
        have ⟨_, hp, hc⟩ := Except.bind_eq_ok.mp h
        exact ⟨hp, hc⟩

theorem validated_fields (h : validateMessage message = .ok ())
    (ht : message.text? "type" = some (.ofString msgType))
    (hr : requiredFields.find? (Str.ofString ·.fst = Str.ofString msgType) = some (msgType, required)) :
    (∀ f ∈ required, ∃ v, message.get? (.ofString f) = some v) ∧ checkFields msgType message = .ok () := by
  have ⟨t, ht', h⟩ := validateMessage_eq_ok h
  cases ht.symm.trans ht'
  have ⟨hp, hc⟩ := h msgType required hr
  exact ⟨checkPresent_eq_ok hp, hc⟩

end Protocol
