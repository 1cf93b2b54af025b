import Peerc.Lib.PyValue

-- Replacing what is stored under certain keys, at every depth

namespace PyValue

variable (inTuples : Bool) (p : Str → Bool) (f : PyValue → PyValue)

mutual

def replace : PyValue → PyValue
  | scalar s    => scalar s
  | list items  => list (replaceItems items)
  | tuple items => if inTuples then tuple (replaceItems items) else tuple items
  | dict fields => dict (replaceFields fields)

def replaceItems : List PyValue → List PyValue
  | []      => []
  | v :: vs => replace v :: replaceItems vs

def replaceFields : List (Str × PyValue) → List (Str × PyValue)
  | []            => []
  | (k, v) :: kvs => (k, if p k then f v else replace v) :: replaceFields kvs

end

-- `x` is stored under the key `k`, at some depth.
inductive Stores (k : Str) (x : PyValue) : PyValue → Prop
  | here {fields : List (Str × PyValue)} (mem : (k, x) ∈ fields) : Stores k x (dict fields)
  | field {fields : List (Str × PyValue)} {l : Str} {v : PyValue} (mem : (l, v) ∈ fields)
    (stores : Stores k x v) : Stores k x (dict fields)
  | item {items : List PyValue} {v : PyValue} (mem : v ∈ items) (stores : Stores k x v) :
    Stores k x (list items)
  | element {items : List PyValue} {v : PyValue} (mem : v ∈ items) (stores : Stores k x v) :
    Stores k x (tuple items)

-- Some value is stored under such a key.
inductive HasKey : PyValue → Prop
  | here {fields : List (Str × PyValue)} {k : Str} {x : PyValue} (mem : (k, x) ∈ fields) (key : p k) :
    HasKey (dict fields)
  | field {fields : List (Str × PyValue)} {k : Str} {v : PyValue} (mem : (k, v) ∈ fields)
    (has : HasKey v) : HasKey (dict fields)
  | item {items : List PyValue} {v : PyValue} (mem : v ∈ items) (has : HasKey v) : HasKey (list items)
  | element {items : List PyValue} {v : PyValue} (mem : v ∈ items) (has : HasKey v) :
    HasKey (tuple items)

-- There is such a key in a tuple that is not itself stored under one.
inductive Exposed : PyValue → Prop
  | tuple {items : List PyValue} {v : PyValue} (mem : v ∈ items) (has : HasKey p v) : Exposed (tuple items)
  | item {items : List PyValue} {v : PyValue} (mem : v ∈ items) (exposed : Exposed v) :
    Exposed (list items)
  | field {fields : List (Str × PyValue)} {k : Str} {v : PyValue} (mem : (k, v) ∈ fields) (key : ¬p k)
    (exposed : Exposed v) : Exposed (dict fields)

variable {inTuples p f} {v w r x : PyValue} {items : List PyValue} {fields : List (Str × PyValue)}

theorem replaceItems_eq : replaceItems inTuples p f items = items.map (replace inTuples p f) := by
  induction items <;> simp [replaceItems, *]

theorem replaceFields_eq : replaceFields inTuples p f fields =
    fields.map fun kv => (kv.fst, if p kv.fst then f kv.snd else kv.snd.replace inTuples p f) := by
  induction fields <;> simp [replaceFields, *]

@[simp]
theorem replace_scalar {s : PyScalar} : replace inTuples p f (scalar s) = scalar s := by
  rw [replace]

@[simp]
theorem replace_list : replace inTuples p f (list items) = list (items.map (replace inTuples p f)) := by
  rw [replace, replaceItems_eq]

@[simp]
theorem replace_dict : replace inTuples p f (dict fields) =
    dict (fields.map fun kv => (kv.fst, if p kv.fst then f kv.snd else kv.snd.replace inTuples p f)) := by
  rw [replace, replaceFields_eq]

@[simp]
theorem replace_tuple : replace true p f (tuple items) = tuple (items.map (replace true p f)) := by
  rw [replace, if_pos rfl, replaceItems_eq]

@[simp]
theorem replace_false_tuple : replace false p f (tuple items) = tuple items := by
  rw [replace, if_neg Bool.false_ne_true]

-- What an earlier replacement has put under the keys does not matter.
theorem replace_replace {inner : Bool} {g : PyValue → PyValue} (h : inner → inTuples) (v : PyValue) :
    replace inTuples p (fun _ => r) (replace inner p g v) = replace inTuples p (fun _ => r) v := by
  induction v using induct
  case scalar => simp
  case list items hi =>
    simp only [replace_list, List.map_map, list.injEq]
    exact List.map_congr_left hi
  case tuple items hi =>
    cases inner
    case false => rw [replace_false_tuple]
    case true =>
      obtain rfl := h rfl
      simp only [replace_tuple, List.map_map, tuple.injEq]
      exact List.map_congr_left hi
  case dict fields hi =>
    simp only [replace_dict, List.map_map, dict.injEq]
    refine List.map_congr_left fun kv hkv => ?_
    by_cases hp : p kv.fst
    case pos => simp only [Function.comp_apply, if_pos hp]
    case neg => simp only [Function.comp_apply, if_neg hp, hi kv hkv]

theorem eq_of_stores_replace {k : Str} (hp : p k) (h : Stores k x (replace true p (fun _ => r) v))
    (hr : ¬Stores k x r) : x = r := by
  induction v using induct
  case scalar =>
    rw [replace_scalar] at h
    cases h
  case list items hi =>
    rw [replace_list] at h
    cases h
    case item hs hm =>
      obtain ⟨v, hv, rfl⟩ := List.mem_map.mp hm
      exact hi v hv hs
  case tuple items hi =>
    rw [replace_tuple] at h
    cases h
    case element hs hm =>
      obtain ⟨v, hv, rfl⟩ := List.mem_map.mp hm
      exact hi v hv hs
  case dict fields hi =>
    rw [replace_dict] at h
    cases h
    case here hm =>
      obtain ⟨kv, -, he⟩ := List.mem_map.mp hm
      obtain ⟨rfl, rfl⟩ := Prod.mk.inj he
      exact if_pos hp
    case field hs hm =>
      obtain ⟨kv, hkv, he⟩ := List.mem_map.mp hm
      obtain ⟨rfl, rfl⟩ := Prod.mk.inj he
      split_ifs at hs
      · exact absurd hs hr
      · exact hi kv hkv hs

-- Without such keys there is nothing to replace, and a replacement neither adds nor removes them.

theorem replace_of_not_hasKey (h : ¬HasKey p v) : replace inTuples p f v = v := by
  have hid {α : Type} {g : α → α} {l : List α} (hg : ∀ a ∈ l, g a = a) : l.map g = l :=
    (List.map_congr_left hg).trans (List.map_id l)
  induction v using induct
  case scalar => exact replace_scalar
  case list items hi =>
    rw [replace_list, hid fun v hv => hi v hv fun hk => h (.item hv hk)]
  case tuple items hi =>
    cases inTuples
    case false => exact replace_false_tuple
    case true => rw [replace_tuple, hid fun v hv => hi v hv fun hk => h (.element hv hk)]
  case dict fields hi =>
    rw [replace_dict, hid fun kv hkv => ?_]
    have hp : ¬p kv.fst := fun hp => h (.here hkv hp)
    rw [if_neg hp, hi kv hkv fun hk => h (.field hkv hk)]

theorem hasKey_replace : HasKey p (replace true p f v) ↔ HasKey p v := by
  constructor
  case mp =>
    intro h
    induction v using induct
    case scalar =>
      rw [replace_scalar] at h
      exact h
    case list items hi =>
      rw [replace_list] at h
      cases h
      case item hk hm =>
        obtain ⟨v, hv, rfl⟩ := List.mem_map.mp hm
        exact .item hv (hi v hv hk)
    case tuple items hi =>
      rw [replace_tuple] at h
      cases h
      case element hk hm =>
        obtain ⟨v, hv, rfl⟩ := List.mem_map.mp hm
        exact .element hv (hi v hv hk)
    case dict fields hi =>
      rw [replace_dict] at h
      cases h
      case here hp hm =>
        obtain ⟨kv, hkv, he⟩ := List.mem_map.mp hm
        obtain ⟨rfl, -⟩ := Prod.mk.inj he
        exact .here hkv hp
      case field hk hm =>
        obtain ⟨kv, hkv, he⟩ := List.mem_map.mp hm
        obtain ⟨rfl, rfl⟩ := Prod.mk.inj he
        split_ifs at hk with hp
        · exact .here hkv hp
        · exact .field hkv (hi kv hkv hk)
  case mpr =>
    intro h
    induction h
    case here hm hp =>
      rw [replace_dict]
      exact .here (List.mem_map_of_mem hm) hp
    case field k v hm hk hi =>
      rw [replace_dict]
      by_cases hp : p k
      case pos => exact .here (List.mem_map_of_mem hm) hp
      case neg =>
        refine .field (List.mem_map_of_mem hm) ?_
        rwa [if_neg hp]
    case item hm hk hi =>
      rw [replace_list]
      exact .item (List.mem_map_of_mem hm) hi
    case element hm hk hi =>
      rw [replace_tuple]
      exact .element (List.mem_map_of_mem hm) hi

theorem exposed_replace : Exposed p (replace true p f v) ↔ Exposed p v := by
  constructor
  case mp =>
    intro h
    induction v using induct
    case scalar =>
      rw [replace_scalar] at h
      exact h
    case list items hi =>
      rw [replace_list] at h
      cases h
      case item he hm =>
        obtain ⟨v, hv, rfl⟩ := List.mem_map.mp hm
        exact .item hv (hi v hv he)
    case tuple items hi =>
      rw [replace_tuple] at h
      cases h
      case tuple hk hm =>
        obtain ⟨v, hv, rfl⟩ := List.mem_map.mp hm
        exact .tuple hv (hasKey_replace.mp hk)
    case dict fields hi =>
      rw [replace_dict] at h
      cases h
      case field hp he hm =>
        obtain ⟨kv, hkv, hx⟩ := List.mem_map.mp hm
        obtain ⟨rfl, rfl⟩ := Prod.mk.inj hx
        rw [if_neg hp] at he
        exact .field hkv hp (hi kv hkv he)
  case mpr =>
    intro h
    induction h
    case tuple hm hk =>
      rw [replace_tuple]
      exact .tuple (List.mem_map_of_mem hm) (hasKey_replace.mpr hk)
    case item hm _ hi =>
      rw [replace_list]
      exact .item (List.mem_map_of_mem hm) hi
    case field hm hp _ hi =>
      rw [replace_dict]
      refine .field (List.mem_map_of_mem hm) hp ?_
      rwa [if_neg hp]

-- Leaving out the tuples makes no difference if no key is exposed.
theorem replace_false_eq (h : ¬Exposed p v) : replace false p f v = replace true p f v := by
  induction v using induct
  case scalar => rw [replace_scalar, replace_scalar]
  case list items hi =>
    rw [replace_list, replace_list, List.map_congr_left fun v hv => hi v hv fun he => h (.item hv he)]
  case tuple items hi =>
    have hk : ¬HasKey p (tuple items) := by
      intro hk
      cases hk
      case element hk hm => exact h (.tuple hm hk)
    rw [replace_false_tuple, replace_of_not_hasKey hk]
  case dict fields hi =>
    rw [replace_dict, replace_dict, dict.injEq]
    refine List.map_congr_left fun kv hkv => ?_
    by_cases hp : p kv.fst
    case pos => rw [if_pos hp, if_pos hp]
    case neg => rw [if_neg hp, if_neg hp, hi kv hkv fun he => h (.field hkv hp he)]

-- Otherwise it shows: with another value under the keys the result is different.

theorem replace_ne (hf : ∀ x, f x ≠ x) (h : HasKey p v) : replace true p f v ≠ v := by
  have hid {α : Type} {g : α → α} {l : List α} (hg : l.map g = l) : ∀ a ∈ l, g a = a :=
    List.map_inj_left.mp (hg.trans (List.map_id l).symm)
  induction h
  case here k x hm hp =>
    rw [replace_dict]
    intro he
    have hx := hid (dict.inj he) _ hm
    rw [if_pos hp] at hx
    exact hf x (Prod.mk.inj hx).right
  case field k w hm hk hi =>
    rw [replace_dict]
    intro he
    have hx := (Prod.mk.inj (hid (dict.inj he) _ hm)).right
    split_ifs at hx
    · exact hf w hx
    · exact hi hx
  case item hm _ hi =>
    rw [replace_list]
    exact fun he => hi (hid (list.inj he) _ hm)
  case element hm _ hi =>
    rw [replace_tuple]
    exact fun he => hi (hid (tuple.inj he) _ hm)

theorem replace_false_ne {g : PyValue → PyValue} (hf : ∀ x, f x ≠ x) (h : Exposed p v) :
    replace false p g (replace true p f v) ≠ replace false p g v := by
  induction h
  case tuple hm hk =>
    rw [replace_tuple, replace_false_tuple, replace_false_tuple, ← replace_tuple]
    exact replace_ne hf (.element hm hk)
  case item v hm _ hi =>
    rw [replace_list, replace_list, replace_list, List.map_map]
    exact fun he => hi (List.map_inj_left.mp (list.inj he) v hm)
  case field k v hm hp _ hi =>
    rw [replace_dict, replace_dict, replace_dict, List.map_map]
    intro he
    have hx := (Prod.mk.inj (List.map_inj_left.mp (dict.inj he) _ hm)).right
    simp only [if_neg hp] at hx
    exact hi hx

end PyValue
