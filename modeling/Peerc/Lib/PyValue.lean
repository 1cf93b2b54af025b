import Peerc.Lib.Json.RoundTrip

-- The values of Python that `json.dumps` serialises

inductive PyScalar
  | none
  | bool (b : Bool)
  | int (n : Int)
  | float (x : Double)
  | str (s : Str)
  deriving DecidableEq

-- The keys of a `dict` are strings.
inductive PyValue
  | scalar (s : PyScalar)
  | list (items : List PyValue)
  | tuple (items : List PyValue)
  | dict (fields : List (Str × PyValue))

namespace PyValue

theorem induct {p : PyValue → Prop} (scalar : ∀ s, p (.scalar s))
    (list : ∀ items, (∀ v ∈ items, p v) → p (.list items))
    (tuple : ∀ items, (∀ v ∈ items, p v) → p (.tuple items))
    (dict : ∀ fields, (∀ kv ∈ fields, p kv.snd) → p (.dict fields)) (v : PyValue) : p v :=
  @PyValue.rec p (fun items => ∀ v ∈ items, p v) (fun fields => ∀ kv ∈ fields, p kv.snd) (fun kv => p kv.snd)
    scalar list tuple dict (List.forall_mem_nil _) (fun _ _ hv hvs => List.forall_mem_cons.mpr ⟨hv, hvs⟩)
    (List.forall_mem_nil _) (fun _ _ hv hvs => List.forall_mem_cons.mpr ⟨hv, hvs⟩) (fun _ _ hv => hv) v

end PyValue

-- `json.dumps(v, separators=(",", ":"))`

def PyScalar.dumps (F : FloatFormat) : PyScalar → Option Str
  | none       => some (Str.ofString "null")
  | bool true  => some (Str.ofString "true")
  | bool false => some (Str.ofString "false")
  | int n      => Json.dumpsInt n
  | float x    => some (Json.dumpsFloat F x)
  | str s      => some (Json.escape s)

namespace PyValue

variable (F : FloatFormat)

mutual

-- A `tuple` is written like a `list`.
def dumps : PyValue → Option Str
  | scalar s    => s.dumps F
  | list items  => do return 0x5B :: (← dumpsItems items) ++ [0x5D]
  | tuple items => do return 0x5B :: (← dumpsItems items) ++ [0x5D]
  | dict fields => do return 0x7B :: (← dumpsFields fields) ++ [0x7D]

def dumpsItems : List PyValue → Option Str
  | []           => some []
  | [v]          => dumps v
  | v :: w :: vs => do return (← dumps v) ++ 0x2C :: (← dumpsItems (w :: vs))

def dumpsFields : List (Str × PyValue) → Option Str
  | []                  => some []
  | [(k, v)]            => do return Json.escape k ++ 0x3A :: (← dumps v)
  | (k, v) :: kv :: kvs => do
    return Json.escape k ++ 0x3A :: (← dumps v) ++ 0x2C :: (← dumpsFields (kv :: kvs))

end

-- The order in which `sort_keys=True` writes the keys, at every level

def sortFields (fields : List (Str × PyValue)) : List (Str × PyValue) :=
  fields.insertionSort fun a b => ¬b.fst < a.fst

mutual

def sortKeys : PyValue → PyValue
  | scalar s    => scalar s
  | list items  => list (sortKeysItems items)
  | tuple items => tuple (sortKeysItems items)
  | dict fields => dict (sortFields (sortKeysFields fields))

def sortKeysItems : List PyValue → List PyValue
  | []      => []
  | v :: vs => sortKeys v :: sortKeysItems vs

def sortKeysFields : List (Str × PyValue) → List (Str × PyValue)
  | []            => []
  | (k, v) :: kvs => (k, sortKeys v) :: sortKeysFields kvs

end

@[simp]
theorem sortKeysItems_eq (items : List PyValue) : sortKeysItems items = items.map sortKeys := by
  induction items <;> simp [sortKeysItems, *]

@[simp]
theorem sortKeysFields_eq (fields : List (Str × PyValue)) :
    sortKeysFields fields = fields.map fun kv => (kv.fst, kv.snd.sortKeys) := by
  induction fields <;> simp [sortKeysFields, *]

-- The values that `json.loads` returns

mutual

def ofJson : Json → PyValue
  | .null       => scalar .none
  | .bool b     => scalar (.bool b)
  | .int n      => scalar (.int n)
  | .float x    => scalar (.float x)
  | .str s      => scalar (.str s.val)
  | .arr items  => list (ofJsonItems items)
  | .obj fields => dict (ofJsonFields fields)

def ofJsonItems : List Json → List PyValue
  | []      => []
  | v :: vs => ofJson v :: ofJsonItems vs

def ofJsonFields : List (Text × Json) → List (Str × PyValue)
  | []            => []
  | (k, v) :: kvs => (k.val, ofJson v) :: ofJsonFields kvs

end

inductive IsJson : PyValue → Prop
  | none : IsJson (scalar .none)
  | bool {b : Bool} : IsJson (scalar (.bool b))
  | int {n : Int} : IsJson (scalar (.int n))
  | float {x : Double} (nan : x.isNaN → x = .nan) : IsJson (scalar (.float x))
  | str {s : Str} (text : NoPair s) : IsJson (scalar (.str s))
  | list {items : List PyValue} (values : ∀ v ∈ items, IsJson v) : IsJson (list items)
  | dict {fields : List (Str × PyValue)} (text : ∀ kv ∈ fields, NoPair kv.fst)
    (nodup : (fields.map Prod.fst).Nodup) (values : ∀ kv ∈ fields, IsJson kv.snd) : IsJson (dict fields)

mutual

theorem dumps_ofJson : (v : Json) → dumps F (ofJson v) = v.dumps F .compact
  | .null | .int _ | .float _ | .str _ => by simp [ofJson, dumps, PyScalar.dumps, Json.dumps]
  | .bool b => by cases b <;> simp [ofJson, dumps, PyScalar.dumps, Json.dumps]
  | .arr items => by simp only [ofJson, dumps, Json.dumps, dumpsItems_ofJsonItems items]
  | .obj fields => by simp only [ofJson, dumps, Json.dumps, dumpsFields_ofJsonFields fields]

theorem dumpsItems_ofJsonItems : (vs : List Json) →
    dumpsItems F (ofJsonItems vs) = Json.dumpsItems F .compact vs
  | [] => by simp [ofJsonItems, dumpsItems, Json.dumpsItems]
  | [v] => by simp only [ofJsonItems, dumpsItems, Json.dumpsItems, dumps_ofJson v]
  | v :: w :: vs => by
    have h := dumpsItems_ofJsonItems (w :: vs)
    simp only [ofJsonItems] at h
    simp only [ofJsonItems, dumpsItems, Json.dumpsItems, dumps_ofJson v, h, Json.Style.item,
      List.append_assoc, List.singleton_append]

theorem dumpsFields_ofJsonFields : (kvs : List (Text × Json)) →
    dumpsFields F (ofJsonFields kvs) = Json.dumpsFields F .compact kvs
  | [] => by simp [ofJsonFields, dumpsFields, Json.dumpsFields]
  | [(k, v)] => by
    simp only [ofJsonFields, dumpsFields, Json.dumpsFields, dumps_ofJson v, Json.Style.key,
      List.append_assoc, List.singleton_append]
  | (k, v) :: (l, w) :: kvs => by
    have h := dumpsFields_ofJsonFields ((l, w) :: kvs)
    simp only [ofJsonFields] at h
    simp only [ofJsonFields, dumpsFields, Json.dumpsFields, dumps_ofJson v, h, Json.Style.key, Json.Style.item,
      List.append_assoc, List.cons_append, List.nil_append]

end

variable {F : FloatFormat} {v w : PyValue} {t : Str}

theorem exists_ofJsonItems {items : List PyValue}
    (h : ∀ v ∈ items, ∃ j : Json, j.WellFormed ∧ ofJson j = v) :
    ∃ js, Json.WellFormedItems js ∧ ofJsonItems js = items := by
  induction items
  case nil => exact ⟨[], trivial, rfl⟩
  case cons v vs hi =>
    rw [List.forall_mem_cons] at h
    obtain ⟨⟨j, hj, rfl⟩, h⟩ := h
    obtain ⟨js, hjs, rfl⟩ := hi h
    exact ⟨j :: js, ⟨hj, hjs⟩, rfl⟩

theorem exists_ofJsonFields {fields : List (Str × PyValue)} (ht : ∀ kv ∈ fields, NoPair kv.fst)
    (h : ∀ kv ∈ fields, ∃ j : Json, j.WellFormed ∧ ofJson j = kv.snd) :
    ∃ js : List (Text × Json), Json.WellFormedFields js ∧ ofJsonFields js = fields ∧
      js.map (fun kv => kv.fst.val) = fields.map Prod.fst := by
  induction fields
  case nil => exact ⟨[], trivial, rfl, rfl⟩
  case cons kv kvs hi =>
    obtain ⟨k, v⟩ := kv
    rw [List.forall_mem_cons] at ht h
    obtain ⟨⟨j, hj, rfl⟩, h⟩ := h
    obtain ⟨js, hjs, rfl, hk⟩ := hi ht.right h
    exact ⟨(⟨k, ht.left⟩, j) :: js, ⟨hj, hjs⟩, rfl, congrArg (k :: ·) hk⟩

theorem IsJson.exists_ofJson (h : IsJson v) : ∃ j : Json, j.WellFormed ∧ ofJson j = v := by
  induction h
  case none => exact ⟨.null, trivial, rfl⟩
  case bool b => exact ⟨.bool b, trivial, rfl⟩
  case int n => exact ⟨.int n, trivial, rfl⟩
  case float x nan => exact ⟨.float x, nan, rfl⟩
  case str s text => exact ⟨.str ⟨s, text⟩, trivial, rfl⟩
  case list hi =>
    obtain ⟨js, hjs, rfl⟩ := exists_ofJsonItems hi
    exact ⟨.arr js, hjs, rfl⟩
  case dict text nodup _ hi =>
    obtain ⟨js, hjs, rfl, hk⟩ := exists_ofJsonFields text hi
    refine ⟨.obj js, ⟨?_, hjs⟩, rfl⟩
    rw [← hk] at nodup
    exact .of_map Subtype.val (by rwa [List.map_map])

-- The text of a value that was read determines it.
theorem dumps_inj (hv : IsJson v) (hw : IsJson w) (h : dumps F v = some t) (h' : dumps F w = some t) :
    v = w := by
  obtain ⟨j, hj, rfl⟩ := hv.exists_ofJson
  obtain ⟨j', hj', rfl⟩ := hw.exists_ofJson
  rw [dumps_ofJson] at h h'
  have hl := (Json.loads_dumps hj h).symm.trans (Json.loads_dumps hj' h')
  rw [Except.ok.inj hl]

theorem dumps_printable (hv : IsJson v) (h : dumps F v = some t) : Json.Printable t := by
  obtain ⟨j, -, rfl⟩ := hv.exists_ofJson
  rw [dumps_ofJson] at h
  exact Json.dumps_printable j t h

theorem IsJson.sortKeys (h : IsJson v) : IsJson v.sortKeys := by
  induction h
  case none => exact .none
  case bool => exact .bool
  case int => exact .int
  case float nan => exact .float nan
  case str text => exact .str text
  case list hi =>
    refine .list fun v hv => ?_
    rw [sortKeysItems_eq] at hv
    obtain ⟨w, hw, rfl⟩ := List.mem_map.mp hv
    exact hi w hw
  case dict fields text nodup _ hi =>
    have hp : (sortFields (fields.map fun kv => (kv.fst, kv.snd.sortKeys))).Perm _ :=
      List.perm_insertionSort ..
    have hm : ∀ kv ∈ sortFields (fields.map fun kv => (kv.fst, kv.snd.sortKeys)),
        ∃ kv' ∈ fields, (kv'.fst, kv'.snd.sortKeys) = kv :=
      fun kv hkv => List.mem_map.mp (hp.mem_iff.mp hkv)
    rw [PyValue.sortKeys, sortKeysFields_eq]
    refine .dict (fun kv hkv => ?_) ?_ (fun kv hkv => ?_)
    · obtain ⟨kv', hm, rfl⟩ := hm kv hkv
      exact text kv' hm
    · rw [(hp.map Prod.fst).nodup_iff, List.map_map]
      exact nodup
    · obtain ⟨kv', hm, rfl⟩ := hm kv hkv
      exact hi kv' hm

end PyValue
