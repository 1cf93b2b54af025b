import Peerc.Lib.Json.Basic

-- The text of an exception: literal parts, and the values interpolated by `{s}` and `{s!r}`.
inductive Fragment
  | text (s : String)
  | str  (s : Str)
  | repr (s : Str)
  | reprOpt (s : Option Str)
  | int (n : Int)
  | names (l : List String)
  | json (v : Json)
  -- The text of an exception that a library raised
  | exc (name : String)

abbrev Message := List Fragment
