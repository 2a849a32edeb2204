import Mathlib.Data.List.Basic

/-!
# `five/config.h`

Config structs that are loaded from and saved to TOML tables member by member. toml++ is not part of
the repository. What the macros rely on is that a table is a map from keys to nodes and that
`value<T>()` gives what a node of type `T` holds; which other nodes it converts is left open.
-/

namespace Hnet

namespace Toml

/-- `toml::node`. `X` is what the nodes of the other types hold: floats, booleans, dates, times and
arrays. -/
inductive Node (X : Type) where
  | string (s : String)
  | integer (n : Int64)
  | table (entries : List (String × Node X))
  | other (x : X)

/-- `toml::table` -/
abbrev Table (X : Type) := List (String × Node X)

variable {X : Type}

def Node.asTable : Node X → Option (Table X)
  | .table entries => some entries
  | _ => none

namespace Table

/-- `tbl[name]` -/
def find : Table X → String → Option (Node X)
  | [], _ => none
  | (key, node) :: tbl, name => if key = name then some node else find tbl name

def contains (tbl : Table X) (name : String) : Bool := (tbl.find name).isSome

def insertOrAssign : Table X → String → Node X → Table X
  | [], name, node => [(name, node)]
  | (key, old) :: tbl, name, node =>
      if key = name then (key, node) :: tbl else (key, old) :: insertOrAssign tbl name node

theorem find_insertOrAssign (tbl : Table X) (name key : String) (node : Node X) :
    (tbl.insertOrAssign name node).find key = if name = key then some node else tbl.find key := by
  induction tbl with
  | nil => rfl
  | cons entry tbl ih =>
      obtain ⟨first, old⟩ := entry
      unfold insertOrAssign
      by_cases hname : first = name
      · subst hname
        rw [if_pos rfl]
        by_cases hkey : first = key
        · rw [if_pos hkey, find, if_pos hkey]
        · rw [if_neg hkey, find, if_neg hkey, find, if_neg hkey]
      · rw [if_neg hname, find, find, ih]
        by_cases hkey : first = key
        · rw [if_pos hkey, if_neg (fun heq => hname (hkey.trans heq.symm)), if_pos hkey]
        · rw [if_neg hkey, if_neg hkey]

end Table

/-- `value<std::string>()` and `value<int64_t>()` of a node, empty when toml++ cannot convert it. -/
structure Conversions (X : Type) where
  asString : Node X → Option String
  asInt64 : Node X → Option Int64
  asString_string : ∀ s, asString (.string s) = some s
  asInt64_integer : ∀ n, asInt64 (.integer n) = some n

/-- No conversions between types. -/
def Conversions.exact : Conversions X where
  asString
    | .string s => some s
    | _ => none
  asInt64
    | .integer n => some n
    | _ => none
  asString_string _ := rfl
  asInt64_integer _ := rfl

end Toml

namespace Config

open Toml

variable {X : Type}

/-- The types `CONFIG_DEFINE_SAVELOAD_FOR_TYPE` is used for. -/
inductive Scalar where
  | string
  | int64
  deriving DecidableEq, Repr

namespace Scalar

abbrev Val : Scalar → Type
  | string => String
  | int64 => Int64

/-- `value<type>()` -/
def value (conv : Conversions X) : (type : Scalar) → Node X → Option type.Val
  | string, node => conv.asString node
  | int64, node => conv.asInt64 node

def node : (type : Scalar) → type.Val → Node X
  | string, s => .string s
  | int64, n => .integer n

@[simp]
theorem value_node (conv : Conversions X) (type : Scalar) (t : type.Val) :
    type.value conv (type.node t) = some t := by
  cases type with
  | string => exact conv.asString_string t
  | int64 => exact conv.asInt64_integer t

end Scalar

/-- The members of a config struct in the order of its `TS_VALUE`s. -/
inductive Members where
  | nil
  | scalar (name : String) (type : Scalar) (rest : Members)
  | struct (name : String) (inner : Members) (rest : Members)
  deriving DecidableEq, Repr

namespace Members

abbrev Val : Members → Type
  | nil => Unit
  | scalar _ type rest => type.Val × rest.Val
  | struct _ inner rest => inner.Val × rest.Val

def names : Members → List String
  | nil => []
  | scalar name _ rest => name :: rest.names
  | struct name _ rest => name :: rest.names

/-- C++ has no struct with two members of one name. -/
def Distinct : Members → Prop
  | nil => True
  | scalar name _ rest => name ∉ rest.names ∧ rest.Distinct
  | struct name inner rest => name ∉ rest.names ∧ inner.Distinct ∧ rest.Distinct

instance decidableDistinct : (m : Members) → Decidable m.Distinct
  | nil => isTrue trivial
  | scalar name _ rest =>
      have := rest.decidableDistinct
      inferInstanceAs (Decidable (name ∉ rest.names ∧ rest.Distinct))
  | struct name inner rest =>
      have := inner.decidableDistinct
      have := rest.decidableDistinct
      inferInstanceAs (Decidable (name ∉ rest.names ∧ inner.Distinct ∧ rest.Distinct))

end Members

/-! ### `saveload` -/

/-- `saveload` of a scalar from a table. The content of `value<type>()` is read whether or not there
is any: `none` is the undefined read of an empty optional. -/
def loadScalar (conv : Conversions X) (type : Scalar) (tbl : Table X) (name : String)
    (t : type.Val) : Option type.Val :=
  if tbl.contains name then (tbl.find name).bind (type.value conv) else some t

/-- `saveload` of a scalar to a table. -/
def saveScalar (type : Scalar) (tbl : Table X) (name : String) (t : type.Val) : Table X :=
  tbl.insertOrAssign name (type.node t)

/-- `saveload` of a struct from a table, by its `config_load`. -/
def loadStruct {V : Type} (load : Table X → V → Option V) (tbl : Table X) (name : String) (t : V) :
    Option V :=
  match (tbl.find name).bind Node.asTable with
  | some inner => load inner t
  | none => some t

/-- `saveload` of a struct to a table, by its `config_save`. -/
def saveStruct {V : Type} (save : V → Table X → Table X) (tbl : Table X) (name : String) (t : V) :
    Table X :=
  tbl.insertOrAssign name (.table (save t []))

/-- `config_load` -/
def configLoad (conv : Conversions X) : (m : Members) → Table X → m.Val → Option m.Val
  | .nil, _, _ => some ()
  | .scalar name type rest, tbl, (t, ts) =>
      (loadScalar conv type tbl name t).bind fun t =>
        (configLoad conv rest tbl ts).map fun ts => (t, ts)
  | .struct name inner rest, tbl, (t, ts) =>
      (loadStruct (configLoad conv inner) tbl name t).bind fun t =>
        (configLoad conv rest tbl ts).map fun ts => (t, ts)

/-- `config_save` -/
def configSave : (m : Members) → m.Val → Table X → Table X
  | .nil, _, tbl => tbl
  | .scalar name type rest, (t, ts), tbl => configSave rest ts (saveScalar type tbl name t)
  | .struct name inner rest, (t, ts), tbl =>
      configSave rest ts (saveStruct (configSave inner) tbl name t)

/-- How `Program::SetupAndRun` goes up to `Run`. -/
inductive Setup (V : Type) where
  /-- by `WHEELS_VERIFY(argc == 2)` -/
  | aborted
  /-- an exception was caught, the result is 1 -/
  | died
  | undefined
  | run (cfg : V)

/-- `Program::SetupAndRun` with the default config `cfg`, where `parsed` is what
`toml::parse_file` gives, `none` if it throws. -/
def setupAndRun (conv : Conversions X) {m : Members} (cfg : m.Val) (argc : Int)
    (parsed : Option (Table X)) : Setup m.Val :=
  if argc = 2 then
    match parsed with
    | none => .died
    | some tbl =>
        match configLoad conv m tbl cfg with
        | none => .undefined
        | some cfg => .run cfg
  else
    .aborted

theorem loadScalar_of_absent {conv : Conversions X} {type : Scalar} {tbl : Table X} {name : String}
    (hfind : tbl.find name = none) (t : type.Val) : loadScalar conv type tbl name t = some t := by
  simp [loadScalar, Table.contains, hfind]

theorem loadScalar_of_node {conv : Conversions X} {type : Scalar} {tbl : Table X} {name : String}
    {node : Node X} (hfind : tbl.find name = some node) (t : type.Val) :
    loadScalar conv type tbl name t = type.value conv node := by
  simp [loadScalar, Table.contains, hfind]

theorem loadStruct_of_table {V : Type} {load : Table X → V → Option V} {tbl : Table X}
    {name : String} {entries : Table X} (hfind : tbl.find name = some (.table entries)) (t : V) :
    loadStruct load tbl name t = load entries t := by
  simp [loadStruct, hfind, Node.asTable]

theorem loadStruct_of_not_table {V : Type} {load : Table X → V → Option V} {tbl : Table X}
    {name : String} (hfind : (tbl.find name).bind Node.asTable = none) (t : V) :
    loadStruct load tbl name t = some t := by
  simp [loadStruct, hfind]

/-! ### The config structs of the programs -/

/-- `struct Address` of `infallible_udp.cc` -/
def address : Members := .scalar "host" .string <| .scalar "port" .int64 .nil

def clientConfig : Members :=
  .scalar "data_to_send" .string <|
  .struct "server" address <|
  .scalar "port" .int64 <|
  .scalar "count" .int64 <|
  .scalar "fibers" .int64 <|
  .scalar "ring_entries" .int64 <|
  .scalar "kernel_cpu" .int64 <|
  .scalar "app_aff" .int64 <|
  .scalar "data_len" .int64 <|
  .scalar "dead_packet_us" .int64 .nil

def clientDefaults : clientConfig.Val :=
  ("ninebytes", ("127.0.0.1", 6667, ()), 6668, 3, 1, 8, 4294967295, 4294967295, 1, 1000, ())

/-- `ServerConfig` of `srv2.cc` -/
def serverConfig : Members :=
  .scalar "port" .int64 <|
  .scalar "ring_entries" .int64 <|
  .scalar "mode" .string <|
  .scalar "ipv" .int64 <|
  .scalar "fibers" .int64 <|
  .scalar "kernel_cpu" .int64 <|
  .scalar "app_aff" .int64 <|
  .scalar "busypoll" .int64 .nil

def serverDefaults : serverConfig.Val :=
  (6667, 8, "udp", 4, 1, 4294967295, 4294967295, 1000000, ())

end Config

end Hnet
