import Hnet.Five.Config

/-!
# Saving and loading agree

What `config_save` puts into a table is what `config_load` reads out of it, and loading any table
with nodes of the right types changes the members whose keys are there and no others. Both go by
induction on the members, with the inner struct of a nested one as a case of its own.
-/

namespace Hnet

namespace Config

open Toml

variable {X : Type}

/-- A struct type built with the macros. -/
structure ConfigType where
  members : Members
  distinct : members.Distinct

/-- What a scalar member, or a scalar node, holds. -/
inductive Content where
  | string (s : String)
  | int64 (n : Int64)
  deriving DecidableEq, Repr

def Scalar.content : (type : Scalar) → type.Val → Content
  | string, s => .string s
  | int64, n => .int64 n

def nodeContent : Node X → Option Content
  | .string s => some (.string s)
  | .integer n => some (.int64 n)
  | _ => none

@[simp]
theorem nodeContent_node (type : Scalar) (t : type.Val) :
    nodeContent (type.node t : Node X) = some (type.content t) := by
  cases type <;> rfl

/-- The scalar member at a path of member names. -/
def leaf : (m : Members) → m.Val → List String → Option Content
  | .nil, _, _ => none
  | .scalar name type rest, (t, ts), path =>
      if path = [name] then some (type.content t) else leaf rest ts path
  | .struct name inner rest, (t, ts), path =>
      if path.head? = some name then leaf inner t path.tail else leaf rest ts path

/-- The node at a path of keys. -/
def nodeAt : List String → Node X → Option (Node X)
  | [], node => some node
  | name :: path, node => (node.asTable.bind fun tbl => tbl.find name).bind (nodeAt path)

/-- The nodes under the keys of members have the types of the members. -/
def HasTypes : Members → Table X → Prop
  | .nil, _ => True
  | .scalar name type rest, tbl =>
      (∀ node, tbl.find name = some node → ∃ t, node = type.node t) ∧ HasTypes rest tbl
  | .struct name inner rest, tbl =>
      (∀ node, tbl.find name = some node →
        ∃ entries, node = .table entries ∧ HasTypes inner entries)
        ∧ HasTypes rest tbl

/-- `d'` has the value of the table for each scalar member whose key is present, at whatever depth,
and the value of `d` for every other one. -/
structure Overrides (m : Members) (tbl : Table X) (d d' : m.Val) : Prop where
  present : ∀ path node, (leaf m d path).isSome → nodeAt path (.table tbl) = some node →
    ∃ content, nodeContent node = some content ∧ leaf m d' path = some content
  absent : ∀ path, nodeAt path (.table tbl) = none → leaf m d' path = leaf m d path

/-! ### Loading what was saved -/

/-- The table holds the value `c` of a struct. -/
def Holds : (m : Members) → m.Val → Table X → Prop
  | .nil, _, _ => True
  | .scalar name type rest, (t, ts), tbl => tbl.find name = some (type.node t) ∧ Holds rest ts tbl
  | .struct name inner rest, (t, ts), tbl =>
      (∃ entries, tbl.find name = some (.table entries) ∧ Holds inner t entries) ∧ Holds rest ts tbl

theorem configLoad_of_holds (conv : Conversions X) (m : Members) (c d : m.Val) (tbl : Table X)
    (h : Holds m c tbl) : configLoad conv m tbl d = some c := by
  induction m generalizing tbl with
  | nil => rfl
  | scalar name type rest ih =>
      obtain ⟨hfind, hrest⟩ := h
      rw [configLoad, loadScalar_of_node hfind, Scalar.value_node, ih c.2 d.2 tbl hrest]
      rfl
  | struct name inner rest ihInner ihRest =>
      obtain ⟨⟨entries, hfind, hinner⟩, hrest⟩ := h
      rw [configLoad, loadStruct_of_table hfind, ihInner c.1 d.1 entries hinner,
        ihRest c.2 d.2 tbl hrest]
      rfl

theorem find_configSave_of_not_mem (m : Members) (c : m.Val) (tbl : Table X) {key : String}
    (hkey : key ∉ m.names) : (configSave m c tbl).find key = tbl.find key := by
  induction m generalizing tbl with
  | nil => rfl
  | scalar name type rest ih =>
      obtain ⟨hne, hrest⟩ := not_or.mp (fun h => hkey (List.mem_cons.mpr h))
      rw [configSave, ih c.2 _ hrest, saveScalar, Table.find_insertOrAssign, if_neg (Ne.symm hne)]
  | struct name inner rest _ ihRest =>
      obtain ⟨hne, hrest⟩ := not_or.mp (fun h => hkey (List.mem_cons.mpr h))
      rw [configSave, ihRest c.2 _ hrest, saveStruct, Table.find_insertOrAssign,
        if_neg (Ne.symm hne)]

theorem holds_configSave (m : Members) (hdistinct : m.Distinct) (c : m.Val) (tbl : Table X) :
    Holds m c (configSave m c tbl) := by
  induction m generalizing tbl with
  | nil => trivial
  | scalar name type rest ih =>
      obtain ⟨hname, hrest⟩ := hdistinct
      refine ⟨?_, ih hrest c.2 _⟩
      rw [configSave, find_configSave_of_not_mem rest c.2 _ hname, saveScalar,
        Table.find_insertOrAssign, if_pos rfl]
  | struct name inner rest ihInner ihRest =>
      obtain ⟨hname, hinner, hrest⟩ := hdistinct
      refine ⟨⟨configSave inner c.1 [], ?_, ihInner hinner c.1 []⟩, ihRest hrest c.2 _⟩
      rw [configSave, find_configSave_of_not_mem rest c.2 _ hname, saveStruct,
        Table.find_insertOrAssign, if_pos rfl]

/-! ### Loading a table of the right types -/

theorem nodeAt_table (tbl : Table X) (name : String) (path : List String) :
    nodeAt (name :: path) (.table tbl) = (tbl.find name).bind (nodeAt path) := rfl

theorem overrides_scalar {name : String} {type : Scalar} {rest : Members} {tbl : Table X}
    {t t' : type.Val} {ts ts' : rest.Val} (hrest : Overrides rest tbl ts ts')
    (hpresent : ∀ node, tbl.find name = some node → nodeContent node = some (type.content t'))
    (habsent : tbl.find name = none → t' = t) :
    Overrides (.scalar name type rest) tbl (t, ts) (t', ts') where
  present path node hleaf hnode := by
    unfold leaf at hleaf ⊢
    by_cases hpath : path = [name]
    · subst hpath
      rw [if_pos rfl]
      rw [nodeAt_table] at hnode
      obtain ⟨found, hfind, hfound⟩ := Option.bind_eq_some_iff.mp hnode
      obtain rfl : found = node := Option.some.inj hfound
      exact ⟨_, hpresent found hfind, rfl⟩
    · rw [if_neg hpath] at hleaf ⊢
      exact hrest.present path node hleaf hnode
  absent path hnode := by
    unfold leaf
    by_cases hpath : path = [name]
    · subst hpath
      rw [nodeAt_table] at hnode
      have hfind : tbl.find name = none := by
        cases hfind : tbl.find name with
        | none => rfl
        | some node =>
            rw [hfind] at hnode
            cases hnode
      rw [habsent hfind, if_pos rfl, if_pos rfl]
    · rw [if_neg hpath, if_neg hpath]
      exact hrest.absent path hnode

theorem overrides_struct {name : String} {inner rest : Members} {tbl : Table X} {t t' : inner.Val}
    {ts ts' : rest.Val} (hrest : Overrides rest tbl ts ts')
    (hpresent : ∀ node, tbl.find name = some node →
      ∃ entries, node = .table entries ∧ Overrides inner entries t t')
    (habsent : tbl.find name = none → t' = t) :
    Overrides (.struct name inner rest) tbl (t, ts) (t', ts') where
  present path node hleaf hnode := by
    unfold leaf at hleaf ⊢
    by_cases hpath : path.head? = some name
    · rw [if_pos hpath] at hleaf ⊢
      obtain ⟨path, rfl⟩ := List.head?_eq_some_iff.mp hpath
      rw [nodeAt_table] at hnode
      obtain ⟨found, hfind, hfound⟩ := Option.bind_eq_some_iff.mp hnode
      obtain ⟨entries, rfl, hinner⟩ := hpresent found hfind
      exact hinner.present path node hleaf hfound
    · rw [if_neg hpath] at hleaf ⊢
      exact hrest.present path node hleaf hnode
  absent path hnode := by
    unfold leaf
    by_cases hpath : path.head? = some name
    · rw [if_pos hpath, if_pos hpath]
      obtain ⟨path, rfl⟩ := List.head?_eq_some_iff.mp hpath
      rw [nodeAt_table] at hnode
      cases hfind : tbl.find name with
      | none => rw [habsent hfind]
      | some node =>
          obtain ⟨entries, rfl, hinner⟩ := hpresent node hfind
          rw [hfind] at hnode
          exact hinner.absent path hnode
    · rw [if_neg hpath, if_neg hpath]
      exact hrest.absent path hnode

theorem exists_overrides (conv : Conversions X) (m : Members) (d : m.Val) (tbl : Table X)
    (htypes : HasTypes m tbl) :
    ∃ d', configLoad conv m tbl d = some d' ∧ Overrides m tbl d d' := by
  induction m generalizing tbl with
  | nil => exact ⟨(), rfl, ⟨fun path node hleaf => (by cases hleaf), fun path _ => rfl⟩⟩
  | scalar name type rest ih =>
      obtain ⟨t, ts⟩ := d
      obtain ⟨hnode, hrest⟩ := htypes
      obtain ⟨ts', hload, hoverrides⟩ := ih ts tbl hrest
      cases hfind : tbl.find name with
      | none =>
          have hkept : Overrides (.scalar name type rest) tbl (t, ts) (t, ts') := by
            apply overrides_scalar hoverrides
            · intro node hsome
              cases hfind.symm.trans hsome
            · intro _
              rfl
          refine ⟨(t, ts'), ?_, hkept⟩
          rw [configLoad, loadScalar_of_absent hfind, hload]
          rfl
      | some node =>
          obtain ⟨t', rfl⟩ := hnode node hfind
          have hset : Overrides (.scalar name type rest) tbl (t, ts) (t', ts') := by
            apply overrides_scalar hoverrides
            · intro node hsome
              obtain rfl := Option.some.inj (hfind.symm.trans hsome)
              exact nodeContent_node type t'
            · intro hnone
              cases hfind.symm.trans hnone
          refine ⟨(t', ts'), ?_, hset⟩
          rw [configLoad, loadScalar_of_node hfind, Scalar.value_node, hload]
          rfl
  | struct name inner rest ihInner ihRest =>
      obtain ⟨t, ts⟩ := d
      obtain ⟨hnode, hrest⟩ := htypes
      obtain ⟨ts', hload, hoverrides⟩ := ihRest ts tbl hrest
      cases hfind : tbl.find name with
      | none =>
          have hkept : Overrides (.struct name inner rest) tbl (t, ts) (t, ts') := by
            apply overrides_struct hoverrides
            · intro node hsome
              cases hfind.symm.trans hsome
            · intro _
              rfl
          refine ⟨(t, ts'), ?_, hkept⟩
          rw [configLoad, loadStruct_of_not_table (by rw [hfind]; rfl), hload]
          rfl
      | some node =>
          obtain ⟨entries, rfl, hinner⟩ := hnode node hfind
          obtain ⟨t', hloadInner, hoverridesInner⟩ := ihInner t entries hinner
          have hset : Overrides (.struct name inner rest) tbl (t, ts) (t', ts') := by
            apply overrides_struct hoverrides
            · intro node hsome
              obtain rfl := Option.some.inj (hfind.symm.trans hsome)
              exact ⟨entries, rfl, hoverridesInner⟩
            · intro hnone
              cases hfind.symm.trans hnone
          refine ⟨(t', ts'), ?_, hset⟩
          rw [configLoad, loadStruct_of_table hfind, hloadInner, hload]
          rfl

/-- **Saving and loading agree**, for every config type. -/
theorem saveLoad_agree (conv : Conversions X) (config : ConfigType) (c d : config.members.Val) :
    configLoad conv config.members (configSave config.members c []) d = some c ∧
      ∀ tbl, HasTypes config.members tbl →
        ∃ d', configLoad conv config.members tbl d = some d' ∧ Overrides config.members tbl d d' :=
  ⟨configLoad_of_holds conv _ c d _ (holds_configSave _ config.distinct c []),
    fun tbl htypes => exists_overrides conv _ d tbl htypes⟩

/-- A table with the port of the server and a count. -/
def portTable : Table Unit := [("server", .table [("port", .integer 7)]), ("count", .integer 5)]

theorem hasTypes_portTable : HasTypes clientConfig portTable := by
  refine ⟨nofun, fun node hfind => ?_, nofun, fun node hfind => ⟨5, ?_⟩, nofun, nofun, nofun, nofun,
    nofun, nofun, trivial⟩
  · refine ⟨_, (Option.some.inj hfind).symm, nofun, fun inner hinner => ⟨7, ?_⟩, trivial⟩
    exact (Option.some.inj hinner).symm
  · exact (Option.some.inj hfind).symm

theorem saveLoad_agree_port :
    ∃ d', configLoad .exact clientConfig portTable clientDefaults = some d'
      ∧ d' = ("ninebytes", ("127.0.0.1", 7, ()), 6668, 5, 1, 8, 4294967295, 4294967295, 1, 1000, ())
      ∧ Overrides clientConfig portTable clientDefaults d' := by
  obtain ⟨d', hload, hoverrides⟩ := (saveLoad_agree .exact ⟨clientConfig, by decide⟩ clientDefaults
    clientDefaults).2 portTable hasTypes_portTable
  exact ⟨d', hload, Option.some.inj (hload.symm.trans rfl), hoverrides⟩

end Config

end Hnet
