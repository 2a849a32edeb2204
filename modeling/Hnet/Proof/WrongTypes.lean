import Hnet.Five.Config

/-!
# Loading a table with wrong types

A nested member whose node is no table is left alone. A scalar member reads the content of
`value<type>()` as soon as its key is there, so a node that does not convert is read through an
empty optional. Loading is safe exactly when there is no such node.
-/

namespace Hnet

namespace Config

open Toml

variable {X : Type} (conv : Conversions X)

/-- Members whose node has the wrong type keep their value. -/
def KeepsWrongTyped : (m : Members) → Table X → m.Val → m.Val → Prop
  | .nil, _, _, _ => True
  | .scalar name type rest, tbl, (t, ts), (t', ts') =>
      (∀ node, tbl.find name = some node → type.value conv node = none → t' = t)
        ∧ KeepsWrongTyped rest tbl ts ts'
  | .struct name inner rest, tbl, (t, ts), (t', ts') =>
      (∀ node, tbl.find name = some node →
          (node.asTable = none → t' = t) ∧
          ∀ entries, node.asTable = some entries → KeepsWrongTyped inner entries t t')
        ∧ KeepsWrongTyped rest tbl ts ts'

/-- The content of an optional is read only where there is one, and a key of the wrong type leaves
its member unchanged. No error is ever reported. -/
def LoadSafe (m : Members) (tbl : Table X) (d : m.Val) : Prop :=
  ∃ d', configLoad conv m tbl d = some d' ∧ KeepsWrongTyped conv m tbl d d'

/-- Every node under the key of a scalar member converts to the type of the member; for a nested
member this is about the table under its key, if it is one. -/
def Converts : Members → Table X → Prop
  | .nil, _ => True
  | .scalar name type rest, tbl =>
      (∀ node, tbl.find name = some node → (type.value conv node).isSome) ∧ Converts rest tbl
  | .struct name inner rest, tbl =>
      (∀ entries, (tbl.find name).bind Node.asTable = some entries → Converts inner entries)
        ∧ Converts rest tbl

variable {conv}

theorem loadScalar_isSome_iff {type : Scalar} {tbl : Table X} {name : String} {t : type.Val} :
    (loadScalar conv type tbl name t).isSome ↔
      ∀ node, tbl.find name = some node → (type.value conv node).isSome := by
  unfold loadScalar Table.contains
  cases hfind : tbl.find name with
  | none => simp
  | some node => simp

theorem loadScalar_keeps {type : Scalar} {tbl : Table X} {name : String} {t t' : type.Val}
    (h : loadScalar conv type tbl name t = some t') {node : Node X}
    (hfind : tbl.find name = some node) (hwrong : type.value conv node = none) : t' = t := by
  simp [loadScalar, Table.contains, hfind, hwrong] at h

theorem loadStruct_isSome_iff {V : Type} {load : Table X → V → Option V} {tbl : Table X}
    {name : String} {t : V} :
    (loadStruct load tbl name t).isSome ↔
      ∀ entries, (tbl.find name).bind Node.asTable = some entries → (load entries t).isSome := by
  unfold loadStruct
  cases hinner : (tbl.find name).bind Node.asTable with
  | none => simp
  | some entries => simp

theorem configLoad_scalar_eq_some {name : String} {type : Scalar} {rest : Members} {tbl : Table X}
    {t t' : type.Val} {ts ts' : rest.Val} :
    configLoad conv (.scalar name type rest) tbl (t, ts) = some (t', ts') ↔
      loadScalar conv type tbl name t = some t' ∧ configLoad conv rest tbl ts = some ts' := by
  simp [configLoad, Option.bind_eq_some_iff]

theorem configLoad_struct_eq_some {name : String} {inner rest : Members} {tbl : Table X}
    {t t' : inner.Val} {ts ts' : rest.Val} :
    configLoad conv (.struct name inner rest) tbl (t, ts) = some (t', ts') ↔
      loadStruct (configLoad conv inner) tbl name t = some t'
        ∧ configLoad conv rest tbl ts = some ts' := by
  simp [configLoad, Option.bind_eq_some_iff]

theorem configLoad_scalar_isSome {name : String} {type : Scalar} {rest : Members} {tbl : Table X}
    {t : type.Val} {ts : rest.Val} :
    (configLoad conv (.scalar name type rest) tbl (t, ts)).isSome ↔
      (loadScalar conv type tbl name t).isSome ∧ (configLoad conv rest tbl ts).isSome := by
  rw [configLoad]
  cases loadScalar conv type tbl name t <;> simp

theorem configLoad_struct_isSome {name : String} {inner rest : Members} {tbl : Table X}
    {t : inner.Val} {ts : rest.Val} :
    (configLoad conv (.struct name inner rest) tbl (t, ts)).isSome ↔
      (loadStruct (configLoad conv inner) tbl name t).isSome
        ∧ (configLoad conv rest tbl ts).isSome := by
  rw [configLoad]
  cases loadStruct (configLoad conv inner) tbl name t <;> simp

/-- No empty optional is read exactly when every node read for a scalar converts. -/
theorem configLoad_isSome_iff (m : Members) (tbl : Table X) (d : m.Val) :
    (configLoad conv m tbl d).isSome ↔ Converts conv m tbl := by
  induction m generalizing tbl with
  | nil => exact ⟨fun _ => trivial, fun _ => rfl⟩
  | scalar name type rest ih =>
      obtain ⟨t, ts⟩ := d
      rw [configLoad_scalar_isSome, loadScalar_isSome_iff, ih tbl ts]
      rfl
  | struct name inner rest ihInner ihRest =>
      obtain ⟨t, ts⟩ := d
      rw [configLoad_struct_isSome, loadStruct_isSome_iff, ihRest tbl ts]
      exact and_congr_left' (forall₂_congr fun entries _ => ihInner entries t)

theorem configLoad_keeps (m : Members) (tbl : Table X) (d d' : m.Val)
    (h : configLoad conv m tbl d = some d') : KeepsWrongTyped conv m tbl d d' := by
  induction m generalizing tbl with
  | nil => trivial
  | scalar name type rest ih =>
      obtain ⟨hscalar, hrest⟩ := configLoad_scalar_eq_some.mp h
      exact ⟨fun node hfind hwrong => loadScalar_keeps hscalar hfind hwrong,
        ih tbl d.2 d'.2 hrest⟩
  | struct name inner rest ihInner ihRest =>
      obtain ⟨hstruct, hrest⟩ := configLoad_struct_eq_some.mp h
      refine ⟨?_, ihRest tbl d.2 d'.2 hrest⟩
      intro node hfind
      constructor
      · intro hnone
        rw [loadStruct_of_not_table (by rw [hfind]; exact hnone)] at hstruct
        exact (Option.some.inj hstruct).symm
      · intro entries hentries
        cases node with
        | table entries' =>
            obtain rfl := Option.some.inj hentries
            rw [loadStruct_of_table hfind] at hstruct
            exact ihInner entries' d.1 d'.1 hstruct
        | _ => cases hentries

/-- **Loading is safe exactly when every node read for a scalar converts.** -/
theorem loadSafe_iff (conv : Conversions X) (m : Members) (tbl : Table X) (d : m.Val) :
    LoadSafe conv m tbl d ↔ Converts conv m tbl := by
  rw [← configLoad_isSome_iff m tbl d]
  constructor
  · rintro ⟨d', hload, _⟩
    exact Option.isSome_of_eq_some hload
  · intro hsome
    obtain ⟨d', hload⟩ := Option.isSome_iff_exists.mp hsome
    exact ⟨d', hload, configLoad_keeps m tbl d d' hload⟩

/-- A program is started on a config file with a node of the wrong type: nothing catches it. -/
theorem setupAndRun_undefined_iff {m : Members} {cfg : m.Val} {argc : Int}
    {parsed : Option (Table X)} :
    setupAndRun conv cfg argc parsed = .undefined ↔
      argc = 2 ∧ ∃ tbl, parsed = some tbl ∧ ¬ Converts conv m tbl := by
  have hsome : ∀ tbl, (configLoad conv m tbl cfg).isSome ↔ Converts conv m tbl :=
    fun tbl => configLoad_isSome_iff m tbl cfg
  unfold setupAndRun
  by_cases hargc : argc = 2
  · rw [if_pos hargc]
    cases parsed with
    | none => simp
    | some tbl =>
        have htbl := hsome tbl
        cases hload : configLoad conv m tbl cfg with
        | none => simpa [hload, hargc] using htbl
        | some cfg' => simpa [hload, hargc] using htbl
  · rw [if_neg hargc]
    simp [hargc]

/-- A port that is written as a string. -/
theorem not_loadSafe_portString :
    ¬ LoadSafe (.exact : Conversions Unit) serverConfig [("port", .string "6667")]
      serverDefaults := by
  rintro ⟨d', hload, _⟩
  cases hload

end Config

end Hnet
