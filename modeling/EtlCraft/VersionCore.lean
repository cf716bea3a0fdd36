import Mathlib
import EtlCraft.ThreeValued

/-! The two ways an SCD2 merge writes a target without protection: one `MERGE` over the closing and
inserting changes, or an `UPDATE` that closes versions and an `INSERT` of what is missing. -/

namespace EtlCraft

open ThreeValued

variable {Key Values Stamp : Type} {width : Nat}

structure Version (Key Values Stamp : Type) (width : Nat) where
  rowId : Nat
  key : Fin width → Option Key
  values : Values
  hashKey : Option String
  activeFlag : Option Char
  deleteFlag : Option Char
  stamp : Stamp
  deriving DecidableEq

/-- A checked stage row: no merge key column is NULL, and the hash was computed. -/
structure StageRow (Key Values : Type) (width : Nat) where
  key : Fin width → Key
  values : Values
  hashKey : String
  deriving DecidableEq

structure Stage (Key Values : Type) (width : Nat) where
  rows : List (StageRow Key Values width)
  distinct : (rows.map StageRow.key).Nodup

/-- A row of the merge's source: the version it closes, or none for a new version. -/
structure VersionChange (Key Values : Type) (width : Nat) where
  row : StageRow Key Values width
  matched : Option Nat
  inserting : Bool
  deriving DecidableEq

structure Merged (Key Values Stamp : Type) (width : Nat) where
  versions : List (Version Key Values Stamp width)
  closed : Nat
  inserted : Nat
  deriving DecidableEq

section Conditions

variable [DecidableEq Key]

def keyMatch (version : Version Key Values Stamp width) (row : StageRow Key Values width) : Truth :=
  ThreeValued.all (List.ofFn fun column => equals (version.key column) (some (row.key column)))

def activeMatch (version : Version Key Values Stamp width) (row : StageRow Key Values width) :
    Truth :=
  (keyMatch version row).and (equals version.activeFlag (some 'Y'))

/-- `t.HASH_KEY IS DISTINCT FROM s.HASH_KEY OR t.DELETE_FLAG = 'Y'` -/
def changed (version : Version Key Values Stamp width) (row : StageRow Key Values width) : Truth :=
  (isDistinctFrom version.hashKey (some row.hashKey)).or (equals version.deleteFlag (some 'Y'))

end Conditions

def closeVersion (stamp : Stamp) (version : Version Key Values Stamp width) :
    Version Key Values Stamp width :=
  { version with activeFlag := some 'N', stamp }

def newVersion (stamp : Stamp) (row : StageRow Key Values width) (rowId : Nat) :
    Version Key Values Stamp width :=
  { rowId
    key := fun column => some (row.key column)
    values := row.values
    hashKey := some row.hashKey
    activeFlag := some 'Y'
    deleteFlag := some 'N'
    stamp }

namespace VersionMerge

variable [DecidableEq Key]

def source (target : List (Version Key Values Stamp width)) (stage : Stage Key Values width) :
    List (VersionChange Key Values width) :=
  let close := (join stage.rows target fun row version => activeMatch version row).filter
    fun pair => (changed pair.2 pair.1).holds
  let insert := (leftJoin stage.rows target fun row version =>
    (activeMatch version row).and (changed version row).not).filter fun pair => pair.2.isNone
  close.map (fun pair => ⟨pair.1, some pair.2.rowId, false⟩) ++
    insert.map fun pair => ⟨pair.1, none, true⟩

def counts (changes : List (VersionChange Key Values width)) : Nat × Nat :=
  (changes.countP fun change => !change.inserting, changes.countP VersionChange.inserting)

/-- Run the statement; `allocate` gives the `ROW_ID` for each row of the numbered source. -/
def run (target : List (Version Key Values Stamp width)) (stage : Stage Key Values width)
    (stamp : Stamp) (allocate : Nat → Nat) : Option (Merged Key Values Stamp width) :=
  let changes := source target stage
  (mergeInto target changes.zipIdx
    (fun version change => equals (some version.rowId) change.1.matched)
    (fun version _ => closeVersion stamp version)
    (fun change => change.1.inserting)
    (fun change => newVersion stamp change.1.row (allocate change.2))).map fun versions =>
    { versions, closed := (counts changes).1, inserted := (counts changes).2 }

end VersionMerge

section Separate

variable [DecidableEq Key]

def closing (version : Version Key Values Stamp width) (row : StageRow Key Values width) : Truth :=
  (keyMatch version row).and
    ((equals version.activeFlag (some 'Y')).and (changed version row))

def separateVersions (target : List (Version Key Values Stamp width))
    (stage : Stage Key Values width) (stamp : Stamp) (allocate : Nat → Nat) :
    Merged Key Values Stamp width :=
  let closed := updateFrom target stage.rows closing fun version _ => closeVersion stamp version
  let missing := stage.rows.filter fun row =>
    !closed.any fun version => (activeMatch version row).holds
  { versions := closed ++ missing.zipIdx.map fun row => newVersion stamp row.1 (allocate row.2)
    closed := ((join stage.rows target fun row version => keyMatch version row).filter
      fun pair => ((equals pair.2.activeFlag (some 'Y')).and (changed pair.2 pair.1)).holds).length
    inserted := missing.length }

end Separate

end EtlCraft
