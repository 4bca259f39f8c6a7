import Mathlib.Data.Prod.Lex
import RocketFS.Lib.Bytes
import RocketFS.Lib.RowUpdates
import RocketFS.Lib.SortedMap

/-!
# Column families and write batches

The database as RocksDB presents it: one ordered map of byte strings for each
column family. A write batch is applied as a whole, in the key order of the write
set it was built from; afterwards a key the write set mentions holds what the
write set says and every other key is unchanged (`Database.get_write`).

A transaction that buffers operations one by one and commits them leaves what the
operations leave in their order (`Database.view_write_addOps`), and each column family
depends on its own operations only (`Database.applyOps_column`).
-/

namespace RocketFS

/-- `CFIndex`. -/
structure CFIndex where
  index : ℤ
  deriving DecidableEq, Repr

theorem CFIndex.index_injective : Function.Injective CFIndex.index := by
  rintro ⟨a⟩ ⟨b⟩ h
  exact congrArg CFIndex.mk h

instance : LinearOrder CFIndex := LinearOrder.lift' CFIndex.index CFIndex.index_injective

def kInvalidCFIndex : CFIndex := ⟨-1⟩
def kInodeCFIndex : CFIndex := ⟨1⟩
def kMTimeCFIndex : CFIndex := ⟨2⟩
def kATimeCFIndex : CFIndex := ⟨3⟩
def kDEntCFIndex : CFIndex := ⟨4⟩

/-- `cf_handles_.size()`: the store opens the default column family, at 0, and the four
above. -/
def cfHandlesSize : ℤ := 5

/-- A key together with its column family, ordered as `RocksDBTxn::Comparator`
orders them. -/
abbrev CFKey := CFIndex ×ₗ Bytes

/-- Name a key of a column family. -/
def cfKey (cf : CFIndex) (key : Bytes) : CFKey := toLex (cf, key)

@[simp] theorem cfKey_inj {cf cf' : CFIndex} {key key' : Bytes} :
    cfKey cf key = cfKey cf' key' ↔ cf = cf' ∧ key = key' := by
  rw [cfKey, cfKey, toLex_inj, Prod.mk.injEq]

theorem cfKey_ofLex (k : CFKey) : cfKey (ofLex k).1 (ofLex k).2 = k := rfl

/-- The contents of the database. -/
@[ext]
structure Database where
  cf : CFIndex → SortedMap Bytes Bytes

namespace Database

/-- The database without records. -/
def empty : Database := ⟨fun _ => .empty⟩

/-- The value stored under a key of a column family. -/
def get (db : Database) (cf : CFIndex) (key : Bytes) : Option Bytes := (db.cf cf).lookup key

/-- The value stored under a key, the column family included in the key. -/
def view (db : Database) (k : CFKey) : Option Bytes := db.get (ofLex k).1 (ofLex k).2

/-- `WriteBatch::Put`, applied. -/
def put (db : Database) (cf : CFIndex) (key value : Bytes) : Database :=
  ⟨Function.update db.cf cf ((db.cf cf).insert key value)⟩

/-- `WriteBatch::Delete`, applied. -/
def delete (db : Database) (cf : CFIndex) (key : Bytes) : Database :=
  ⟨Function.update db.cf cf ((db.cf cf).erase key)⟩

variable {db db' : Database} {cf cf' : CFIndex} {key key' value : Bytes}

/-- A database is determined by its lookups. -/
theorem ext_view (h : ∀ k, db.view k = db'.view k) : db = db' :=
  Database.ext <| funext fun cf => SortedMap.ext_lookup fun key => h (cfKey cf key)

theorem get_put (db : Database) (cf cf' : CFIndex) (key key' value : Bytes) :
    (db.put cf key value).get cf' key' =
      if cf' = cf ∧ key' = key then some value else db.get cf' key' := by
  by_cases hcf : cf' = cf
  · subst hcf
    simp [put, get, SortedMap.lookup_insert]
  · simp [put, get, hcf]

theorem get_delete (db : Database) (cf cf' : CFIndex) (key key' : Bytes) :
    (db.delete cf key).get cf' key' =
      if cf' = cf ∧ key' = key then none else db.get cf' key' := by
  by_cases hcf : cf' = cf
  · subst hcf
    simp [delete, get, SortedMap.lookup_erase]
  · simp [delete, get, hcf]

end Database

/-- `write_set_`: for each key written, the value put there, or `none` for a
deletion. -/
abbrev WriteSet := SortedMap CFKey (Option Bytes)

namespace Database

/-- One operation of a write batch. -/
def applyOp (db : Database) (op : CFKey × Option Bytes) : Database :=
  match op.2 with
  | some value => db.put (ofLex op.1).1 (ofLex op.1).2 value
  | none => db.delete (ofLex op.1).1 (ofLex op.1).2

/-- `db_->Write`: the batch `CommitTxn` builds from a write set, applied. -/
def write (db : Database) (writeSet : WriteSet) : Database :=
  writeSet.entries.foldl applyOp db

theorem view_applyOp (db : Database) (op : CFKey × Option Bytes) (k : CFKey) :
    (db.applyOp op).view k = if k = op.1 then op.2 else db.view k := by
  obtain ⟨k', value⟩ := op
  have hkey : k = k' ↔ (ofLex k).1 = (ofLex k').1 ∧ (ofLex k).2 = (ofLex k').2 := by
    rw [← cfKey_ofLex k, ← cfKey_ofLex k', cfKey_inj]
    rfl
  cases value with
  | some value => simp only [applyOp, view, get_put, hkey]
  | none => simp only [applyOp, view, get_delete, hkey]

private theorem view_foldl_applyOp (entries : List (CFKey × Option Bytes))
    (hsorted : entries.Pairwise fun a b => a.1 < b.1) (db : Database) (k : CFKey) :
    (entries.foldl applyOp db).view k =
      ((⟨entries, hsorted⟩ : WriteSet).lookup k).getD (db.view k) := by
  induction entries generalizing db with
  | nil => rfl
  | cons op rest ih =>
    obtain ⟨hhead, hrest⟩ := List.pairwise_cons.mp hsorted
    rw [List.foldl_cons, ih hrest, SortedMap.lookup_mk_cons, view_applyOp]
    split_ifs with hk
    · -- the keys are in order, so the key is not written again
      subst hk
      rw [SortedMap.lookup_eq_none_of_lt hrest hhead]
      rfl
    · rfl

/-- After a batch, a key holds what the write set says of it, and what it held
before where the write set is silent. -/
theorem view_write (db : Database) (writeSet : WriteSet) (k : CFKey) :
    (db.write writeSet).view k = (writeSet.lookup k).getD (db.view k) :=
  view_foldl_applyOp writeSet.entries writeSet.sorted db k

theorem get_write (db : Database) (writeSet : WriteSet) (cf : CFIndex) (key : Bytes) :
    (db.write writeSet).get cf key = (writeSet.lookup (cfKey cf key)).getD (db.get cf key) :=
  db.view_write writeSet (cfKey cf key)

theorem view_write_insert (db : Database) (writeSet : WriteSet) (k : CFKey)
    (value : Option Bytes) :
    (db.write (writeSet.insert k value)).view =
      Function.update (db.write writeSet).view k value := by
  funext k'
  rw [view_write, SortedMap.lookup_insert, Function.update_apply, view_write]
  split_ifs <;> rfl

end Database

/-! ### Batches of operations -/

/-- `Put`s and `Del`s on keys of any column family, in the order of the calls. -/
abbrev CFOps := List (CFKey × Option Bytes)

/-- Operations on the keys of one column family. -/
def inColumn (cf : CFIndex) (ops : List (Bytes × Option Bytes)) : CFOps :=
  ops.map fun op => (cfKey cf op.1, op.2)

/-- The operations of a batch on one column family. -/
def opsOn (cf : CFIndex) (ops : CFOps) : List (Bytes × Option Bytes) :=
  ops.filterMap fun op => if (ofLex op.1).1 = cf then some ((ofLex op.1).2, op.2) else none

theorem opsOn_cons (cf : CFIndex) (op : CFKey × Option Bytes) (ops : CFOps) :
    opsOn cf (op :: ops) =
      if (ofLex op.1).1 = cf then ((ofLex op.1).2, op.2) :: opsOn cf ops else opsOn cf ops := by
  simp only [opsOn, List.filterMap_cons]
  split_ifs <;> rfl

@[simp] theorem opsOn_append (cf : CFIndex) (ops ops' : CFOps) :
    opsOn cf (ops ++ ops') = opsOn cf ops ++ opsOn cf ops' :=
  List.filterMap_append

theorem opsOn_flatMap {α : Type} (cf : CFIndex) (f : α → CFOps) (l : List α) :
    opsOn cf (l.flatMap f) = l.flatMap fun a => opsOn cf (f a) :=
  List.filterMap_flatMap

theorem opsOn_inColumn (cf cf' : CFIndex) (ops : List (Bytes × Option Bytes)) :
    opsOn cf (inColumn cf' ops) = if cf' = cf then ops else [] := by
  simp only [opsOn, inColumn, List.filterMap_map]
  split_ifs with h
  · subst h
    exact (List.filterMap_congr fun op _ => if_pos rfl).trans List.filterMap_some
  · exact List.filterMap_eq_nil_iff.mpr fun op _ => if_neg h

/-- Buffer operations in a write set; the last one on a key wins. -/
def WriteSet.addOps (writeSet : WriteSet) (ops : CFOps) : WriteSet :=
  ops.foldl (fun writeSet op => writeSet.insert op.1 op.2) writeSet

namespace Database

/-- Committing buffered operations applies them in the order in which they were made. -/
theorem view_write_addOps (db : Database) (writeSet : WriteSet) (ops : CFOps) :
    (db.write (WriteSet.addOps writeSet ops)).view = applyOps (db.write writeSet).view ops := by
  induction ops generalizing writeSet with
  | nil => rfl
  | cons op rest ih =>
    have hinsert := ih (writeSet.insert op.1 op.2)
    rw [view_write_insert] at hinsert
    exact hinsert

theorem view_applyAll (db : Database) (ops : CFOps) :
    (ops.foldl applyOp db).view = applyOps db.view ops := by
  induction ops generalizing db with
  | nil => rfl
  | cons op rest ih =>
    have hop : (db.applyOp op).view = Function.update db.view op.1 op.2 := by
      funext k
      rw [view_applyOp, Function.update_apply]
    rw [List.foldl_cons, ih, hop, applyOps_cons]

private theorem update_column (m : CFKey → Option Bytes) (k : CFKey) (value : Option Bytes)
    (cf : CFIndex) :
    (fun key => Function.update m k value (cfKey cf key)) =
      if (ofLex k).1 = cf then Function.update (fun key => m (cfKey cf key)) (ofLex k).2 value
      else fun key => m (cfKey cf key) := by
  have hk : ∀ key, cfKey cf key = k ↔ cf = (ofLex k).1 ∧ key = (ofLex k).2 := by
    intro key
    nth_rewrite 1 [← cfKey_ofLex k]
    exact cfKey_inj
  funext key
  split_ifs with h
  · simp only [Function.update_apply, hk, h, true_and]
  · simp only [Function.update_apply, hk, Ne.symm h, false_and, if_false]

/-- A column family after a batch depends on its own operations only. -/
theorem applyOps_column (m : CFKey → Option Bytes) (ops : CFOps) (cf : CFIndex) :
    (fun key => applyOps m ops (cfKey cf key)) =
      applyOps (fun key => m (cfKey cf key)) (opsOn cf ops) := by
  induction ops generalizing m with
  | nil => rfl
  | cons op rest ih =>
    rw [applyOps_cons, ih, update_column]
    rw [opsOn_cons]
    split_ifs
    · rw [applyOps_cons]
    · rfl

end Database

end RocketFS
