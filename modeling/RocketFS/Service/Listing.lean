import RocketFS.Service.Agreement
import RocketFS.Service.Directory

/-!
# `ListDir` against `Lookup`

A lookup reads one key; a listing scans a key range and reports the name inside
each value. On every reachable database both see the same entries: the row written
last under each name of the parent (`childrenOf`).
-/

namespace RocketFS

/-- The rows that the entries of a parent stand for, in name order: of the rows of
one name the one written last. -/
def childrenOf (rows : List Dir) (parentId : InodeID) : List Dir :=
  (rows.filter fun dir => rowOfEntry rows (DEntSerde.serKey parentId dir.name) = some dir).dedup
    |>.insertionSort fun a b => a.name ≤ b.name

section Children

variable {fb : FlatBuffers} {rows : List Dir} {parentId : InodeID} {dir : Dir}

theorem mem_childrenOf : dir ∈ childrenOf rows parentId ↔
    rowOfEntry rows (DEntSerde.serKey parentId dir.name) = some dir := by
  rw [childrenOf, List.mem_insertionSort, List.mem_dedup, List.mem_filter, decide_eq_true_eq]
  exact and_iff_right_of_imp fun h => (rowOfEntry_mem h).1

theorem childrenOf_sorted (rows : List Dir) (parentId : InodeID) :
    (childrenOf rows parentId).Pairwise fun a b => a.name < b.name := by
  have : Std.Total fun a b : Dir => a.name ≤ b.name := ⟨fun a b => le_total a.name b.name⟩
  have : IsTrans Dir fun a b => a.name ≤ b.name := ⟨fun _ _ _ => le_trans⟩
  have hle : (childrenOf rows parentId).Pairwise fun a b => a.name ≤ b.name :=
    List.pairwise_insertionSort _ _
  have hnodup : (childrenOf rows parentId).Nodup :=
    (List.perm_insertionSort _ _).nodup_iff.mpr (List.nodup_dedup _)
  refine (hle.and hnodup).imp_of_mem ?_
  rintro a b ha hb ⟨hab, hne⟩
  refine lt_of_le_of_ne hab fun hname => hne ?_
  -- both are the row last written under their name
  have ha := mem_childrenOf.mp ha
  rw [hname, mem_childrenOf.mp hb] at ha
  exact (Option.some.inj ha).symm

/-- The entry records that stand for the rows. -/
theorem lists_dbOf (hnames : ∀ dir ∈ rows, dir.name ≠ [] ∧ validUtf8 dir.name) :
    (dbOf fb rows).Lists fb parentId ((childrenOf rows parentId).map .inl) where
  sorted := List.pairwise_map.mpr (childrenOf_sorted rows parentId)
  name_ne_nil := by
    rw [List.forall_mem_map]
    exact fun dir hdir => (hnames dir (rowOfEntry_mem (mem_childrenOf.mp hdir)).1).1
  utf8 := by
    rw [List.forall_mem_map]
    exact fun dir hdir => (hnames dir (rowOfEntry_mem (mem_childrenOf.mp hdir)).1).2
  get_iff name value := by
    rw [get_dent_dbOf, Option.map_eq_some_iff]
    constructor
    · rintro ⟨dir, hrow, rfl⟩
      obtain ⟨_, hname⟩ := DEntSerde.serKey_inj.mp (rowOfEntry_mem hrow).2
      subst hname
      exact ⟨.inl dir, List.mem_map_of_mem (mem_childrenOf.mpr hrow), rfl, rfl⟩
    · rintro ⟨e, he, rfl, rfl⟩
      obtain ⟨dir, hdir, rfl⟩ := List.mem_map.mp he
      exact ⟨dir, mem_childrenOf.mp hdir, rfl⟩

/-- The superuser may list every existing directory. -/
theorem mayList_dbOf (hnames : ∀ dir ∈ rows, dir.name ≠ []) {gid : UInt32}
    (h : parentId = kRootInodeID ∨ (dbOf fb rows).HasInode parentId) :
    MayList fb (dbOf fb rows) parentId ⟨0, gid⟩ := by
  obtain ⟨dir, hread⟩ := exists_ask_read_some hnames h
  exact ⟨dir, hread, hasPermission_of_uid_zero _ _ rfl⟩

theorem parentReadable_dbOf (hnames : ∀ dir ∈ rows, dir.name ≠ [])
    (h : parentId = kRootInodeID ∨ (dbOf fb rows).HasInode parentId) :
    ParentReadable fb (dbOf fb rows) parentId := by
  obtain ⟨dir, hread⟩ := exists_ask_read_some hnames h
  obtain ⟨parentDir, hparent⟩ := exists_ask_read hnames dir.parentId
  exact .inr ⟨dir, parentDir, hread, hparent⟩

/-- A lookup succeeds with the id of the row written last under the name. -/
theorem LookupOp.success_iff (hnames : ∀ dir ∈ rows, dir.name ≠ []) {parentId : UInt64}
    {name : Bytes} {id : UInt64} :
    (∃ lookup, ask (dbOf fb rows) (LookupOp.run fb ⟨parentId, name⟩) = .ok lookup ∧
        lookup.errorCode = 0 ∧ lookup.id = id.toInt64) ↔
      ∃ dir, rowOfEntry rows (DEntSerde.serKey ⟨parentId⟩ name) = some dir ∧
        dir.id.val = id := by
  constructor
  · rintro ⟨lookup, hask, hcode, hid⟩
    obtain ⟨dir, hrow⟩ := LookupOp.row_of_success hask hcode
    have hname := hnames dir (rowOfEntry_mem hrow).1
    obtain rfl := Except.ok.inj ((LookupOp.ask_run_dbOf hrow hname).symm.trans hask)
    exact ⟨dir, hrow, congrArg Int64.toUInt64 hid⟩
  · rintro ⟨dir, hrow, rfl⟩
    exact ⟨_, LookupOp.ask_run_dbOf hrow (hnames dir (rowOfEntry_mem hrow).1), rfl, rfl⟩

end Children

/-- On every database reached with non-empty well-formed names: the superuser's
listing of an existing directory, with a limit that exceeds the number of entries,
contains a directory of a name and id exactly when a lookup of that name succeeds
with that id, and it contains no name twice. -/
theorem mem_listDir_iff_lookup {fb : FlatBuffers} {trace : ServiceTrace} {s : ServiceState}
    (h : Run (serviceStep fb) (ServiceState.init .empty) trace s)
    (hnames : ∀ e ∈ trace, e.1.event.Names fun name => name ≠ [] ∧ validUtf8 name)
    {id : UInt64} (hid : ⟨id⟩ = kRootInodeID ∨ s.kv.store.db.HasInode ⟨id⟩) {limit : Int32}
    (hlimit : (s.kv.store.db.entryCount ⟨id⟩ : ℤ) < limit.toInt) (gid : UInt32) :
    ∃ resp, ask s.kv.store.db (ListDirOp.run fb ⟨id, [], limit, 0, gid⟩) = .ok resp ∧
      resp.errorCode = 0 ∧
      (∀ name i, ⟨i, name, S_IFDIR.toUInt32⟩ ∈ resp.ents ↔
        ∃ lookup, ask s.kv.store.db (LookupOp.run fb ⟨id, name⟩) = .ok lookup ∧
          lookup.errorCode = 0 ∧ lookup.id = i.toInt64) ∧
      (resp.ents.map DEnt.name).Nodup := by
  obtain ⟨creations, hinv⟩ := creationsInv_run h
  have hrows := hinv.names h hnames
  have hnonempty := fun dir hdir => (hrows dir hdir).1
  rw [hinv.db_eq] at hid hlimit ⊢
  have hents : (dbOf fb (rowsOf creations)).Lists fb ⟨id⟩ _ := lists_dbOf hrows
  rw [hents.entryCount_eq] at hlimit
  obtain ⟨resp, hask, hcode, hpage, _⟩ := ListDirOp.ask_run ⟨id, [], limit, 0, gid⟩ hents
    (mayList_dbOf hnonempty hid) (parentReadable_dbOf hnonempty hid)
  -- the limit exceeds the number of entries, so one page holds all of them
  have hall : resp.ents = (childrenOf (rowsOf creations) ⟨id⟩).map fun dir =>
      ListDirOp.dirDent dir.id dir.name := by
    have hpos : 0 < limit := Int32.lt_iff_toInt_lt.mpr (by simp; omega)
    rw [hpage, ListDirOp.page_first rfl,
      ListDirOp.effectiveLimit_of_pos ⟨id, [], limit, 0, gid⟩ hpos,
      List.take_of_length_le (by dsimp only; omega), List.map_map]
    rfl
  refine ⟨resp, hask, hcode, fun name i => ?_, ?_⟩
  · rw [LookupOp.success_iff hnonempty, hall, List.mem_map]
    constructor
    · rintro ⟨dir, hdir, heq⟩
      obtain ⟨hi, rfl, _⟩ := DEnt.mk.inj heq
      exact ⟨dir, mem_childrenOf.mp hdir, hi⟩
    · rintro ⟨dir, hrow, rfl⟩
      obtain ⟨_, rfl⟩ := DEntSerde.serKey_inj.mp (rowOfEntry_mem hrow).2
      exact ⟨dir, mem_childrenOf.mpr hrow, rfl⟩
  · rw [hall, List.map_map]
    exact List.pairwise_map.mpr ((childrenOf_sorted _ _).imp fun hab => hab.ne)

theorem mem_listDir_iff_lookup_threeDirectories :
    ∃ s, Run (serviceStep .sample) (ServiceState.init .empty) threeDirectoriesTrace s ∧
      ∃ resp, ask s.kv.store.db (ListDirOp.run .sample ⟨1, [], 3, 0, 0⟩) = .ok resp ∧
        resp.errorCode = 0 ∧
        (∀ name i, ⟨i, name, S_IFDIR.toUInt32⟩ ∈ resp.ents ↔
          ∃ lookup, ask s.kv.store.db (LookupOp.run .sample ⟨1, name⟩) = .ok lookup ∧
            lookup.errorCode = 0 ∧ lookup.id = i.toInt64) ∧
        (resp.ents.map DEnt.name).Nodup := by
  obtain ⟨s, hrun, hcount⟩ : ∃ s, Run (serviceStep .sample) (ServiceState.init .empty)
      threeDirectoriesTrace s ∧ s.kv.store.db.entryCount ⟨1⟩ = 2 :=
    exists_run_of_replay_eq threeDirectories _ rfl
  refine ⟨s, hrun, mem_listDir_iff_lookup hrun threeDirectoriesTrace_names (.inl rfl) ?_ 0⟩
  rw [hcount]
  decide

end RocketFS
