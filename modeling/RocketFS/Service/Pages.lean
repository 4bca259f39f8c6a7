import RocketFS.Service.Listing

/-!
# One page of a directory

The entries of all directories are in one column family, and `KVDEntView::List` reads a
stretch of it that two keys delimit. Where every value names the parent and the name of
its key, the page that is read belongs to one directory and leaves nothing out between
its first and its last entry (`KVDEntView.list_isPage`).

`ListDir` says with `has_more` whether entries remain. It compares the number of entries
with the limit of the request, but a limit that is not positive is replaced for the scan
by a default, and then the flag is wrong on an empty directory and on one that does not
fit on the page (`listDir_hasMore_iff`).

## Main definitions

* `Database.EntriesKeyed` — every entry record carries the parent and the name of its key
* `KVDEntView.IsPage` — a page without gaps
* `ListDirOp.HasMoreTruthful` — the flag says whether entries remain
-/

namespace RocketFS

/-! ### Records that carry their key -/

/-- The table is an entry with this parent and this name. -/
def Fb.DEnt.Carries (parentId : UInt64) (name : Bytes) : Fb.DEnt → Prop
  | .none => False
  | .hardLink l => l.parentId = parentId ∧ l.name = some name
  | .dir d => d.parentId = parentId ∧ d.name = some name

def Entry.parentId : Entry → InodeID
  | .inl dir => dir.parentId
  | .inr hardLink => hardLink.parentId

namespace Database

/-- The keys of the entry records are made of a parent and a well-formed name, and the
values carry the same parent and name. -/
def EntriesKeyed (fb : FlatBuffers) (db : Database) : Prop :=
  ∀ key value, db.get kDEntCFIndex key = some value →
    ∃ parentId name, key = DEntSerde.serKey parentId name ∧ validUtf8 name ∧
      ∃ dent, fb.getDEnt value = some dent ∧ dent.Carries parentId.val name

/-- The entry is stored in the directory, under its own name. -/
def HasEntry (fb : FlatBuffers) (db : Database) (parentId : InodeID) (e : Entry) : Prop :=
  ∃ value, db.get kDEntCFIndex (DEntSerde.serKey parentId e.name) = some value ∧
    DEntSerde.deVal fb value = .ok e

end Database

theorem DEntSerde.deVal_of_carries {fb : FlatBuffers} {value : Bytes} {dent : Fb.DEnt}
    {parentId : InodeID} {name : Bytes} (hget : fb.getDEnt value = some dent)
    (h : dent.Carries parentId.val name) :
    ∃ e : Entry, deVal fb value = .ok e ∧ e.parentId = parentId ∧ e.name = name := by
  cases dent with
  | none => exact h.elim
  | hardLink hardLink =>
    obtain ⟨hparent, hname⟩ := h
    refine ⟨.inr ⟨⟨hardLink.parentId⟩, name, ⟨hardLink.id⟩⟩, ?_, ?_, rfl⟩
    · simp only [deVal, hget, hname]
    · exact congrArg InodeID.mk hparent
  | dir dir =>
    obtain ⟨hparent, hname⟩ := h
    refine ⟨.inl ⟨⟨dir.parentId⟩, name, ⟨dir.id⟩, Acl.zero, 0, 0, 0⟩, ?_, ?_, rfl⟩
    · simp only [deVal, hget, hname]
    · exact congrArg InodeID.mk hparent

theorem Database.EntriesKeyed.entry {fb : FlatBuffers} {db : Database} (h : db.EntriesKeyed fb)
    {parentId : InodeID} {name value : Bytes}
    (hget : db.get kDEntCFIndex (DEntSerde.serKey parentId name) = some value) :
    validUtf8 name ∧
      ∃ e : Entry, DEntSerde.deVal fb value = .ok e ∧ e.parentId = parentId ∧ e.name = name := by
  obtain ⟨parentId', name', hkey, hutf8, dent, hdent, hcarries⟩ := h _ _ hget
  obtain ⟨rfl, rfl⟩ := DEntSerde.serKey_inj.mp hkey
  exact ⟨hutf8, DEntSerde.deVal_of_carries hdent hcarries⟩

/-! ### The scan -/

namespace KVDEntView

variable {fb : FlatBuffers} {db : Database} {parentId : InodeID} {startAfter : Bytes} {limit : ℕ}

/-- The records `List` passes when there is no limit. -/
def scan (db : Database) (parentId : InodeID) (startAfter : Bytes) : List (Bytes × Bytes) :=
  (db.cf kDEntCFIndex).slice (DEntSerde.serKey parentId startAfter) (endKey parentId)

theorem scan_sorted (db : Database) (parentId : InodeID) (startAfter : Bytes) :
    (scan db parentId startAfter).Pairwise fun a b => a.1 < b.1 :=
  SortedMap.slice_sorted _ _ _

theorem mem_scan {key value : Bytes} : (key, value) ∈ scan db parentId startAfter ↔
    ∃ name, key = DEntSerde.serKey parentId name ∧ startAfter ≤ name ∧ name < [0xFF] ∧
      db.get kDEntCFIndex (DEntSerde.serKey parentId name) = some value := by
  rw [scan, SortedMap.mem_slice]
  constructor
  · rintro ⟨hget, hstart, hstop⟩
    obtain ⟨name, rfl, hstart, hstop⟩ := Database.Lists.exists_serKey hstart hstop
    exact ⟨name, rfl, hstart, hstop, hget⟩
  · rintro ⟨name, rfl, hstart, hstop, hget⟩
    exact ⟨hget, DEntSerde.serKey_le_iff.mpr (.inr ⟨rfl, hstart⟩),
      DEntSerde.serKey_lt_iff.mpr (.inr ⟨rfl, hstop⟩)⟩

/-- A record with a well-formed name is scanned unless it stands before the start. -/
theorem mem_scan_of_get {name value : Bytes} (hutf8 : validUtf8 name)
    (hget : db.get kDEntCFIndex (DEntSerde.serKey parentId name) = some value)
    (hstart : startAfter ≤ name) :
    (DEntSerde.serKey parentId name, value) ∈ scan db parentId startAfter :=
  mem_scan.mpr ⟨name, rfl, hstart, lt_of_validUtf8 hutf8, hget⟩

/-- `List` returns what the scanned records decode to. -/
theorem ask_list_iff {ents : List Entry} :
    ask db (list fb parentId startAfter limit) = .ok (.ok ents) ↔
      ((scan db parentId startAfter).take limit).mapM (fun r => DEntSerde.deVal fb r.2) =
        .ok ents := by
  have hrange : (db.range kDEntCFIndex (DEntSerde.serKey parentId startAfter) (endKey parentId)
      limit).mapM (DEntSerde.deVal fb) =
        ((scan db parentId startAfter).take limit).mapM fun r => DEntSerde.deVal fb r.2 := by
    rw [Database.range, scan, ← List.map_take, List.mapM_map]
    rfl
  rw [← hrange]
  constructor
  · intro h
    rw [list, ask_bind, ask_getRange (by decide), ok_bind] at h
    dsimp only at h
    rw [ask_bind, ask_liftM] at h
    obtain ⟨ents', hents, h⟩ := bind_ok h
    obtain rfl := Except.ok.inj (Except.ok.inj h)
    exact hents
  · exact fun h => ask_list startAfter limit h

/-- A page of a directory: the entries are those of one stretch of names, from
`startAfter` on. -/
structure IsPage (fb : FlatBuffers) (db : Database) (parentId : InodeID) (startAfter : Bytes)
    (limit : ℕ) (ents : List Entry) : Prop where
  length_le : ents.length ≤ limit
  parentId_eq : ∀ e ∈ ents, e.parentId = parentId
  hasEntry : ∀ e ∈ ents, db.HasEntry fb parentId e
  sorted : ents.Pairwise fun a b => a.name < b.name
  startAfter_le : ∀ e ∈ ents, startAfter ≤ e.name
  /-- No name up to the last one returned is skipped. -/
  gapFree : ∀ last ∈ ents.getLast?, ∀ e, db.HasEntry fb parentId e → startAfter < e.name →
    e.name ≤ last.name → e ∈ ents
  /-- A page that is not full is the last one. -/
  complete : ents.length < limit → ∀ e, db.HasEntry fb parentId e → startAfter < e.name →
    e ∈ ents

/-- A scanned record is an entry of the directory. -/
theorem exists_entry_of_mem_scan (hdb : db.EntriesKeyed fb) {r : Bytes × Bytes}
    (hr : r ∈ scan db parentId startAfter) :
    ∃ e : Entry, DEntSerde.deVal fb r.2 = .ok e ∧ e.parentId = parentId ∧
      startAfter ≤ e.name ∧ r.1 = DEntSerde.serKey parentId e.name := by
  obtain ⟨key, value⟩ := r
  obtain ⟨name, rfl, hstart, _, hget⟩ := mem_scan.mp hr
  obtain ⟨_, e, hdecode, hparent, rfl⟩ := hdb.entry hget
  exact ⟨e, hdecode, hparent, hstart, rfl⟩

/-- An entry of the directory is scanned unless its name stands before the start. -/
theorem scanned_of_hasEntry (hdb : db.EntriesKeyed fb) {e : Entry}
    (he : db.HasEntry fb parentId e) (hstart : startAfter ≤ e.name) :
    ∃ value, (DEntSerde.serKey parentId e.name, value) ∈ scan db parentId startAfter ∧
      DEntSerde.deVal fb value = .ok e := by
  obtain ⟨value, hget, hdecode⟩ := he
  exact ⟨value, mem_scan_of_get (hdb.entry hget).1 hget hstart, hdecode⟩

section Page

variable {ents : List Entry}

/-- An entry that is returned stands in a scanned record, under its own name. -/
theorem record_of_mem (hdb : db.EntriesKeyed fb)
    (hents : ((scan db parentId startAfter).take limit).mapM (fun r => DEntSerde.deVal fb r.2) =
      .ok ents) {e : Entry} (he : e ∈ ents) :
    e.parentId = parentId ∧ startAfter ≤ e.name ∧
      ∃ value, (DEntSerde.serKey parentId e.name, value) ∈
          (scan db parentId startAfter).take limit ∧ DEntSerde.deVal fb value = .ok e := by
  obtain ⟨⟨key, value⟩, hr, hdecode⟩ := (mem_of_mapM_ok hents).mp he
  obtain ⟨e', hdecode', hparent, hstart, hkey⟩ :=
    exists_entry_of_mem_scan hdb (List.mem_of_mem_take hr)
  obtain rfl := Except.ok.inj (hdecode.symm.trans hdecode')
  obtain rfl : key = _ := hkey
  exact ⟨hparent, hstart, value, hr, hdecode⟩

/-- The entries have the keys of the scanned records, in the same order. -/
theorem map_serKey_of_scan (hdb : db.EntriesKeyed fb)
    (hents : ((scan db parentId startAfter).take limit).mapM (fun r => DEntSerde.deVal fb r.2) =
      .ok ents) :
    ents.map (fun e => DEntSerde.serKey parentId e.name) =
      ((scan db parentId startAfter).take limit).map Prod.fst := by
  refine map_of_mapM_ok hents fun r hr e hdecode => ?_
  obtain ⟨e', hdecode', _, _, hkey⟩ := exists_entry_of_mem_scan hdb (List.mem_of_mem_take hr)
  rw [hkey, Except.ok.inj (hdecode.symm.trans hdecode')]

theorem sorted_of_scan (hdb : db.EntriesKeyed fb)
    (hents : ((scan db parentId startAfter).take limit).mapM (fun r => DEntSerde.deVal fb r.2) =
      .ok ents) : ents.Pairwise fun a b => a.name < b.name := by
  have hsorted : (ents.map fun e => DEntSerde.serKey parentId e.name).Pairwise (· < ·) := by
    rw [map_serKey_of_scan hdb hents, List.pairwise_map]
    exact (scan_sorted db parentId startAfter).sublist (List.take_sublist _ _)
  refine (List.pairwise_map.mp hsorted).imp fun hlt => ?_
  -- keys with one parent compare as their names do
  rcases DEntSerde.serKey_lt_iff.mp hlt with hparent | ⟨_, hname⟩
  · exact absurd hparent (UInt64.lt_irrefl _)
  · exact hname

end Page

/-- `List` returns a page without gaps of the directory it is asked for, at every limit,
whatever the other directories hold. -/
theorem list_isPage (hdb : db.EntriesKeyed fb) (parentId : InodeID) (startAfter : Bytes)
    (limit : ℕ) :
    ∃ ents, ask db (list fb parentId startAfter limit) = .ok (.ok ents) ∧
      IsPage fb db parentId startAfter limit ents := by
  obtain ⟨ents, hents⟩ : ∃ ents, ((scan db parentId startAfter).take limit).mapM
      (fun r => DEntSerde.deVal fb r.2) = .ok ents := by
    refine exists_mapM_ok fun r hr => ?_
    obtain ⟨e, hdecode, _⟩ := exists_entry_of_mem_scan hdb (List.mem_of_mem_take hr)
    exact ⟨e, hdecode⟩
  have hlength := length_of_mapM_ok hents
  rw [List.length_take] at hlength
  refine ⟨ents, ask_list_iff.mpr hents, ?_⟩
  constructor
  case length_le => omega
  case parentId_eq => exact fun e he => (record_of_mem hdb hents he).1
  case hasEntry =>
    intro e he
    obtain ⟨_, _, value, hr, hdecode⟩ := record_of_mem hdb hents he
    obtain ⟨name, hkey, _, _, hget⟩ := mem_scan.mp (List.mem_of_mem_take hr)
    exact ⟨value, hkey ▸ hget, hdecode⟩
  case sorted => exact sorted_of_scan hdb hents
  case startAfter_le => exact fun e he => (record_of_mem hdb hents he).2.1
  case gapFree =>
    intro last hlast e he hstart hle
    obtain ⟨value, hscanned, hdecode⟩ := scanned_of_hasEntry hdb he hstart.le
    obtain ⟨_, _, lastValue, hr, _⟩ := record_of_mem hdb hents (List.mem_of_getLast? hlast)
    apply (mem_of_mapM_ok hents).mpr
    refine ⟨(DEntSerde.serKey parentId e.name, value), ?_, hdecode⟩
    -- the records read are an initial segment of the scan
    exact SortedMap.mem_take_of_le (scan_sorted db parentId startAfter) hr hscanned
      (DEntSerde.serKey_le_iff.mpr (.inr ⟨rfl, hle⟩))
  case complete =>
    intro hfew e he hstart
    obtain ⟨value, hscanned, hdecode⟩ := scanned_of_hasEntry hdb he hstart.le
    apply (mem_of_mapM_ok hents).mpr
    refine ⟨(DEntSerde.serKey parentId e.name, value), ?_, hdecode⟩
    -- a page that is not full holds the whole scan
    rw [List.take_of_length_le (by omega)]
    exact hscanned

end KVDEntView

/-- The records that stand for rows carry their key. -/
theorem entriesKeyed_dbOf {fb : FlatBuffers} {rows : List Dir}
    (hnames : ∀ dir ∈ rows, dir.name ≠ [] ∧ validUtf8 dir.name) :
    (dbOf fb rows).EntriesKeyed fb := by
  intro key value hget
  rw [get_dent_dbOf] at hget
  -- key and value are written from the same row
  obtain ⟨dir, hrow, rfl⟩ := Option.map_eq_some_iff.mp hget
  obtain ⟨hdir, hkey⟩ := rowOfEntry_mem hrow
  obtain ⟨hne, hutf8⟩ := hnames dir hdir
  refine ⟨dir.parentId, dir.name, hkey, hutf8, _, fb.getDEnt_finish _, rfl, ?_⟩
  exact Fb.packString_of_ne_nil hne

/-- So do the records of every database that requests with well-formed names have made. -/
theorem entriesKeyed_of_run {fb : FlatBuffers} {trace : ServiceTrace} {s : ServiceState}
    (h : Run (serviceStep fb) (ServiceState.init .empty) trace s)
    (hnames : ∀ e ∈ trace, e.1.event.Names fun name => name ≠ [] ∧ validUtf8 name) :
    s.kv.store.db.EntriesKeyed fb := by
  obtain ⟨creations, hinv⟩ := creationsInv_run h
  rw [hinv.db_eq]
  exact entriesKeyed_dbOf (hinv.names h hnames)

theorem list_isPage_threeDirectories :
    ∃ s, Run (serviceStep .sample) (ServiceState.init .empty) threeDirectoriesTrace s ∧
      s.kv.store.db.EntriesKeyed .sample ∧
      ∃ ents, ask s.kv.store.db (KVDEntView.list .sample ⟨1⟩ [] 1) = .ok (.ok ents) ∧
        KVDEntView.IsPage .sample s.kv.store.db ⟨1⟩ [] 1 ents := by
  obtain ⟨s, hrun⟩ := threeDirectoriesTrace_run
  have hkeyed := entriesKeyed_of_run hrun threeDirectoriesTrace_names
  exact ⟨s, hrun, hkeyed, KVDEntView.list_isPage hkeyed ⟨1⟩ [] 1⟩

/-! ### Whether entries remain -/

namespace ListDirOp

variable {fb : FlatBuffers} {db : Database} {req : ListDirRequest} {resp : ListDirResponse}

/-- The entries of the directory from `start_after` on. -/
def remaining (db : Database) (req : ListDirRequest) : List (Bytes × Bytes) :=
  KVDEntView.scan db ⟨req.id⟩ req.startAfter

/-- The key under which the last entry of a response is stored; where the scan began
when there is none. -/
def lastKey (db : Database) (req : ListDirRequest) (resp : ListDirResponse) : Bytes :=
  (((remaining db req).take resp.ents.length).getLast?.map Prod.fst).getD
    (DEntSerde.serKey ⟨req.id⟩ req.startAfter)

/-- A false flag means that no entry of the directory stands behind the last one
returned, and a true flag comes with at least one entry. -/
def HasMoreTruthful (db : Database) (req : ListDirRequest) (resp : ListDirResponse) : Prop :=
  (resp.hasMore = false → ∀ name value,
    db.get kDEntCFIndex (DEntSerde.serKey ⟨req.id⟩ name) = some value →
      DEntSerde.serKey ⟨req.id⟩ name ≤ lastKey db req resp) ∧
  (resp.hasMore = true → resp.ents ≠ [])

/-- The number of entries a successful request returns. -/
theorem length_of_success (h : ask db (run fb req) = .ok resp) (hcode : resp.errorCode = 0) :
    resp.ents.length = min (effectiveLimit req) (remaining db req).length ∧
      resp.hasMore = decide (resp.ents.length = req.limit.toInt64.toUInt64.toNat) := by
  obtain ⟨dir, self, parent, ents, _, _, hlisted, rfl⟩ := success_inv h hcode
  have hlength := length_of_mapM_ok (KVDEntView.ask_list_iff.mp hlisted)
  rw [List.length_take] at hlength
  dsimp only
  rw [List.length_map]
  exact ⟨hlength, rfl⟩

/-- The page of a response, among the entries that remained. -/
theorem take_remaining_eq
    (hlength : resp.ents.length = min (effectiveLimit req) (remaining db req).length) :
    (remaining db req).take resp.ents.length = (remaining db req).take (effectiveLimit req) :=
  List.take_eq_take_iff.mpr (by omega)

/-- Where values carry their key, the last entry is stored under the last name of the
response. -/
theorem lastKey_eq (hdb : db.EntriesKeyed fb) (h : ask db (run fb req) = .ok resp)
    (hcode : resp.errorCode = 0) :
    lastKey db req resp =
      DEntSerde.serKey ⟨req.id⟩ ((resp.ents.getLast?.map DEnt.name).getD req.startAfter) := by
  have hlength := (length_of_success h hcode).1
  obtain ⟨dir, self, parent, ents, _, _, hlisted, rfl⟩ := success_inv h hcode
  have hkeys := KVDEntView.map_serKey_of_scan hdb (KVDEntView.ask_list_iff.mp hlisted)
  rw [lastKey, take_remaining_eq hlength, ← List.getLast?_map, remaining, ← hkeys,
    List.getLast?_map, List.getLast?_map]
  cases ents.getLast? with
  | none => rfl
  | some last => exact congrArg (DEntSerde.serKey ⟨req.id⟩) (Entry.name_dent last).symm

theorem effectiveLimit_pos (req : ListDirRequest) : 0 < effectiveLimit req := by
  rw [effectiveLimit]
  split_ifs with hlimit
  · have : 0 < req.limit.toInt := by simpa using Int32.lt_iff_toInt_lt.mp hlimit
    omega
  · decide

/-- A negative limit is compared as a number no page reaches. -/
theorem lt_toNat_limit_of_neg (h : req.limit < 0) :
    listDirDefaultLimit < req.limit.toInt64.toUInt64.toNat := by
  have hneg : req.limit.toInt < 0 := by simpa using Int32.lt_iff_toInt_lt.mp h
  have hint : req.limit.toInt64.toBitVec.toInt = req.limit.toInt := req.limit.toInt_toInt64
  rw [BitVec.toInt_eq_toNat_cond] at hint
  change 100 < req.limit.toInt64.toBitVec.toNat
  split_ifs at hint <;> omega

/-- The key of a record with a well-formed name stands before the start of the scan, or
the record remains. -/
theorem lt_start_or_mem_remaining {name value : Bytes} (hutf8 : validUtf8 name)
    (hget : db.get kDEntCFIndex (DEntSerde.serKey ⟨req.id⟩ name) = some value) :
    DEntSerde.serKey ⟨req.id⟩ name < DEntSerde.serKey ⟨req.id⟩ req.startAfter ∨
      (DEntSerde.serKey ⟨req.id⟩ name, value) ∈ remaining db req := by
  rcases lt_or_ge name req.startAfter with hlt | hle
  · exact .inl (DEntSerde.serKey_lt_iff.mpr (.inr ⟨rfl, hlt⟩))
  · exact .inr (KVDEntView.mem_scan_of_get hutf8 hget hle)

theorem remaining_sorted (db : Database) (req : ListDirRequest) :
    (remaining db req).Pairwise fun a b => a.1 < b.1 :=
  KVDEntView.scan_sorted db _ _

theorem start_le_of_mem_remaining {r : Bytes × Bytes} (hr : r ∈ remaining db req) :
    DEntSerde.serKey ⟨req.id⟩ req.startAfter ≤ r.1 := by
  obtain ⟨key, value⟩ := r
  exact (SortedMap.mem_slice.mp hr).2.1

/-- Nothing stands behind the last entry returned exactly when the page holds all the
entries that remained. -/
theorem forall_le_lastKey_iff
    (hnames : ∀ name value, db.get kDEntCFIndex (DEntSerde.serKey ⟨req.id⟩ name) = some value →
      validUtf8 name)
    (hlength : resp.ents.length = min (effectiveLimit req) (remaining db req).length) :
    (∀ name value, db.get kDEntCFIndex (DEntSerde.serKey ⟨req.id⟩ name) = some value →
      DEntSerde.serKey ⟨req.id⟩ name ≤ lastKey db req resp) ↔
    (remaining db req).length ≤ effectiveLimit req := by
  rw [lastKey, take_remaining_eq hlength]
  cases hlast : ((remaining db req).take (effectiveLimit req)).getLast? with
  | none =>
    -- the limit is positive, so nothing is returned only when nothing remains
    have hempty : remaining db req = [] := by
      rw [List.getLast?_eq_none_iff, List.take_eq_nil_iff] at hlast
      exact hlast.resolve_left (effectiveLimit_pos req).ne'
    rw [hempty]
    refine iff_of_true (fun name value hget => ?_) (Nat.zero_le _)
    rcases lt_start_or_mem_remaining (hnames name value hget) hget with hlt | hmem
    · exact hlt.le
    · rw [hempty] at hmem
      cases hmem
  | some last =>
    have hstart := start_le_of_mem_remaining
      (List.mem_of_mem_take (List.mem_of_getLast? hlast))
    rw [Option.map_some, Option.getD_some,
      ← SortedMap.forall_le_last_take_iff (remaining_sorted db req) hlast]
    constructor
    · -- what the scan passes is of this directory
      rintro hall ⟨key, value⟩ hr
      obtain ⟨name, rfl, _, _, hget⟩ := KVDEntView.mem_scan.mp hr
      exact hall name value hget
    · intro hall name value hget
      rcases lt_start_or_mem_remaining (hnames name value hget) hget with hlt | hmem
      · exact hlt.le.trans hstart
      · exact hall _ hmem

end ListDirOp

/-- The flag of a successful request is truthful exactly when the limit is positive, or the
entries that remain fit on the default page and, for the limit zero, there are any. -/
theorem listDir_hasMore_iff {fb : FlatBuffers} {db : Database} {req : ListDirRequest}
    {resp : ListDirResponse}
    (hnames : ∀ name value, db.get kDEntCFIndex (DEntSerde.serKey ⟨req.id⟩ name) = some value →
      validUtf8 name)
    (h : ask db (ListDirOp.run fb req) = .ok resp) (hcode : resp.errorCode = 0) :
    ListDirOp.HasMoreTruthful db req resp ↔
      0 < req.limit ∨
        (ListDirOp.remaining db req).length ≤ ListDirOp.listDirDefaultLimit ∧
          (req.limit = 0 → 0 < (ListDirOp.remaining db req).length) := by
  obtain ⟨hlength, hmore⟩ := ListDirOp.length_of_success h hcode
  rw [ListDirOp.HasMoreTruthful, ListDirOp.forall_le_lastKey_iff hnames hlength, hmore,
    decide_eq_false_iff_not, decide_eq_true_eq, ← List.length_pos_iff, hlength]
  by_cases hpos : 0 < req.limit
  · -- the number compared is the number the scan stops at
    have heq := ListDirOp.toNat_limit_of_pos hpos
    have heff := ListDirOp.effectiveLimit_pos req
    refine iff_of_true ⟨fun hfew => ?_, fun hfull => ?_⟩ (.inl hpos) <;> omega
  · have heff : ListDirOp.effectiveLimit req = ListDirOp.listDirDefaultLimit := if_neg hpos
    rw [or_iff_right hpos, heff]
    by_cases hzero : req.limit = 0
    · -- the flag is true exactly when nothing is returned
      have heq : req.limit.toInt64.toUInt64.toNat = 0 := by rw [hzero]; rfl
      have hdefault : 0 < ListDirOp.listDirDefaultLimit := by decide
      rw [heq]
      constructor
      · rintro ⟨hfew, hfull⟩
        have hsome : 0 < (ListDirOp.remaining db req).length := by
          by_contra hnone
          exact absurd (hfull (by omega)) (by omega)
        exact ⟨hfew (by omega), fun _ => hsome⟩
      · rintro ⟨hfew, hsome⟩
        have := hsome hzero
        exact ⟨fun _ => hfew, fun hfull => by omega⟩
    · -- the flag is never true
      have hneg : req.limit < 0 := Int32.lt_of_le_of_ne (Int32.not_lt.mp hpos) hzero
      have hlt := ListDirOp.lt_toNat_limit_of_neg hneg
      constructor
      · rintro ⟨hfew, _⟩
        exact ⟨hfew (by omega), fun h => absurd h hzero⟩
      · rintro ⟨hfew, _⟩
        exact ⟨fun _ => hfew, fun hfull => by omega⟩

/-- A page of one entry of the root, which has two. -/
theorem listDir_hasMore_threeDirectories :
    ∃ s, Run (serviceStep .sample) (ServiceState.init .empty) threeDirectoriesTrace s ∧
      ∃ resp, ask s.kv.store.db (ListDirOp.run .sample ⟨1, [], 1, 0, 0⟩) = .ok resp ∧
        resp.errorCode = 0 ∧ resp.hasMore = true ∧
        ListDirOp.HasMoreTruthful s.kv.store.db ⟨1, [], 1, 0, 0⟩ resp := by
  obtain ⟨s, hrun, hresp⟩ : ∃ s, Run (serviceStep .sample) (ServiceState.init .empty)
      threeDirectoriesTrace s ∧
        (ask s.kv.store.db (ListDirOp.run .sample ⟨1, [], 1, 0, 0⟩)).map
          (fun resp => (resp.errorCode, resp.hasMore)) = .ok (0, true) :=
    exists_run_of_replay_eq threeDirectories _ rfl
  obtain ⟨resp, hask, heq⟩ := map_ok hresp
  obtain ⟨hcode, hmore⟩ := Prod.mk.inj heq
  have hkeyed := entriesKeyed_of_run hrun threeDirectoriesTrace_names
  refine ⟨s, hrun, resp, hask, hcode, hmore, ?_⟩
  refine (listDir_hasMore_iff (fun name value hget => ?_) hask hcode).mpr (.inl (by decide))
  exact (hkeyed.entry hget).1

/-- The limit zero on an empty directory. -/
theorem listDir_hasMore_without_entries :
    ∃ resp, ask .empty (ListDirOp.run .sample ⟨1, [], 0, 0, 0⟩) = .ok resp ∧
      resp.errorCode = 0 ∧ resp.hasMore = true ∧ resp.ents = [] ∧
      ¬ ListDirOp.HasMoreTruthful .empty ⟨1, [], 0, 0, 0⟩ resp := by
  refine ⟨_, rfl, rfl, rfl, rfl, ?_⟩
  rintro ⟨_, hmore⟩
  exact hmore rfl rfl

end RocketFS
