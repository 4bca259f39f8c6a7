import RocketFS.Service.Operations

/-!
# The entries of one directory

`Database.Lists` says that the entry records under a parent are those of a list of
entries in name order. On such a database a `ListDir` request returns a section of
that list (`ListDirOp.ask_run`): it begins at `start_after` itself, not after it.

## Main definitions

* `Entry` — a directory or a hard link, with what its record keeps
* `Database.Lists` — the entries of a directory
* `MayList`, `ParentReadable` — the caller passes the checks that precede the listing
-/

namespace RocketFS

/-- An entry as `KVDEntView` returns it: `std::variant<Dir, HardLink>`. -/
abbrev Entry := Dir ⊕ HardLink

namespace Entry

def name : Entry → Bytes
  | .inl dir => dir.name
  | .inr hardLink => hardLink.name

/-- The value stored for an entry. -/
def serVal (fb : FlatBuffers) : Entry → Bytes
  | .inl dir => DEntSerde.serValDir fb dir
  | .inr hardLink => DEntSerde.serValHardLink fb hardLink

/-- What is left of an entry after it has been stored. -/
def stored : Entry → Entry
  | .inl dir => .inl ⟨dir.parentId, dir.name, dir.id, Acl.zero, 0, 0, 0⟩
  | .inr hardLink => .inr hardLink

theorem deVal_serVal {fb : FlatBuffers} {e : Entry} (h : e.name ≠ []) :
    DEntSerde.deVal fb (e.serVal fb) = .ok e.stored := by
  cases e with
  | inl dir => exact DEntSerde.deVal_serValDir fb dir h
  | inr hardLink => exact DEntSerde.deVal_serValHardLink fb hardLink h

theorem dent_stored (e : Entry) : ListDirOp.dent e.stored = ListDirOp.dent e := by
  cases e <;> rfl

theorem name_dent (e : Entry) : (ListDirOp.dent e).name = e.name := by
  cases e <;> rfl

theorem mapM_deVal {fb : FlatBuffers} {ents : List Entry} (h : ∀ e ∈ ents, e.name ≠ []) :
    (ents.map (serVal fb)).mapM (DEntSerde.deVal fb) = .ok (ents.map stored) := by
  rw [mapM_ok_iff, List.map_map, List.map_map]
  exact List.map_congr_left fun e he => deVal_serVal (h e he)

end Entry

/-- The directory entries of `parentId` are `ents`, in increasing name order; the
names are non-empty and well-formed UTF-8, as a `string` field is. -/
structure Database.Lists (fb : FlatBuffers) (db : Database) (parentId : InodeID)
    (ents : List Entry) : Prop where
  sorted : ents.Pairwise fun a b => a.name < b.name
  name_ne_nil : ∀ e ∈ ents, e.name ≠ []
  utf8 : ∀ e ∈ ents, validUtf8 e.name
  get_iff : ∀ name value, db.get kDEntCFIndex (DEntSerde.serKey parentId name) = some value ↔
    ∃ e ∈ ents, e.name = name ∧ e.serVal fb = value

/-- The number of entry records under a parent. -/
def Database.entryCount (db : Database) (parentId : InodeID) : ℕ :=
  ((db.cf kDEntCFIndex).entries.filter
    fun e => e.1.take 8 = DEntSerde.serKey parentId []).length

namespace Database.Lists

variable {fb : FlatBuffers} {db : Database} {parentId : InodeID} {ents : List Entry}

/-- The record of an entry. -/
private def record (fb : FlatBuffers) (parentId : InodeID) (e : Entry) : Bytes × Bytes :=
  (DEntSerde.serKey parentId e.name, e.serVal fb)

private theorem record_sorted {l : List Entry} (h : l.Pairwise fun a b => a.name < b.name) :
    (l.map (record fb parentId)).Pairwise fun a b => a.1 < b.1 :=
  List.pairwise_map.mpr (h.imp fun hab => DEntSerde.serKey_lt_iff.mpr (.inr ⟨rfl, hab⟩))

/-- A key between the bounds of a listing is the key of an entry of this parent. -/
theorem exists_serKey {startAfter key : Bytes}
    (hstart : DEntSerde.serKey parentId startAfter ≤ key)
    (hstop : key < KVDEntView.endKey parentId) :
    ∃ name, key = DEntSerde.serKey parentId name ∧ startAfter ≤ name ∧ name < [0xFF] := by
  have hle : bigEndian 8 parentId.val.toNat ≤ key := by
    refine le_trans ?_ hstart
    rw [← List.append_nil (bigEndian 8 parentId.val.toNat)]
    exact DEntSerde.serKey_le_iff.mpr (.inr ⟨rfl, not_lt.mp (List.not_lt_nil _)⟩)
  obtain ⟨name, rfl, hname⟩ := exists_append_of_le_of_lt hle hstop
  refine ⟨name, rfl, ?_, hname⟩
  rcases DEntSerde.serKey_le_iff.mp hstart with hlt | ⟨_, hle⟩
  · exact absurd hlt (UInt64.lt_irrefl _)
  · exact hle

/-- The records a listing scans. -/
theorem slice (h : db.Lists fb parentId ents) (startAfter : Bytes) :
    (db.cf kDEntCFIndex).slice (DEntSerde.serKey parentId startAfter)
        (KVDEntView.endKey parentId) =
      (ents.filter fun e => startAfter ≤ e.name).map (record fb parentId) := by
  -- both sides are sorted by key, so it is enough that they have the same members
  refine SortedMap.eq_of_mem_iff (SortedMap.slice_sorted _ _ _)
    (record_sorted (h.sorted.filter _)) ?_
  rintro ⟨key, value⟩
  rw [SortedMap.mem_slice, List.mem_map]
  constructor
  · rintro ⟨hget, hstart, hstop⟩
    obtain ⟨name, rfl, hname, _⟩ := exists_serKey hstart hstop
    obtain ⟨e, he, rfl, rfl⟩ := (h.get_iff name value).mp hget
    exact ⟨e, by simpa [he] using hname, rfl⟩
  · rintro ⟨e, he, heq⟩
    obtain ⟨rfl, rfl⟩ := Prod.mk.inj heq
    obtain ⟨he, hname⟩ := List.mem_filter.mp he
    refine ⟨(h.get_iff _ _).mpr ⟨e, he, rfl, rfl⟩, ?_, ?_⟩
    · exact DEntSerde.serKey_le_iff.mpr (.inr ⟨rfl, by simpa using hname⟩)
    · -- the end key appends `0xFF`, which no well-formed name starts with
      exact DEntSerde.serKey_lt_iff.mpr (.inr ⟨rfl, lt_of_validUtf8 (h.utf8 e he)⟩)

theorem entryCount_eq (h : db.Lists fb parentId ents) :
    db.entryCount parentId = ents.length := by
  have hrecords : (db.cf kDEntCFIndex).entries.filter
      (fun e => e.1.take 8 = DEntSerde.serKey parentId []) = ents.map (record fb parentId) := by
    refine SortedMap.eq_of_mem_iff ((db.cf kDEntCFIndex).sorted.filter _)
      (record_sorted h.sorted) ?_
    rintro ⟨key, value⟩
    rw [List.mem_filter, SortedMap.mem_entries, List.mem_map]
    constructor
    · rintro ⟨hget, hhead⟩
      -- behind the eight bytes of the parent stands the name
      have hkey : key = DEntSerde.serKey parentId (key.drop 8) := by
        have hhead' : key.take 8 = bigEndian 8 parentId.val.toNat ++ [] := of_decide_eq_true hhead
        rw [List.append_nil] at hhead'
        rw [DEntSerde.serKey, ← hhead', List.take_append_drop]
      rw [hkey] at hget
      obtain ⟨e, he, hname, rfl⟩ := (h.get_iff _ _).mp hget
      exact ⟨e, he, by rw [record, hname, ← hkey]⟩
    · rintro ⟨e, he, heq⟩
      obtain ⟨rfl, rfl⟩ := Prod.mk.inj heq
      refine ⟨(h.get_iff _ _).mpr ⟨e, he, rfl, rfl⟩, ?_⟩
      simp [DEntSerde.serKey]
  rw [Database.entryCount, hrecords, List.length_map]

/-- `List` returns the entries from `startAfter` on, that name included. -/
theorem ask_list (h : db.Lists fb parentId ents) (startAfter : Bytes) (limit : ℕ) :
    ask db (KVDEntView.list fb parentId startAfter limit) =
      .ok (.ok (((ents.filter fun e => startAfter ≤ e.name).take limit).map Entry.stored)) := by
  refine KVDEntView.ask_list startAfter limit ?_
  rw [Database.range, h.slice, List.map_map, ← List.map_take]
  refine Entry.mapM_deVal fun e he => h.name_ne_nil e ?_
  exact (List.mem_filter.mp (List.mem_of_mem_take he)).1

end Database.Lists

/-- The user may list the directory: its row is found and gives permission. -/
def MayList (fb : FlatBuffers) (db : Database) (id : InodeID) (user : User) : Prop :=
  ∃ dir, ask db (KVDirTable.read fb id) = .ok (.ok (some dir)) ∧
    HasPermission dir.acl user S_IRUSR

/-- Reading the row of the directory's parent, which the first request of a listing
does unless the directory is the root, does not fail. -/
def ParentReadable (fb : FlatBuffers) (db : Database) (id : InodeID) : Prop :=
  id = kRootInodeID ∨ ∃ dir parentDir, ask db (KVDirTable.read fb id) = .ok (.ok (some dir)) ∧
    ask db (KVDirTable.read fb dir.parentId) = .ok (.ok parentDir)

namespace ListDirOp

variable {fb : FlatBuffers} {db : Database} {req : ListDirRequest}

theorem effectiveLimit_of_pos (req : ListDirRequest) (h : 0 < req.limit) :
    effectiveLimit req = req.limit.toInt.toNat := if_pos h

/-- A positive limit keeps its value when `has_more` is computed. -/
theorem toNat_limit_of_pos (h : 0 < req.limit) :
    req.limit.toInt64.toUInt64.toNat = effectiveLimit req := by
  have hpos : 0 < req.limit.toInt := by simpa using Int32.lt_iff_toInt_lt.mp h
  have hint : req.limit.toInt64.toBitVec.toInt = req.limit.toInt := req.limit.toInt_toInt64
  rw [BitVec.toInt_eq_toNat_cond] at hint
  rw [effectiveLimit_of_pos req h]
  change req.limit.toInt64.toBitVec.toNat = _
  split_ifs at hint <;> omega

theorem ask_parentDent {id : InodeID} {dir : Dir}
    (hread : ask db (KVDirTable.read fb id) = .ok (.ok (some dir)))
    (h : ParentReadable fb db id) :
    ∃ parent, ask db (parentDent (KVDirTable.table fb) id dir) = .ok (.ok parent) := by
  rw [parentDent]
  by_cases hroot : id = kRootInodeID
  · rw [if_pos hroot]
    exact ⟨_, rfl⟩
  · obtain ⟨dir', parentDir, hread', hparent⟩ := h.resolve_left hroot
    obtain rfl : dir = dir' := by simpa [hread] using hread'
    rw [if_neg hroot, KVDirTable.table_read, ask_bind, hparent, ok_bind]
    cases parentDir <;> exact ⟨_, rfl⟩

/-- The entry of the parent is only found when its row can be read. -/
theorem parentReadable_of_parentDent {id : InodeID} {dir : Dir} {parent : Option DEnt}
    (hread : ask db (KVDirTable.read fb id) = .ok (.ok (some dir)))
    (h : ask db (parentDent (KVDirTable.table fb) id dir) = .ok (.ok parent)) :
    ParentReadable fb db id := by
  by_cases hroot : id = kRootInodeID
  · exact .inl hroot
  · rw [parentDent, if_neg hroot, KVDirTable.table_read, ask_bind] at h
    obtain ⟨result, hparent, h⟩ := bind_ok h
    cases result with
    | ok parentDir => exact .inr ⟨dir, parentDir, hread, hparent⟩
    | error error =>
      dsimp only at h
      rw [unexpected, ask_bind, ask_liftM] at h
      obtain ⟨status, _, h⟩ := bind_ok h
      cases h

theorem ask_dots {id : InodeID} {dir : Dir}
    (hread : ask db (KVDirTable.read fb id) = .ok (.ok (some dir)))
    (h : ParentReadable fb db id) :
    ∃ self parent, ask db (dots (KVDirTable.table fb) req id dir) = .ok (.ok (self, parent)) := by
  rw [dots]
  by_cases hfirst : req.startAfter.isEmpty
  · obtain ⟨parent, hparent⟩ := ask_parentDent hread h
    rw [if_pos hfirst, ask_bind, hparent, ok_bind]
    exact ⟨_, _, rfl⟩
  · rw [if_neg hfirst]
    exact ⟨_, _, rfl⟩

/-- A response that is made of a status is not a success. -/
theorem errorCode_ne_zero_of_status {code : StatusCode} {msg : Bytes} {internal : Option Status}
    {location : SourceLocation} {resp : ListDirResponse}
    (h : ask db (do
      let status ← Status.make code msg internal location
      return { errorCode := status.statusCode.toInt32, errorMsg := status.msg }) = .ok resp) :
    resp.errorCode ≠ 0 := by
  rw [ask_bind, ask_liftM] at h
  obtain ⟨status, _, h⟩ := bind_ok h
  obtain rfl := Except.ok.inj h
  exact StatusCode.toInt32_ne_zero _

/-- What a request that succeeds has read, and its response. -/
theorem success_inv {resp : ListDirResponse} (h : ask db (run fb req) = .ok resp)
    (hcode : resp.errorCode = 0) :
    ∃ dir self parent ents, ask db (KVDirTable.read fb ⟨req.id⟩) = .ok (.ok (some dir)) ∧
      ask db (dots (KVDirTable.table fb) req ⟨req.id⟩ dir) = .ok (.ok (self, parent)) ∧
      ask db (KVDEntView.list fb ⟨req.id⟩ req.startAfter (effectiveLimit req)) =
        .ok (.ok ents) ∧
      resp = { selfDent := self, parentDent := parent, ents := ents.map dent,
               hasMore := ents.length = req.limit.toInt64.toUInt64.toNat } := by
  -- at each of the handler's steps only one outcome leads to a success
  rw [run, runOn, KVDirTable.table_read, ask_bind] at h
  obtain ⟨read, hread, h⟩ := bind_ok h
  rcases read with error | _ | dir
  · exact absurd hcode (errorCode_ne_zero_of_status h)
  · exact absurd hcode (errorCode_ne_zero_of_status h)
  dsimp only at h
  rw [ask_bind] at h
  obtain ⟨permission, _, h⟩ := bind_ok h
  rcases permission with error | ⟨⟩
  · exact absurd hcode (errorCode_ne_zero_of_status h)
  dsimp only at h
  rw [listing, ask_bind] at h
  obtain ⟨dots, hdots, h⟩ := bind_ok h
  rcases dots with status | ⟨self, parent⟩
  · obtain rfl := Except.ok.inj h
    exact absurd hcode (StatusCode.toInt32_ne_zero _)
  dsimp only at h
  rw [ask_bind] at h
  obtain ⟨listed, hlisted, h⟩ := bind_ok h
  rcases listed with error | ents
  · exact absurd hcode (errorCode_ne_zero_of_status h)
  · exact ⟨dir, self, parent, ents, hread, hdots, hlisted, (Except.ok.inj h).symm⟩

/-- A first request that succeeds has read the row of the parent. -/
theorem parentReadable_of_run {resp : ListDirResponse} (hfirst : req.startAfter = [])
    (h : ask db (run fb req) = .ok resp) (hcode : resp.errorCode = 0) :
    ParentReadable fb db ⟨req.id⟩ := by
  obtain ⟨dir, self, parent, ents, hread, hdots, _⟩ := success_inv h hcode
  rw [dots, if_pos (by rw [hfirst]; rfl), ask_bind] at hdots
  obtain ⟨result, hparent, hdots⟩ := bind_ok hdots
  cases result with
  | error status => cases hdots
  | ok parent => exact parentReadable_of_parentDent hread hparent

/-- The page a request asks for. -/
def page (ents : List Entry) (req : ListDirRequest) : List DEnt :=
  ((ents.filter fun e => req.startAfter ≤ e.name).take (effectiveLimit req)).map dent

theorem page_first {ents : List Entry} (h : req.startAfter = []) :
    page ents req = (ents.take (effectiveLimit req)).map dent := by
  have hall : (ents.filter fun e => req.startAfter ≤ e.name) = ents :=
    List.filter_eq_self.mpr fun e _ => decide_eq_true (h ▸ not_lt.mp (List.not_lt_nil _))
  rw [page, hall]

/-- A page shows nothing of an entry that is not stored. -/
theorem page_eq_stored (ents : List Entry) (req : ListDirRequest) :
    page ents req = (((ents.filter fun e => req.startAfter ≤ e.name).take
      (effectiveLimit req)).map Entry.stored).map dent := by
  rw [page, List.map_map]
  exact List.map_congr_left fun e _ => (Entry.dent_stored e).symm

/-- A request that succeeds is answered with a page of the entries. -/
theorem page_of_success {ents : List Entry} {resp : ListDirResponse}
    (hents : db.Lists fb ⟨req.id⟩ ents) (h : ask db (run fb req) = .ok resp)
    (hcode : resp.errorCode = 0) : resp.ents = page ents req := by
  obtain ⟨dir, self, parent, listed, _, _, hlisted, rfl⟩ := success_inv h hcode
  rw [hents.ask_list] at hlisted
  rw [page_eq_stored, Except.ok.inj (Except.ok.inj hlisted)]

/-- The response to a caller who may list the directory. -/
theorem ask_run (req : ListDirRequest) {ents : List Entry} (hents : db.Lists fb ⟨req.id⟩ ents)
    (hcaller : MayList fb db ⟨req.id⟩ ⟨req.uid, req.gid⟩)
    (hparent : ParentReadable fb db ⟨req.id⟩) :
    ∃ resp, ask db (run fb req) = .ok resp ∧ resp.errorCode = 0 ∧ resp.ents = page ents req ∧
      resp.hasMore = decide ((page ents req).length = req.limit.toInt64.toUInt64.toNat) := by
  obtain ⟨dir, hread, hpermission⟩ := hcaller
  obtain ⟨self, parent, hdots⟩ : ∃ self parent,
      ask db (dots (KVDirTable.table fb) req ⟨req.id⟩ dir) = .ok (.ok (self, parent)) :=
    ask_dots hread hparent
  refine ⟨{ selfDent := self, parentDent := parent, ents := page ents req, hasMore := _ },
    ?_, rfl, rfl, rfl⟩
  -- the steps of the handler: the row, the permission, `.` and `..`, the page
  rw [run, runOn, KVDirTable.table_read, ask_bind, hread, ok_bind]
  dsimp only
  rw [ask_bind, ask_liftM, checkPermission_of_has hpermission, ok_bind]
  dsimp only
  rw [listing, ask_bind, hdots, ok_bind]
  dsimp only
  rw [ask_bind, hents.ask_list, ok_bind, page_eq_stored, List.length_map]
  rfl

end ListDirOp

end RocketFS
