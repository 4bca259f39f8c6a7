import RocketFS.Service.Operations
import RocketFS.Lib.Fitting
import RocketFS.Lib.Run

/-!
# The directory stream of the FUSE client

`opendir` asks the namenode for the first page of a directory and keeps it in the
handle; `readdir` copies cached entries into the caller's buffer, and asks for more
when the cache is empty. The request for more sets neither the directory nor the
name to resume after.

The handle of an `opendir` is written into its `fuse_file_info` when the response arrives. Here
the kernel gets it, that is, the `fuse_file_info` is taken to be there until then.

## Main definitions

* `Libfuse` — what the client depends on of libfuse
* `CacheDirEntries.populateDirEntriesBuffer`, `FuseOpenDirOp`, `FuseReadDirOp` — the
  client
* `Namenode` — a namenode that answers `ListDir` correctly
* `readDirStep` — the calls of `readdir` on one handle
* `Delivers` — the stream is the directory
-/

namespace RocketFS

/-! ### Directory entries in a buffer -/

def S_IFMT : UInt32 := 0xF000

/-- A `struct fuse_dirent`. -/
structure Dirent where
  ino : UInt64
  off : ℕ
  name : Bytes
  type : UInt32
  deriving DecidableEq

/-- The text a C string stands for: it ends at the first NUL. -/
def cStr (s : Bytes) : Bytes := s.takeWhile (· ≠ 0)

/-- The size `fuse_add_direntry` returns for a name, of which it is given a C string. Libfuse
is not part of the repository, and nothing else is known of it. -/
class Libfuse where
  direntSize : Bytes → ℕ
  direntSize_cStr : ∀ name, direntSize (cStr name) = direntSize name

export Libfuse (direntSize direntSize_cStr)

/-- The `struct fuse_dirent` of an entry; bits 12 to 15 of the mode are used. -/
def dirent (entry : DEnt) (off : ℕ) : Dirent :=
  ⟨entry.id, off, entry.name, (entry.type &&& S_IFMT) >>> 12⟩

/-- An entry with the name its C string stands for. -/
def cEntry (entry : DEnt) : DEnt := { entry with name := cStr entry.name }

/-- The entry `fuse_add_direntry` is called with. -/
def addDirentry (entry : DEnt) (off : ℕ) : Dirent := dirent (cEntry entry) off

/-- `CacheDirEntries`. -/
structure CacheDirEntries where
  startOff : ℕ
  endOff : ℕ
  entries : List DEnt
  hasMore : Bool
  deriving DecidableEq

/-- The loop of `PopulateDirEntriesBuffer` over the entries from position
`end_off - start_off` on; `size` is what is left of the buffer. -/
def fillBuffer [Libfuse] : List DEnt → ℕ → ℕ → List Dirent
  | [], _, _ => []
  | entry :: rest, endOff, size =>
    let bytesWritten := direntSize entry.name
    if bytesWritten > size then []
    else addDirentry entry (endOff + 1) :: fillBuffer rest (endOff + 1) (size - bytesWritten)

/-- `PopulateDirEntriesBuffer`: the cache is cleared once it has been copied. -/
def CacheDirEntries.populateDirEntriesBuffer [Libfuse] (cache : CacheDirEntries) (size : ℕ) :
    List Dirent × CacheDirEntries :=
  let buf := fillBuffer (cache.entries.drop (cache.endOff - cache.startOff)) cache.endOff size
  let endOff := cache.endOff + buf.length
  if endOff - cache.startOff = cache.entries.length then
    (buf, { cache with startOff := endOff, endOff := endOff, entries := [] })
  else (buf, { cache with endOff := endOff })

/-! ### The operations -/

def EIO : ℕ := 5
def EACCES : ℕ := 13
def ENOENT : ℕ := 2
def ENOTDIR : ℕ := 20

/-- The `StatusCode` an error code is cast to. -/
def toStatusCode (errorCode : Int32) : Int16 := errorCode.toInt16

/-- A `switch` over status codes that has an error number for some of them. -/
def errnoFrom (cases : List (StatusCode × ℕ)) (statusCode : Int16) : Option ℕ :=
  (cases.find? fun c => c.1.toInt16 = statusCode).map Prod.snd

/-- A submessage that is not set reads as its default. -/
def DEnt.orDefault (dent : Option DEnt) : DEnt := dent.getD ⟨0, [], 0⟩

namespace FuseOpenDirOp

def req (id : UInt64) (uid gid : UInt32) : ListDirRequest := ⟨id, [], 0, uid, gid⟩

def toErrno : Int16 → Option ℕ :=
  errnoFrom [(.permissionError, EACCES), (.notFoundError, ENOENT), (.notDirError, ENOTDIR)]

def onSuccess (resp : ListDirResponse) : CacheDirEntries where
  startOff := 0
  endOff := 0
  entries := DEnt.orDefault resp.selfDent :: DEnt.orDefault resp.parentDent :: resp.ents
  hasMore := resp.hasMore

/-- `opendir`: the cache of the new handle, or the error number replied. -/
def run (listDir : ListDirRequest → ListDirResponse) (id : UInt64) (uid gid : UInt32) :
    Except ℕ CacheDirEntries :=
  let resp := listDir (req id uid gid)
  if resp.errorCode ≠ 0 then .error ((toErrno (toStatusCode resp.errorCode)).getD EIO)
  else .ok (onSuccess resp)

end FuseOpenDirOp

/-- What `readdir` replies. -/
inductive ReadDirReply
  | buf (dirents : List Dirent)
  | err (errno : ℕ)
  deriving DecidableEq

namespace FuseReadDirOp

/-- The request for more entries: only the user is set. -/
def req (uid gid : UInt32) : ListDirRequest := ⟨0, [], 0, uid, gid⟩

/-- No status code has an error number of its own. -/
def toErrno : Int16 → Option ℕ := errnoFrom []

def onSuccess [Libfuse] (cache : CacheDirEntries) (resp : ListDirResponse) (size : ℕ) :
    Except Crash (ReadDirReply × CacheDirEntries) := do
  check (resp.errorCode = 0) "(resp_.error_code()) == (0)"
  check (cache.endOff = cache.startOff)
    "(cache_dir_entries_->end_off) == (cache_dir_entries_->start_off)"
  check cache.entries.isEmpty "cache_dir_entries_->entries.empty()"
  let cache := { cache with entries := resp.ents, hasMore := resp.hasMore }
  let (buf, cache) := cache.populateDirEntriesBuffer size
  return (.buf buf, cache)

/-- `readdir` on a handle with this cache. -/
def run [Libfuse] (listDir : ListDirRequest → ListDirResponse) (uid gid : UInt32)
    (cache : CacheDirEntries) (size off : ℕ) : Except Crash (ReadDirReply × CacheDirEntries) := do
  check (off = cache.endOff) "(off) == (cache_dir_entries_->end_off)"
  if !cache.entries.isEmpty || !cache.hasMore then
    let (buf, cache) := cache.populateDirEntriesBuffer size
    return (.buf buf, cache)
  else
    let resp := listDir (req uid gid)
    if resp.errorCode ≠ 0 then
      return (.err ((toErrno (toStatusCode resp.errorCode)).getD EIO), cache)
    else onSuccess cache resp size

end FuseReadDirOp

/-! ### A correct namenode -/

/-- A directory: itself, its parent, and its entries in name order. -/
structure Directory where
  self : DEnt
  parent : DEnt
  ents : List DEnt
  self_name : self.name = ascii "."
  parent_name : parent.name = ascii ".."
  sorted : ents.Pairwise fun a b => a.name < b.name
  name_ne_nil : ∀ e ∈ ents, e.name ≠ []

/-- What a listing of the directory shows. -/
def Directory.all (dir : Directory) : List DEnt := dir.self :: dir.parent :: dir.ents

/-- A namenode with some directories, and a page size for requests that do not name
one. -/
structure Namenode where
  dir : UInt64 → Option Directory
  defaultLimit : ℕ
  defaultLimit_pos : 0 < defaultLimit

/-- `ListDir` answered correctly: the entries after `start_after`, at most one page of
them, and whether entries remain. -/
def Namenode.listDir (namenode : Namenode) (req : ListDirRequest) : ListDirResponse :=
  match namenode.dir req.id with
  | none => { errorCode := StatusCode.parentNotFoundError.toInt32 }
  | some dir =>
    let rest := dir.ents.filter fun e => req.startAfter < e.name
    let limit := if 0 < req.limit then req.limit.toInt.toNat else namenode.defaultLimit
    { selfDent := if req.startAfter = [] then some dir.self else none
      parentDent := if req.startAfter = [] then some dir.parent else none
      ents := rest.take limit
      hasMore := limit < rest.length }

/-! ### The calls on a handle -/

/-- An open handle, and the last offset its caller was handed. -/
structure Handle where
  cache : CacheDirEntries
  lastOff : ℕ

/-- The last offset a reply hands out. -/
def lastOffset (lastOff : ℕ) : ReadDirReply → ℕ
  | .buf dirents => (dirents.getLast?.map Dirent.off).getD lastOff
  | .err _ => lastOff

/-- A call of `readdir` with a buffer of some size, at the last offset handed out. -/
def readDirStep [Libfuse] (listDir : ListDirRequest → ListDirResponse) (uid gid : UInt32)
    (h : Handle) (size : ℕ) : Option (Handle × Except Crash ReadDirReply) :=
  match FuseReadDirOp.run listDir uid gid h.cache size h.lastOff with
  | .error crash => some (h, .error crash)
  | .ok (reply, cache) => some (⟨cache, lastOffset h.lastOff reply⟩, .ok reply)

abbrev ReadDirTrace := List (ℕ × Except Crash ReadDirReply)

/-- The buffer has room for the next entry of the directory, if there is one. -/
def bigEnough [Libfuse] (dir : Directory) (h : Handle) (size : ℕ) : Bool :=
  ∀ e ∈ (dir.all.drop h.lastOff).head?, direntSize e.name ≤ size

/-- The entries a reply delivers. -/
def direntsOf : Except Crash ReadDirReply → List Dirent
  | .ok (.buf dirents) => dirents
  | _ => []

/-- All entries delivered. -/
def delivered (trace : ReadDirTrace) : List Dirent := trace.flatMap fun e => direntsOf e.2

/-- The stream of a directory from an offset on. -/
def streamFrom : ℕ → List DEnt → List Dirent
  | _, [] => []
  | off, e :: rest => dirent e (off + 1) :: streamFrom (off + 1) rest

/-- The stream of a directory: `.`, `..` and every entry. -/
def streamOf (dir : Directory) : List Dirent := streamFrom 0 dir.all

/-- The calls deliver the directory: none fails, the entries delivered are the stream
as far as it has come, and a reply is empty exactly when all of it has been
delivered. -/
structure Delivers (dir : Directory) (trace : ReadDirTrace) : Prop where
  replies : ∀ e ∈ trace, ∃ dirents, e.2 = .ok (.buf dirents)
  inOrder : delivered trace <+: streamOf dir
  empty_iff : Along (fun before e => direntsOf e.2 = [] ↔ delivered before = streamOf dir) trace

/-! ### Streams -/

section Streams

variable (off : ℕ)

@[simp] theorem length_streamFrom (es : List DEnt) : (streamFrom off es).length = es.length := by
  induction es generalizing off with
  | nil => rfl
  | cons e rest ih => simp [streamFrom, ih]

theorem streamFrom_append (es es' : List DEnt) :
    streamFrom off (es ++ es') = streamFrom off es ++ streamFrom (off + es.length) es' := by
  induction es generalizing off with
  | nil => rfl
  | cons e rest ih =>
    have hoff : off + 1 + rest.length = off + (e :: rest).length := by
      rw [List.length_cons]
      omega
    rw [List.cons_append, streamFrom, ih, hoff]
    rfl

/-- What a caller sees of an entry, apart from its offset. -/
def shown (e : DEnt) : Dirent := dirent e 0

/-- A stream is determined by what is seen of its entries. -/
theorem streamFrom_inj {es es' : List DEnt} :
    streamFrom off es = streamFrom off es' ↔ es.map shown = es'.map shown := by
  induction es generalizing off es' with
  | nil => cases es' <;> simp [streamFrom]
  | cons e rest ih =>
    cases es' with
    | nil => simp [streamFrom]
    | cons e' rest' => simp [streamFrom, ih, shown, dirent]

/-- A stream starts like another when what is seen of its entries does. -/
theorem streamFrom_isPrefix_iff {es es' : List DEnt} :
    streamFrom off es <+: streamFrom off es' ↔ es.map shown <+: es'.map shown := by
  induction es generalizing off es' with
  | nil => simp [streamFrom]
  | cons e rest ih =>
    cases es' with
    | nil => simp [streamFrom]
    | cons e' rest' => simp [streamFrom, List.cons_prefix_cons, ih, shown, dirent]

theorem drop_streamFrom (es : List DEnt) (n : ℕ) :
    (streamFrom off es).drop n = streamFrom (off + n) (es.drop n) := by
  induction n generalizing off es with
  | zero => rfl
  | succ n ih =>
    cases es with
    | nil => rfl
    | cons e rest =>
      rw [streamFrom, List.drop_succ_cons, ih, List.drop_succ_cons, Nat.add_right_comm]
      rfl

theorem take_streamFrom (es : List DEnt) (n : ℕ) :
    (streamFrom off es).take n = streamFrom off (es.take n) := by
  induction es generalizing off n with
  | nil => rw [streamFrom, List.take_nil, List.take_nil, streamFrom]
  | cons e rest ih =>
    cases n with
    | zero => rfl
    | succ n => rw [streamFrom, List.take_succ_cons, ih, List.take_succ_cons, streamFrom]

theorem names_shown {es es' : List DEnt} (h : es.map shown = es'.map shown) :
    es.map DEnt.name = es'.map DEnt.name := by
  have hnames := congrArg (List.map Dirent.name) h
  rw [List.map_map, List.map_map] at hnames
  exact hnames

/-- The last offset of a stream counts its entries. -/
theorem lastOffset_streamFrom (es : List DEnt) :
    lastOffset off (.buf (streamFrom off es)) = off + es.length := by
  rcases es.eq_nil_or_concat with rfl | ⟨rest, e, rfl⟩
  · rfl
  · rw [List.concat_eq_append, streamFrom_append]
    simp [lastOffset, streamFrom, dirent, Nat.add_assoc]

/-- A stream that has come as far as some entries is the stream of as many of them. -/
theorem shown_of_isPrefix {es all : List DEnt} (h : streamFrom 0 es <+: streamFrom 0 all) :
    es.map shown = (all.take es.length).map shown := by
  have htake := List.prefix_iff_eq_take.mp ((streamFrom_isPrefix_iff 0).mp h)
  rwa [List.length_map, ← List.map_take] at htake

end Streams

/-! ### Names as C strings -/

theorem nul_not_mem_cStr (s : Bytes) : 0 ∉ cStr s := by
  intro hmem
  simpa using List.mem_takeWhile_imp hmem

theorem cStr_eq_self {s : Bytes} (h : 0 ∉ s) : cStr s = s := by
  rw [cStr, List.takeWhile_eq_self_iff]
  exact fun b hb => decide_eq_true fun hzero => h (hzero ▸ hb)

namespace Sample

/-- A header of 24 bytes and the name, rounded up to a multiple of 8. -/
def paddedSize (name : Bytes) : ℕ := (24 + (cStr name).length + 7) / 8 * 8

/-- The libfuse of the fixed runs. -/
scoped instance libfuse : Libfuse where
  direntSize := paddedSize
  direntSize_cStr name := by
    rw [paddedSize, cStr_eq_self (nul_not_mem_cStr name), paddedSize]

end Sample

theorem map_cEntry {es : List DEnt} (h : ∀ e ∈ es, 0 ∉ e.name) : es.map cEntry = es := by
  refine (List.map_congr_left fun e he => ?_).trans (List.map_id es)
  rw [cEntry, cStr_eq_self (h e he)]
  rfl

/-- Names that were delivered contain no NUL. -/
theorem nul_not_mem_of_shown {es es' : List DEnt} (h : (es.map cEntry).map shown = es'.map shown) :
    ∀ e ∈ es', 0 ∉ e.name := by
  intro e he
  have hmem := List.mem_map_of_mem (f := DEnt.name) he
  rw [← names_shown h, List.map_map] at hmem
  obtain ⟨d, _, hname⟩ := List.mem_map.mp hmem
  rw [← hname]
  exact nul_not_mem_cStr d.name

/-! ### Filling a buffer -/

section Buffers

variable [Libfuse]

/-- The room an entry needs. -/
def entrySize (e : DEnt) : ℕ := direntSize e.name

/-- The room some entries need. -/
def roomFor (es : List DEnt) : ℕ := (es.map fun e => direntSize e.name).sum

/-- A buffer takes the longest prefix of the entries it has room for. -/
theorem fillBuffer_eq (es : List DEnt) (off size : ℕ) :
    fillBuffer es off size =
      streamFrom off ((takeFitting entrySize es size).map cEntry) := by
  induction es generalizing off size with
  | nil => rfl
  | cons e rest ih =>
    rw [fillBuffer]
    split_ifs with hroom
    · have hlt : size < entrySize e := hroom
      rw [takeFitting_cons_of_lt hlt]
      rfl
    · have hle : entrySize e ≤ size := not_lt.mp hroom
      rw [takeFitting_cons_of_le hle, ih]
      rfl

theorem length_takeFitting_pos {es : List DEnt} {e : DEnt} {size : ℕ} (he : e ∈ es.head?)
    (hfits : direntSize e.name ≤ size) : 0 < (takeFitting entrySize es size).length := by
  obtain ⟨rest, rfl⟩ := List.head?_eq_some_iff.mp he
  have hle : entrySize e ≤ size := hfits
  rw [takeFitting_cons_of_le hle]
  exact Nat.succ_pos _

/-- A buffer with room for all entries takes them all. -/
theorem fillBuffer_all {es : List DEnt} {size : ℕ} (off : ℕ) (h : roomFor es ≤ size) :
    fillBuffer es off size = streamFrom off (es.map cEntry) := by
  have hle : totalWeight entrySize es ≤ size := h
  rw [fillBuffer_eq, takeFitting_of_le hle]

end Buffers

/-! ### Copying out of the cache -/

namespace CacheDirEntries

variable {cache : CacheDirEntries} {size n : ℕ}

/-- The entries that have not been copied. -/
def remaining (cache : CacheDirEntries) : List DEnt :=
  cache.entries.drop (cache.endOff - cache.startOff)

/-- `end_off` is inside the window or at its end. -/
def InBounds (cache : CacheDirEntries) : Prop :=
  cache.startOff ≤ cache.endOff ∧ cache.endOff ≤ cache.startOff + cache.entries.length

/-- The cache after a call that copied `n` entries: it is cleared if none remain. -/
def afterCopying (cache : CacheDirEntries) (n : ℕ) : CacheDirEntries :=
  if n = cache.remaining.length then
    { cache with startOff := cache.endOff + n, endOff := cache.endOff + n, entries := [] }
  else { cache with endOff := cache.endOff + n }

@[simp] theorem populate_fst [Libfuse] (cache : CacheDirEntries) (size : ℕ) :
    (cache.populateDirEntriesBuffer size).1 = fillBuffer cache.remaining cache.endOff size := by
  rw [populateDirEntriesBuffer]
  split_ifs <;> rfl

@[simp] theorem endOff_afterCopying (cache : CacheDirEntries) (n : ℕ) :
    (cache.afterCopying n).endOff = cache.endOff + n := by
  rw [afterCopying]
  split_ifs <;> rfl

@[simp] theorem hasMore_afterCopying (cache : CacheDirEntries) (n : ℕ) :
    (cache.afterCopying n).hasMore = cache.hasMore := by
  rw [afterCopying]
  split_ifs <;> rfl

namespace InBounds

/-- A cache in bounds that has no entries starts where it ends. -/
theorem startOff_eq (h : cache.InBounds) (hempty : cache.entries = []) :
    cache.startOff = cache.endOff := by
  obtain ⟨hstart, hend⟩ := h
  rw [hempty, List.length_nil] at hend
  omega

theorem length_remaining (h : cache.InBounds) :
    cache.endOff - cache.startOff + cache.remaining.length = cache.entries.length := by
  obtain ⟨hstart, hend⟩ := h
  rw [remaining, List.length_drop]
  omega

/-- What is copied no longer remains. -/
theorem remaining_afterCopying (h : cache.InBounds) (n : ℕ) :
    (cache.afterCopying n).remaining = cache.remaining.drop n := by
  rw [afterCopying]
  split_ifs with hall
  · rw [hall, List.drop_length]
    exact List.drop_nil
  · rw [remaining, remaining, List.drop_drop, ← Nat.sub_add_comm h.1]

theorem afterCopying (h : cache.InBounds) (hn : n ≤ cache.remaining.length) :
    (cache.afterCopying n).InBounds := by
  have hlength := h.length_remaining
  have hstart := h.1
  rw [CacheDirEntries.afterCopying]
  split_ifs
  · exact ⟨le_rfl, le_rfl⟩
  · exact ⟨Nat.le_add_right_of_le hstart, by dsimp only; omega⟩

/-- A call leaves no entries that have all been copied. -/
theorem afterCopying_lt (h : cache.InBounds) (hn : n ≤ cache.remaining.length)
    (hne : (cache.afterCopying n).entries ≠ []) :
    (cache.afterCopying n).endOff - (cache.afterCopying n).startOff <
      (cache.afterCopying n).entries.length := by
  have hlength := h.length_remaining
  have hstart := h.1
  rw [CacheDirEntries.afterCopying] at hne ⊢
  split_ifs at hne ⊢ with hall
  · exact absurd rfl hne
  · dsimp only
    omega

/-- A call writes the longest prefix of the remaining entries that fits. -/
theorem populateDirEntriesBuffer_eq [Libfuse] (h : cache.InBounds) (size : ℕ) :
    cache.populateDirEntriesBuffer size =
      (streamFrom cache.endOff ((takeFitting entrySize cache.remaining size).map cEntry),
        cache.afterCopying (takeFitting entrySize cache.remaining size).length) := by
  have hlength := h.length_remaining
  have hstart := h.1
  have hdone : ∀ n, cache.endOff + n - cache.startOff = cache.entries.length ↔
      n = cache.remaining.length := by
    intro n
    omega
  rw [populateDirEntriesBuffer, ← remaining, fillBuffer_eq, length_streamFrom, List.length_map,
    CacheDirEntries.afterCopying]
  simp only [hdone]
  split_ifs <;> rfl

/-- A call writes some of the remaining entries, the first one at least if there is room
for it. -/
theorem populate_eq [Libfuse] (h : cache.InBounds) (size : ℕ) :
    ∃ n ≤ cache.remaining.length,
      cache.populateDirEntriesBuffer size =
        (streamFrom cache.endOff ((cache.remaining.take n).map cEntry), cache.afterCopying n) ∧
      ∀ e ∈ cache.remaining.head?, direntSize e.name ≤ size → 0 < n := by
  have htaken := (takeFitting_isLongest entrySize cache.remaining size).isPrefix
  refine ⟨_, htaken.length_le, ?_, fun e he => length_takeFitting_pos he⟩
  rw [h.populateDirEntriesBuffer_eq, ← List.prefix_iff_eq_take.mp htaken]

end InBounds

end CacheDirEntries

/-- A call with room for a whole cache empties it. -/
theorem populate_all [Libfuse] {off size : ℕ} {es : List DEnt} (hasMore : Bool)
    (h : roomFor es ≤ size) :
    CacheDirEntries.populateDirEntriesBuffer ⟨off, off, es, hasMore⟩ size =
      (streamFrom off (es.map cEntry), ⟨off + es.length, off + es.length, [], hasMore⟩) := by
  simp only [CacheDirEntries.populateDirEntriesBuffer, Nat.sub_self, List.drop_zero,
    fillBuffer_all off h, length_streamFrom, List.length_map, Nat.add_sub_cancel_left, if_true]

end RocketFS
