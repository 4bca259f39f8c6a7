import RocketFS.Client.ReadDir

/-!
# What the directory stream delivers

Against a namenode that answers correctly, the stream is the directory exactly when
the first page is all of it and no name contains a NUL, which ends a C string. The one
other way is a coincidence: the request for more names directory 0, and that directory
shows just the entries that are left (`Resumes`).

## Main definitions

* `CacheOf` — what is cached and what the request for more brings make up the rest of
  the directory
* `HandleInv` — what holds between the calls on a handle

## Main results

* `HandleInv.step`, `delivers_run` — one call, and all calls
* `delivers_iff` — when every sequence of calls delivers the directory
-/

namespace RocketFS

/-! ### One call -/

/-- The cache a call is served from: what the request for more brings when there is
nothing left but more to come. -/
def CacheDirEntries.refreshed (cache : CacheDirEntries) (resp : ListDirResponse) :
    CacheDirEntries :=
  if cache.entries.isEmpty && cache.hasMore then
    { cache with entries := resp.ents, hasMore := resp.hasMore }
  else cache

section Call

variable [Libfuse] {listDir : ListDirRequest → ListDirResponse} {uid gid : UInt32}
  {cache : CacheDirEntries} {h : Handle} {size off : ℕ}

/-- A call at another offset than `end_off` fails the check of the constructor. -/
theorem run_of_off_ne (hoff : off ≠ cache.endOff) :
    FuseReadDirOp.run listDir uid gid cache size off =
      .error (.check "(off) == (cache_dir_entries_->end_off)") := by
  rw [FuseReadDirOp.run, decide_eq_false hoff]
  rfl

/-- A call that is answered with entries. -/
theorem run_served (hempty : cache.entries = [] → cache.startOff = cache.endOff)
    (hresp : cache.entries = [] → cache.hasMore = true →
      (listDir (FuseReadDirOp.req uid gid)).errorCode = 0) :
    FuseReadDirOp.run listDir uid gid cache size cache.endOff =
      let served := (cache.refreshed (listDir (FuseReadDirOp.req uid gid))).populateDirEntriesBuffer
        size
      .ok (.buf served.1, served.2) := by
  rw [FuseReadDirOp.run, decide_eq_true rfl, check_true, ok_bind, CacheDirEntries.refreshed]
  by_cases hmore : cache.entries = [] ∧ cache.hasMore = true
  · -- `Start` sends a request, and `OnSuccess` passes its check on the empty cache
    have hcode := hresp hmore.1 hmore.2
    simp only [hmore.1, hmore.2, List.isEmpty_nil, Bool.not_true, Bool.or_false,
      Bool.false_eq_true, if_false, hcode, ne_eq, not_true_eq_false, FuseReadDirOp.onSuccess,
      decide_true, check_true, ok_bind, hempty hmore.1, Bool.and_true, if_true]
    rfl
  · -- `Start` answers from the cache
    have hserved : (!cache.entries.isEmpty || !cache.hasMore) = true := by
      simpa [imp_iff_not_or] using hmore
    have hkept : ¬ (cache.entries.isEmpty && cache.hasMore) = true := by simpa using hmore
    rw [if_pos hserved, if_neg hkept]
    rfl

/-- A call that has to ask for more, and is refused. -/
theorem run_refused (hempty : cache.entries = []) (hmore : cache.hasMore = true)
    (herror : (listDir (FuseReadDirOp.req uid gid)).errorCode ≠ 0) :
    FuseReadDirOp.run listDir uid gid cache size cache.endOff = .ok (.err EIO, cache) := by
  rw [FuseReadDirOp.run, decide_eq_true rfl, check_true, ok_bind, hempty, hmore]
  simp only [List.isEmpty_nil, Bool.not_true, Bool.or_false, Bool.false_eq_true, if_false,
    if_pos herror]
  rfl

theorem readDirStep_served (hoff : h.lastOff = h.cache.endOff)
    (hempty : h.cache.entries = [] → h.cache.startOff = h.cache.endOff)
    (hresp : h.cache.entries = [] → h.cache.hasMore = true →
      (listDir (FuseReadDirOp.req uid gid)).errorCode = 0) :
    readDirStep listDir uid gid h size =
      let cache := h.cache.refreshed (listDir (FuseReadDirOp.req uid gid))
      let served := cache.populateDirEntriesBuffer size
      some (⟨served.2, lastOffset h.lastOff (.buf served.1)⟩, .ok (.buf served.1)) := by
  have hrun := @run_served _ listDir uid gid h.cache size hempty hresp
  rw [← hoff] at hrun
  rw [readDirStep, hrun]

theorem readDirStep_refused (hoff : h.lastOff = h.cache.endOff) (hempty : h.cache.entries = [])
    (hmore : h.cache.hasMore = true)
    (herror : (listDir (FuseReadDirOp.req uid gid)).errorCode ≠ 0) :
    readDirStep listDir uid gid h size = some (h, .ok (.err EIO)) := by
  have hrun := @run_refused _ listDir uid gid h.cache size hempty hmore herror
  rw [← hoff] at hrun
  rw [readDirStep, hrun]
  rfl

end Call

/-! ### Entries that stand for others

The entries a client holds are seen, once their names have become C strings, as some
entries of the directory; what follows holds of the two lists side by side. -/

section Shown

variable {cached later rest : List DEnt} {n : ℕ}

/-- The first entries stand for the first ones, and those that are left for those that
are left. -/
theorem shown_split (h : ((cached ++ later).map cEntry).map shown = rest.map shown)
    (hn : n ≤ cached.length) :
    ((cached.take n).map cEntry).map shown = (rest.take n).map shown ∧
      ((cached.drop n ++ later).map cEntry).map shown = (rest.drop n).map shown := by
  constructor
  · have htake := congrArg (List.take n) h
    rwa [← List.map_take, ← List.map_take, List.take_append_of_le_length hn, ← List.map_take]
      at htake
  · have hdrop := congrArg (List.drop n) h
    rwa [← List.map_drop, ← List.map_drop, List.drop_append_of_le_length hn, ← List.map_drop]
      at hdrop

/-- An entry needs the room of the one it stands for. -/
theorem direntSize_of_shown [Libfuse] {e d : DEnt} (h : shown (cEntry e) = shown d) :
    direntSize e.name = direntSize d.name := by
  have hname : cStr e.name = d.name := congrArg Dirent.name h
  rw [← direntSize_cStr, hname]

/-- The first of the entries held needs the room of the first that is left. -/
theorem exists_head_of_shown [Libfuse]
    (h : (cached.map cEntry).map shown <+: rest.map shown) (hne : cached ≠ []) :
    ∃ e ∈ cached.head?, ∃ d ∈ rest.head?, direntSize e.name = direntSize d.name := by
  obtain ⟨e, es, rfl⟩ := List.exists_cons_of_ne_nil hne
  cases rest with
  | nil => cases List.prefix_nil.mp h
  | cons d ds => exact ⟨e, rfl, d, rfl, direntSize_of_shown (List.cons_prefix_cons.mp h).1⟩

end Shown

/-! ### A cache that continues the directory -/

/-- What is cached from `end_off` on and what `resp`, the answer to the request for
more, brings make up the rest of the directory; an empty cache is not in the middle of
anything. -/
structure CacheOf (all : List DEnt) (resp : ListDirResponse) (cache : CacheDirEntries) :
    Prop where
  le : cache.endOff ≤ all.length
  position : cache.entries = [] ∧ cache.startOff = cache.endOff ∨
    cache.startOff ≤ cache.endOff ∧ cache.endOff - cache.startOff < cache.entries.length
  rest : ∃ later,
    ((cache.entries.drop (cache.endOff - cache.startOff) ++ later).map cEntry).map shown =
      (all.drop cache.endOff).map shown ∧
    (cache.hasMore = false → later = []) ∧
    (cache.hasMore = true → resp.errorCode = 0 ∧ resp.hasMore = false ∧ resp.ents = later)

namespace CacheOf

variable {all : List DEnt} {resp : ListDirResponse} {cache : CacheDirEntries}

/-- The cache a call is served from is one too, and not an empty one with more to
come. -/
theorem refreshed (h : CacheOf all resp cache) :
    CacheOf all resp (cache.refreshed resp) ∧ (cache.refreshed resp).endOff = cache.endOff ∧
      ((cache.refreshed resp).entries = [] → (cache.refreshed resp).hasMore = false) := by
  obtain ⟨startOff, endOff, entries, hasMore⟩ := cache
  obtain ⟨hle, hposition, later, hrest, hlast, hmore⟩ := h
  dsimp only at *
  rw [CacheDirEntries.refreshed]
  dsimp only
  split_ifs with hask
  · -- the entries to come are now cached, and none are to come after them
    obtain ⟨hempty, rfl⟩ : entries = [] ∧ hasMore = true := by simpa using hask
    obtain ⟨_, hfinal, rfl⟩ := hmore rfl
    have hstart : startOff = endOff := by
      rcases hposition with ⟨_, hstart⟩ | ⟨_, hlt⟩
      · exact hstart
      · rw [hempty] at hlt
        cases hlt
    subst hstart hempty
    refine ⟨⟨hle, ?_, [], ?_, fun _ => rfl, fun htrue => ?_⟩, rfl, fun _ => hfinal⟩
    · rcases Nat.eq_zero_or_pos resp.ents.length with hzero | hpos
      · exact .inl ⟨List.length_eq_zero_iff.mp hzero, rfl⟩
      · exact .inr ⟨le_rfl, by simpa using hpos⟩
    · simpa using hrest
    · rw [hfinal] at htrue
      cases htrue
  · refine ⟨⟨hle, hposition, later, hrest, hlast, hmore⟩, rfl, fun hempty => ?_⟩
    have hnot : entries = [] → hasMore = false := by simpa using hask
    exact hnot hempty

theorem inBounds (h : CacheOf all resp cache) : cache.InBounds := by
  rcases h.position with ⟨hempty, hstart⟩ | ⟨hstart, hlt⟩
  · exact ⟨hstart.le, by omega⟩
  · exact ⟨hstart, by omega⟩

/-- A cache that is served and has been copied has no entries. -/
theorem entries_eq_nil (h : CacheOf all resp cache) (hcopied : cache.remaining = []) :
    cache.entries = [] := by
  rcases h.position with ⟨hempty, _⟩ | ⟨_, hlt⟩
  · exact hempty
  · exact absurd (List.drop_eq_nil_iff.mp hcopied) (not_le.mpr hlt)

/-- A call copies the entries from `end_off` on that fit. -/
theorem populate [Libfuse] (h : CacheOf all resp cache)
    (hserved : cache.entries = [] → cache.hasMore = false) (size : ℕ) :
    ∃ n, (∀ e ∈ (all.drop cache.endOff).head?, direntSize e.name ≤ size → 0 < n) ∧
      (cache.populateDirEntriesBuffer size).1 =
        streamFrom cache.endOff ((all.drop cache.endOff).take n) ∧
      (cache.populateDirEntriesBuffer size).2.endOff = cache.endOff + n ∧
      CacheOf all resp (cache.populateDirEntriesBuffer size).2 := by
  obtain ⟨later, hrest, hlast, hmore⟩ := h.rest
  rw [← CacheDirEntries.remaining] at hrest
  have hnone : cache.remaining = [] → later = [] := fun hcopied =>
    hlast (hserved (h.entries_eq_nil hcopied))
  have hle := h.le
  have hlength : cache.remaining.length + later.length = all.length - cache.endOff := by
    simpa using congrArg List.length hrest
  obtain ⟨n, hn, hcall, hpos⟩ := h.inBounds.populate_eq size
  obtain ⟨htaken, hleft⟩ := shown_split hrest hn
  rw [List.drop_drop] at hleft
  rw [hcall]
  refine ⟨n, fun next hnext hfits => ?_, (streamFrom_inj _).mpr htaken,
    cache.endOff_afterCopying n, ?_⟩
  · -- there are cached entries, and the first of them fits
    have hlt : cache.endOff < all.length := by
      by_contra hle
      rw [List.drop_of_length_le (not_lt.mp hle)] at hnext
      cases hnext
    have hpre : (cache.remaining.map cEntry).map shown <+: (all.drop cache.endOff).map shown := by
      rw [← hrest, List.map_append, List.map_append]
      exact List.prefix_append _ _
    have hne : cache.remaining ≠ [] := by
      intro hcopied
      rw [hcopied, hnone hcopied, List.length_nil] at hlength
      omega
    obtain ⟨e, he, d, hd, heq⟩ := exists_head_of_shown hpre hne
    obtain rfl := Option.some.inj (hnext.symm.trans hd)
    exact hpos e he (heq ▸ hfits)
  · have hbounds := h.inBounds.afterCopying hn
    refine ⟨?_, ?_, later, ?_, ?_, ?_⟩
    · rw [CacheDirEntries.endOff_afterCopying]
      omega
    · by_cases hempty : (cache.afterCopying n).entries = []
      · exact .inl ⟨hempty, hbounds.startOff_eq hempty⟩
      · exact .inr ⟨hbounds.1, h.inBounds.afterCopying_lt hn hempty⟩
    · rw [← CacheDirEntries.remaining, h.inBounds.remaining_afterCopying,
        CacheDirEntries.endOff_afterCopying]
      exact hleft
    · rwa [CacheDirEntries.hasMore_afterCopying]
    · rwa [CacheDirEntries.hasMore_afterCopying]

/-- A call at `end_off` writes the next entries of the directory, some of them if the first
has room, and leaves a cache that goes on with the directory. -/
theorem run_endOff [Libfuse] {listDir : ListDirRequest → ListDirResponse} {uid gid : UInt32}
    (h : CacheOf all (listDir (FuseReadDirOp.req uid gid)) cache) (size : ℕ) :
    ∃ n cache', FuseReadDirOp.run listDir uid gid cache size cache.endOff =
        .ok (.buf (streamFrom cache.endOff ((all.drop cache.endOff).take n)), cache') ∧
      (∀ e ∈ (all.drop cache.endOff).head?, direntSize e.name ≤ size → 0 < n) ∧
      cache'.endOff = cache.endOff + n ∧
      CacheOf all (listDir (FuseReadDirOp.req uid gid)) cache' := by
  obtain ⟨hrefreshed, hoff, hserved⟩ := h.refreshed
  obtain ⟨n, hpos, hbuf, hend, hcache⟩ := hrefreshed.populate hserved size
  rw [hoff] at hpos hbuf hend
  refine ⟨n, _, ?_, hpos, hend, hcache⟩
  rw [← hbuf]
  refine run_served h.inBounds.startOff_eq fun _ hmore => ?_
  obtain ⟨_, _, _, hresp⟩ := h.rest
  exact (hresp hmore).1

end CacheOf

/-! ### All calls on a handle -/

/-- What holds between the calls on a handle. -/
structure HandleInv (dir : Directory) (resp : ListDirResponse) (trace : ReadDirTrace)
    (h : Handle) : Prop where
  lastOff : h.lastOff = h.cache.endOff
  cache : CacheOf dir.all resp h.cache
  progress : delivered trace = streamFrom 0 (dir.all.take h.cache.endOff)
  delivers : Delivers dir trace

theorem delivered_snoc (trace : ReadDirTrace) (size : ℕ) (reply : Except Crash ReadDirReply) :
    delivered (trace ++ [(size, reply)]) = delivered trace ++ direntsOf reply := by
  simp [delivered]

/-- All of the directory has been delivered when `end_off` has reached its end. -/
theorem HandleInv.delivered_eq_iff {dir : Directory} {resp : ListDirResponse}
    {trace : ReadDirTrace} {h : Handle} (hinv : HandleInv dir resp trace h) :
    delivered trace = streamOf dir ↔ h.cache.endOff = dir.all.length := by
  rw [hinv.progress, streamOf]
  constructor
  · intro heq
    have hlength := congrArg List.length heq
    rw [length_streamFrom, length_streamFrom, List.length_take_of_le hinv.cache.le] at hlength
    exact hlength
  · intro heq
    rw [heq, List.take_length]

section Calls

variable [Libfuse] {dir : Directory} {listDir : ListDirRequest → ListDirResponse}
  {uid gid : UInt32} {trace : ReadDirTrace} {h h' : Handle} {size : ℕ}

/-- A call copies the next entries of the directory, some of them if any are left. -/
theorem HandleInv.exists_reply
    (hinv : HandleInv dir (listDir (FuseReadDirOp.req uid gid)) trace h)
    (hsize : bigEnough dir h size) :
    ∃ n cache, (h.cache.endOff < dir.all.length → 0 < n) ∧ h.cache.endOff + n ≤ dir.all.length ∧
      cache.endOff = h.cache.endOff + n ∧
      CacheOf dir.all (listDir (FuseReadDirOp.req uid gid)) cache ∧
      readDirStep listDir uid gid h size = some (⟨cache, cache.endOff⟩,
        .ok (.buf (streamFrom h.cache.endOff ((dir.all.drop h.cache.endOff).take n)))) := by
  have hfits := of_decide_eq_true hsize
  rw [hinv.lastOff] at hfits
  obtain ⟨n, cache, hrun, hpos, hend, hcache⟩ := hinv.cache.run_endOff size
  have hle := hcache.le
  rw [hend] at hle
  have hmoves : h.cache.endOff < dir.all.length → 0 < n := by
    intro hlt
    have hnext : dir.all[h.cache.endOff] ∈ (dir.all.drop h.cache.endOff).head? := by
      rw [List.head?_drop, List.getElem?_eq_getElem hlt]
      rfl
    exact hpos _ hnext (hfits _ hnext)
  refine ⟨n, cache, hmoves, hle, hend, hcache, ?_⟩
  rw [readDirStep, hinv.lastOff, hrun]
  dsimp only
  rw [lastOffset_streamFrom, List.length_take, List.length_drop, Nat.min_eq_left (by omega), hend]

/-- A call keeps what holds of the handle. -/
theorem HandleInv.step {reply : Except Crash ReadDirReply}
    (hinv : HandleInv dir (listDir (FuseReadDirOp.req uid gid)) trace h)
    (hsize : bigEnough dir h size)
    (hstep : readDirStep listDir uid gid h size = some (h', reply)) :
    HandleInv dir (listDir (FuseReadDirOp.req uid gid)) (trace ++ [(size, reply)]) h' := by
  obtain ⟨n, cache, hpos, hle, hend, hcache, heq⟩ := hinv.exists_reply hsize
  rw [heq] at hstep
  obtain ⟨rfl, rfl⟩ := Prod.mk.inj (Option.some.inj hstep)
  have htaken : (dir.all.take h.cache.endOff).length = h.cache.endOff :=
    List.length_take_of_le hinv.cache.le
  -- what has been delivered and the new reply join at `end_off`
  have hprogress : delivered (trace ++ [(size, .ok (.buf
      (streamFrom h.cache.endOff ((dir.all.drop h.cache.endOff).take n))))]) =
      streamFrom 0 (dir.all.take (h.cache.endOff + n)) := by
    rw [delivered_snoc, hinv.progress, List.take_add, streamFrom_append, htaken, Nat.zero_add]
    rfl
  refine ⟨rfl, hcache, by rw [hprogress, hend], ⟨?_, ?_, ?_⟩⟩
  · intro e he
    rcases List.mem_append.mp he with he | he
    · exact hinv.delivers.replies e he
    · obtain rfl := List.mem_singleton.mp he
      exact ⟨_, rfl⟩
  · rw [hprogress, streamOf]
    conv_rhs => rw [← List.take_append_drop (h.cache.endOff + n) dir.all, streamFrom_append]
    exact List.prefix_append _ _
  · refine along_snoc.mpr ⟨hinv.delivers.empty_iff, ?_⟩
    -- an empty reply means that `end_off` has reached the end
    have hempty : streamFrom h.cache.endOff ((dir.all.drop h.cache.endOff).take n) = [] ↔
        n = 0 := by
      rw [← List.length_eq_zero_iff, length_streamFrom, List.length_take, List.length_drop]
      omega
    dsimp only [direntsOf]
    rw [hempty, hinv.delivered_eq_iff]
    omega

/-- A handle whose cache continues to the end of the directory delivers it. -/
theorem delivers_run {cache : CacheDirEntries}
    (hcache : CacheOf dir.all (listDir (FuseReadDirOp.req uid gid)) cache)
    (hstart : cache.endOff = 0)
    (hrun : Run (guarded (readDirStep listDir uid gid) (bigEnough dir)) ⟨cache, 0⟩ trace h) :
    Delivers dir trace := by
  have hinit : HandleInv dir (listDir (FuseReadDirOp.req uid gid)) [] ⟨cache, 0⟩ := by
    refine ⟨hstart.symm, hcache, ?_, ⟨nofun, List.nil_prefix, along_nil⟩⟩
    simp [delivered, hstart, streamFrom]
  have hinv : HandleInv dir (listDir (FuseReadDirOp.req uid gid)) trace h := by
    refine hrun.invariant hinit fun trace h size h' reply _ hinv hstep => ?_
    obtain ⟨hsize, hstep⟩ := guarded_eq_some.mp hstep
    exact hinv.step hsize hstep
  exact hinv.delivers

end Calls

/-! ### The pages of a correct namenode -/

section Pages

variable {namenode : Namenode} {id : UInt64} {uid gid : UInt32} {dir : Directory}

/-- The first page of a directory. -/
theorem Namenode.listDir_first (hdir : namenode.dir id = some dir) (uid gid : UInt32) :
    namenode.listDir ⟨id, [], 0, uid, gid⟩ =
      { selfDent := some dir.self, parentDent := some dir.parent
        ents := dir.ents.take namenode.defaultLimit
        hasMore := namenode.defaultLimit < dir.ents.length } := by
  have hall : (dir.ents.filter fun e => [] < e.name) = dir.ents := by
    refine List.filter_eq_self.mpr fun e he => decide_eq_true ?_
    obtain ⟨b, rest, hname⟩ := List.ne_nil_iff_exists_cons.mp (dir.name_ne_nil e he)
    rw [hname]
    exact List.nil_lt_cons b rest
  rw [Namenode.listDir, hdir]
  dsimp only
  rw [hall, if_pos rfl, if_pos rfl, if_neg (by decide)]

/-- What `opendir` caches: itself, its parent and the first page. -/
theorem openDir_eq (hdir : namenode.dir id = some dir) (uid gid : UInt32) :
    FuseOpenDirOp.run namenode.listDir id uid gid =
      .ok ⟨0, 0, dir.all.take (namenode.defaultLimit + 2),
        namenode.defaultLimit < dir.ents.length⟩ := by
  rw [FuseOpenDirOp.run, FuseOpenDirOp.req, Namenode.listDir_first hdir]
  rfl

/-- The request for more, which names directory 0, brings what is left of this one. -/
def Resumes (namenode : Namenode) (dir : Directory) : Prop :=
  ∃ other, namenode.dir 0 = some other ∧ other.ents.length ≤ namenode.defaultLimit ∧
    (other.ents.map cEntry).map shown = (dir.ents.drop namenode.defaultLimit).map shown

theorem nul_not_mem_all (h : ∀ e ∈ dir.ents, 0 ∉ e.name) : ∀ e ∈ dir.all, 0 ∉ e.name := by
  rw [Directory.all, List.forall_mem_cons, List.forall_mem_cons, dir.self_name, dir.parent_name]
  exact ⟨by decide, by decide, h⟩

theorem cacheOf_opened (h : dir.ents.length ≤ namenode.defaultLimit ∨ Resumes namenode dir)
    (hnul : ∀ e ∈ dir.ents, 0 ∉ e.name) :
    CacheOf dir.all (namenode.listDir (FuseReadDirOp.req uid gid))
      ⟨0, 0, dir.all.take (namenode.defaultLimit + 2),
        namenode.defaultLimit < dir.ents.length⟩ := by
  have hfirst : (dir.all.take (namenode.defaultLimit + 2)).map cEntry =
      dir.all.take (namenode.defaultLimit + 2) :=
    map_cEntry fun e he => nul_not_mem_all hnul e (List.mem_of_mem_take he)
  refine ⟨Nat.zero_le _, .inr ⟨le_rfl, Nat.succ_pos _⟩, ?_⟩
  dsimp only
  rw [Nat.sub_zero, List.drop_zero, List.drop_zero]
  by_cases hmore : namenode.defaultLimit < dir.ents.length
  · -- what is to come are the entries of directory 0
    obtain ⟨other, hzero, hpage, hleft⟩ := h.resolve_left (not_le.mpr hmore)
    refine ⟨other.ents, ?_, fun hfalse => absurd hmore (of_decide_eq_false hfalse), fun _ => ?_⟩
    · rw [List.map_append, List.map_append, hfirst, hleft, ← List.map_append]
      exact congrArg _ (List.take_append_drop (namenode.defaultLimit + 2) dir.all)
    · rw [FuseReadDirOp.req, Namenode.listDir_first hzero]
      exact ⟨rfl, decide_eq_false (not_lt.mpr hpage), List.take_of_length_le hpage⟩
  · refine ⟨[], ?_, fun _ => rfl, fun htrue => absurd (of_decide_eq_true htrue) hmore⟩
    rw [List.append_nil, hfirst,
      List.take_of_length_le (by simp only [Directory.all, List.length_cons]; omega)]

end Pages

/-! ### Calls with room for everything -/

section Room

variable [Libfuse] {listDir : ListDirRequest → ListDirResponse} {uid gid : UInt32}
  {dir : Directory} {off size : ℕ} {es : List DEnt} {hasMore : Bool}

theorem bigEnough_of_roomFor (h : Handle) (hsize : roomFor dir.all ≤ size) :
    bigEnough dir h size := by
  refine decide_eq_true fun e he => le_trans ?_ hsize
  have hmem : e ∈ dir.all := List.mem_of_mem_drop (List.mem_of_mem_head? he)
  exact List.le_sum_of_mem (List.mem_map_of_mem hmem)

/-- A call that is served from a full cache. -/
theorem readDirStep_cached (hes : es = [] → hasMore = false) (hdir : roomFor dir.all ≤ size)
    (hroom : roomFor es ≤ size) :
    guarded (readDirStep listDir uid gid) (bigEnough dir) ⟨⟨off, off, es, hasMore⟩, off⟩ size =
      some (⟨⟨off + es.length, off + es.length, [], hasMore⟩, off + es.length⟩,
        .ok (.buf (streamFrom off (es.map cEntry)))) := by
  have hkept : CacheDirEntries.refreshed ⟨off, off, es, hasMore⟩
      (listDir (FuseReadDirOp.req uid gid)) = ⟨off, off, es, hasMore⟩ :=
    if_neg (by simpa using hes)
  refine guarded_eq_some.mpr ⟨bigEnough_of_roomFor _ hdir, ?_⟩
  rw [readDirStep_served rfl (fun _ => rfl) (fun hempty hmore => ?_), hkept]
  · simp only [populate_all hasMore hroom, lastOffset_streamFrom, List.length_map]
  · exact absurd (hes hempty) (by simpa using hmore)

/-- A call that asks for more and gets it. -/
theorem readDirStep_refilled
    (hcode : (listDir (FuseReadDirOp.req uid gid)).errorCode = 0) (hdir : roomFor dir.all ≤ size)
    (hroom : roomFor (listDir (FuseReadDirOp.req uid gid)).ents ≤ size) :
    guarded (readDirStep listDir uid gid) (bigEnough dir) ⟨⟨off, off, [], true⟩, off⟩ size =
      some (⟨⟨off + (listDir (FuseReadDirOp.req uid gid)).ents.length,
          off + (listDir (FuseReadDirOp.req uid gid)).ents.length, [],
          (listDir (FuseReadDirOp.req uid gid)).hasMore⟩,
          off + (listDir (FuseReadDirOp.req uid gid)).ents.length⟩,
        .ok (.buf (streamFrom off ((listDir (FuseReadDirOp.req uid gid)).ents.map cEntry)))) := by
  refine guarded_eq_some.mpr ⟨bigEnough_of_roomFor _ hdir, ?_⟩
  rw [readDirStep_served rfl (fun _ => rfl) (fun _ _ => hcode)]
  simp only [CacheDirEntries.refreshed, List.isEmpty_nil, Bool.and_true, if_true,
    populate_all _ hroom, lastOffset_streamFrom, List.length_map]

end Room

/-! ### When the stream is the directory -/

section Converse

variable {listDir : ListDirRequest → ListDirResponse} {uid gid : UInt32} {dir : Directory}
  {page : List DEnt}

/-- The names of a part of the entries of a directory are distinct. -/
theorem Directory.nodup_names (dir : Directory) : (dir.ents.map DEnt.name).Nodup :=
  List.pairwise_map.mpr (dir.sorted.imp fun hab => hab.ne)

/-- A first page that is the whole directory is delivered under its names. -/
theorem nul_not_mem_of_delivers [Libfuse]
    (hdelivers : ∀ trace h, Run (guarded (readDirStep listDir uid gid) (bigEnough dir))
      ⟨⟨0, 0, dir.all, false⟩, 0⟩ trace h → Delivers dir trace) :
    ∀ e ∈ dir.all, 0 ∉ e.name := by
  have hcall := @readDirStep_cached _ listDir uid gid dir 0 _ dir.all false (fun _ => rfl) le_rfl
    le_rfl
  have horder := (hdelivers _ _ (.snoc .nil hcall)).inOrder
  rw [delivered_snoc] at horder
  have hshown := shown_of_isPrefix (show streamFrom 0 (dir.all.map cEntry) <+: _ from horder)
  rw [List.length_map, List.take_length] at hshown
  exact nul_not_mem_of_shown hshown

/-- The stream of two pages. -/
theorem streamFrom_pages (off : ℕ) (es es' : List DEnt) :
    streamFrom off ((es ++ es').map cEntry) =
      streamFrom off (es.map cEntry) ++ streamFrom (off + es.length) (es'.map cEntry) := by
  rw [List.map_append, streamFrom_append, List.length_map]

/-- After the first two names, none is delivered twice. -/
theorem not_twice (dir : Directory) (hpage : 2 ≤ page.length) {es : List DEnt} (hes : es ≠ [])
    (h : streamFrom 0 ((page ++ es ++ es).map cEntry) <+: streamOf dir) : False := by
  have hnames := names_shown (shown_of_isPrefix h)
  have hdrop := congrArg (List.drop page.length) hnames
  rw [List.append_assoc, List.map_append, List.map_append, List.drop_left' (by simp),
    ← List.map_drop] at hdrop
  have hsublist : ∀ n, ((dir.all.take n).drop page.length).Sublist dir.ents := fun n =>
    (List.drop_sublist_drop_left _ hpage).trans ((List.take_sublist n dir.all).drop 2)
  have hnodup : (((es ++ es).map cEntry).map DEnt.name).Nodup := by
    rw [hdrop]
    exact dir.nodup_names.sublist ((hsublist _).map DEnt.name)
  rw [List.map_append, List.map_append, List.nodup_append] at hnodup
  obtain ⟨e, more, rfl⟩ := List.exists_cons_of_ne_nil hes
  exact hnodup.2.2 _ List.mem_cons_self _ List.mem_cons_self rfl

/-- When there is more after the first page, the request for more is not refused. -/
theorem errorCode_of_delivers [Libfuse] (hpage : page ≠ [])
    (hroom : roomFor page ≤ roomFor dir.all)
    (hdelivers : ∀ trace h, Run (guarded (readDirStep listDir uid gid) (bigEnough dir))
      ⟨⟨0, 0, page, true⟩, 0⟩ trace h → Delivers dir trace) :
    (listDir (FuseReadDirOp.req uid gid)).errorCode = 0 := by
  by_contra herror
  have hfirst := @readDirStep_cached _ listDir uid gid dir 0 _ page true (fun h => absurd h hpage)
    le_rfl hroom
  rw [Nat.zero_add] at hfirst
  -- the second call would be answered with an error
  have hsecond : guarded (readDirStep listDir uid gid) (bigEnough dir)
      ⟨⟨page.length, page.length, [], true⟩, page.length⟩ (roomFor dir.all) =
        some (_, .ok (.err EIO)) :=
    guarded_eq_some.mpr ⟨bigEnough_of_roomFor _ le_rfl, readDirStep_refused rfl rfl rfl herror⟩
  have hreplies := (hdelivers _ _ (.snoc (.snoc .nil hfirst) hsecond)).replies
  obtain ⟨dirents, hreply⟩ := hreplies _ (List.mem_append_right _ (List.mem_singleton.mpr rfl))
  cases hreply

/-- When there is more after the first page, the request for more brings entries, no
more than one page of them, and these are the rest of the directory. -/
theorem more_of_delivers [Libfuse] (hpage : page ≠ []) (hroom : roomFor page ≤ roomFor dir.all)
    (hents : 2 ≤ page.length)
    (hdelivers : ∀ trace h, Run (guarded (readDirStep listDir uid gid) (bigEnough dir))
      ⟨⟨0, 0, page, true⟩, 0⟩ trace h → Delivers dir trace) :
    (listDir (FuseReadDirOp.req uid gid)).errorCode = 0 ∧
      ((listDir (FuseReadDirOp.req uid gid)).ents ≠ [] →
        (listDir (FuseReadDirOp.req uid gid)).hasMore = false) ∧
      ((listDir (FuseReadDirOp.req uid gid)).hasMore = false →
        ((page ++ (listDir (FuseReadDirOp.req uid gid)).ents).map cEntry).map shown =
          dir.all.map shown) := by
  have hcode := errorCode_of_delivers hpage hroom hdelivers
  generalize hresp : listDir (FuseReadDirOp.req uid gid) = resp at hcode
  -- calls with room for the whole directory and for all that the request for more brings
  have hsize : roomFor dir.all ≤ roomFor dir.all + roomFor resp.ents := Nat.le_add_right _ _
  have hfirst := @readDirStep_cached _ listDir uid gid dir 0 _ page true (fun h => absurd h hpage)
    hsize (hroom.trans hsize)
  rw [Nat.zero_add] at hfirst
  have hrefill := fun off => @readDirStep_refilled _ listDir uid gid dir off _
    (by rwa [hresp]) hsize (by rw [hresp]; exact Nat.le_add_left _ _)
  rw [hresp] at hrefill
  refine ⟨hcode, fun hne => ?_, fun hfinal => ?_⟩
  · -- a second request for more brings the same entries again
    by_contra hmore
    rw [Bool.not_eq_false] at hmore
    rw [hmore] at hrefill
    have horder := (hdelivers _ _
      (.snoc (.snoc (.snoc .nil hfirst) (hrefill _)) (hrefill _))).inOrder
    refine not_twice dir hents hne ?_
    rw [streamFrom_pages, streamFrom_pages, Nat.zero_add, Nat.zero_add, List.length_append]
    rw [delivered_snoc, delivered_snoc, delivered_snoc] at horder
    exact horder
  · -- a third call gets nothing, so all of the directory has been delivered before it
    rw [hfinal] at hrefill
    have hthird := @readDirStep_cached _ listDir uid gid dir (page.length + resp.ents.length) _ []
      false (fun _ => rfl) hsize (Nat.zero_le _)
    have hempty := (along_snoc.mp (hdelivers _ _
      (.snoc (.snoc (.snoc .nil hfirst) (hrefill _)) hthird)).empty_iff).2
    have hall := hempty.mp rfl
    rw [delivered_snoc, delivered_snoc] at hall
    rw [← streamFrom_inj 0, streamFrom_pages, Nat.zero_add]
    exact hall

/-- A directory of several pages is delivered only when the request for more happens to
bring the rest of it. -/
theorem resumes_of_delivers [Libfuse] {namenode : Namenode}
    (hmore : namenode.defaultLimit < dir.ents.length)
    (hdelivers : ∀ trace h, Run (guarded (readDirStep namenode.listDir uid gid) (bigEnough dir))
      ⟨⟨0, 0, dir.all.take (namenode.defaultLimit + 2), true⟩, 0⟩ trace h → Delivers dir trace) :
    Resumes namenode dir ∧ ∀ e ∈ dir.all, 0 ∉ e.name := by
  have hroom : roomFor (dir.all.take (namenode.defaultLimit + 2)) ≤ roomFor dir.all :=
    ((List.take_sublist _ _).map _).sum_le_sum fun _ _ => Nat.zero_le _
  have hlength : (dir.all.take (namenode.defaultLimit + 2)).length = namenode.defaultLimit + 2 := by
    rw [List.length_take, Directory.all, List.length_cons, List.length_cons]
    omega
  have hcached : dir.all.take (namenode.defaultLimit + 2) ≠ [] := List.cons_ne_nil _ _
  obtain ⟨hcode, hlast, hrest⟩ := more_of_delivers hcached hroom
    (hlength ▸ Nat.le_add_left _ _) hdelivers
  -- the request for more names directory 0, whatever directory was opened
  cases hzero : namenode.dir 0 with
  | none =>
    rw [FuseReadDirOp.req, Namenode.listDir, hzero] at hcode
    exact absurd hcode (StatusCode.toInt32_ne_zero .parentNotFoundError)
  | some other =>
    rw [FuseReadDirOp.req, Namenode.listDir_first hzero] at hlast hrest
    have hpage : other.ents.length ≤ namenode.defaultLimit := by
      -- otherwise it brings a full page and announces more
      by_contra hlong
      have hpos := namenode.defaultLimit_pos
      have hne : other.ents.take namenode.defaultLimit ≠ [] := by
        rw [← List.length_pos_iff, List.length_take]
        omega
      exact hlong (not_lt.mp (of_decide_eq_false (hlast hne)))
    have hall := hrest (decide_eq_false (not_lt.mpr hpage))
    dsimp only at hall
    rw [List.take_of_length_le hpage] at hall
    refine ⟨⟨other, hzero, hpage, ?_⟩, nul_not_mem_of_shown hall⟩
    -- after the first page, what was brought stands for what is left
    have hdrop := congrArg (List.drop (namenode.defaultLimit + 2)) hall
    rw [List.map_append, List.map_append,
      List.drop_left' (by rw [List.length_map, List.length_map, hlength]), ← List.map_drop]
      at hdrop
    exact hdrop

/-- What a directory is like that is delivered. The calls that show it have room for
everything. -/
theorem onePage_or_resumes_of_delivers [Libfuse] {namenode : Namenode}
    (hdelivers : ∀ trace h, Run (guarded (readDirStep namenode.listDir uid gid) (bigEnough dir))
      ⟨⟨0, 0, dir.all.take (namenode.defaultLimit + 2),
        namenode.defaultLimit < dir.ents.length⟩, 0⟩ trace h → Delivers dir trace) :
    (dir.ents.length ≤ namenode.defaultLimit ∨ Resumes namenode dir) ∧
      ∀ e ∈ dir.ents, 0 ∉ e.name := by
  by_cases hlimit : dir.ents.length ≤ namenode.defaultLimit
  · rw [List.take_of_length_le (by simp only [Directory.all, List.length_cons]; omega),
      decide_eq_false (not_lt.mpr hlimit)] at hdelivers
    have hnul := nul_not_mem_of_delivers hdelivers
    exact ⟨.inl hlimit, fun e he => hnul e (by simp [Directory.all, he])⟩
  · rw [decide_eq_true (not_le.mp hlimit)] at hdelivers
    obtain ⟨hresumes, hnul⟩ := resumes_of_delivers (not_le.mp hlimit) hdelivers
    exact ⟨.inr hresumes, fun e he => hnul e (by simp [Directory.all, he])⟩

end Converse

/-- Against a correct namenode, for every directory it has: every sequence of `readdir`
calls after `opendir`, each at the last offset handed out and with room for the next
entry, delivers the directory if and only if the first page is all of it, or the
request for more brings just what is left, and no name contains a NUL. -/
theorem delivers_iff [Libfuse] {namenode : Namenode} {id : UInt64} {dir : Directory}
    (hdir : namenode.dir id = some dir) (uid gid : UInt32) :
    (∃ cache, FuseOpenDirOp.run namenode.listDir id uid gid = .ok cache ∧
      ∀ trace h, Run (guarded (readDirStep namenode.listDir uid gid) (bigEnough dir))
        ⟨cache, 0⟩ trace h → Delivers dir trace) ↔
      (dir.ents.length ≤ namenode.defaultLimit ∨ Resumes namenode dir) ∧
        ∀ e ∈ dir.ents, 0 ∉ e.name := by
  rw [openDir_eq hdir]
  constructor
  · rintro ⟨_, hopened, hdelivers⟩
    obtain rfl := Except.ok.inj hopened
    exact onePage_or_resumes_of_delivers hdelivers
  · rintro ⟨hpages, hnul⟩
    exact ⟨_, rfl, fun trace h hrun => delivers_run (cacheOf_opened hpages hnul) rfl hrun⟩

/-- A directory with three entries. -/
def threeEntries : Directory where
  self := ListDirOp.dirDent ⟨1⟩ (ascii ".")
  parent := ListDirOp.dirDent ⟨1⟩ (ascii "..")
  ents := [ListDirOp.dirDent ⟨2⟩ (ascii "a"), ListDirOp.dirDent ⟨3⟩ (ascii "b"),
    ListDirOp.dirDent ⟨4⟩ (ascii "c")]
  self_name := rfl
  parent_name := rfl
  sorted := by decide
  name_ne_nil := by decide

/-- A namenode with this directory as its root. -/
def threeEntriesNamenode (defaultLimit : ℕ) (h : 0 < defaultLimit) : Namenode where
  dir id := if id = 1 then some threeEntries else none
  defaultLimit := defaultLimit
  defaultLimit_pos := h

section Sample

open scoped Sample

theorem delivers_threeEntries :
    ∃ cache, FuseOpenDirOp.run (threeEntriesNamenode 3 (by decide)).listDir 1 0 0 = .ok cache ∧
      ∀ trace h, Run (guarded (readDirStep (threeEntriesNamenode 3 (by decide)).listDir 0 0)
        (bigEnough threeEntries)) ⟨cache, 0⟩ trace h → Delivers threeEntries trace := by
  have hdir : (threeEntriesNamenode 3 (by decide)).dir 1 = some threeEntries := rfl
  exact (delivers_iff hdir 0 0).mpr ⟨.inl (by decide), by decide⟩

/-- With pages of two entries, the first call delivers `.`, `..` and the two entries of
the first page, and the second call fails although an entry is left. -/
theorem threeEntries_not_delivered :
    ∃ cache, FuseOpenDirOp.run (threeEntriesNamenode 2 (by decide)).listDir 1 0 0 = .ok cache ∧
      ∃ dirents h, Run (guarded (readDirStep (threeEntriesNamenode 2 (by decide)).listDir 0 0)
          (bigEnough threeEntries)) ⟨cache, 0⟩
          [(4096, .ok (.buf dirents)), (4096, .ok (.err EIO))] h ∧
        dirents.map Dirent.name = [ascii ".", ascii "..", ascii "a", ascii "b"] ∧
        ¬ Delivers threeEntries [(4096, .ok (.buf dirents)), (4096, .ok (.err EIO))] := by
  refine ⟨⟨0, 0, threeEntries.all.take 4, true⟩, rfl, streamFrom 0 (threeEntries.all.take 4), ?_⟩
  obtain ⟨h, hrun⟩ : ∃ h, Run (guarded (readDirStep (threeEntriesNamenode 2 (by decide)).listDir
      0 0) (bigEnough threeEntries)) ⟨⟨0, 0, threeEntries.all.take 4, true⟩, 0⟩
      [(4096, .ok (.buf (streamFrom 0 (threeEntries.all.take 4)))), (4096, .ok (.err EIO))] h :=
    exists_run_of_replay [4096, 4096] rfl
  refine ⟨h, hrun, by decide, fun hdelivers => ?_⟩
  obtain ⟨dirents, hreply⟩ := hdelivers.replies (4096, .ok (.err EIO)) (by simp)
  cases hreply

end Sample

end RocketFS
