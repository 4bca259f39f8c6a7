import RocketFS.Service.Listing

/-!
# Listing a directory page by page

A caller asks for a page, and for the next one with `start_after` set to the last
name received, until `has_more` is false. Since a page begins at `start_after`
itself, the second page repeats the last entry of the first, and the caller
receives every entry once exactly when one page holds them all and is not full
(`listAll_eq_iff`), provided that the first request can read the directory's parent.

## Main definitions

* `ListDirOp.listAll` — the caller

## Main results

* `listAll_succ` — one request of the caller
* `listAll_eq_iff` — when the caller receives every entry exactly once
-/

namespace RocketFS

namespace ListDirOp

/-- The request for the page after `ents`. -/
def nextRequest (req : ListDirRequest) (ents : List DEnt) : ListDirRequest :=
  { req with startAfter := (ents.getLast?.map DEnt.name).getD req.startAfter }

/-- The entries a caller receives who repeats the request until `has_more` is
false: `none` when a request fails or `fuel` requests are not enough. -/
def listAll (fb : FlatBuffers) (db : Database) : ℕ → ListDirRequest → Option (List DEnt)
  | 0, _ => none
  | fuel + 1, req =>
    match ask db (run fb req) with
    | .error _ => none
    | .ok resp =>
      if resp.errorCode ≠ 0 then none
      else if resp.hasMore then
        (listAll fb db fuel (nextRequest req resp.ents)).map (resp.ents ++ ·)
      else some resp.ents

section Caller

variable {fb : FlatBuffers} {db : Database} (req : ListDirRequest) {ents : List Entry}

/-- One request: a page, and the remaining requests if the page is full. -/
theorem listAll_succ (hents : db.Lists fb ⟨req.id⟩ ents)
    (hcaller : MayList fb db ⟨req.id⟩ ⟨req.uid, req.gid⟩)
    (hparent : ParentReadable fb db ⟨req.id⟩) (hlimit : 0 < req.limit) (fuel : ℕ) :
    listAll fb db (fuel + 1) req =
      if (page ents req).length = effectiveLimit req then
        (listAll fb db fuel (nextRequest req (page ents req))).map (page ents req ++ ·)
      else some (page ents req) := by
  obtain ⟨resp, hask, hcode, hpage, hmore⟩ := ask_run req hents hcaller hparent
  rw [toNat_limit_of_pos hlimit] at hmore
  simp only [listAll, hask, hcode, hmore, hpage, ne_eq, not_true_eq_false, if_false,
    decide_eq_true_eq]

/-- What the caller receives begins with the first page. -/
theorem exists_append_of_listAll (hents : db.Lists fb ⟨req.id⟩ ents)
    (hcaller : MayList fb db ⟨req.id⟩ ⟨req.uid, req.gid⟩)
    (hparent : ParentReadable fb db ⟨req.id⟩) (hlimit : 0 < req.limit) {fuel : ℕ}
    {received : List DEnt} (h : listAll fb db fuel req = some received) :
    ∃ rest, received = page ents req ++ rest := by
  cases fuel with
  | zero => cases h
  | succ fuel =>
    rw [listAll_succ req hents hcaller hparent hlimit] at h
    split_ifs at h with hfull
    · obtain ⟨rest, _, rfl⟩ := Option.map_eq_some_iff.mp h
      exact ⟨rest, rfl⟩
    · exact ⟨[], by rw [List.append_nil]; exact (Option.some.inj h).symm⟩

/-- A caller who receives anything has read the row of the parent. -/
theorem parentReadable_of_listAll (hstart : req.startAfter = []) {fuel : ℕ}
    {received : List DEnt} (h : listAll fb db fuel req = some received) :
    ParentReadable fb db ⟨req.id⟩ := by
  cases fuel with
  | zero => cases h
  | succ fuel =>
    rw [listAll] at h
    cases hask : ask db (run fb req) with
    | error crash =>
      rw [hask] at h
      cases h
    | ok resp =>
      simp only [hask] at h
      by_cases hcode : resp.errorCode = 0
      · exact parentReadable_of_run hstart hask hcode
      · rw [if_pos hcode] at h
        cases h

/-- A page begins with the entry whose name is `start_after`, if there is one. -/
theorem exists_page_eq_cons (hsorted : ents.Pairwise fun a b => a.name < b.name) {e : Entry}
    (he : e ∈ ents) (hname : req.startAfter = e.name) (hlimit : 0 < effectiveLimit req) :
    ∃ rest, page ents req = dent e :: rest := by
  obtain ⟨limit, hlimit⟩ := Nat.exists_eq_add_one_of_ne_zero hlimit.ne'
  have hmem : e ∈ ents.filter fun e => req.startAfter ≤ e.name := by simp [he, hname]
  have hfilter := hsorted.filter fun e => decide (req.startAfter ≤ e.name)
  have hbound : ∀ d ∈ ents.filter fun e => req.startAfter ≤ e.name, e.name ≤ d.name := by
    simp [hname]
  rw [page, hlimit]
  generalize (ents.filter fun e => req.startAfter ≤ e.name) = section_ at *
  cases section_ with
  | nil => cases hmem
  | cons head rest =>
    rcases List.mem_cons.mp hmem with rfl | hrest
    · exact ⟨_, rfl⟩
    · have hlt := (List.pairwise_cons.mp hfilter).1 e hrest
      exact absurd (hbound head List.mem_cons_self) (not_le.mpr hlt)

/-- No name is listed twice in the entries of a directory. -/
theorem nodup_names (hsorted : ents.Pairwise fun a b => a.name < b.name) :
    ((ents.map dent).map DEnt.name).Nodup := by
  rw [List.map_map]
  refine List.pairwise_map.mpr (hsorted.imp fun hab => ?_)
  simpa only [Function.comp_apply, Entry.name_dent] using hab.ne

/-- With a full first page, the caller receives its last entry twice or does not
finish. -/
theorem listAll_ne (hents : db.Lists fb ⟨req.id⟩ ents)
    (hcaller : MayList fb db ⟨req.id⟩ ⟨req.uid, req.gid⟩)
    (hparent : ParentReadable fb db ⟨req.id⟩) (hstart : req.startAfter = [])
    (hlimit : 0 < req.limit) (hfull : effectiveLimit req ≤ ents.length) (fuel : ℕ) :
    listAll fb db fuel req ≠ some (ents.map dent) := by
  intro h
  cases fuel with
  | zero => cases h
  | succ fuel =>
    have hpos : 0 < effectiveLimit req := by
      have := Int32.lt_iff_toInt_lt.mp hlimit
      rw [effectiveLimit_of_pos req hlimit]
      simp only [Int32.toInt_zero] at this
      omega
    have hpage : page ents req = (ents.take (effectiveLimit req)).map dent := page_first hstart
    -- the last entry of the first page
    obtain ⟨e, hlast⟩ : ∃ e, (ents.take (effectiveLimit req)).getLast? = some e := by
      have hne : ents.take (effectiveLimit req) ≠ [] := by
        rw [← List.length_pos_iff, List.length_take]
        omega
      exact ⟨_, List.getLast?_eq_some_getLast hne⟩
    have he := List.mem_of_getLast? hlast
    have hnext : (nextRequest req (page ents req)).startAfter = e.name := by
      rw [nextRequest, hpage]
      simp only [List.getLast?_map, hlast, Option.map_some, Option.getD_some, Entry.name_dent]
    rw [listAll_succ req hents hcaller hparent hlimit, if_pos (by simp [hpage, hfull])] at h
    obtain ⟨received, hreceived, heq⟩ := Option.map_eq_some_iff.mp h
    -- the second page begins with it
    obtain ⟨rest, rfl⟩ := exists_append_of_listAll (nextRequest req (page ents req)) hents hcaller
      hparent hlimit hreceived
    obtain ⟨tail, htail⟩ := exists_page_eq_cons _ hents.sorted (List.mem_of_mem_take he)
      hnext hpos
    rw [htail, hpage] at heq
    have hnodup := nodup_names hents.sorted
    rw [← heq, List.map_append, List.nodup_append] at hnodup
    refine hnodup.2.2 e.name ?_ e.name ?_ rfl
    · exact List.mem_map.mpr ⟨_, List.mem_map_of_mem he, Entry.name_dent e⟩
    · simp [Entry.name_dent]

end Caller

end ListDirOp

open ListDirOp in
/-- On every database, for every directory with its entries in name order, every
caller who may list it and every positive limit: the caller who starts with an
empty `start_after` stops after finitely many requests with every entry received
exactly once, in order, if and only if the row of the directory's parent can be read
and the limit exceeds the number of entries. -/
theorem listAll_eq_iff {fb : FlatBuffers} {db : Database} {id : UInt64} {ents : List Entry}
    (hents : db.Lists fb ⟨id⟩ ents) {uid gid : UInt32} (hcaller : MayList fb db ⟨id⟩ ⟨uid, gid⟩)
    {limit : Int32} (hlimit : 0 < limit) :
    (∃ fuel, listAll fb db fuel ⟨id, [], limit, uid, gid⟩ = some (ents.map dent)) ↔
      ParentReadable fb db ⟨id⟩ ∧ (ents.length : ℤ) < limit.toInt := by
  have hvalue : (effectiveLimit ⟨id, [], limit, uid, gid⟩ : ℤ) = limit.toInt := by
    have hpos := Int32.lt_iff_toInt_lt.mp hlimit
    simp only [Int32.toInt_zero] at hpos
    rw [effectiveLimit, if_pos hlimit, Int.toNat_of_nonneg hpos.le]
  constructor
  · rintro ⟨fuel, h⟩
    have hparent : ParentReadable fb db ⟨id⟩ :=
      parentReadable_of_listAll ⟨id, [], limit, uid, gid⟩ rfl h
    refine ⟨hparent, ?_⟩
    by_contra hfull
    exact listAll_ne ⟨id, [], limit, uid, gid⟩ hents hcaller hparent rfl hlimit (by omega) fuel h
  · rintro ⟨hparent, hlt⟩
    refine ⟨1, ?_⟩
    have hpage : page ents ⟨id, [], limit, uid, gid⟩ = ents.map dent := by
      rw [page_first rfl, List.take_of_length_le (by omega)]
    rw [listAll_succ ⟨id, [], limit, uid, gid⟩ hents hcaller hparent hlimit, hpage,
      if_neg (by rw [List.length_map]; omega)]

/-- The rows of two directories under the root. -/
def twoDirectories : List Dir :=
  [⟨kRootInodeID, ascii "a", ⟨2⟩, Acl.zero, 70, 70, 70⟩,
   ⟨kRootInodeID, ascii "b", ⟨3⟩, Acl.zero, 71, 71, 71⟩]

theorem lists_twoDirectories :
    (dbOf .sample twoDirectories).Lists .sample kRootInodeID (twoDirectories.map .inl) := by
  have hchildren : childrenOf twoDirectories kRootInodeID = twoDirectories := by decide
  have hlists : (dbOf .sample twoDirectories).Lists .sample kRootInodeID _ :=
    lists_dbOf (by decide)
  rwa [hchildren] at hlists

theorem listAll_eq_iff_twoDirectories :
    (∃ fuel, ListDirOp.listAll .sample (dbOf .sample twoDirectories) fuel ⟨1, [], 3, 0, 0⟩ =
      some ((twoDirectories.map .inl).map ListDirOp.dent)) ↔
      ParentReadable .sample (dbOf .sample twoDirectories) ⟨1⟩ ∧
        (((twoDirectories.map .inl : List Entry).length : ℕ) : ℤ) < (3 : Int32).toInt :=
  listAll_eq_iff lists_twoDirectories (mayList_dbOf (by decide) (.inl rfl)) (by decide)

/-- With pages of two, the caller who lists the two directories receives the second
of them twice. -/
theorem listAll_repeats :
    (dbOf .sample twoDirectories).Lists .sample kRootInodeID (twoDirectories.map .inl) ∧
      MayList .sample (dbOf .sample twoDirectories) kRootInodeID ⟨0, 0⟩ ∧
      ListDirOp.listAll .sample (dbOf .sample twoDirectories) 2 ⟨1, [], 2, 0, 0⟩ =
        some [ListDirOp.dirDent ⟨2⟩ (ascii "a"), ListDirOp.dirDent ⟨3⟩ (ascii "b"),
          ListDirOp.dirDent ⟨3⟩ (ascii "b")] ∧
      ∀ fuel, ListDirOp.listAll .sample (dbOf .sample twoDirectories) fuel ⟨1, [], 2, 0, 0⟩ ≠
        some ((twoDirectories.map .inl).map ListDirOp.dent) := by
  have hcaller : MayList .sample (dbOf .sample twoDirectories) kRootInodeID ⟨0, 0⟩ :=
    mayList_dbOf (by decide) (.inl rfl)
  refine ⟨lists_twoDirectories, hcaller, by decide, fun fuel => ?_⟩
  exact ListDirOp.listAll_ne ⟨1, [], 2, 0, 0⟩ lists_twoDirectories hcaller (.inl rfl) rfl
    (by decide) (by decide) fuel

end RocketFS
