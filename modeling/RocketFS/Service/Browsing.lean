import RocketFS.Lib.GrowingPages
import RocketFS.Service.Pages
import RocketFS.Service.Paging
import RocketFS.Service.Paths

/-!
# Listing a directory while it grows

A caller reads a directory page by page: after each response with `has_more` it asks for the
next page from the last name received. Directories are created in between, and the namenode
may be restarted. A page begins at the name it is asked to begin after, so its first entry
has been received before, unless the directory of that name was created again meanwhile; the
caller drops it.

The names come in strictly increasing order, every entry is that of a directory that was
created at this place, and when `has_more` is false no directory is missing whose creation
had been acknowledged before the listing began (`listing_complete`). With pages of one entry
`has_more` never is false (`listing_of_one`).

## Main definitions

* `entryNames` — the names in a directory
* `PagesRead` — the requests and responses of such a caller in a history
-/

namespace RocketFS

/-- The names of the entries of a directory. -/
def entryNames (rows : List Dir) (parentId : InodeID) : Set Bytes :=
  {name | ∃ dir ∈ rows, dir.place = (parentId, name)}

theorem entryNames_mono {rows rows' : List Dir} (h : rows <+: rows') (parentId : InodeID) :
    entryNames rows parentId ⊆ entryNames rows' parentId := by
  rintro name ⟨dir, hdir, hplace⟩
  exact ⟨dir, h.subset hdir, hplace⟩

/-! ### One page -/

section Page

variable {fb : FlatBuffers} {rows : List Dir} {req : ListDirRequest} {resp : ListDirResponse}

theorem mem_map_childrenOf {parentId : InodeID} {name : Bytes} :
    name ∈ (childrenOf rows parentId).map Dir.name ↔ name ∈ entryNames rows parentId := by
  rw [List.mem_map]
  constructor
  · rintro ⟨dir, hdir, rfl⟩
    obtain ⟨hmem, hkey⟩ := rowOfEntry_mem (mem_childrenOf.mp hdir)
    exact ⟨dir, hmem, Prod.ext (DEntSerde.serKey_inj.mp hkey).1.symm rfl⟩
  · rintro ⟨dir, hdir, hplace⟩
    obtain ⟨rfl, rfl⟩ := Prod.mk.inj hplace
    -- the entry shows the row created last under this name
    obtain ⟨last, hlast⟩ : ∃ last,
        rowOfEntry rows (DEntSerde.serKey dir.parentId dir.name) = some last := by
      refine Option.ne_none_iff_exists'.mp fun hnone => ?_
      exact absurd (lastRow_eq_none.mp hnone dir hdir) (by simp)
    obtain ⟨_, hname⟩ := DEntSerde.serKey_inj.mp (rowOfEntry_mem hlast).2
    exact ⟨last, mem_childrenOf.mpr (hname ▸ hlast), hname.symm⟩

/-- The entry is that of a directory created in this one. -/
def Listed (rows : List Dir) (parentId : InodeID) (ent : DEnt) : Prop :=
  ∃ dir ∈ rows, dir.id = ⟨ent.id⟩ ∧ dir.place = (parentId, ent.name)

/-- What a response says about the directories created so far. -/
theorem page_of_rows (hnames : ∀ dir ∈ rows, dir.name ≠ [] ∧ validUtf8 dir.name)
    (hlimit : 0 < req.limit) (h : ask (dbOf fb rows) (ListDirOp.run fb req) = .ok resp)
    (hcode : resp.errorCode = 0) :
    IsPageFrom (entryNames rows ⟨req.id⟩) req.startAfter (ListDirOp.effectiveLimit req)
        (resp.ents.map DEnt.name) ∧
      resp.hasMore =
        decide ((resp.ents.map DEnt.name).length = ListDirOp.effectiveLimit req) ∧
      ∀ ent ∈ resp.ents, Listed rows ⟨req.id⟩ ent := by
  have hents : (dbOf fb rows).Lists fb ⟨req.id⟩ _ := lists_dbOf hnames
  have hpage := ListDirOp.page_of_success hents h hcode
  have hmore := (ListDirOp.length_of_success h hcode).2
  rw [ListDirOp.toNat_limit_of_pos hlimit] at hmore
  refine ⟨?_, by rw [hmore, List.length_map], fun ent hent => ?_⟩
  · have hsorted : ((childrenOf rows ⟨req.id⟩).map Dir.name).Pairwise (· < ·) :=
      List.pairwise_map.mpr (childrenOf_sorted rows ⟨req.id⟩)
    have hpages := isPageFrom_take hsorted (fun _ => mem_map_childrenOf) req.startAfter
      (ListDirOp.effectiveLimit req)
    have heq : resp.ents.map DEnt.name = (((childrenOf rows ⟨req.id⟩).map Dir.name).filter
        fun name => req.startAfter ≤ name).take (ListDirOp.effectiveLimit req) := by
      rw [hpage, ListDirOp.page, List.filter_map, List.filter_map, List.map_map, ← List.map_take,
        ← List.map_take, List.map_map]
      rfl
    rwa [heq]
  · rw [hpage] at hent
    obtain ⟨e, he, rfl⟩ := List.mem_map.mp hent
    obtain ⟨dir, hdir, rfl⟩ := List.mem_map.mp (List.mem_filter.mp (List.mem_of_mem_take he)).1
    obtain ⟨hmem, hkey⟩ := rowOfEntry_mem (mem_childrenOf.mp hdir)
    exact ⟨dir, hmem, rfl, Prod.ext (DEntSerde.serKey_inj.mp hkey).1.symm rfl⟩

end Page

/-! ### A caller who reads all pages -/

/-- The pages of a directory, asked for one after the other: the first request and what names
it, what names the last request, that request, the entries received without those that begin
the later pages, and the last response. -/
inductive PagesRead {τ : Type} (history : List (Visible τ Request Response))
    (req : ListDirRequest) (first : τ) :
    τ → ListDirRequest → List DEnt → ListDirResponse → Prop
  | first {resp : ListDirResponse} : .invoke first (.listDir req) ∈ history →
      .respond first (.listDir resp) ∈ history → resp.errorCode = 0 →
      PagesRead history req first first req resp.ents resp
  | next {op op' : τ} {req' : ListDirRequest} {received : List DEnt}
      {resp resp' : ListDirResponse} :
      PagesRead history req first op req' received resp → resp.hasMore = true →
      [.respond op (.listDir resp),
        .invoke op' (.listDir (ListDirOp.nextRequest req' resp.ents))].Sublist history →
      .respond op' (.listDir resp') ∈ history → resp'.errorCode = 0 →
      PagesRead history req first op' (ListDirOp.nextRequest req' resp.ents)
        (received ++ resp'.ents.tail) resp'

section Pages

variable {fb : FlatBuffers} {τ : Type} {history : List (Visible τ Request Response)}
  {order : List (Effect τ Request Response)} {rows rows₁ rows₂ : List Dir}
  {e : Effect τ Request Response} {req req' : ListDirRequest} {resp : ListDirResponse}
  {first op : τ} {received : List DEnt}

/-- The state in which an operation takes effect is an earlier one. -/
theorem TakesEffect.isPrefix (he : TakesEffect (NamespaceStep fb) [] order rows e rows₁ rows₂) :
    rows₁ <+: rows := by
  obtain ⟨_, _, _, _, hstep, hafter⟩ := he
  exact hstep.isPrefix.trans hafter.rows_isPrefix

/-- The page that a request is answered with. -/
theorem page_of_effect (h : Linearizes (NamespaceStep fb) [] history order rows)
    (honce : InvokedOnce history) (hnames : ∀ dir ∈ rows, dir.name ≠ [] ∧ validUtf8 dir.name)
    (he : TakesEffect (NamespaceStep fb) [] order rows e rows₁ rows₂) (hlimit : 0 < req.limit)
    (hinvoke : .invoke e.op (.listDir req) ∈ history) (houtput : e.output = .listDir resp)
    (hcode : resp.errorCode = 0) :
    rows₁ = rows₂ ∧
      IsPageFrom (entryNames rows₁ ⟨req.id⟩) req.startAfter (ListDirOp.effectiveLimit req)
        (resp.ents.map DEnt.name) ∧
      resp.hasMore =
        decide ((resp.ents.map DEnt.name).length = ListDirOp.effectiveLimit req) ∧
      ∀ ent ∈ resp.ents, Listed rows ⟨req.id⟩ ent := by
  have hkept := he.isPrefix
  obtain ⟨before, after, rfl, _, hstep, _⟩ := he
  have hinput : e.input = .listDir req := honce e.op _ _ (h.invoked e (by simp)) hinvoke
  rw [hinput, houtput] at hstep
  cases hstep with
  | settled hsettled =>
    obtain ⟨resp', hask, heq⟩ := map_ok (Option.some.inj hsettled)
    obtain rfl := Response.listDir.inj heq
    obtain ⟨hpage, hmore, hlisted⟩ := page_of_rows
      (fun dir hdir => hnames dir (hkept.subset hdir)) hlimit hask hcode
    refine ⟨rfl, hpage, hmore, fun ent hent => ?_⟩
    obtain ⟨dir, hdir, hplace⟩ := hlisted ent hent
    exact ⟨dir, hkept.subset hdir, hplace⟩

/-- Dropping the first element of a page does not change what was received last. -/
theorem getLast?_append_tail {α β : Type} {f : α → β} {l page : List α} {last : β} {rest : List β}
    (hl : (l.map f).getLast? = some last) (hpage : page.map f = last :: rest) :
    ((l ++ page.tail).map f).getLast? = (page.map f).getLast? := by
  rw [List.map_append, List.map_tail, hpage, List.tail_cons, List.getLast?_append, hl,
    List.getLast?_cons]
  cases rest.getLast? <;> rfl

/-- The pages of a caller are pages of a growing set of names. The last name received is the
last one of the last page, where the next page is going to begin. -/
theorem pagesFrom_of_read (h : Linearizes (NamespaceStep fb) [] history order rows)
    (honce : InvokedOnce history) (hnames : ∀ dir ∈ rows, dir.name ≠ [] ∧ validUtf8 dir.name)
    (hlimit : 0 < req.limit)
    (hfirst : TakesEffect (NamespaceStep fb) [] order rows e rows₁ rows₂) (hop : e.op = first)
    (hread : PagesRead history req first op req' received resp) :
    (∃ start, req' = { req with startAfter := start }) ∧
      (∀ ent ∈ received, Listed rows ⟨req.id⟩ ent) ∧
      (received.map DEnt.name).getLast? = (resp.ents.map DEnt.name).getLast? ∧
      ∃ e' rows₃, e'.op = op ∧
        TakesEffect (NamespaceStep fb) [] order rows e' rows₃ rows₃ ∧
        PagesFrom req.startAfter (ListDirOp.effectiveLimit req) (entryNames rows₁ ⟨req.id⟩)
          (entryNames rows₃ ⟨req.id⟩) (received.map DEnt.name) resp.hasMore := by
  subst hop
  have hpos := ListDirOp.effectiveLimit_pos req
  induction hread with
  | @first resp hinvoke hrespond hcode =>
    have houtput : e.output = .listDir resp := by
      obtain ⟨_, _, rfl, _⟩ := hfirst
      exact h.output_eq (by simp) hrespond
    obtain ⟨rfl, hpage, hmore, hlisted⟩ :=
      page_of_effect h honce hnames hfirst hlimit hinvoke houtput hcode
    refine ⟨⟨req.startAfter, rfl⟩, hlisted, rfl, e, rows₁, rfl, hfirst, ?_⟩
    rw [hmore]
    exact .first subset_rfl hpage
  | @next op op' req' received resp resp' _ hmore hpair hrespond hcode ih =>
    obtain ⟨⟨start, rfl⟩, hreceived, hlast, e', rows₃, rfl, he', hpages⟩ := ih
    obtain ⟨e'', between, rows₄, rows₅, rfl, houtput, hbetween, he''⟩ :=
      h.takesEffect_later he' hpair hrespond
    have hinvoke := hpair.subset (List.mem_cons_of_mem _ List.mem_cons_self)
    have hlimit' : 0 < (ListDirOp.nextRequest { req with startAfter := start } resp.ents).limit :=
      hlimit
    obtain ⟨rfl, hpage, hmore', hlisted⟩ :=
      page_of_effect h honce hnames he'' hlimit' hinvoke houtput hcode
    rw [hmore] at hpages
    -- the last page was full, so there is a last name
    obtain ⟨last, hname⟩ := hpages.exists_last hpos
    have hstart : (ListDirOp.nextRequest { req with startAfter := start } resp.ents).startAfter =
        last := by
      rw [hlast, List.getLast?_map] at hname
      rw [ListDirOp.nextRequest, hname]
      rfl
    rw [hstart] at hpage
    have hgrown := entryNames_mono hbetween.rows_isPrefix ⟨req.id⟩
    refine ⟨⟨_, rfl⟩, fun ent hent => ?_, ?_, e'', rows₄, rfl, he'', ?_⟩
    · rcases List.mem_append.mp hent with hold | hnew
      · exact hreceived ent hold
      · exact hlisted ent (List.mem_of_mem_tail hnew)
    · have hthere := (hpages.readInv hpos).subset last (List.mem_of_getLast? hname)
      obtain ⟨rest, hcons⟩ := hpage.exists_cons (hgrown hthere) hpos
      exact getLast?_append_tail hname hcons
    · rw [hmore', List.map_append, List.map_tail]
      exact .next hpages hname hgrown hpage

/-- A `Mkdirs` that was answered with success has created its directory. -/
theorem NamespaceStep.created_of_success {mkdirs : MkdirsRequest} {answer : MkdirsResponse}
    (h : NamespaceStep fb rows₁ (.mkdirs mkdirs) (.mkdirs answer) rows₂)
    (hok : answer.errorCode = 0) : mkdirs.name ∈ entryNames rows₂ ⟨mkdirs.parentId⟩ := by
  generalize hresp : Response.mkdirs answer = resp at h
  cases h with
  | created now =>
    exact ⟨_, List.mem_append_right _ List.mem_cons_self, rfl⟩
  | settled hsettled =>
    subst hresp
    simp only [Request.settled] at hsettled
    split at hsettled
    · cases hsettled
    · split at hsettled
      · rename_i refused hrefused
        obtain rfl := Response.mkdirs.inj (Except.ok.inj (Option.some.inj hsettled))
        exact absurd hok (MkdirsOp.errorCode_of_refused hrefused)
      · cases hsettled

/-- The first page takes effect after a `Mkdirs` that had been answered before it was asked
for, and shows its directory. -/
theorem exists_first_of_acknowledged (h : Linearizes (NamespaceStep fb) [] history order rows)
    (honce : InvokedOnce history) {t : τ} {mkdirs : MkdirsRequest} {answer : MkdirsResponse}
    (hmkdirs : .invoke t (.mkdirs mkdirs) ∈ history)
    (hpair : [.respond t (.mkdirs answer), .invoke first (.listDir req)].Sublist history)
    (hok : answer.errorCode = 0) {output : Response} (hrespond : .respond first output ∈ history) :
    ∃ e rows₁ rows₂, e.op = first ∧ TakesEffect (NamespaceStep fb) [] order rows e rows₁ rows₂ ∧
      mkdirs.name ∈ entryNames rows₁ ⟨mkdirs.parentId⟩ := by
  obtain ⟨e, rows₁, rows₂, rfl, houtput, he⟩ :=
    h.exists_takesEffect (hpair.subset List.mem_cons_self)
  obtain ⟨e', _, rows₃, rows₄, hop, _, hbetween, he'⟩ := h.takesEffect_later he hpair hrespond
  obtain ⟨_, _, rfl, _, hstep, _⟩ := he
  rw [honce e.op _ _ (h.invoked e (by simp)) hmkdirs, houtput] at hstep
  exact ⟨e', rows₃, rows₄, hop, he',
    entryNames_mono hbetween.rows_isPrefix _ (hstep.created_of_success hok)⟩

/-- The first page of a caller was answered. -/
theorem PagesRead.exists_respond (h : PagesRead history req first op req' received resp) :
    ∃ output, .respond first output ∈ history := by
  induction h with
  | first _ hrespond _ => exact ⟨_, hrespond⟩
  | next _ _ _ _ _ ih => exact ih

end Pages

section Life

variable {fb : FlatBuffers} {trace : LifeTrace} {s : LifeState} {req req' : ListDirRequest}
  {first op : ℕ × TxnId} {received : List DEnt} {resp : ListDirResponse}

/-- A directory is listed page by page while directories are created and the namenode is
restarted. The names received increase strictly, every entry is that of a directory created
at this place, and when no more are announced, every name is among them whose `Mkdirs` had
been acknowledged before the first page was asked for. -/
theorem listing_complete
    (h : Run (guarded (observedLifeStep fb) caughtUp) LifeState.init trace s)
    (hnames : ∀ e ∈ trace, e.1.Calls (·.Names fun name => name ≠ [] ∧ validUtf8 name))
    (hfault : ∀ e ∈ trace, e.1.Calls fun event => event.faultFree)
    (hread : PagesRead (lifeHistory trace) req first op req' received resp)
    (hstart : req.startAfter = []) (hlimit : 0 < req.limit) :
    (received.map DEnt.name).Pairwise (· < ·) ∧
      (∀ ent ∈ received, placeOf fb s.db ⟨ent.id⟩ = some (⟨req.id⟩, ent.name)) ∧
      (resp.hasMore = false → ∀ t mkdirs answer,
        .invoke t (.mkdirs mkdirs) ∈ lifeHistory trace →
        [.respond t (.mkdirs answer), .invoke first (.listDir req)].Sublist (lifeHistory trace) →
        answer.errorCode = 0 → mkdirs.parentId = req.id →
          ∃ ent ∈ received, ent.name = mkdirs.name) := by
  obtain ⟨rows, order, hdb, hcreated, hnamed, hlin⟩ := life_names h hnames hfault
  have honce := invokedOnce_life h
  have hpos := ListDirOp.effectiveLimit_pos req
  obtain ⟨output, hrespond⟩ := hread.exists_respond
  obtain ⟨e, rows₁, rows₂, hop, _, he⟩ := hlin.exists_takesEffect hrespond
  obtain ⟨_, hlisted, _, _, _, _, _, hpages⟩ :=
    pagesFrom_of_read hlin honce hnamed hlimit he hop hread
  refine ⟨(hpages.readInv hpos).sorted, fun ent hent => ?_,
    fun hmore t mkdirs answer hmkdirs hpair hok hparent => ?_⟩
  · obtain ⟨dir, hdir, hid, hplace⟩ := hlisted ent hent
    rw [hdb, ← hid, ← hplace]
    exact placeOf_of_mem hcreated (fun dir hdir => (hnamed dir hdir).1) hdir
  · -- the first page shows what had been acknowledged before it was asked for
    obtain ⟨e, rows₁, rows₂, hop, he, hname⟩ :=
      exists_first_of_acknowledged hlin honce hmkdirs hpair hok hrespond
    obtain ⟨_, _, _, _, _, _, _, hpages⟩ :=
      pagesFrom_of_read hlin honce hnamed hlimit he hop hread
    rw [hmore] at hpages
    rw [hparent] at hname
    have hmem := hpages.complete hpos hname (hstart ▸ not_lt.mp (List.not_lt_nil _))
    obtain ⟨ent, hent, heq⟩ := List.mem_map.mp hmem
    exact ⟨ent, hent, heq⟩

/-- With pages of one entry, a caller whose first page is not empty never gets any further,
however many pages are asked for: all responses announce more, and all of them show the name
of the first. -/
theorem listing_of_one
    (h : Run (guarded (observedLifeStep fb) caughtUp) LifeState.init trace s)
    (hnames : ∀ e ∈ trace, e.1.Calls (·.Names fun name => name ≠ [] ∧ validUtf8 name))
    (hfault : ∀ e ∈ trace, e.1.Calls fun event => event.faultFree)
    (hread : PagesRead (lifeHistory trace) req first op req' received resp)
    (hlimit : req.limit = 1) (hne : received ≠ []) :
    resp.hasMore = true ∧ ∃ ent, received = [ent] ∧
      (resp.ents.map DEnt.name).getLast? = some ent.name := by
  obtain ⟨rows, order, _, _, hnamed, hlin⟩ := life_names h hnames hfault
  obtain ⟨output, hrespond⟩ := hread.exists_respond
  obtain ⟨e, rows₁, rows₂, hop, _, he⟩ := hlin.exists_takesEffect hrespond
  obtain ⟨_, _, hlast, _, _, _, _, hpages⟩ := pagesFrom_of_read hlin (invokedOnce_life h) hnamed
    (hlimit ▸ by decide) he hop hread
  have hone : ListDirOp.effectiveLimit req = 1 := by
    rw [ListDirOp.effectiveLimit, hlimit]
    rfl
  rw [hone] at hpages
  obtain ⟨hmore, name, hnames⟩ := hpages.one_more (fun hnil => hne (List.map_eq_nil_iff.mp hnil))
  obtain ⟨ent, rfl, rfl⟩ := List.map_eq_singleton_iff.mp hnames
  exact ⟨hmore, ent, rfl, hlast.symm⟩

end Life

/-- The root is listed in pages of two while directories are created, and to its end by a
second process; then it is listed in pages of one. -/
def listWhileCreating : List LifeEvent :=
  let serve (t : TxnId) (req : Request) (events : List Event) : List LifeEvent :=
    (.accept req :: .takeSnapshot :: events).map fun event => .call ⟨t, event⟩
  let create (t : TxnId) (name : String) (id : UInt64) : List LifeEvent :=
    serve t (.mkdirs ⟨1, ascii name, 0x1ED, 0, 0⟩) [.call none, .next (.ok ⟨id⟩), .nowNs 70,
      .call none, .call none, .call none, .call none, .drawCommit, .isConflictFree,
      .writeBatch true]
  let list (t : TxnId) (startAfter : String) (limit : Int32) : List LifeEvent :=
    serve t (.listDir ⟨1, ascii startAfter, limit, 0, 0⟩) [.call none, .call none]
  [.start, .sample 1742256005000000, .store] ++ create 0 "b" 6 ++ create 1 "d" 7 ++
    list 2 "" 2 ++ create 3 "c" 8 ++ create 4 "e" 9 ++ list 5 "d" 2 ++
    [.start, .sample 1742256009000000, .store] ++ list 0 "e" 2 ++ list 1 "" 1 ++ list 2 "b" 1

/-- Its trace. -/
def listWhileCreatingTrace : LifeTrace :=
  ((replay (guarded (observedLifeStep .sample) caughtUp) LifeState.init listWhileCreating).map
    Prod.fst).getD []

theorem listWhileCreatingTrace_run :
    ∃ s, Run (guarded (observedLifeStep .sample) caughtUp) LifeState.init
      listWhileCreatingTrace s :=
  exists_run_of_replay listWhileCreating rfl

theorem listWhileCreatingTrace_names : ∀ e ∈ listWhileCreatingTrace,
    e.1.Calls (·.Names fun name => name ≠ [] ∧ validUtf8 name) := by
  decide +kernel

theorem listWhileCreatingTrace_faultFree :
    ∀ e ∈ listWhileCreatingTrace, e.1.Calls fun event => event.faultFree := by
  decide +kernel

/-- A page of the root. -/
def rootPage (ents : List (UInt64 × String)) (first hasMore : Bool) : ListDirResponse where
  selfDent := if first then some (ListDirOp.dirDent ⟨1⟩ (ascii ".")) else none
  parentDent := if first then some (ListDirOp.dirDent ⟨1⟩ (ascii "..")) else none
  ents := ents.map fun ent => ListDirOp.dirDent ⟨ent.1⟩ (ascii ent.2)
  hasMore := hasMore

/-- The requests and responses of this run. The directory created behind the end of the first
page is listed, the one created before it is not. -/
def listWhileCreatingHistory : List (Visible (ℕ × TxnId) Request Response) :=
  let mkdirs (t : TxnId) (name : String) (id : UInt64) :
      List (Visible (ℕ × TxnId) Request Response) :=
    let req : MkdirsRequest := ⟨1, ascii name, 0x1ED, 0, 0⟩
    [.invoke (1, t) (.mkdirs req),
      .respond (1, t) (.mkdirs (MkdirsOp.success (MkdirsOp.newDir req rootDir ⟨id⟩ 70)))]
  let list (op : ℕ × TxnId) (startAfter : String) (limit : Int32) (page : ListDirResponse) :
      List (Visible (ℕ × TxnId) Request Response) :=
    [.invoke op (.listDir ⟨1, ascii startAfter, limit, 0, 0⟩), .respond op (.listDir page)]
  mkdirs 0 "b" 6 ++ mkdirs 1 "d" 7 ++
    list (1, 2) "" 2 (rootPage [(6, "b"), (7, "d")] true true) ++
    mkdirs 3 "c" 8 ++ mkdirs 4 "e" 9 ++
    list (1, 5) "d" 2 (rootPage [(7, "d"), (9, "e")] false true) ++
    list (2, 0) "e" 2 (rootPage [(9, "e")] false false) ++
    list (2, 1) "" 1 (rootPage [(6, "b")] true true) ++
    list (2, 2) "b" 1 (rootPage [(6, "b")] false true)

theorem lifeHistory_listWhileCreating :
    lifeHistory listWhileCreatingTrace = listWhileCreatingHistory := by
  decide +kernel

theorem pagesRead_listWhileCreating :
    PagesRead listWhileCreatingHistory ⟨1, [], 2, 0, 0⟩ (1, 2) (2, 0)
      ⟨1, ascii "e", 2, 0, 0⟩ (rootPage [(6, "b"), (7, "d"), (9, "e")] false false).ents
      (rootPage [(9, "e")] false false) := by
  have hinvoke : .invoke (1, 2) (.listDir ⟨1, [], 2, 0, 0⟩) ∈ listWhileCreatingHistory := by decide
  have hrespond : .respond (1, 2) (.listDir (rootPage [(6, "b"), (7, "d")] true true)) ∈
      listWhileCreatingHistory := by decide
  have hpair : [.respond (1, 2) (.listDir (rootPage [(6, "b"), (7, "d")] true true)),
      .invoke (1, 5) (.listDir ⟨1, ascii "d", 2, 0, 0⟩)].Sublist listWhileCreatingHistory := by
    decide
  have hrespond' : .respond (1, 5) (.listDir (rootPage [(7, "d"), (9, "e")] false true)) ∈
      listWhileCreatingHistory := by decide
  have hpair' : [.respond (1, 5) (.listDir (rootPage [(7, "d"), (9, "e")] false true)),
      .invoke (2, 0) (.listDir ⟨1, ascii "e", 2, 0, 0⟩)].Sublist listWhileCreatingHistory := by
    decide
  have hrespond'' : .respond (2, 0) (.listDir (rootPage [(9, "e")] false false)) ∈
      listWhileCreatingHistory := by decide
  exact .next (.next (.first hinvoke hrespond rfl) rfl hpair hrespond' rfl) rfl hpair' hrespond''
    rfl

/-- The first directory of this run is among the entries received. -/
theorem listing_complete_listWhileCreating :
    ∃ ent ∈ (rootPage [(6, "b"), (7, "d"), (9, "e")] false false).ents, ent.name = ascii "b" := by
  obtain ⟨s, hrun⟩ := listWhileCreatingTrace_run
  let mkdirs : MkdirsRequest := ⟨1, ascii "b", 0x1ED, 0, 0⟩
  let answer : MkdirsResponse := MkdirsOp.success (MkdirsOp.newDir mkdirs rootDir ⟨6⟩ 70)
  have hread := pagesRead_listWhileCreating
  have hmkdirs : .invoke (1, 0) (.mkdirs mkdirs) ∈ listWhileCreatingHistory := by decide
  have hpair : [.respond (1, 0) (.mkdirs answer),
      .invoke (1, 2) (.listDir ⟨1, [], 2, 0, 0⟩)].Sublist listWhileCreatingHistory := by decide
  rw [← lifeHistory_listWhileCreating] at hread hmkdirs hpair
  exact (listing_complete hrun listWhileCreatingTrace_names listWhileCreatingTrace_faultFree hread
    rfl (by decide)).2.2 rfl (1, 0) mkdirs answer hmkdirs hpair rfl rfl

theorem listing_of_one_listWhileCreating :
    PagesRead listWhileCreatingHistory ⟨1, [], 1, 0, 0⟩ (2, 1) (2, 2)
        ⟨1, ascii "b", 1, 0, 0⟩ (rootPage [(6, "b")] false true).ents
        (rootPage [(6, "b")] false true) ∧
      (rootPage [(6, "b")] false true).hasMore = true := by
  have hinvoke : .invoke (2, 1) (.listDir ⟨1, [], 1, 0, 0⟩) ∈ listWhileCreatingHistory := by decide
  have hrespond : .respond (2, 1) (.listDir (rootPage [(6, "b")] true true)) ∈
      listWhileCreatingHistory := by decide
  have hpair : [.respond (2, 1) (.listDir (rootPage [(6, "b")] true true)),
      .invoke (2, 2) (.listDir ⟨1, ascii "b", 1, 0, 0⟩)].Sublist listWhileCreatingHistory := by
    decide
  have hrespond' : .respond (2, 2) (.listDir (rootPage [(6, "b")] false true)) ∈
      listWhileCreatingHistory := by decide
  have hread : PagesRead listWhileCreatingHistory ⟨1, [], 1, 0, 0⟩ (2, 1) (2, 2)
      ⟨1, ascii "b", 1, 0, 0⟩ (rootPage [(6, "b")] false true).ents
      (rootPage [(6, "b")] false true) :=
    .next (.first hinvoke hrespond rfl) rfl hpair hrespond' rfl
  obtain ⟨s, hrun⟩ := listWhileCreatingTrace_run
  rw [← lifeHistory_listWhileCreating] at hread ⊢
  exact ⟨hread, (listing_of_one hrun listWhileCreatingTrace_names
    listWhileCreatingTrace_faultFree hread rfl (by decide)).1⟩

end RocketFS
