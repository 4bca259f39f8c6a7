import RocketFS.Service.Calls
import RocketFS.Table.FlatBuffers

/-!
# Keys and values of the records

Four serdes map a row to records of four column families: `Inode`, `MTime` and
`ATime` are keyed by the inode id, `DEnt` by the parent id followed by the name.
Numbers in keys are big-endian, so the records of one parent are adjacent and
ordered by name.

The encoders leave out some of the fields of a row, and a decoder initialises what
it does not read: `acl` is in neither value, and the `DEnt` value has no times. The
decoder of `DEnt` keys checks for the length of a key without a name.

## Main results

* `DEntSerde.serKey_lt_iff`, `DEntSerde.serKey_orders_pairs` — the order of the entry keys
* `InodeSerde.deKey_eq_ok_iff`, `DEntSerde.deKey_eq_ok_iff` — the keys a decoder accepts
-/

namespace RocketFS

/-! ### Write operations -/

/-- What `Serde` needs of a derived class for one type of rows. -/
structure Serde (T : Type) where
  isKeyChanged : T → T → Bool
  isValueChanged : T → T → Bool
  serKey : T → Bytes
  serVal : T → Bytes

structure WriteOps where
  delKey : Option Bytes := none
  putKv : Option (Bytes × Bytes) := none

namespace Serde

variable {T : Type}

def getWriteOps (self : Serde T) (orig mod : Option T) : WriteOps :=
  match orig, mod with
  | some orig, none => { delKey := some (self.serKey orig) }
  | none, none => {}
  | none, some mod => { putKv := some (self.serKey mod, self.serVal mod) }
  | some orig, some mod =>
    let keyChanged := self.isKeyChanged orig mod
    let valueChanged := self.isValueChanged orig mod
    { delKey := if keyChanged then some (self.serKey orig) else none
      putKv := if keyChanged || valueChanged then some (self.serKey mod, self.serVal mod)
        else none }

def write (self : Serde T) (cf : CFIndex) (orig mod : Option T) : HandlerM Unit := do
  let writeOps := self.getWriteOps orig mod
  if let some key := writeOps.delKey then HandlerM.del cf key
  if let some (key, value) := writeOps.putKv then HandlerM.put cf key value

end Serde

/-! ### Inode -/

/-- The condition of the `CHECK` on a buffer of the given table. -/
def verifierText (table : String) : String :=
  "flatbuffers::Verifier(reinterpret_cast<const uint8_t*>(val.data()), " ++
    "val.size()) .VerifyBuffer<serde::" ++ table ++ ">()"

/-- `absl::big_endian::Load64`. -/
def load64 (data : Bytes) : UInt64 := UInt64.ofNat (ofBigEndian (data.take 8))

namespace InodeSerde

def serKey (id : InodeID) : Bytes := bigEndian 8 id.val.toNat

def deKey (key : Bytes) : Except Crash InodeID := do
  check (key.length = 8) "(key.size()) == (sizeof(InodeID))"
  return ⟨load64 key⟩

/-- `SerVal(const Dir&)`. -/
def serValDir (fb : FlatBuffers) (dir : Dir) : Bytes :=
  let serdeDir : Fb.DirT :=
    { parentId := dir.parentId.val
      name := dir.name
      id := dir.id.val
      ctimeInNs := dir.ctimeInNs }
  fb.finishInode (.dir serdeDir.pack)

/-- `SerVal(const File&)`. -/
def serValFile (fb : FlatBuffers) (file : File) : Bytes :=
  let serdeFile : Fb.FileT := { id := file.id.val, ctimeInNs := file.ctimeInNs }
  fb.finishInode (.file serdeFile.pack)

/-- The overloads for `Dir`. -/
def dir (fb : FlatBuffers) : Serde Dir where
  isKeyChanged orig mod := orig.id ≠ mod.id
  isValueChanged orig mod :=
    orig.parentId ≠ mod.parentId || orig.name ≠ mod.name || orig.id ≠ mod.id ||
      orig.acl ≠ mod.acl || orig.ctimeInNs ≠ mod.ctimeInNs
  serKey dir := serKey dir.id
  serVal := serValDir fb

/-- The overloads for `File`. -/
def file (fb : FlatBuffers) : Serde File where
  isKeyChanged orig mod := orig.id ≠ mod.id
  isValueChanged orig mod :=
    orig.id ≠ mod.id || orig.acl ≠ mod.acl || orig.ctimeInNs ≠ mod.ctimeInNs
  serKey file := serKey file.id
  serVal := serValFile fb

/-- `DeVal`. Members of the row that are not named are zero. -/
def deVal (fb : FlatBuffers) (val : Bytes) : Except Crash (Dir ⊕ File) :=
  match fb.getInode val with
  | none => .error (.check (verifierText "Inode"))
  | some (.dir dir) =>
    match dir.name with
    | none => .error (.nullDeref "dir->name()")
    | some name =>
      .ok (.inl
        { parentId := ⟨dir.parentId⟩, name := name, id := ⟨dir.id⟩, acl := Acl.zero,
          ctimeInNs := dir.ctimeInNs, mtimeInNs := 0, atimeInNs := 0 })
  | some (.file file) =>
    .ok (.inr
      { id := ⟨file.id⟩, acl := Acl.zero, ctimeInNs := file.ctimeInNs, mtimeInNs := 0,
        atimeInNs := 0 })
  | some .none => .error (.check "file != nullptr")

/-- What is read back of a directory: the times of the other column families and the
access control list are lost. -/
theorem deVal_serValDir (fb : FlatBuffers) (dir : Dir) (h : dir.name ≠ []) :
    deVal fb (serValDir fb dir) =
      .ok (.inl { dir with acl := Acl.zero, mtimeInNs := 0, atimeInNs := 0 }) := by
  simp only [deVal, serValDir, fb.getInode_finish, Fb.DirT.pack, Fb.packString_of_ne_nil h]

end InodeSerde

/-! ### MTime and ATime

`MTimeSerde` and `ATimeSerde` differ in the member they store. -/

namespace TimeSerde

/-- `SerVal(int64_t)`. -/
def serVal (timeInNs : Int64) : Bytes := bigEndian 8 timeInNs.toUInt64.toNat

/-- `DeVal`. -/
def deVal (val : Bytes) : Except Crash Int64 := do
  check (val.length = 8) "(val.size()) == (sizeof(int64_t))"
  return (UInt64.ofNat (ofBigEndian val)).toInt64

theorem deVal_serVal (timeInNs : Int64) : deVal (serVal timeInNs) = .ok timeInNs := by
  have hlen : (serVal timeInNs).length = 8 := length_bigEndian 8 _
  have hval : ofBigEndian (serVal timeInNs) = timeInNs.toUInt64.toNat :=
    ofBigEndian_bigEndian timeInNs.toUInt64.toNat_lt
  simp only [deVal, hlen, decide_true, check_true, hval, UInt64.ofNat_toNat,
    Int64.toInt64_toUInt64]
  rfl

/-- The serde of one time of a row. -/
def row {T : Type} (id : T → InodeID) (timeInNs : T → Int64) : Serde T where
  isKeyChanged orig mod := id orig ≠ id mod
  isValueChanged orig mod := timeInNs orig ≠ timeInNs mod
  serKey r := InodeSerde.serKey (id r)
  serVal r := serVal (timeInNs r)

end TimeSerde

namespace MTimeSerde

def dir : Serde Dir := TimeSerde.row Dir.id Dir.mtimeInNs

def file : Serde File := TimeSerde.row File.id File.mtimeInNs

def serKey : InodeID → Bytes := InodeSerde.serKey

def deVal : Bytes → Except Crash Int64 := TimeSerde.deVal

end MTimeSerde

namespace ATimeSerde

def dir : Serde Dir := TimeSerde.row Dir.id Dir.atimeInNs

def file : Serde File := TimeSerde.row File.id File.atimeInNs

def serKey : InodeID → Bytes := InodeSerde.serKey

def deVal : Bytes → Except Crash Int64 := TimeSerde.deVal

end ATimeSerde

/-! ### DEnt -/

namespace DEntSerde

def serKey (parentId : InodeID) (name : Bytes) : Bytes := bigEndian 8 parentId.val.toNat ++ name

def deKey (key : Bytes) : Except Crash (InodeID × Bytes) := do
  check (key.length = 8) "(key.size()) == (sizeof(InodeID))"
  return (⟨load64 key⟩, key.drop 8)

/-- `SerVal(const Dir&)`. -/
def serValDir (fb : FlatBuffers) (dir : Dir) : Bytes :=
  let serdeDir : Fb.DirT :=
    { parentId := dir.parentId.val
      name := dir.name
      id := dir.id.val }
  fb.finishDEnt (.dir serdeDir.pack)

/-- `SerVal(const HardLink&)`. -/
def serValHardLink (fb : FlatBuffers) (hardLink : HardLink) : Bytes :=
  let serdeHardLink : Fb.HardLinkT :=
    { parentId := hardLink.parentId.val
      name := hardLink.name
      id := hardLink.id.val }
  fb.finishDEnt (.hardLink serdeHardLink.pack)

/-- The overloads for `Dir`. -/
def dir (fb : FlatBuffers) : Serde Dir where
  isKeyChanged orig mod := orig.parentId ≠ mod.parentId || orig.name ≠ mod.name
  isValueChanged orig mod := orig.id ≠ mod.id
  serKey dir := serKey dir.parentId dir.name
  serVal := serValDir fb

/-- The overloads for `HardLink`. -/
def hardLink (fb : FlatBuffers) : Serde HardLink where
  isKeyChanged orig mod := orig.parentId ≠ mod.parentId || orig.name ≠ mod.name
  isValueChanged orig mod := orig.id ≠ mod.id
  serKey hardLink := serKey hardLink.parentId hardLink.name
  serVal := serValHardLink fb

/-- `DeVal`. Members of the row that are not named are zero. -/
def deVal (fb : FlatBuffers) (val : Bytes) : Except Crash (Dir ⊕ HardLink) :=
  match fb.getDEnt val with
  | none => .error (.check (verifierText "DEnt"))
  | some (.dir dir) =>
    match dir.name with
    | none => .error (.nullDeref "dir->name()")
    | some name =>
      .ok (.inl
        { parentId := ⟨dir.parentId⟩, name := name, id := ⟨dir.id⟩, acl := Acl.zero,
          ctimeInNs := 0, mtimeInNs := 0, atimeInNs := 0 })
  | some (.hardLink hardLink) =>
    match hardLink.name with
    | none => .error (.nullDeref "hard_link->name()")
    | some name =>
      .ok (.inr { parentId := ⟨hardLink.parentId⟩, name := name, id := ⟨hardLink.id⟩ })
  | some .none => .error (.check "hard_link != nullptr")

/-- What is read back of a directory entry: the parent, the name and the id. -/
theorem deVal_serValDir (fb : FlatBuffers) (dir : Dir) (h : dir.name ≠ []) :
    deVal fb (serValDir fb dir) =
      .ok (.inl ⟨dir.parentId, dir.name, dir.id, Acl.zero, 0, 0, 0⟩) := by
  simp only [deVal, serValDir, fb.getDEnt_finish, Fb.DirT.pack, Fb.packString_of_ne_nil h]

theorem deVal_serValHardLink (fb : FlatBuffers) (hardLink : HardLink) (h : hardLink.name ≠ []) :
    deVal fb (serValHardLink fb hardLink) = .ok (.inr hardLink) := by
  simp only [deVal, serValHardLink, fb.getDEnt_finish, Fb.HardLinkT.pack,
    Fb.packString_of_ne_nil h]

end DEntSerde

/-! ### Keys -/

theorem InodeSerde.serKey_inj {id id' : InodeID} : serKey id = serKey id' ↔ id = id' := by
  refine ⟨fun h => ?_, fun h => h ▸ rfl⟩
  obtain ⟨v⟩ := id
  obtain ⟨v'⟩ := id'
  have hval : v.toNat = v'.toNat := bigEndian_injective v.toNat_lt v'.toNat_lt h
  rw [UInt64.toNat_inj.mp hval]

/-- Entry keys are ordered by the parent, then by the name. -/
theorem DEntSerde.serKey_lt_iff {p q : InodeID} {m n : Bytes} :
    serKey p m < serKey q n ↔ p.val < q.val ∨ p = q ∧ m < n := by
  rw [serKey, serKey, append_lt_append_iff (by simp),
    bigEndian_lt_iff p.val.toNat_lt q.val.toNat_lt, ← UInt64.lt_iff_toNat_lt]
  refine or_congr_right (and_congr_left fun _ => ?_)
  exact InodeSerde.serKey_inj

theorem DEntSerde.serKey_inj {p q : InodeID} {m n : Bytes} :
    serKey p m = serKey q n ↔ p = q ∧ m = n := by
  constructor
  · intro h
    obtain ⟨hhead, htail⟩ := List.append_inj h (by simp)
    exact ⟨InodeSerde.serKey_inj.mp hhead, htail⟩
  · rintro ⟨rfl, rfl⟩
    rfl

theorem DEntSerde.serKey_le_iff {p q : InodeID} {m n : Bytes} :
    serKey p m ≤ serKey q n ↔ p.val < q.val ∨ p = q ∧ m ≤ n := by
  rw [le_iff_lt_or_eq, serKey_lt_iff, serKey_inj, le_iff_lt_or_eq]
  tauto

/-- Entry keys are ordered as the pairs of parent and name are, no two pairs share a key,
and the keys of one parent are an interval of all strings. -/
theorem DEntSerde.serKey_orders_pairs (p q : InodeID) (m n : Bytes) :
    (serKey p m < serKey q n ↔ p.val < q.val ∨ p = q ∧ m < n) ∧
      (serKey p m = serKey q n ↔ p = q ∧ m = n) ∧ (Set.range (serKey p)).OrdConnected :=
  ⟨serKey_lt_iff, serKey_inj, ordConnected_range_append (InodeSerde.serKey p)⟩

/-! ### Decoding keys -/

/-- The id at the start of a key is read back. -/
theorem load64_serKey_append (id : InodeID) (rest : Bytes) :
    load64 (InodeSerde.serKey id ++ rest) = id.val := by
  have hhead : (InodeSerde.serKey id ++ rest).take 8 = InodeSerde.serKey id :=
    List.take_left' (length_bigEndian 8 _)
  rw [load64, hhead, InodeSerde.serKey, ofBigEndian_bigEndian id.val.toNat_lt,
    UInt64.ofNat_toNat]

/-- The id read from a string has its first eight bytes as its key. -/
theorem serKey_load64 {data : Bytes} (h : 8 ≤ data.length) :
    InodeSerde.serKey ⟨load64 data⟩ = data.take 8 := by
  have hlen : (data.take 8).length = 8 := List.length_take_of_le h
  have hlt := ofBigEndian_lt (data.take 8)
  have hback := bigEndian_ofBigEndian (data.take 8)
  rw [hlen] at hlt hback
  rw [InodeSerde.serKey, load64, UInt64.toNat_ofNat_of_lt' hlt, hback]

/-- `DeKey` accepts the keys of ids, and returns the id. -/
theorem InodeSerde.deKey_eq_ok_iff {key : Bytes} {id : InodeID} :
    deKey key = .ok id ↔ key = serKey id := by
  constructor
  · intro h
    obtain ⟨_, hcheck, h⟩ := bind_ok h
    have hlen : key.length = 8 := of_decide_eq_true (check_ok hcheck)
    obtain rfl := Except.ok.inj h
    rw [serKey_load64 hlen.ge, List.take_of_length_le hlen.le]
  · rintro rfl
    have hlen : (serKey id).length = 8 := length_bigEndian 8 _
    have hload := load64_serKey_append id []
    rw [List.append_nil] at hload
    rw [deKey, hlen, decide_eq_true rfl, check_true, ok_bind, hload]
    rfl

/-- The parent is decoded as an id is, and what is left is the name. -/
theorem DEntSerde.deKey_eq (key : Bytes) :
    deKey key = (InodeSerde.deKey key).map fun id => (id, key.drop 8) := by
  rw [deKey, InodeSerde.deKey]
  cases decide (key.length = 8) <;> rfl

/-- `DeKey` accepts the keys of entries with an empty name, and no others. -/
theorem DEntSerde.deKey_eq_ok_iff {key : Bytes} {parentId : InodeID} {name : Bytes} :
    deKey key = .ok (parentId, name) ↔ key = serKey parentId name ∧ name = [] := by
  have hkey : ∀ id, serKey id [] = InodeSerde.serKey id := fun id => List.append_nil _
  have hname : ∀ id, (InodeSerde.serKey id).drop 8 = [] := fun id =>
    List.drop_of_length_le (length_bigEndian 8 _).le
  rw [deKey_eq]
  constructor
  · intro h
    obtain ⟨id, hid, heq⟩ := map_ok h
    obtain ⟨rfl, rfl⟩ := Prod.mk.inj heq
    obtain rfl := InodeSerde.deKey_eq_ok_iff.mp hid
    rw [hname]
    exact ⟨(hkey id).symm, rfl⟩
  · rintro ⟨rfl, rfl⟩
    rw [hkey, InodeSerde.deKey_eq_ok_iff.mpr rfl, hname]
    rfl

/-- An entry key is decoded to its pair if and only if the name is empty, and a string is
the key of what is decoded from it if and only if it is as long as an id. -/
theorem DEntSerde.deKey_inverts_serKey_iff (p : InodeID) (n k : Bytes) :
    (deKey (serKey p n) = .ok (p, n) ↔ n = []) ∧
      ((deKey k).map (fun d => serKey d.1 d.2) = .ok k ↔ k.length = 8) := by
  constructor
  · rw [deKey_eq_ok_iff, and_iff_right rfl]
  · constructor
    · intro h
      obtain ⟨⟨p, n⟩, hdecoded, _⟩ := map_ok h
      obtain ⟨rfl, rfl⟩ := deKey_eq_ok_iff.mp hdecoded
      simp [serKey]
    · intro hlen
      have hkey : k = serKey ⟨load64 k⟩ [] := by
        have hhead := serKey_load64 hlen.ge
        rw [List.take_of_length_le hlen.le] at hhead
        rw [serKey, List.append_nil]
        exact hhead.symm
      rw [deKey_eq_ok_iff.mpr ⟨hkey, rfl⟩]
      exact congrArg Except.ok hkey.symm

/-- The key of the entry `a` of directory 1 has nine bytes, and fails the check. -/
theorem DEntSerde.deKey_rejects_name :
    (serKey ⟨1⟩ (ascii "a")).length = 9 ∧
      deKey (serKey ⟨1⟩ (ascii "a")) = .error (.check "(key.size()) == (sizeof(InodeID))") :=
  ⟨rfl, rfl⟩

end RocketFS
