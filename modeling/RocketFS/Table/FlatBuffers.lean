import RocketFS.Table.Records

/-!
# FlatBuffers tables

The tables of `inode.fbs` and `dent.fbs`. A table is built from an object (`DirT`,
`FileT`, `HardLinkT`) by `Pack` and read through accessors. A string field that is
empty is not written, and its accessor then returns a null pointer; here it is
`none`.

The wire format is a parameter, `FlatBuffers`, with the law the code relies on:
what was packed verifies and reads back. `FlatBuffers.sample` is one such format.
-/

namespace RocketFS

namespace Fb

/-! ### Tables, as the accessors show them -/

/-- `serde::Dir`. -/
structure Dir where
  parentId : UInt64
  name : Option Bytes
  id : UInt64
  acl : Option Acl
  ctimeInNs : Int64
  deriving DecidableEq

/-- `serde::File`. -/
structure File where
  id : UInt64
  acl : Option Acl
  ctimeInNs : Int64
  deriving DecidableEq

/-- `serde::HardLink`. -/
structure HardLink where
  parentId : UInt64
  name : Option Bytes
  id : UInt64
  deriving DecidableEq

/-- `serde::Inode`, the union in its field `type`. -/
inductive Inode
  | none
  | file (file : File)
  | dir (dir : Dir)
  deriving DecidableEq

/-- `serde::DEnt`, the union in its field `type`. -/
inductive DEnt
  | none
  | hardLink (hardLink : HardLink)
  | dir (dir : Dir)
  deriving DecidableEq

/-! ### Objects -/

/-- `serde::DirT`, with the values its members start with. -/
structure DirT where
  parentId : UInt64 := 0
  name : Bytes := []
  id : UInt64 := 0
  acl : Option Acl := .none
  ctimeInNs : Int64 := 0

/-- `serde::FileT`. -/
structure FileT where
  id : UInt64 := 0
  acl : Option Acl := .none
  ctimeInNs : Int64 := 0

/-- `serde::HardLinkT`. -/
structure HardLinkT where
  parentId : UInt64 := 0
  name : Bytes := []
  id : UInt64 := 0

/-- A string field: `CreateString` is not called for an empty one. -/
def packString (text : Bytes) : Option Bytes := if text.isEmpty then .none else some text

theorem packString_of_ne_nil {text : Bytes} (h : text ≠ []) : packString text = some text := by
  simp [packString, h]

def DirT.pack (o : DirT) : Dir := ⟨o.parentId, packString o.name, o.id, o.acl, o.ctimeInNs⟩

def FileT.pack (o : FileT) : File := ⟨o.id, o.acl, o.ctimeInNs⟩

def HardLinkT.pack (o : HardLinkT) : HardLink := ⟨o.parentId, packString o.name, o.id⟩

end Fb

/-- The wire format: how a table is finished into a buffer, and what the verifier
and `GetRoot` make of a buffer, `none` when it does not verify. -/
structure FlatBuffers where
  finishInode : Fb.Inode → Bytes
  getInode : Bytes → Option Fb.Inode
  getInode_finish : ∀ inode, getInode (finishInode inode) = some inode
  finishDEnt : Fb.DEnt → Bytes
  getDEnt : Bytes → Option Fb.DEnt
  getDEnt_finish : ∀ dent, getDEnt (finishDEnt dent) = some dent

/-! ### A format

Numbers are big-endian, an optional part is preceded by a byte that says whether
it is there, and a string comes last. -/

namespace FlatBuffers

/-- Read a number of a given width. -/
def readNat (width : ℕ) (bs : Bytes) : Option (ℕ × Bytes) :=
  if width ≤ bs.length then some (ofBigEndian (bs.take width), bs.drop width) else none

theorem readNat_append {width n : ℕ} (h : n < 256 ^ width) (rest : Bytes) :
    readNat width (bigEndian width n ++ rest) = some (n, rest) := by
  rw [readNat, if_pos (by simp)]
  rw [List.take_left' (length_bigEndian width n), List.drop_left' (length_bigEndian width n),
    ofBigEndian_bigEndian h]

/-- A 64-bit number. -/
def u64 (n : UInt64) : Bytes := bigEndian 8 n.toNat

def readU64 (bs : Bytes) : Option (UInt64 × Bytes) :=
  (readNat 8 bs).map fun p => (UInt64.ofNat p.1, p.2)

theorem readU64_append (n : UInt64) (rest : Bytes) : readU64 (u64 n ++ rest) = some (n, rest) := by
  rw [readU64, u64, readNat_append n.toNat_lt, Option.map_some, UInt64.ofNat_toNat]

/-- An optional access control list. -/
def acl : Option Acl → Bytes
  | none => [0]
  | some a => 1 :: (u64 a.uid.toUInt64 ++ u64 a.gid.toUInt64 ++ u64 a.perm)

def readAcl : Bytes → Option (Option Acl × Bytes)
  | [] => none
  | flag :: bs =>
    if flag = 0 then some (none, bs)
    else do
      let (uid, bs) ← readU64 bs
      let (gid, bs) ← readU64 bs
      let (perm, bs) ← readU64 bs
      return (some ⟨uid.toUInt32, gid.toUInt32, perm⟩, bs)

theorem readAcl_append (a : Option Acl) (rest : Bytes) :
    readAcl (acl a ++ rest) = some (a, rest) := by
  cases a with
  | none => rfl
  | some a => simp [acl, readAcl, readU64_append]

/-- An optional string, up to the end of the buffer. -/
def text : Option Bytes → Bytes
  | none => []
  | some t => 1 :: t

def readText : Bytes → Option Bytes
  | [] => none
  | _ :: t => some t

theorem readText_text (t : Option Bytes) : readText (text t) = t := by
  cases t <;> rfl

def dir (d : Fb.Dir) : Bytes :=
  u64 d.parentId ++ (u64 d.id ++ (u64 d.ctimeInNs.toUInt64 ++ (acl d.acl ++ text d.name)))

def readDir (bs : Bytes) : Option Fb.Dir := do
  let (parentId, bs) ← readU64 bs
  let (id, bs) ← readU64 bs
  let (ctime, bs) ← readU64 bs
  let (acl, bs) ← readAcl bs
  return ⟨parentId, readText bs, id, acl, ctime.toInt64⟩

theorem readDir_dir (d : Fb.Dir) : readDir (dir d) = some d := by
  simp [dir, readDir, readU64_append, readAcl_append, readText_text]

def file (f : Fb.File) : Bytes := u64 f.id ++ (u64 f.ctimeInNs.toUInt64 ++ acl f.acl)

def readFile (bs : Bytes) : Option Fb.File := do
  let (id, bs) ← readU64 bs
  let (ctime, bs) ← readU64 bs
  let (acl, _) ← readAcl bs
  return ⟨id, acl, ctime.toInt64⟩

theorem readFile_file (f : Fb.File) : readFile (file f) = some f := by
  have hacl : readAcl (acl f.acl) = some (f.acl, []) := by
    simpa using readAcl_append f.acl []
  simp [file, readFile, readU64_append, hacl]

/-- A format that satisfies the law. -/
def sample : FlatBuffers where
  finishInode
    | .none => [0]
    | .file f => 1 :: file f
    | .dir d => 2 :: dir d
  getInode
    | [] => none
    | tag :: bs =>
      if tag = 0 then some .none
      else if tag = 1 then (readFile bs).map .file
      else (readDir bs).map .dir
  getInode_finish inode := by
    cases inode with
    | none => rfl
    | file f => simp [readFile_file]
    | dir d => simp [readDir_dir]
  finishDEnt
    | .none => [0]
    | .hardLink l => 1 :: (u64 l.parentId ++ (u64 l.id ++ text l.name))
    | .dir d => 2 :: dir d
  getDEnt
    | [] => none
    | tag :: bs =>
      if tag = 0 then some .none
      else if tag = 1 then do
        let (parentId, bs) ← readU64 bs
        let (id, bs) ← readU64 bs
        return .hardLink ⟨parentId, readText bs, id⟩
      else (readDir bs).map .dir
  getDEnt_finish dent := by
    cases dent with
    | none => rfl
    | hardLink l => simp [readU64_append, readText_text]
    | dir d => simp [readDir_dir]

end FlatBuffers

end RocketFS
