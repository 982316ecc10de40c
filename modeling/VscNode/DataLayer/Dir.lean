import VscNode.Lib.Bytes
import VscNode.Lib.SortedMap
import VscNode.Lib.Text

/-!
# Directories of contract state

The state of a contract is kept in a directory of the content store
(`lib/datalayer/dir.go`). `DataBin` is its reader and writer: a key is cut at the
slashes, the pieces before the last one name directories, and those are held a
second time in memory as leaves. The leaves are written into the directory only
when the bin is saved (`compact`), and a bin is loaded again from the id of its
root (`loadLeafFromCid`).

The directory of the content store is taken as it is specified: a map from names
to links whose id depends on the links only. `onMap` is what the bin is used as,
a map from key strings to links, and `behavesAsMap_iff` says for which keys it is
one.
-/

namespace VscNode.DataLayer

/-- A content id. What it names is determined by it, so the id of a value is the value and the
id of a directory is its links in order of their names. -/
inductive Cid
  | value (raw : Bytes)
  | dir (links : List (String × Cid))

/-- The codec of an id: values are stored raw, directories as `dag-pb` nodes. -/
def Cid.codec : Cid → ℕ
  | .value _ => 0x55
  | .dir _ => 0x70

def multicodecProtobuf : ℕ := 0x50

/-- What can be read of the blocks: the block of an id, and all links of a directory, which may
lie in blocks of their own. -/
structure BlockStore where
  (node links : Cid → Bool)

/-- A directory with the directories in it that are held in memory. -/
inductive LeafDir
  | mk (dir : SortedMap String Cid) (leaves : List (String × LeafDir))

namespace LeafDir

def dir : LeafDir → SortedMap String Cid
  | mk dir _ => dir

def leaves : LeafDir → List (String × LeafDir)
  | mk _ leaves => leaves

def empty : LeafDir := mk .empty []

/-- The id of the directory as it is serialized. -/
def node (lf : LeafDir) : Cid := .dir lf.dir.entries

mutual

/-- The leaves are applied to the directory, those of the leaves first. -/
def compact : LeafDir → LeafDir
  | mk dir leaves =>
    let leaves' := compactLeaves leaves
    mk (leaves'.foldl (fun d leaf => d.insert leaf.1 leaf.2.node) dir) leaves'

def compactLeaves : List (String × LeafDir) → List (String × LeafDir)
  | [] => []
  | (name, leaf) :: rest => (name, leaf.compact) :: compactLeaves rest

end

def resolve : LeafDir → List String → Option LeafDir
  | lf, [] => some lf
  | lf, seg :: path =>
    if seg = "" then some lf
    else (lf.leaves.lookup seg).bind fun next => next.resolve path

def modify (f : LeafDir → LeafDir) : List String → LeafDir → Option LeafDir
  | [], lf => some (f lf)
  | seg :: path, lf =>
    if seg = "" then some (f lf)
    else (lf.leaves.lookup seg).bind fun next =>
      (modify f path next).map fun next' => mk lf.dir (insertEntry seg next' lf.leaves)

def setPath (link : Cid) : List String → LeafDir → LeafDir
  | [], lf => lf
  | [name], lf => mk (lf.dir.insert name link) lf.leaves
  | seg :: path, lf =>
    mk lf.dir (insertEntry seg (setPath link path ((lf.leaves.lookup seg).getD empty)) lf.leaves)

variable (store : BlockStore)

mutual

/-- A directory read from its blocks, with the directories in it. -/
def loadLeafFromCid : Cid → Option LeafDir
  | .value _ => none
  | .dir links =>
    if store.node (.dir links) && store.links (.dir links) then
      some (mk (.ofList links) (loadLeaves links))
    else none

def loadLeaves : List (String × Cid) → List (String × LeafDir)
  | [] => []
  | (name, cid) :: rest =>
    if cid.codec = multicodecProtobuf then
      (name, (loadLeafFromCid cid).getD empty) :: loadLeaves rest
    else loadLeaves rest

end

/-- The loader of the local view: what cannot be read is an empty directory. The full data layer
retries instead, so there it returns what a store that can be read gives. -/
def newLeafFromCid (cid : Cid) : LeafDir := (loadLeafFromCid store cid).getD empty

theorem loadLeaves_eq_nil (links : List (String × Cid)) : loadLeaves store links = [] := by
  induction links with
  | nil => rfl
  | cons link links ih =>
    obtain ⟨name, cid⟩ := link
    cases cid <;> simpa [loadLeaves, Cid.codec, multicodecProtobuf] using ih

end LeafDir

/-! ## The bin -/

inductive ReadError
  | notExist | unreadable
  deriving DecidableEq

structure DataBin where
  leaf : LeafDir

namespace DataBin

variable (bin : DataBin) (path : String)

def splitPath : List String := Text.fields '/' path

/-- The pieces before the last one, joined again. -/
def parentPath : String := "/".intercalate (splitPath path).dropLast

def endPath : String := (splitPath path).getLastD ""

def empty : DataBin := ⟨.empty⟩

/-- `NewDataBinFromCid`. -/
def load (store : BlockStore) (cid : Cid) : DataBin := ⟨.newLeafFromCid store cid⟩

def resolveWrkDir : Option LeafDir :=
  bin.leaf.resolve (splitPath path)

def get (store : BlockStore) (bin : DataBin) (path : String) : Except ReadError Cid :=
  match bin.resolveWrkDir (parentPath path) with
  | none => .error .notExist
  | some wrkDir =>
    if (wrkDir.leaves.lookup (endPath path)).isSome then .error .notExist
    else
      match wrkDir.dir.get? (endPath path) with
      | none => .error .notExist
      | some cid => if store.node cid then .ok cid else .error .unreadable

def set (link : Cid) : DataBin :=
  ⟨bin.leaf.setPath link (splitPath path)⟩

/-- A path that does not resolve is left alone. -/
def delete : DataBin :=
  let remove (wrkDir : LeafDir) : LeafDir :=
    .mk (wrkDir.dir.erase (endPath path)) (wrkDir.leaves.filter fun l => l.1 ≠ endPath path)
  match bin.leaf.modify remove (splitPath (parentPath path)) with
  | none => bin
  | some leaf => ⟨leaf⟩

/-- The leaves written into their directories, as `Cid` and `Save` do it. -/
def compact (bin : DataBin) : DataBin := ⟨bin.leaf.compact⟩

/-- The id of the root. -/
def cid : Cid := bin.leaf.compact.node

end DataBin

/-! ## Runs -/

inductive BinOp
  | set (key : String) (link : Cid)
  | delete (key : String)
  | save | reload

namespace BinOp

def key? : BinOp → Option String
  | set key _ => some key
  | delete key => some key
  | save => none
  | reload => none

/-- A store from which everything can be read. -/
def allHeld : BlockStore := ⟨fun _ => true, fun _ => true⟩

def apply (bin : DataBin) : BinOp → DataBin
  | set key link => bin.set key link
  | delete key => bin.delete key
  | save => bin.compact
  | reload => .load allHeld bin.cid

def onMap (m : String → Option Cid) : BinOp → String → Option Cid
  | set key link => Function.update m key (some link)
  | delete key => Function.update m key none
  | save => m
  | reload => m

end BinOp

variable (K : Set String) (ops : List BinOp)

def runBin : DataBin := ops.foldl BinOp.apply .empty

def runMap : String → Option Cid := ops.foldl BinOp.onMap fun _ => none

/-- Every key the run sets or deletes is one of `K`. -/
def KeysIn : Prop :=
  ∀ op ∈ ops, ∀ key, op.key? = some key → key ∈ K

def BehavesAsMap : Prop :=
  ∀ ops, KeysIn K ops → (∀ key ∈ K, (runBin ops).get BinOp.allHeld key =
      match runMap ops key with
      | some link => .ok link
      | none => .error .notExist) ∧
    ∀ ops', KeysIn K ops' → runMap ops = runMap ops' → (runBin ops).cid = (runBin ops').cid

/-! ## Keys without a slash -/

namespace DataBin

variable {key : String}

section

variable (h : Text.Free '/' key)
include h

theorem splitPath_of_free : splitPath key = [key] :=
  Text.fields_of_free h

theorem parentPath_of_free : parentPath key = "" := by
  rw [parentPath, splitPath_of_free h]
  rfl

theorem endPath_of_free : endPath key = key := by
  rw [endPath, splitPath_of_free h]
  rfl

end

theorem get_mk_nil (hkey : Text.Free '/' key) (store : BlockStore) (dir : SortedMap String Cid) :
    DataBin.get store ⟨.mk dir []⟩ key =
      match dir.get? key with
      | none => .error .notExist
      | some cid => if store.node cid then .ok cid else .error .unreadable := by
  have hroot : resolveWrkDir ⟨.mk dir []⟩ "" = some (.mk dir []) := rfl
  rw [DataBin.get, parentPath_of_free hkey, hroot, endPath_of_free hkey]
  rfl

variable {links : List (String × Cid)} {store : BlockStore}

theorem load_of_held (hnode : store.node (.dir links) = true)
    (hlinks : store.links (.dir links) = true) :
    DataBin.load store (.dir links) = ⟨.mk (.ofList links) []⟩ := by
  rw [DataBin.load, LeafDir.newLeafFromCid, LeafDir.loadLeafFromCid, hnode, hlinks,
    LeafDir.loadLeaves_eq_nil]
  rfl

theorem load_of_not_held (h : (store.node (.dir links) && store.links (.dir links)) = false) :
    DataBin.load store (.dir links) = .empty := by
  rw [DataBin.load, LeafDir.newLeafFromCid, LeafDir.loadLeafFromCid, h]
  rfl

structure Holds (m : String → Option Cid) (bin : DataBin) : Prop where
  leaves : bin.leaf.leaves = []
  dir : ∀ name, bin.leaf.dir.get? name = m name

variable {m : String → Option Cid} {bin : DataBin}

section

variable (h : Holds m bin)
include h

theorem Holds.exists_dir : ∃ dir, bin = ⟨.mk dir []⟩ ∧ ∀ name, dir.get? name = m name := by
  obtain ⟨dir, leaves⟩ := bin
  obtain rfl : leaves = [] := h.leaves
  exact ⟨dir, rfl, h.dir⟩

theorem Holds.cid : bin.cid = .dir bin.leaf.dir.entries := by
  obtain ⟨dir, rfl, -⟩ := h.exists_dir
  rfl

theorem Holds.get (hkey : Text.Free '/' key) :
    bin.get BinOp.allHeld key =
      match m key with
      | some link => .ok link
      | none => .error .notExist := by
  obtain ⟨dir, rfl, hdir⟩ := h.exists_dir
  rw [get_mk_nil hkey, hdir]
  cases m key <;> rfl

theorem Holds.apply {op : BinOp} (hop : ∀ key, op.key? = some key → Text.Free '/' key) :
    Holds (op.onMap m) (op.apply bin) := by
  obtain ⟨dir, rfl, hdir⟩ := h.exists_dir
  cases op with
  | set key link =>
    have hkey := hop key rfl
    refine ⟨?_, fun name => ?_⟩
    · rw [BinOp.apply, DataBin.set, splitPath_of_free hkey]
      rfl
    rw [BinOp.apply, DataBin.set, splitPath_of_free hkey, BinOp.onMap, Function.update_apply,
      ← hdir]
    exact SortedMap.get?_insert dir key link name
  | delete key =>
    have hkey := hop key rfl
    have hdelete : DataBin.delete ⟨.mk dir []⟩ key = ⟨.mk (dir.erase key) []⟩ := by
      rw [DataBin.delete, parentPath_of_free hkey, endPath_of_free hkey]
      rfl
    refine ⟨?_, fun name => ?_⟩
    · rw [BinOp.apply, hdelete]
      rfl
    · rw [BinOp.apply, hdelete, BinOp.onMap, Function.update_apply, ← hdir]
      exact SortedMap.get?_erase dir key name
  | save => exact ⟨rfl, hdir⟩
  | reload =>
    have hload : DataBin.load BinOp.allHeld (DataBin.cid ⟨.mk dir []⟩) = ⟨.mk dir []⟩ := by
      rw [h.cid, load_of_held rfl rfl]
      simp [LeafDir.dir]
    exact ⟨by rw [BinOp.apply, hload]; rfl, fun name => by rw [BinOp.apply, hload]; exact hdir name⟩

end

end DataBin

open DataBin in
theorem holds_run {ops : List BinOp} {K : Set String} (hK : ∀ key ∈ K, Text.Free '/' key)
    (hops : KeysIn K ops) : Holds (runMap ops) (runBin ops) := by
  induction ops using List.reverseRecOn with
  | nil => exact ⟨rfl, fun _ => rfl⟩
  | append_singleton ops op ih =>
    have hprev := ih fun op' hop' => hops op' (List.mem_append_left _ hop')
    have hstep := hprev.apply fun key hkey =>
      hK key (hops op (List.mem_append_right _ (List.mem_singleton_self op)) key hkey)
    simpa [runMap, runBin] using hstep

/-! ## Keys with a slash -/

namespace DataBin

variable {key : String}

theorem splitPath_of_not_free (h : ¬ Text.Free '/' key) :
    ∃ seg name path, splitPath key = seg :: name :: path := by
  obtain ⟨a, b, hkey⟩ := List.append_of_mem (not_not.1 h)
  have hsplit : splitPath key =
      (Text.split '/' a).map String.ofList ++ (Text.split '/' b).map String.ofList := by
    rw [splitPath, Text.fields, hkey, Text.split_append_cons, List.map_append]
  obtain ⟨seg, segs, hseg⟩ := List.exists_cons_of_ne_nil (Text.split_ne_nil '/' a)
  obtain ⟨name, names, hname⟩ := List.exists_cons_of_ne_nil (Text.split_ne_nil '/' b)
  rw [hseg, hname, List.map_cons, List.map_cons] at hsplit
  cases segs with
  | nil => exact ⟨_, _, _, hsplit⟩
  | cons seg' segs => exact ⟨_, _, _, hsplit⟩

/-- From a directory without leaves a path leads nowhere else. -/
theorem resolve_mk_nil (dir : SortedMap String Cid) (path : List String) :
    (LeafDir.mk dir []).resolve path = none ∨
      (LeafDir.mk dir []).resolve path = some (.mk dir []) := by
  cases path with
  | nil => exact .inr rfl
  | cons seg path =>
    rw [LeafDir.resolve]
    split
    · exact .inr rfl
    · exact .inl rfl

theorem get_reload_ne (h : ¬ Text.Free '/' key) (raw : Bytes) :
    (runBin [.set key (.value raw), .reload]).get BinOp.allHeld key ≠ .ok (.value raw) := by
  obtain ⟨seg, name, path, hsplit⟩ := splitPath_of_not_free h
  obtain ⟨links, hroot⟩ : ∃ links,
      (DataBin.empty.set key (.value raw)).cid = .dir [(seg, .dir links)] := by
    rw [DataBin.set, hsplit]
    exact ⟨_, rfl⟩
  have hload : runBin [.set key (.value raw), .reload] =
      ⟨.mk (.ofList [(seg, .dir links)]) []⟩ := by
    rw [runBin, List.foldl_cons, List.foldl_cons, List.foldl_nil, BinOp.apply, BinOp.apply, hroot,
      load_of_held rfl rfl]
  rw [hload, DataBin.get]
  obtain hres | hres := resolve_mk_nil (.ofList [(seg, .dir links)]) (splitPath (parentPath key))
  · rw [resolveWrkDir, hres]
    simp
  rw [resolveWrkDir, hres]
  simp only [LeafDir.leaves, LeafDir.dir, List.lookup_nil, Option.isSome_none, Bool.false_eq_true,
    if_false, SortedMap.get?_ofList, lookup_cons_eq_ite, BinOp.allHeld, if_true]
  split
  · simp
  next cid hcid =>
    split at hcid
    · cases hcid
      simp
    · cases hcid

end DataBin

/-- The bin is a map for exactly the keys without a slash. -/
theorem behavesAsMap_iff (K : Set String) : BehavesAsMap K ↔ ∀ key ∈ K, Text.Free '/' key := by
  constructor
  · intro hmap key hkey
    by_contra hfree
    have hkeys : KeysIn K [.set key (.value []), .reload] := by
      simp [KeysIn, BinOp.key?, hkey]
    apply DataBin.get_reload_ne hfree []
    rw [(hmap _ hkeys).1 key hkey]
    simp [runMap, BinOp.onMap]
  intro hfree ops hops
  have hbin := holds_run hfree hops
  refine ⟨fun key hkey => hbin.get (hfree key hkey), fun ops' hops' heq => ?_⟩
  have hbin' := holds_run hfree hops'
  have hdir : (runBin ops).leaf.dir = (runBin ops').leaf.dir :=
    SortedMap.ext_get? fun name => by rw [hbin.dir, hbin'.dir, heq]
  rw [hbin.cid, hbin'.cid, hdir]

/-- A key that was never set reads as another one, a value is gone after a reload, and two runs
that leave no key behind end in different roots. -/
theorem slash_keys : (runBin [.set "b" (.value [1])]).get BinOp.allHeld "/b" = .ok (.value [1]) ∧
    (runBin [.set "a/b" (.value [1]), .reload]).get BinOp.allHeld "a/b" = .error .notExist ∧
    runMap [.set "a/b" (.value [1]), .delete "a/b"] = runMap [] ∧
    (runBin [.set "a/b" (.value [1]), .delete "a/b"]).cid ≠ (runBin []).cid := by
  refine ⟨rfl, rfl, ?_, ?_⟩
  · simp [runMap, BinOp.onMap]
  have hroot : (runBin [.set "a/b" (.value [1]), .delete "a/b"]).cid = .dir [("a", .dir [])] := rfl
  have hempty : (runBin []).cid = .dir [] := rfl
  simp [hroot, hempty]

end VscNode.DataLayer
