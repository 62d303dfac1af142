import BitMRC.Utils.UString
import Mathlib.Data.List.FinRange
import Mathlib.Logic.Function.Basic

/-!
# `template<typename T> class hash_table`

A table of `Dim` chains.  `insert` compares contents, not hashes, and only
inside the chain that the hash selects; its return code tells an empty chain
(1), a duplicate (0) and a collision (2) apart.
-/

namespace BitMRC

/-- `Dim`. -/
def dim : Nat := 100771

theorem dim_pos : 0 < dim := by decide

/-! ## `hash_f` -/

/-- `c[k] * 256^k` summed over signed characters. -/
def charSum : UString → Int
  | [] => 0
  | byte :: rest => byte.toInt8.toInt + 256 * charSum rest

/-- The sum that `hash_f` builds up, starting with `c` in its local buffer. -/
def hashSum (c : UString) : UString → Int
  | b0 :: b1 :: b2 :: b3 :: rest =>
      let copied := (strncpy [b0, b1, b2, b3] 4).toUString
      charSum copied + hashSum copied rest
  | rest => charSum ((strcpy c rest).take rest.length)

/-- `hash_f`; `c` is what its uninitialised local buffer holds on entry. -/
def hashF (c : UString) (hash : UString) : Fin dim :=
  ⟨(hashSum c hash).natAbs % dim, Nat.mod_lt _ dim_pos⟩

/-- From four bytes on the initial contents of the buffer do not matter. -/
theorem hashF_of_four_le {hash : UString} (long : 4 ≤ hash.length) (c c' : UString) :
    hashF c hash = hashF c' hash := by
  match hash, long with
  | _ :: _ :: _ :: _ :: _, _ => rfl

/-! ## The table -/

/-- `linked_node`, without its `next` pointer. -/
structure LinkedNode (T : Type) where
  hash : UString
  info : T
  deriving DecidableEq

/-- The chains, each from its first node on. -/
structure HashTable (T : Type) where
  table : Fin dim → List (LinkedNode T)

namespace HashTable

variable {T : Type}

/-- `hash_table()`. -/
def empty : HashTable T where
  table := fun _ => []

/-- A node linked behind the last one of a chain. -/
def append (self : HashTable T) (i : Fin dim) (node : LinkedNode T) : HashTable T where
  table := Function.update self.table i (self.table i ++ [node])

/-- The walk of `insert` along a chain that is not empty: 0 or 2. -/
def walk [DecidableEq T] (info : T) : LinkedNode T → List (LinkedNode T) → Int
  | cur, [] => if cur.info = info then 0 else 2
  | cur, next :: rest => if cur.info = info then 0 else walk info next rest

/-- `insert`, with any function from hashes to chains in the place of `hash_f`. -/
def insertBy [DecidableEq T] (self : HashTable T) (hash_f : UString → Fin dim) (info : T)
    (hash : UString) : Int × HashTable T :=
  let i := hash_f hash
  match self.table i with
  | [] => (1, self.append i ⟨hash, info⟩)
  | cur :: rest =>
      if walk info cur rest = 0 then (0, self) else (2, self.append i ⟨hash, info⟩)

/-- `present`, with any such function. -/
def presentBy (self : HashTable T) (hash_f : UString → Fin dim) (hash : UString) : Bool :=
  (self.table (hash_f hash)).any (·.hash = hash)

/-- `searchByHash`, with any such function; a default value when there is no such node. -/
def searchBy (self : HashTable T) (hash_f : UString → Fin dim) (default : T) (hash : UString) : T :=
  match (self.table (hash_f hash)).find? (·.hash = hash) with
  | some cur => cur.info
  | none => default

def insert [DecidableEq T] (self : HashTable T) (c : UString) (info : T) (hash : UString) :
    Int × HashTable T :=
  self.insertBy (hashF c) info hash

def present (self : HashTable T) (c hash : UString) : Bool :=
  self.presentBy (hashF c) hash

def searchByHash (self : HashTable T) (default : T) (c hash : UString) : T :=
  self.searchBy (hashF c) default hash

/-- All nodes, chain by chain. -/
def toList (self : HashTable T) : List (LinkedNode T) := (List.finRange dim).flatMap self.table

theorem eq_empty_of_toList {self : HashTable T} (none : self.toList = []) : self = empty := by
  obtain ⟨table⟩ := self
  rw [empty, mk.injEq]
  funext i
  exact List.flatMap_eq_nil_iff.mp none i (List.mem_finRange i)

/-- Some chain has a node with this content. -/
def Stored (self : HashTable T) (info : T) : Prop :=
  ∃ i, ∃ node ∈ self.table i, node.info = info

/-! ## What one insertion does -/

theorem append_table_self (self : HashTable T) (i : Fin dim) (node : LinkedNode T) :
    (self.append i node).table i = self.table i ++ [node] := by
  simp [append]

theorem append_table_of_ne (self : HashTable T) {i other : Fin dim} (node : LinkedNode T)
    (different : other ≠ i) : (self.append i node).table other = self.table other := by
  simp [append, different]

theorem mem_append {self : HashTable T} {i other : Fin dim} {node found : LinkedNode T} :
    found ∈ (self.append i node).table other ↔
      found ∈ self.table other ∨ other = i ∧ found = node := by
  by_cases same : other = i
  · subst same
    simp [append_table_self]
  · simp [append_table_of_ne self node same, same]

section Insert

variable [DecidableEq T]

theorem walk_eq_zero_iff (info : T) (cur : LinkedNode T) (rest : List (LinkedNode T)) :
    walk info cur rest = 0 ↔ ∃ node ∈ cur :: rest, node.info = info := by
  induction rest generalizing cur with
  | nil => simp [walk]
  | cons next rest ih =>
      by_cases same : cur.info = info
      · simp [walk, same]
      · rw [walk, if_neg same, ih]
        simp [same]

variable (self : HashTable T) (c : UString) (info : T) (hash : UString)

/-- The three outcomes of an insertion, whatever picks the chain. -/
theorem insertBy_cases (hash_f : UString → Fin dim) :
    (self.table (hash_f hash) = [] ∧
      self.insertBy hash_f info hash = (1, self.append (hash_f hash) ⟨hash, info⟩)) ∨
    ((∃ node ∈ self.table (hash_f hash), node.info = info) ∧
      self.insertBy hash_f info hash = (0, self)) ∨
    (self.table (hash_f hash) ≠ [] ∧
      (∀ node ∈ self.table (hash_f hash), node.info ≠ info) ∧
      self.insertBy hash_f info hash = (2, self.append (hash_f hash) ⟨hash, info⟩)) := by
  cases chain : self.table (hash_f hash) with
  | nil => exact .inl ⟨rfl, by simp [insertBy, chain]⟩
  | cons cur rest =>
      by_cases found : walk info cur rest = 0
      · exact .inr (.inl ⟨(walk_eq_zero_iff info cur rest).mp found,
          by simp [insertBy, chain, found]⟩)
      · refine .inr (.inr ⟨by simp, ?_, by simp [insertBy, chain, found]⟩)
        intro node member equal
        exact found ((walk_eq_zero_iff info cur rest).mpr ⟨node, member, equal⟩)

/-- The three outcomes of `insert`. -/
theorem insert_cases :
    (self.table (hashF c hash) = [] ∧
      self.insert c info hash = (1, self.append (hashF c hash) ⟨hash, info⟩)) ∨
    ((∃ node ∈ self.table (hashF c hash), node.info = info) ∧
      self.insert c info hash = (0, self)) ∨
    (self.table (hashF c hash) ≠ [] ∧
      (∀ node ∈ self.table (hashF c hash), node.info ≠ info) ∧
      self.insert c info hash = (2, self.append (hashF c hash) ⟨hash, info⟩)) :=
  insertBy_cases self info hash (hashF c)

theorem insert_of_empty (empty : self.table (hashF c hash) = []) :
    self.insert c info hash = (1, self.append (hashF c hash) ⟨hash, info⟩) := by
  rcases insert_cases self c info hash with ⟨_, result⟩ | ⟨⟨node, member, _⟩, _⟩ |
    ⟨occupied, _⟩
  · exact result
  · rw [empty] at member
    exact absurd member List.not_mem_nil
  · exact absurd empty occupied

theorem insert_of_absent (absent : ∀ node ∈ self.table (hashF c hash), node.info ≠ info) :
    (self.insert c info hash).2 = self.append (hashF c hash) ⟨hash, info⟩ := by
  rcases insert_cases self c info hash with ⟨_, result⟩ | ⟨⟨node, member, equal⟩, _⟩ |
    ⟨_, _, result⟩
  · rw [result]
  · exact absurd equal (absent node member)
  · rw [result]

/-- Every content handed to `insert` is stored in the chain of its hash
afterwards. -/
theorem exists_mem_insert :
    ∃ node ∈ ((self.insert c info hash).2).table (hashF c hash), node.info = info := by
  rcases insert_cases self c info hash with ⟨_, result⟩ | ⟨present, result⟩ | ⟨_, _, result⟩
  · exact ⟨⟨hash, info⟩, by simp [result, mem_append], rfl⟩
  · simpa [result] using present
  · exact ⟨⟨hash, info⟩, by simp [result, mem_append], rfl⟩

/-- Insertion only ever adds the node it was asked to add. -/
theorem mem_insert {i : Fin dim} {node : LinkedNode T}
    (member : node ∈ ((self.insert c info hash).2).table i) :
    node ∈ self.table i ∨ i = hashF c hash ∧ node = ⟨hash, info⟩ := by
  rcases insert_cases self c info hash with ⟨_, result⟩ | ⟨_, result⟩ | ⟨_, _, result⟩
  · exact mem_append.mp (by simpa [result] using member)
  · exact .inl (by simpa [result] using member)
  · exact mem_append.mp (by simpa [result] using member)

/-- `insert` loses no node. -/
theorem mem_insert_of_mem {i : Fin dim} {node : LinkedNode T} (member : node ∈ self.table i) :
    node ∈ ((self.insert c info hash).2).table i := by
  rcases insert_cases self c info hash with ⟨_, result⟩ | ⟨_, result⟩ | ⟨_, _, result⟩
  · simp [result, mem_append, member]
  · simpa [result] using member
  · simp [result, mem_append, member]

/-! ## Inserting many nodes -/

/-- Insert nodes under the hashes they carry. -/
def insertAll (c : UString) (self : HashTable T) (nodes : List (LinkedNode T)) : HashTable T :=
  nodes.foldl (fun table node => (table.insert c node.info node.hash).2) self

/-- Nodes with different contents go to the ends of their chains, in order. -/
theorem insertAll_table (nodes : List (LinkedNode T)) (different : ∀ i,
      ((self.table i ++ nodes.filter (hashF c ·.hash = i)).map LinkedNode.info).Nodup)
    (i : Fin dim) :
    (self.insertAll c nodes).table i = self.table i ++ nodes.filter (hashF c ·.hash = i) := by
  induction nodes generalizing self with
  | nil => simp [insertAll]
  | cons node rest ih =>
      have chain : ∀ i, (self.append (hashF c node.hash) node).table i ++
          rest.filter (hashF c ·.hash = i) =
            self.table i ++ (node :: rest).filter (hashF c ·.hash = i) := by
        intro i
        by_cases same : hashF c node.hash = i
        · subst same
          simp [append_table_self]
        · simp [append_table_of_ne self node (Ne.symm same), same]
      have absent : ∀ other ∈ self.table (hashF c node.hash), other.info ≠ node.info := by
        intro other member equal
        have infos := different (hashF c node.hash)
        rw [List.map_append] at infos
        apply List.disjoint_of_nodup_append infos (List.mem_map_of_mem member)
        rw [equal]
        exact List.mem_map_of_mem (by simp)
      have inserted := insert_of_absent self c node.info node.hash absent
      have rest := ih (self.append (hashF c node.hash) node) fun i => by
        rw [chain i]
        exact different i
      rw [chain i] at rest
      rw [← rest, insertAll, List.foldl_cons, inserted]
      rfl

end Insert

/-- Nodes that come chain by chain are the ones of the first chain, then the ones of
the next, and so on. -/
theorem flatMap_filter {chain : LinkedNode T → Fin dim} {table : Fin dim → List (LinkedNode T)}
    (chains : ∀ i, ∀ node ∈ table i, chain node = i) {order : List (Fin dim)}
    (once : order.Nodup) {nodes : List (LinkedNode T)}
    (inside : nodes.Sublist (order.flatMap table)) :
    (order.flatMap fun i => nodes.filter (chain · = i)) = nodes := by
  induction order generalizing nodes with
  | nil => exact (List.sublist_nil.mp inside).symm
  | cons first order ih =>
      obtain ⟨fresh, once⟩ := List.nodup_cons.mp once
      rw [List.flatMap_cons] at inside
      obtain ⟨head, tail, rfl, inHead, inTail⟩ := List.sublist_append_iff.mp inside
      have headChain : ∀ node ∈ head, chain node = first := fun node member =>
        chains first node (inHead.subset member)
      have tailChain : ∀ node ∈ tail, chain node ∈ order := by
        intro node member
        obtain ⟨i, listed, found⟩ := List.mem_flatMap.mp (inTail.subset member)
        rw [chains i node found]
        exact listed
      have atFirst : (head ++ tail).filter (chain · = first) = head := by
        rw [List.filter_append, List.filter_eq_self.mpr, List.filter_eq_nil_iff.mpr,
          List.append_nil]
        · intro node member
          simp only [decide_eq_true_eq]
          rintro rfl
          exact fresh (tailChain node member)
        · intro node member
          simp [headChain node member]
      have later : ∀ i ∈ order, (head ++ tail).filter (chain · = i) =
          tail.filter (chain · = i) := by
        intro i listed
        rw [List.filter_append, List.filter_eq_nil_iff.mpr, List.nil_append]
        intro node member
        simp only [decide_eq_true_eq, headChain node member]
        rintro rfl
        exact fresh listed
      rw [List.flatMap_cons, atFirst, List.flatMap_congr later, ih once inTail]

/-- The nodes of one chain among those of several. -/
theorem filter_flatMap {chain : LinkedNode T → Fin dim} {table : Fin dim → List (LinkedNode T)}
    (chains : ∀ i, ∀ node ∈ table i, chain node = i) {order : List (Fin dim)}
    (once : order.Nodup) (i : Fin dim) :
    (order.flatMap table).filter (chain · = i) = if i ∈ order then table i else [] := by
  induction order with
  | nil => rfl
  | cons first order ih =>
      obtain ⟨fresh, once⟩ := List.nodup_cons.mp once
      rw [List.flatMap_cons, List.filter_append, ih once]
      by_cases here : first = i
      · subst here
        rw [if_neg fresh, if_pos List.mem_cons_self, List.append_nil, List.filter_eq_self]
        intro node member
        simp [chains first node member]
      · have nodes : (table first).filter (chain · = i) = [] := by
          rw [List.filter_eq_nil_iff]
          intro node member
          simp [chains first node member, here]
        simp [nodes, Ne.symm here]

/-- Some of the nodes of a table, in order, make a table of just these nodes. -/
theorem toList_insertAll [DecidableEq T] {self : HashTable T} {c : UString}
    (chains : ∀ i, ∀ node ∈ self.table i, hashF c node.hash = i)
    (distinct : ∀ i, ((self.table i).map LinkedNode.info).Nodup) {nodes : List (LinkedNode T)}
    (some : nodes.Sublist self.toList) : (empty.insertAll c nodes).toList = nodes := by
  have different : ∀ i, (((empty : HashTable T).table i ++
      nodes.filter (hashF c ·.hash = i)).map LinkedNode.info).Nodup := by
    intro i
    have part : (nodes.filter (hashF c ·.hash = i)).Sublist (self.table i) := by
      have filtered := some.filter fun node => hashF c node.hash = i
      rwa [toList, filter_flatMap chains (List.nodup_finRange dim), if_pos (List.mem_finRange i)]
        at filtered
    exact (part.map LinkedNode.info).nodup (distinct i)
  have table : (empty.insertAll c nodes).table = fun i => nodes.filter (hashF c ·.hash = i) :=
    funext fun i => insertAll_table empty c nodes different i
  rw [toList, table]
  exact flatMap_filter chains (List.nodup_finRange dim) some

end HashTable

end BitMRC
